import Lehce.Image.Basic
import Lehce.Image.Cbor
import Lehce.Number.Integral
import Mathlib.Tactic.NormNum

/-!
# Faithful codecs

What is asked of a codec for images. It reads back what it wrote, as long as the image keeps to
the bounds that codecs have: on integers, on the length of texts and on the number of items. And
it leaves out the numbers that equal zero, so that the sign of a zero is not written. An image
in which no zero has a sign is read back as it was.
-/

namespace Lehce

/-- Whether a text has a length that a string of an item may have. -/
def Text.IsShort (text : String) : Prop := text.utf8ByteSize < 2 ^ 63

/-- A constant that is read back as it was written. -/
structure StoredValue.Keeps (value : StoredValue) : Prop where
  kind : value.kind < 256
  zero : value.number == 0 → value.number = 0
  text : Text.IsShort value.text

/-- A storage that is read back as it was written. -/
structure StoredStorage.Keeps (storage : StoredStorage) : Prop where
  name : Text.IsShort storage.name
  arity : Number.fitsInt64 storage.arity
  fewConstants : storage.constants.length ≤ Cbor.maxCount
  constants : ∀ value ∈ storage.constants, value.Keeps
  fewLocals : storage.locals.length ≤ Cbor.maxCount
  locals : ∀ name ∈ storage.locals, Text.IsShort name

/-- A function that is read back as it was written. -/
structure StoredFunction.Keeps (function : StoredFunction) : Prop where
  name : Text.IsShort function.name
  entry : Number.fitsInt64 function.entry
  storage : Number.fitsInt64 function.storage
  arity : Number.fitsInt64 function.arity

/-- An image that is read back as it was written. -/
structure Image.Keeps (image : Image) : Prop where
  version : Number.fitsInt64 image.version
  opcodes : image.opcodes.length < 2 ^ 63
  fewStorages : image.storages.length ≤ Cbor.maxCount
  storages : ∀ storage ∈ image.storages, storage.Keeps
  fewFunctions : image.functions.length ≤ Cbor.maxCount
  functions : ∀ function ∈ image.functions, function.Keeps

/-- A number in which zero has no sign. -/
def Number.unsigned (value : Float) : Float := if value == 0 then 0 else value

/-- A stored constant in which zero has no sign. -/
def StoredValue.unsigned (value : StoredValue) : StoredValue :=
  { value with number := Number.unsigned value.number }

/-- A stored storage in which zeros have no sign. -/
def StoredStorage.unsigned (storage : StoredStorage) : StoredStorage :=
  { storage with constants := storage.constants.map StoredValue.unsigned }

/-- An image in which zeros have no sign. -/
def Image.unsigned (image : Image) : Image :=
  { image with storages := image.storages.map StoredStorage.unsigned }

/--
A codec that reads what it wrote. Numbers that equal zero are left out, and both zeros do, so
their sign makes no difference to what is written.
-/
structure Image.Codec.IsFaithful (codec : Image.Codec) : Prop where
  reads : ∀ image : Image, image.Keeps →
    ∃ bytes, codec.encode image = .ok bytes ∧ codec.decode bytes = .ok image
  omits : ∀ image : Image, codec.encode image.unsigned = codec.encode image

namespace Number

theorem fitsInt64_iff (n : Int) : fitsInt64 n ↔ -2 ^ 63 ≤ n ∧ n < 2 ^ 63 := by
  rw [fitsInt64, Bool.and_eq_true, decide_eq_true_iff, decide_eq_true_iff, minInt64]
  norm_num

theorem zero_beq_zero : ((0 : Float) == 0) = true := by decide +kernel

theorem beq_zero_unsigned (value : Float) : (unsigned value == 0) = (value == 0) := by
  unfold unsigned
  cases zero : value == 0 with
  | true => rw [if_pos rfl, zero_beq_zero]
  | false => rw [if_neg Bool.false_ne_true, zero]

theorem unsigned_of_ne {value : Float} (other : ¬(value == 0) = true) : unsigned value = value :=
  if_neg other

theorem unsigned_ne_negative_zero (value : Float) : unsigned value ≠ -0 := by
  have negative : ((-0 : Float) == 0) = true := by decide +kernel
  unfold unsigned
  split
  · intro same
    have bits : (0 : Float).toBits = (-0 : Float).toBits := congrArg Float.toBits same
    revert bits
    decide +kernel
  · rintro rfl
    contradiction

end Number

end Lehce
