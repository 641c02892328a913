import Lehce.Value.Heap

/-!
# Boxed values

A value packed into a 64-bit word. Numbers are their own bits, with one bit pattern
for all that are no number. The other patterns of such numbers are tags: with a
clear sign bit for the empty value and the two truth values, and with a set sign bit
for values that stand beside the word, whose kind the word holds.
-/

namespace Lehce

/-- A word, and the value beside it when the word only tags it. -/
structure Boxed where
  bits : UInt64
  beside : Value := .absent

namespace Boxed

/-- The bits that every tag has. -/
def tag : UInt64 := 0x7ffc000000000000

/-- The bits that every tag of a value beside the word has. -/
def pointerTag : UInt64 := 0xfffc000000000000

/-- The bits that stand for all numbers that are none. -/
def canonicalNaN : UInt64 := 0x7ff8000000000000

/-- The empty value. -/
def emptyBits : UInt64 := tag ||| 1

/-- The two truth values. -/
def falseBits : UInt64 := tag ||| 2

/-- The two truth values. -/
def trueBits : UInt64 := tag ||| 3

/-- Packs a number given by its bits; every pattern of no number becomes the same one. -/
def ofNumberBits (bits : UInt64) : Boxed :=
  if bits &&& 0x7ff0000000000000 = 0x7ff0000000000000 ∧ bits &&& 0x000fffffffffffff ≠ 0 then
    ⟨canonicalNaN, .absent⟩
  else ⟨bits, .absent⟩

/-- The number of a kind. -/
def kindNumber (kind : ValueKind) : UInt64 := (ValueKind.all.idxOf kind).toUInt64

/-- Packs a value. -/
def ofValue : Value → Boxed
  | .absent | .empty => ⟨emptyBits, .absent⟩
  | .number value => ofNumberBits value.toBits
  | .bool value => ⟨if value then trueBits else falseBits, .absent⟩
  | value => ⟨pointerTag ||| kindNumber value.kind, value⟩

/-- Whether the word is a number. -/
def isNumber (boxed : Boxed) : Bool := boxed.bits &&& tag != tag

/-- Whether the word tags a value beside it. -/
def isPointer (boxed : Boxed) : Bool := boxed.bits &&& pointerTag == pointerTag

/-- Whether the word is the empty value. -/
def isEmpty (boxed : Boxed) : Bool := boxed.bits == emptyBits

/-- Whether the word is a truth value. -/
def isBool (boxed : Boxed) : Bool := boxed.bits == trueBits || boxed.bits == falseBits

/-- The number in the word. -/
def number (boxed : Boxed) : Float := Float.ofBits boxed.bits

/-- Unpacks a value. -/
def toValue (boxed : Boxed) : Value :=
  if boxed.isNumber then .number boxed.number
  else if boxed.isPointer then boxed.beside
  else if boxed.bits = trueBits then .bool true
  else if boxed.bits = falseBits then .bool false
  else .empty

/-- The kind of a packed value. -/
def kind (boxed : Boxed) : ValueKind :=
  if boxed.isNumber then .number
  else if boxed.isPointer then boxed.beside.kind
  else if boxed.isBool then .bool
  else .empty

/-- Whether a packed value counts as true. -/
def truthy (heap : Heap) (boxed : Boxed) : Bool :=
  if boxed.isNumber then boxed.number != 0
  else if boxed.isPointer then heap.truthy boxed.beside
  else boxed.bits == trueBits

/-- Whether two packed values are equal; words without a value beside them are compared as such. -/
def equal (heap : Heap) (a b : Boxed) : Option Bool :=
  if a.isNumber && b.isNumber then some (a.number == b.number)
  else if !a.isPointer && !b.isPointer then some (a.bits == b.bits)
  else heap.equal a.toValue b.toValue

end Boxed

end Lehce
