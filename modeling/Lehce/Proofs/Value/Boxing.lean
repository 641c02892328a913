import Lehce.Proofs.Number.Opposite
import Lehce.Proofs.Value.Equality
import Lehce.Value.Boxed

/-!
# Boxed values are the values

Numbers and tags share the patterns of a word. A pattern that stands for no number has a full
exponent and a mantissa that is not empty, and all of these but one are free for tags: the
packed number is never a tag, whatever pattern it came from. So a boxed value tells its kind,
gives back the value that was packed, and counts as true and compares as that value does.
-/

namespace Lehce

section Patterns

open Float.Model
open Float.Model.UnpackedFloat

theorem toNat_and_exponent (bits : UInt64) :
    (bits &&& 0x7ff0000000000000).toNat = bits.toNat / 2 ^ 52 % 2 ^ 11 * 2 ^ 52 := by
  have mask : (0x7ff0000000000000 : UInt64).toNat = (2 ^ 11 - 1) * 2 ^ 52 := by decide
  rw [UInt64.toNat_and, mask]
  apply Nat.eq_of_testBit_eq
  intro index
  rw [Nat.testBit_and, Nat.testBit_mul_two_pow, Nat.testBit_mul_two_pow,
    Nat.testBit_two_pow_sub_one, Nat.testBit_mod_two_pow, Nat.testBit_div_two_pow]
  by_cases low : 52 ≤ index
  · rw [Nat.sub_add_cancel low, Bool.and_comm]
    simp [low]
  · simp [low]

theorem toNat_and_mantissa (bits : UInt64) :
    (bits &&& 0x000fffffffffffff).toNat = bits.toNat % 2 ^ 52 := by
  have mask : (0x000fffffffffffff : UInt64).toNat = 2 ^ 52 - 1 := by decide
  rw [UInt64.toNat_and, mask, Nat.and_two_pow_sub_one_eq_mod]

/-- The bits of no number: a full exponent and a mantissa that is not empty. -/
def IsNaNPattern (bits : UInt64) : Prop :=
  bits &&& 0x7ff0000000000000 = 0x7ff0000000000000 ∧ bits &&& 0x000fffffffffffff ≠ 0

instance (bits : UInt64) : Decidable (IsNaNPattern bits) := by
  unfold IsNaNPattern
  infer_instance

theorem isNaNPattern_iff {bits : UInt64} :
    IsNaNPattern bits ↔ bits.toNat / 2 ^ 52 % 2 ^ 11 = 2047 ∧ bits.toNat % 2 ^ 52 ≠ 0 := by
  unfold IsNaNPattern
  rw [← UInt64.toNat_inj, ne_eq, ← UInt64.toNat_inj, toNat_and_exponent, toNat_and_mantissa]
  have mask : (0x7ff0000000000000 : UInt64).toNat = 2047 * 2 ^ 52 := by decide
  rw [mask, Nat.mul_left_inj (by decide)]
  rfl

/-- The numbers whose bits stand for none are those that differ from themselves. -/
theorem isNumber_ofBits_iff {bits : UInt64} :
    Number.IsNumber (Float.ofBits bits) ↔ ¬IsNaNPattern bits := by
  rw [isNaNPattern_iff, not_and_not_right]
  refine ⟨fun proper full => ?_, Number.isNumber_ofBits⟩
  by_contra mantissa
  rw [Number.isNumber_iff] at proper
  apply proper
  have exponentFull : @unpackExponent Format.binary64 bits.toBitVec = -1#_ := by
    apply BitVec.eq_of_toNat_eq
    rw [Number.toNat_unpackExponent, full]
    rfl
  have mantissaSet : @unpackMantissa Format.binary64 bits.toBitVec ≠ 0#_ := by
    intro empty
    apply mantissa
    rw [← Number.toNat_unpackMantissa, empty]
    rfl
  have unpacked : UnpackedFloat.unpack Format.binary64 bits.toBitVec = .notANumber := by
    simp only [UnpackedFloat.unpack, exponentFull, mantissaSet, if_true, if_false]
  show UnpackedFloat.unpack Format.binary64 (UnpackedFloat.pack Format.binary64
    (UnpackedFloat.unpack Format.binary64 bits.toBitVec)) = _
  rw [unpacked]
  rfl

/-- There is only one number that differs from itself. -/
theorem eq_of_not_isNumber {x y : Float} (left : ¬Number.IsNumber x)
    (right : ¬Number.IsNumber y) : x = y := by
  rw [Number.isNumber_iff, ne_eq, not_not] at left right
  exact Number.unpack_inj (left.trans right.symm)

end Patterns

namespace Boxed

variable {bits : UInt64}

theorem isNaNPattern_canonicalNaN : IsNaNPattern canonicalNaN := by decide

theorem ofNumberBits_eq (bits : UInt64) :
    ofNumberBits bits = ⟨if IsNaNPattern bits then canonicalNaN else bits, .absent⟩ := by
  by_cases none : IsNaNPattern bits
  · rw [if_pos none]
    exact if_pos none
  · rw [if_neg none]
    exact if_neg none

/-- The packed number is the one whose bits were packed. -/
theorem number_ofNumberBits (bits : UInt64) :
    (ofNumberBits bits).number = Float.ofBits bits := by
  rw [ofNumberBits_eq, number]
  split
  · rename_i none
    exact eq_of_not_isNumber (isNumber_ofBits_iff.not.2 (not_not.2 isNaNPattern_canonicalNaN))
      (isNumber_ofBits_iff.not.2 (not_not.2 none))
  · rfl

/-- A tag has the bits of no number. -/
theorem isNaNPattern_of_tag (tagged : bits &&& tag = tag) : IsNaNPattern bits := by
  constructor
  · have mask : (0x7ff0000000000000 : UInt64) = tag &&& 0x7ff0000000000000 := by decide
    rw [mask, ← UInt64.and_assoc, tagged]
  · intro empty
    have cleared : bits &&& tag &&& 0x000fffffffffffff = 0 := by
      rw [UInt64.and_assoc, UInt64.and_comm tag, ← UInt64.and_assoc, empty]
      decide
    rw [tagged] at cleared
    exact absurd cleared (by decide)

theorem isNumber_ofNumberBits (bits : UInt64) : (ofNumberBits bits).isNumber = true := by
  rw [ofNumberBits_eq, isNumber, bne_iff_ne]
  split
  · decide
  · rename_i proper
    exact fun tagged => proper (isNaNPattern_of_tag tagged)

section Model

open Float.Model
open Float.Model.UnpackedFloat

/-- The bits of a number that is one are kept. -/
theorem toBits_ofBits (proper : ¬IsNaNPattern bits) : (Float.ofBits bits).toBits = bits := by
  apply UInt64.toBitVec_inj.1
  have packed : (Float.ofBits bits).toBits.toBitVec = UnpackedFloat.pack Format.binary64
      (UnpackedFloat.unpack Format.binary64 bits.toBitVec) := rfl
  rw [packed, pack_unpack_of_valid]
  constructor
  intro full mantissa
  refine absurd (isNaNPattern_iff.2 ⟨?_, ?_⟩) proper
  · rw [← Number.toNat_unpackExponent, full]
    rfl
  · rw [← Number.toNat_unpackMantissa]
    exact fun empty => mantissa (BitVec.eq_of_toNat_eq empty)

end Model

theorem ofNumberBits_ofBits (bits : UInt64) :
    ofNumberBits (Float.ofBits bits).toBits = ofNumberBits bits := by
  by_cases none : IsNaNPattern bits
  · have same : Float.ofBits bits = Float.ofBits canonicalNaN :=
      eq_of_not_isNumber (isNumber_ofBits_iff.not.2 (not_not.2 none))
        (isNumber_ofBits_iff.not.2 (not_not.2 isNaNPattern_canonicalNaN))
    rw [same, ofNumberBits_eq bits, if_pos none]
    rfl
  · rw [toBits_ofBits none]

/-- A word that is a number is no tag. -/
theorem not_tag_of_isNumber {boxed : Boxed} (isNumber : boxed.isNumber = true) :
    boxed.isPointer = false ∧ boxed.isEmpty = false ∧ boxed.isBool = false := by
  have free : ∀ word : UInt64, word &&& tag = tag → boxed.bits &&& word ≠ word := by
    intro word tagged same
    refine bne_iff_ne.1 isNumber ?_
    rw [← tagged, ← UInt64.and_assoc, same]
  have apart : ∀ word : UInt64, word &&& tag = tag → boxed.bits ≠ word := by
    rintro word tagged same
    exact bne_iff_ne.1 isNumber (same ▸ tagged)
  refine ⟨beq_false_of_ne (free _ (by decide)), beq_false_of_ne (apart _ (by decide)), ?_⟩
  rw [isBool, beq_false_of_ne (apart _ (by decide)), beq_false_of_ne (apart _ (by decide))]
  rfl

/-- The kinds of the values that stand beside their words. -/
def besideKinds : List ValueKind := [.text, .atom, .list, .dict, .function]

/-- The ways in which values are packed: as a number, as a tag alone, or beside a tag. -/
inductive Packs : Value → Boxed → Prop where
  | number (x : Float) : Packs (.number x) (ofNumberBits x.toBits)
  | empty {value : Value} (absent : value.orEmpty = .empty) : Packs value ⟨emptyBits, .absent⟩
  | bool (value : Bool) : Packs (.bool value) ⟨if value then trueBits else falseBits, .absent⟩
  | beside {value : Value} (kind : value.kind ∈ besideKinds) :
      Packs value ⟨pointerTag ||| kindNumber value.kind, value⟩

theorem packs_ofValue (value : Value) : Packs value (ofValue value) := by
  cases value with
  | absent | empty => exact .empty rfl
  | number x => exact .number x
  | bool x => exact .bool x
  | _ => exact .beside (by simp [Value.kind, besideKinds])

/-- What a word tells of the value that was packed into it. -/
structure Tells (heap : Heap) (boxed : Boxed) (value : Value) : Prop where
  number : boxed.isNumber = decide (value.kind = .number)
  pointer : boxed.isPointer = decide (value.kind ∈ besideKinds)
  empty : boxed.isEmpty = decide (value.kind = .empty)
  bool : boxed.isBool = decide (value.kind = .bool)
  unpacked : boxed.toValue = value.orEmpty
  kind : boxed.kind = value.kind
  truthy : boxed.truthy heap = heap.truthy value

/-- The flags of a word that has a value beside it. -/
theorem pointer_flags (kind : ValueKind) (value : Value) :
    (⟨pointerTag ||| kindNumber kind, value⟩ : Boxed).isNumber = false ∧
      (⟨pointerTag ||| kindNumber kind, value⟩ : Boxed).isPointer = true ∧
      (⟨pointerTag ||| kindNumber kind, value⟩ : Boxed).isEmpty = false ∧
      (⟨pointerTag ||| kindNumber kind, value⟩ : Boxed).isBool = false := by
  have words : ∀ kind, (pointerTag ||| kindNumber kind) &&& tag = tag ∧
      (pointerTag ||| kindNumber kind) &&& pointerTag = pointerTag ∧
      pointerTag ||| kindNumber kind ≠ emptyBits ∧ pointerTag ||| kindNumber kind ≠ trueBits ∧
      pointerTag ||| kindNumber kind ≠ falseBits := by
    intro kind
    cases kind <;> decide
  rcases words kind with ⟨tagged, pointer, notEmpty, notTrue, notFalse⟩
  refine ⟨bne_eq_false_iff_eq.2 tagged, beq_iff_eq.2 pointer, beq_false_of_ne notEmpty, ?_⟩
  rw [isBool, beq_false_of_ne notTrue, beq_false_of_ne notFalse]
  rfl

theorem Packs.tells {heap : Heap} {value : Value} {boxed : Boxed} (packs : Packs value boxed) :
    boxed.Tells heap value := by
  cases packs with
  | number x =>
      have isNumber := isNumber_ofNumberBits x.toBits
      rcases not_tag_of_isNumber isNumber with ⟨pointer, empty, bool⟩
      have same : (ofNumberBits x.toBits).number = x := by
        rw [number_ofNumberBits, Float.ofBits_toBits]
      exact {
        number := isNumber
        pointer := pointer
        empty := empty
        bool := bool
        unpacked := by simp [toValue, isNumber, same, Value.orEmpty]
        kind := by simp [Boxed.kind, isNumber, Value.kind]
        truthy := by simp [Boxed.truthy, isNumber, same, Heap.truthy] }
  | empty absent =>
      cases value <;> cases absent <;> constructor <;> rfl
  | bool x =>
      cases x <;> constructor <;> rfl
  | beside kind =>
      rcases pointer_flags value.kind value with ⟨isNumber, isPointer, isEmpty, isBool⟩
      have apart : value.kind ≠ .number ∧ value.kind ≠ .empty ∧ value.kind ≠ .bool := by
        refine ⟨?_, ?_, ?_⟩ <;>
        · intro same
          rw [same] at kind
          exact absurd kind (by decide)
      exact {
        number := by rw [isNumber, decide_eq_false apart.1]
        pointer := by rw [isPointer, decide_eq_true kind]
        empty := by rw [isEmpty, decide_eq_false apart.2.1]
        bool := by rw [isBool, decide_eq_false apart.2.2]
        unpacked := by
          simp only [toValue, isNumber, isPointer, Bool.false_eq_true, if_false, if_true]
          cases value with
          | absent => exact absurd rfl apart.2.1
          | _ => rfl
        kind := by simp [Boxed.kind, isNumber, isPointer]
        truthy := by simp [Boxed.truthy, isNumber, isPointer] }

theorem tells_ofValue (heap : Heap) (value : Value) : (ofValue value).Tells heap value :=
  (packs_ofValue value).tells

/-- A packed number is not the word of a value of another kind. -/
theorem bits_ne_of_number {a b : Value} (left : a.kind = .number) (right : b.kind ≠ .number) :
    (ofValue a).bits ≠ (ofValue b).bits := by
  intro same
  have first := (tells_ofValue {} a).number
  have second := (tells_ofValue {} b).number
  rw [isNumber, same, decide_eq_true left] at first
  rw [isNumber, decide_eq_false right, first] at second
  cases second

/-- Of values with nothing beside their words, not both of which are numbers, the words are
equal when the values are. -/
theorem bits_beq_ofValue {heap : Heap} {a b : Value} (left : a.kind ∉ besideKinds)
    (right : b.kind ∉ besideKinds) (mixed : ¬(a.kind = .number ∧ b.kind = .number)) :
    some ((ofValue a).bits == (ofValue b).bits) = heap.equal a b := by
  rw [Heap.equal_eq]
  cases a with
  | text | atom | list | dict | function => simp [Value.kind, besideKinds] at left
  | number x =>
      have other : b.kind ≠ .number := fun same => mixed ⟨rfl, same⟩
      rw [beq_false_of_ne (bits_ne_of_number rfl other)]
      cases b with
      | number y => exact absurd rfl other
      | _ => simp [Heap.equalStep]
  | absent | empty =>
      cases b with
      | text | atom | list | dict | function => simp [Value.kind, besideKinds] at right
      | number y =>
          rw [beq_false_of_ne (bits_ne_of_number rfl (by decide)).symm]
          simp [Heap.equalStep]
      | absent | empty => simp [Heap.equalStep, ofValue]
      | bool y => cases y <;> simp [Heap.equalStep, ofValue] <;> decide
  | bool x =>
      cases b with
      | text | atom | list | dict | function => simp [Value.kind, besideKinds] at right
      | number y =>
          rw [beq_false_of_ne (bits_ne_of_number rfl (by simp [Value.kind])).symm]
          simp [Heap.equalStep]
      | absent | empty => cases x <;> simp [Heap.equalStep, ofValue] <;> decide
      | bool y =>
          cases x <;> cases y <;> simp [Heap.equalStep, ofValue] <;> decide

/-- Packed values compare as the values do. -/
theorem equal_ofValue (heap : Heap) (a b : Value) :
    (ofValue a).equal heap (ofValue b) = heap.equal a b := by
  have left := tells_ofValue heap a
  have right := tells_ofValue heap b
  rw [equal, left.number, right.number, left.pointer, right.pointer, left.unpacked,
    right.unpacked, Heap.equal_orEmpty, ← Bool.decide_and, ← decide_not, ← decide_not,
    ← Bool.decide_and]
  by_cases numbers : a.kind = .number ∧ b.kind = .number
  · rw [if_pos (decide_eq_true numbers)]
    cases a <;> cases numbers.1
    cases b <;> cases numbers.2
    rw [Heap.equal_eq]
    simp [ofValue, number_ofNumberBits, Float.ofBits_toBits, Heap.equalStep]
  · rw [if_neg (by simpa using numbers)]
    by_cases tags : a.kind ∉ besideKinds ∧ b.kind ∉ besideKinds
    · rw [if_pos (decide_eq_true tags), bits_beq_ofValue tags.1 tags.2 numbers]
    · rw [if_neg (by simpa using tags)]

/-- What is packed: a number given by its bits, whichever they are, or any value. -/
inductive Source where
  | pattern (bits : UInt64)
  | value (given : Value)

namespace Source

/-- The value that is packed. -/
def meaning : Source → Value
  | .pattern bits => .number (Float.ofBits bits)
  | .value given => given

/-- The word that it is packed into. -/
def boxed : Source → Boxed
  | .pattern bits => ofNumberBits bits
  | .value given => ofValue given

theorem boxed_eq (source : Source) : source.boxed = ofValue source.meaning := by
  cases source with
  | pattern bits => exact (ofNumberBits_ofBits bits).symm
  | value given => rfl

end Source

/-- Whatever is packed is told apart, given back and compared as what it is. -/
structure Source.Faithful (heap : Heap) (p q : Source) : Prop where
  one : [p.boxed.isNumber, p.boxed.isPointer, p.boxed.isEmpty, p.boxed.isBool].count true = 1
  tells : p.boxed.Tells heap p.meaning
  bits : ∀ bits, p = .pattern bits →
    p.boxed.bits = if IsNaNPattern bits then canonicalNaN else bits
  compared : p.boxed.equal heap q.boxed = heap.equal p.meaning q.meaning

theorem boxed_faithful (heap : Heap) (p q : Source) : Source.Faithful heap p q := by
  have tells := tells_ofValue heap p.meaning
  rw [← p.boxed_eq] at tells
  refine ⟨?_, tells, ?_, ?_⟩
  · rw [tells.number, tells.pointer, tells.empty, tells.bool]
    cases p.meaning.kind <;> rfl
  · rintro bits rfl
    rw [Source.boxed, ofNumberBits_eq]
  · rw [p.boxed_eq, q.boxed_eq, equal_ofValue]

end Boxed

end Lehce
