import Lehce.Proofs.Number.Exact

/-!
# Opposite numbers

The opposite of a finite number has the same significand and exponent and the other
sign, and its own opposite is the number again.
-/

namespace Lehce.Number

open Float.Model
open Float.Model.UnpackedFloat

/-- The bits of a number with its sign bit turned over. -/
def turned (bits : BitVec Format.binary64.numBits) : BitVec Format.binary64.numBits :=
  packComponents Format.binary64 (-Sign.ofBitVec (unpackSign bits)) (unpackExponent bits)
    (unpackMantissa bits)

variable {bits : BitVec Format.binary64.numBits} {x : Float} {magnitude : Scaled}

theorem turned_turned (bits : BitVec Format.binary64.numBits) : turned (turned bits) = bits := by
  have twice : ∀ sign : Sign, - -sign = sign := by rintro ⟨⟩ <;> rfl
  simp only [turned, unpackSign_packComponents, unpackExponent_packComponents,
    unpackMantissa_packComponents, Sign.ofBitVec_toBitVec, twice,
    packComponents_unpackSign_unpackExponent_unpackMantissa]

theorem unpack_turned (bits : BitVec Format.binary64.numBits) :
    UnpackedFloat.unpack Format.binary64 (turned bits) =
      (UnpackedFloat.unpack Format.binary64 bits).neg := by
  simp only [UnpackedFloat.unpack, turned, unpackExponent_packComponents,
    unpackMantissa_packComponents, unpackSign_packComponents, Sign.ofBitVec_toBitVec]
  split_ifs <;> rfl

theorem toBits_neg (proper : @unpackExponent Format.binary64 x.toBits.toBitVec ≠ -1#_) :
    (-x).toBits.toBitVec = turned x.toBits.toBitVec := by
  have packed : (-x).toBits.toBitVec = UnpackedFloat.pack Format.binary64
      (UnpackedFloat.unpack Format.binary64 x.toBits.toBitVec).neg := rfl
  rw [packed, ← unpack_turned, pack_unpack_of_valid]
  constructor
  intro full
  simp only [turned, unpackExponent_packComponents] at full
  exact absurd full proper

theorem toNat_unpackExponent (bits : UInt64) :
    (@unpackExponent Format.binary64 bits.toBitVec).toNat = bits.toNat / 2 ^ 52 % 2 ^ 11 := by
  rw [← Nat.shiftRight_eq_div_pow]
  rfl

theorem toNat_unpackMantissa (bits : UInt64) :
    (@unpackMantissa Format.binary64 bits.toBitVec).toNat = bits.toNat % 2 ^ 52 := by
  simp [unpackMantissa]

theorem toNat_unpackSign (bits : UInt64) :
    (@unpackSign Format.binary64 bits.toBitVec).toNat = bits.toNat / 2 ^ 63 := by
  have bound : bits.toNat < 2 ^ 64 := bits.toNat_lt
  have shifted :
      (@unpackSign Format.binary64 bits.toBitVec).toNat = bits.toNat >>> 63 % 2 ^ 1 := rfl
  rw [shifted, Nat.shiftRight_eq_div_pow]
  omega

/-- A negative finite number is the opposite of one that is not negative. -/
theorem parts_neg (finite : parts x = .finite true magnitude) :
    parts (-x) = .finite false magnitude ∧ - -x = x := by
  have negative : x.toBits.toNat / 2 ^ 63 = 1 := by
    unfold parts at finite
    simp only [Nat.pow_eq] at finite
    split_ifs at finite <;> simp_all
  have proper : @unpackExponent Format.binary64 x.toBits.toBitVec ≠ -1#_ := by
    intro full
    have field : x.toBits.toNat / 2 ^ 52 % 2 ^ 11 = 2047 := by
      rw [← toNat_unpackExponent, full]
      rfl
    unfold parts at finite
    simp only [Nat.pow_eq, field, if_true] at finite
    split at finite <;> cases finite
  have turnedBits := toBits_neg proper
  have sign : Sign.ofBitVec (@unpackSign Format.binary64 x.toBits.toBitVec) = .negative := by
    have one : @unpackSign Format.binary64 x.toBits.toBitVec = 1#1 := by
      apply BitVec.eq_of_toNat_eq
      rw [toNat_unpackSign, negative]
      rfl
    rw [one]
    rfl
  have exponent : (-x).toBits.toNat / 2 ^ 52 % 2 ^ 11 = x.toBits.toNat / 2 ^ 52 % 2 ^ 11 := by
    rw [← toNat_unpackExponent, ← toNat_unpackExponent, turnedBits, turned,
      unpackExponent_packComponents]
  have mantissa : (-x).toBits.toNat % 2 ^ 52 = x.toBits.toNat % 2 ^ 52 := by
    rw [← toNat_unpackMantissa, ← toNat_unpackMantissa, turnedBits, turned,
      unpackMantissa_packComponents]
  have positive : (-x).toBits.toNat / 2 ^ 63 = 0 := by
    rw [← toNat_unpackSign, turnedBits, turned, unpackSign_packComponents, sign]
    rfl
  constructor
  · unfold parts at finite ⊢
    simp only [Nat.pow_eq, exponent, mantissa, positive] at finite ⊢
    split_ifs at finite ⊢ <;> simp_all
  · have again : @unpackExponent Format.binary64 (-x).toBits.toBitVec ≠ -1#_ := by
      rw [turnedBits, turned, unpackExponent_packComponents]
      exact proper
    apply Float.toBits_inj.1
    apply UInt64.toBitVec_inj.1
    rw [toBits_neg again, turnedBits, turned_turned]

end Lehce.Number
