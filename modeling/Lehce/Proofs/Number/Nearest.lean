import Mathlib
import Lehce.Proofs.Program.Shape

/-!
# Numbers that equal themselves

Every number differs from the one that is no number exactly by being equal to itself.
Rounding a quotient gives a significand of the format's precision, so the bits that are
put together from it are those of such a number, and so is every numeral that is not
spelled as the word for no number.
-/

namespace Lehce.Number

section Model

open Float.Model
open Float.Model.UnpackedFloat

theorem compare_unpacked_self {value : UnpackedFloat} (proper : value ≠ .notANumber) :
    value.compare value = some .eq := by
  cases value with
  | infinity sign => cases sign <;> rfl
  | notANumber => exact absurd rfl proper
  | zero sign => rfl
  | finite sign mantissa exponent positive =>
      cases sign <;> simp [UnpackedFloat.compare]

theorem isNumber_iff {x : Float} : IsNumber x ↔ x.toModel.unpack ≠ .notANumber := by
  constructor
  · intro equal absent
    have compared : (x.toModel.unpack.compare x.toModel.unpack == some .eq) = true := equal
    rw [absent] at compared
    cases compared
  · intro proper
    show (x.toModel.unpack.compare x.toModel.unpack == some .eq) = true
    rw [compare_unpacked_self proper]
    rfl

/-- Bits are those of a number unless their exponent is full and their mantissa is not empty. -/
theorem unpack_ne_notANumber {bits : BitVec Format.binary64.numBits}
    (proper : unpackExponent bits = -1#_ → unpackMantissa bits = 0#_) :
    UnpackedFloat.unpack Format.binary64 bits ≠ .notANumber := by
  simp only [UnpackedFloat.unpack]
  split
  · rename_i full
    simp [proper full]
  · split
    · split <;> simp
    · simp

theorem unpack_pack_ne_notANumber {value : UnpackedFloat} (proper : value ≠ .notANumber) :
    UnpackedFloat.unpack Format.binary64 (UnpackedFloat.pack Format.binary64 value) ≠
      .notANumber := by
  apply unpack_ne_notANumber
  cases value with
  | notANumber => exact absurd rfl proper
  | infinity sign => simp [UnpackedFloat.pack, packedInfinity]
  | zero sign => simp [UnpackedFloat.pack, packedZero]
  | finite sign mantissa exponent positive =>
      simp only [UnpackedFloat.pack]
      split
      · simp [packedInfinity]
      · rename_i small
        split
        · intro full
          simp only [unpackExponent_packComponents] at full
          have field := congrArg BitVec.toNat full
          simp only [BitVec.toNat_ofNat, BitVec.toNat_neg] at field
          omega
        · simp

theorem isNumber_neg {x : Float} (proper : IsNumber x) : IsNumber (-x) := by
  rw [isNumber_iff] at proper ⊢
  show UnpackedFloat.unpack Format.binary64
    (UnpackedFloat.pack Format.binary64 x.toModel.unpack.neg) ≠ _
  apply unpack_pack_ne_notANumber
  intro absent
  cases value : x.toModel.unpack with
  | notANumber => exact proper value
  | _ => simp [value, UnpackedFloat.neg] at absent

theorem isNumber_ofBits {bits : UInt64}
    (proper : bits.toNat / 2 ^ 52 % 2 ^ 11 = 2047 → bits.toNat % 2 ^ 52 = 0) :
    IsNumber (Float.ofBits bits) := by
  rw [isNumber_iff]
  show UnpackedFloat.unpack Format.binary64 (UnpackedFloat.pack Format.binary64
    (UnpackedFloat.unpack Format.binary64 bits.toBitVec)) ≠ _
  apply unpack_pack_ne_notANumber
  apply unpack_ne_notANumber
  intro full
  have field : bits.toNat >>> 52 % 2 ^ 11 = 2047 := congrArg BitVec.toNat full
  rw [Nat.shiftRight_eq_div_pow] at field
  apply BitVec.eq_of_toNat_eq
  simpa [unpackMantissa] using proper field

end Model

section Rounding

theorem unscale_positive (num : Nat) {den : Nat} (exponent : Int) (positive : 0 < den) :
    0 < (unscale num den exponent).2 := by
  unfold unscale
  split
  · exact positive
  · exact Nat.mul_pos positive (Nat.two_pow_pos _)

/-- Taking the scale out of a quotient divides it by the scale. -/
theorem unscale_eq (num den : Nat) (exponent : Int) :
    ((unscale num den exponent).1 : ℚ) / (unscale num den exponent).2 =
      num / den / 2 ^ exponent := by
  unfold unscale
  split
  · rename_i negative
    have scale : (2 : ℚ) ^ exponent = (2 ^ (-exponent).toNat)⁻¹ := by
      rw [← zpow_natCast, ← zpow_neg]
      congr 1
      omega
    rw [scale]
    simp only [Nat.pow_eq, Nat.cast_mul, Nat.cast_pow, Nat.cast_ofNat]
    field_simp
  · rename_i nonnegative
    have scale : (2 : ℚ) ^ exponent = 2 ^ exponent.toNat := by
      rw [← zpow_natCast]
      congr 1
      omega
    rw [scale]
    simp only [Nat.pow_eq, Nat.cast_mul, Nat.cast_pow, Nat.cast_ofNat]
    field_simp

theorem quotient_lt_bits (num : Nat) {den : Nat} (positive : 0 < den) :
    (num : ℚ) / den < 2 ^ ((num.log2 : Int) - den.log2 + 1) := by
  have above : (num : ℚ) < 2 ^ ((num.log2 : Int) + 1) := by exact_mod_cast Nat.lt_log2_self
  have below : (2 : ℚ) ^ (den.log2 : Int) ≤ den := by
    exact_mod_cast Nat.log2_self_le positive.ne'
  have split : (num.log2 : Int) + 1 = (num.log2 : Int) - den.log2 + 1 + den.log2 := by omega
  rw [div_lt_iff₀ (by exact_mod_cast positive)]
  calc (num : ℚ)
      < 2 ^ ((num.log2 : Int) + 1) := above
    _ = 2 ^ ((num.log2 : Int) - den.log2 + 1) * 2 ^ (den.log2 : Int) := by
        rw [split, zpow_add₀ two_ne_zero]
    _ ≤ 2 ^ ((num.log2 : Int) - den.log2 + 1) * den :=
        mul_le_mul_of_nonneg_left below (by positivity)

/-- Counted from its last place, a quotient has no more digits than the precision. -/
theorem quotient_lt_lastPlace (format : Format) (num : Nat) {den : Nat} (positive : 0 < den) :
    (num : ℚ) / den < 2 ^ (format.lastPlace num den + format.precision) := by
  have bits := quotient_lt_bits num positive
  have scaledPositive := unscale_positive num ((num.log2 : Int) - den.log2) positive
  have scaled := unscale_eq num den ((num.log2 : Int) - den.log2)
  unfold Format.lastPlace
  simp only
  split
  · rename_i small
    have below : (num : ℚ) / den / 2 ^ ((num.log2 : Int) - den.log2) < 1 := by
      rw [← scaled, div_lt_one (by exact_mod_cast scaledPositive)]
      exact_mod_cast small
    rw [div_lt_one (by positivity)] at below
    refine below.trans_le (zpow_le_zpow_right₀ one_le_two ?_)
    omega
  · refine bits.trans_le (zpow_le_zpow_right₀ one_le_two ?_)
    omega

theorem roundQuotient_le (num den : Nat) : roundQuotient num den ≤ num / den + 1 := by
  simp only [roundQuotient]
  split
  · omega
  · split
    · omega
    · split <;> omega

/-- The nearest number of a format has a significand of its precision. -/
theorem nearest_bounds {format : Format} {num den : Nat} {result : Scaled} (positive : 0 < den)
    (found : format.nearest num den = some result) (precise : 0 < format.precision) :
    result.significand < 2 ^ format.precision ∧
      (result.significand = 0 ∨ result.exponent ≤ format.greatest) := by
  unfold Format.nearest at found
  split at found
  · cases found
    exact ⟨Nat.two_pow_pos _, .inl rfl⟩
  · simp only at found
    have scaledPositive := unscale_positive num (format.lastPlace num den) positive
    have below : (unscale num den (format.lastPlace num den)).1 /
        (unscale num den (format.lastPlace num den)).2 < 2 ^ format.precision := by
      rw [Nat.div_lt_iff_lt_mul scaledPositive]
      have scaled := quotient_lt_lastPlace format num positive
      rw [zpow_add₀ two_ne_zero, mul_comm, ← div_lt_iff₀ (by positivity), ← unscale_eq,
        div_lt_iff₀ (by exact_mod_cast scaledPositive)] at scaled
      exact_mod_cast scaled
    have rounded := roundQuotient_le (unscale num den (format.lastPlace num den)).1
      (unscale num den (format.lastPlace num den)).2
    by_cases carried : roundQuotient (unscale num den (format.lastPlace num den)).1
        (unscale num den (format.lastPlace num den)).2 = Nat.pow 2 format.precision
    · simp only [carried, if_true] at found
      split at found
      · cases found
      · rename_i fits
        cases found
        exact ⟨Nat.pow_lt_pow_right (by omega) (by omega), .inr (by simpa using fits)⟩
    · simp only [carried, if_false] at found
      split at found
      · cases found
      · rename_i fits
        cases found
        rw [Nat.pow_eq] at carried
        exact ⟨by simp only; omega, .inr (by simpa using fits)⟩

end Rounding

theorem isNumber_assemble (negative : Bool) {magnitude : Scaled}
    (precise : magnitude.significand < 2 ^ 53)
    (fits : magnitude.significand = 0 ∨ magnitude.exponent ≤ 971) :
    IsNumber (assemble negative magnitude) := by
  unfold assemble
  apply isNumber_ofBits
  intro full
  exfalso
  revert full
  simp only [Nat.toUInt64, UInt64.toNat_ofNat', assembleBits, Nat.pow_eq]
  split <;> split <;> omega

theorem isNumber_infinity (negative : Bool) : IsNumber (infinity negative) := by
  cases negative <;> exact isNumber_ofBits (by decide)

/-- The number nearest to a quotient is a number. -/
theorem isNumber_ofQuotient (negative : Bool) (num : Nat) {den : Nat} (positive : 0 < den) :
    IsNumber (ofQuotient negative num den) := by
  unfold ofQuotient
  split
  · rename_i magnitude found
    rcases nearest_bounds positive found (by decide) with ⟨precise, fits⟩
    exact isNumber_assemble negative precise fits
  · exact isNumber_infinity negative

theorem isNumber_ofInt (n : Int) : IsNumber (ofInt n) := isNumber_ofQuotient _ _ Nat.one_pos

theorem quotient_positive (magnitude : Scaled) : 0 < magnitude.quotient.2 := by
  unfold Scaled.quotient
  split
  · exact Nat.two_pow_pos _
  · exact Nat.one_pos

section Reading

variable {format : Format} {negative : Bool} {value : Float}

theorem isNumber_scaledValue {digits radix : Nat} {exponent : Int}
    (read : scaledValue format negative digits radix exponent = .ok value) : IsNumber value := by
  simp only [scaledValue] at read
  split at read
  · cases read
    exact isNumber_ofQuotient _ _ Nat.one_pos
  · split at read
    · cases read
    · split at read
      · cases read
        exact isNumber_ofQuotient _ _ (quotient_positive _)
      · cases read

theorem isNumber_readDecimalFloat {text : List Char}
    (read : readDecimalFloat format negative text = .ok value) : IsNumber value := by
  simp only [readDecimalFloat] at read
  split at read
  · cases read
  · split at read
    · exact isNumber_scaledValue read
    · split at read
      · split at read
        · exact isNumber_scaledValue read
        · cases read
      · cases read

theorem isNumber_readHexFloat {text : List Char}
    (read : readHexFloat format negative text = .ok value) : IsNumber value := by
  simp only [readHexFloat] at read
  split at read
  · cases read
  · split at read
    · split at read
      · split at read
        · exact isNumber_scaledValue read
        · cases read
      · cases read
    · cases read

/-- A numeral denotes a number unless it is the word for no number. -/
theorem isNumber_readFloat {text : List Char} (read : readFloat format text = .ok value)
    (spelled : sameLetters text "nan" = false) : IsNumber value := by
  simp only [readFloat, spelled, Bool.false_eq_true, if_false] at read
  split at read
  · cases read
    exact isNumber_infinity _
  · split at read
    · cases read
    · split at read
      · split at read
        · exact isNumber_readHexFloat read
        · exact isNumber_readDecimalFloat read
      · exact isNumber_readDecimalFloat read

end Reading

end Lehce.Number
