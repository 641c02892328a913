import Lehce.Proofs.Number.Nearest

/-!
# Numbers that a format has

The numbers of a format are given by their significands and exponents, one for each. Rounding
a quotient gives such a number, and gives back the number that the quotient is equal to. So a
64-bit number is found again from any quotient that is equal to it.
-/

namespace Lehce.Number

/-- The number that a scaled significand stands for. -/
def Scaled.value (s : Scaled) : ℚ := s.significand * 2 ^ s.exponent

/-- A scaled significand is the one that a format has for its number. -/
structure Format.Holds (format : Format) (s : Scaled) : Prop where
  precise : s.significand < 2 ^ format.precision
  least : format.least ≤ s.exponent
  greatest : s.significand = 0 ∨ s.exponent ≤ format.greatest
  normal : s.significand < 2 ^ (format.precision - 1) → s.exponent = format.least

section Rounding

variable {format : Format} {num den : Nat} {s : Scaled}

theorem value_quotient (s : Scaled) : (s.quotient.1 : ℚ) / s.quotient.2 = s.value := by
  unfold Scaled.quotient Scaled.value
  split
  · rename_i negative
    have scale : (2 : ℚ) ^ s.exponent = (2 ^ (-s.exponent).toNat)⁻¹ := by
      rw [← zpow_natCast, ← zpow_neg]
      congr 1
      omega
    rw [scale]
    simp [div_eq_mul_inv]
  · rename_i nonnegative
    have scale : (2 : ℚ) ^ s.exponent = 2 ^ s.exponent.toNat := by
      rw [← zpow_natCast]
      congr 1
      omega
    rw [scale]
    simp

/-- Above the least place, a quotient has as many digits as the precision. -/
theorem le_quotient_of_least_lt (positive : 0 < num) (denPositive : 0 < den)
    (above : format.least < format.lastPlace num den) :
    (2 : ℚ) ^ (format.lastPlace num den + format.precision - 1) ≤ num / den := by
  have denRat : (0 : ℚ) < den := by exact_mod_cast denPositive
  have scaledPositive := unscale_positive num ((num.log2 : Int) - den.log2) denPositive
  have scaled := unscale_eq num den ((num.log2 : Int) - den.log2)
  unfold Format.lastPlace at above ⊢
  simp only at above ⊢
  by_cases small : (unscale num den ((num.log2 : Int) - den.log2)).1 <
      (unscale num den ((num.log2 : Int) - den.log2)).2
  · rw [if_pos small] at above ⊢
    have least : max ((num.log2 : Int) - den.log2 - format.precision) format.least =
        (num.log2 : Int) - den.log2 - format.precision := by omega
    have numBits : (2 : ℚ) ^ (num.log2 : Int) ≤ num := by
      exact_mod_cast Nat.log2_self_le positive.ne'
    have denBits : (den : ℚ) ≤ 2 ^ ((den.log2 : Int) + 1) := by
      exact_mod_cast Nat.lt_log2_self.le
    rw [least, le_div_iff₀ denRat]
    calc (2 : ℚ) ^ ((num.log2 : Int) - den.log2 - format.precision + format.precision - 1) * den
        ≤ 2 ^ ((num.log2 : Int) - den.log2 - 1) * 2 ^ ((den.log2 : Int) + 1) := by
          rw [sub_add_cancel]
          exact mul_le_mul_of_nonneg_left denBits (by positivity)
      _ = 2 ^ (num.log2 : Int) := by
          rw [← zpow_add₀ two_ne_zero]
          congr 1
          omega
      _ ≤ num := numBits
  · rw [if_neg small] at above ⊢
    have least : max ((num.log2 : Int) - den.log2 + 1 - format.precision) format.least =
        (num.log2 : Int) - den.log2 + 1 - format.precision := by omega
    have atLeast : (1 : ℚ) ≤ num / den / 2 ^ ((num.log2 : Int) - den.log2) := by
      rw [← scaled, one_le_div (by exact_mod_cast scaledPositive)]
      exact_mod_cast not_lt.1 small
    rw [one_le_div (by positivity)] at atLeast
    have place : (num.log2 : Int) - den.log2 + 1 - format.precision + format.precision - 1 =
        (num.log2 : Int) - den.log2 := by omega
    rwa [least, place]

theorem least_le_lastPlace (format : Format) (num den : Nat) :
    format.least ≤ format.lastPlace num den := le_max_right _ _

/-- A quotient that is equal to a number of a format has the last place of that number. -/
theorem lastPlace_eq (holds : format.Holds s) (precise : 0 < format.precision)
    (denPositive : 0 < den) (positive : 0 < num) (equal : (num : ℚ) / den = s.value) :
    format.lastPlace num den = s.exponent := by
  have upper := quotient_lt_lastPlace format num denPositive
  have below := least_le_lastPlace format num den
  have valueLt : s.value < 2 ^ (s.exponent + format.precision) := by
    rw [Scaled.value, add_comm, zpow_add₀ two_ne_zero]
    have precise := holds.precise
    refine mul_lt_mul_of_pos_right ?_ (by positivity)
    exact_mod_cast precise
  rw [equal] at upper
  apply le_antisymm
  · by_contra above
    have lower := le_quotient_of_least_lt positive denPositive
      (lt_of_le_of_lt holds.least (not_le.1 above))
    rw [equal] at lower
    have between := (zpow_lt_zpow_iff_right₀ (one_lt_two (α := ℚ))).1 (lower.trans_lt valueLt)
    omega
  · by_cases small : s.significand < 2 ^ (format.precision - 1)
    · rw [holds.normal small]
      exact below
    · have normal : (2 : ℚ) ^ (s.exponent + (format.precision - 1 : Nat)) ≤ s.value := by
        rw [Scaled.value, add_comm, zpow_add₀ two_ne_zero]
        refine mul_le_mul_of_nonneg_right ?_ (by positivity)
        exact_mod_cast not_lt.1 small
      have between := (zpow_lt_zpow_iff_right₀ (one_lt_two (α := ℚ))).1 (normal.trans_lt upper)
      omega

theorem roundQuotient_exact (whole : Nat) (denPositive : 0 < den) :
    roundQuotient (whole * den) den = whole := by
  simp [roundQuotient, Nat.mul_div_cancel _ denPositive, denPositive]

theorem div_le_roundQuotient (num den : Nat) : num / den ≤ roundQuotient num den := by
  simp only [roundQuotient]
  split
  · exact Nat.le_refl _
  · split
    · omega
    · split <;> omega

theorem Format.Holds.eq_zero (holds : format.Holds s) (zero : s.significand = 0) :
    s = ⟨0, format.least⟩ := by
  have exponent := holds.normal (by rw [zero]; exact Nat.two_pow_pos _)
  cases s
  cases zero
  cases exponent
  rfl

/-- The number of a format that is nearest to one of its numbers is that number. -/
theorem nearest_eq_self (holds : format.Holds s) (precise : 0 < format.precision)
    (denPositive : 0 < den) (equal : (num : ℚ) / den = s.value) :
    format.nearest num den = some s := by
  have denRat : (0 : ℚ) < den := by exact_mod_cast denPositive
  unfold Format.nearest
  by_cases zero : num = 0
  · have significand : s.significand = 0 := by
      rw [zero, Scaled.value, Nat.cast_zero, zero_div, eq_comm, mul_eq_zero] at equal
      rcases equal with significand | scale
      · exact_mod_cast significand
      · exact absurd scale (by positivity)
    rw [if_pos zero, ← holds.eq_zero significand]
  · have positive : 0 < num := Nat.pos_of_ne_zero zero
    have scaledPositive := unscale_positive num s.exponent denPositive
    have scaledRat : ((unscale num den s.exponent).2 : ℚ) ≠ 0 := by
      exact_mod_cast scaledPositive.ne'
    have exact : (unscale num den s.exponent).1 =
        s.significand * (unscale num den s.exponent).2 := by
      have scaled := unscale_eq num den s.exponent
      rw [equal, Scaled.value, mul_div_cancel_right₀ _ (by positivity),
        div_eq_iff scaledRat] at scaled
      exact_mod_cast scaled
    have carries : s.significand ≠ Nat.pow 2 format.precision := by
      have precise := holds.precise
      rw [Nat.pow_eq]
      omega
    have fits : ¬format.greatest < s.exponent := by
      rcases holds.greatest with significand | fits
      · rw [Scaled.value, significand, Nat.cast_zero, zero_mul, div_eq_zero_iff] at equal
        rcases equal with absent | absent
        · exact absurd (by exact_mod_cast absent) zero
        · exact absurd absent denRat.ne'
      · exact not_lt.2 fits
    simp only [zero, if_false, lastPlace_eq holds precise denPositive positive equal, exact,
      roundQuotient_exact _ scaledPositive, carries, fits]

/-- The nearest number of a format is one that the format has. -/
theorem nearest_holds (precise : 0 < format.precision) (denPositive : 0 < den)
    (found : format.nearest num den = some s) : format.Holds s := by
  rcases nearest_bounds denPositive found precise with ⟨precision, greatest⟩
  unfold Format.nearest at found
  by_cases zero : num = 0
  · rw [if_pos zero] at found
    cases found
    exact ⟨precision, le_refl _, greatest, fun _ => rfl⟩
  · simp only [zero, if_false] at found
    have least := least_le_lastPlace format num den
    have scaledPositive := unscale_positive num (format.lastPlace num den) denPositive
    by_cases carried : roundQuotient (unscale num den (format.lastPlace num den)).1
        (unscale num den (format.lastPlace num den)).2 = Nat.pow 2 format.precision
    · simp only [carried, if_true] at found
      split at found
      · cases found
      · cases found
        exact ⟨precision, le_trans least (by simp), greatest, fun small =>
          absurd small (lt_irrefl _)⟩
    · simp only [carried, if_false] at found
      split at found
      · cases found
      · cases found
        refine ⟨precision, least, greatest, fun small => ?_⟩
        -- above the least place the quotient has all digits, and rounding keeps them
        by_contra above
        have digits := le_quotient_of_least_lt (Nat.pos_of_ne_zero zero) denPositive
          (lt_of_le_of_ne least (Ne.symm above))
        have whole := div_le_roundQuotient (unscale num den (format.lastPlace num den)).1
          (unscale num den (format.lastPlace num den)).2
        have split : format.lastPlace num den + format.precision - 1 =
            ((format.precision - 1 : Nat) : Int) + format.lastPlace num den := by omega
        rw [split, zpow_add₀ two_ne_zero, ← le_div_iff₀ (by positivity), ← unscale_eq,
          le_div_iff₀ (by exact_mod_cast scaledPositive)] at digits
        have enough : 2 ^ (format.precision - 1) ≤
            (unscale num den (format.lastPlace num den)).1 /
              (unscale num den (format.lastPlace num den)).2 := by
          rw [Nat.le_div_iff_mul_le scaledPositive]
          exact_mod_cast digits
        simp only at small
        omega

end Rounding

section Parts

variable {x : Float} {negative : Bool} {magnitude : Scaled}

theorem ofBits_toNat {bits : Nat} (same : x.toBits.toNat = bits) :
    Float.ofBits bits.toUInt64 = x := by
  rw [← same, Nat.toUInt64, UInt64.ofNat_toNat, Float.ofBits_toBits]

/-- A finite number is put together again from its parts, which the format has. -/
theorem assemble_parts (finite : parts x = .finite negative magnitude) :
    Format.double.Holds magnitude ∧ assemble negative magnitude = x := by
  have bound : x.toBits.toNat < 2 ^ 64 := x.toBits.toNat_lt
  unfold parts at finite
  simp only [Nat.pow_eq] at finite
  split at finite
  · split at finite <;> cases finite
  · rename_i proper
    split at finite
    · rename_i subnormal
      cases finite
      refine ⟨⟨?_, ?_, .inr ?_, fun _ => rfl⟩, ?_⟩
      · simp only [Format.double]
        omega
      · simp [Format.double]
      · simp [Format.double]
      · apply ofBits_toNat
        simp only [assembleBits, Nat.pow_eq, decide_eq_true_eq]
        split <;> split <;> omega
    · rename_i normal
      cases finite
      refine ⟨⟨?_, ?_, .inr ?_, ?_⟩, ?_⟩
      · simp only [Format.double]
        omega
      · simp only [Format.double, Int.ofNat_eq_natCast]
        omega
      · simp only [Format.double, Int.ofNat_eq_natCast]
        omega
      · simp only [Format.double]
        omega
      · apply ofBits_toNat
        simp only [assembleBits, Nat.pow_eq, decide_eq_true_eq, Int.ofNat_eq_natCast,
          Nat.add_sub_cancel_left]
        split <;> split <;> omega

/-- A finite number is found again from any quotient that is equal to it. -/
theorem ofQuotient_parts {num den : Nat} (finite : parts x = .finite negative magnitude)
    (positive : 0 < den) (equal : (num : ℚ) / den = magnitude.value) :
    ofQuotient negative num den = x := by
  rcases assemble_parts finite with ⟨holds, assembled⟩
  rw [ofQuotient, nearest_eq_self holds (by decide) positive equal]
  exact assembled

theorem infinity_parts (infinite : parts x = .infinite negative) : infinity negative = x := by
  have bound : x.toBits.toNat < 2 ^ 64 := x.toBits.toNat_lt
  unfold parts at infinite
  simp only [Nat.pow_eq] at infinite
  split at infinite
  · split at infinite
    · cases infinite
      rw [infinity, ← Float.ofBits_toBits x]
      congr 1
      apply UInt64.toNat_inj.1
      by_cases negative : x.toBits.toNat / 2 ^ 63 = 1
      · rw [if_pos (by simpa using negative)]
        show 0xFFF0000000000000 = _
        omega
      · rw [if_neg (by simpa using negative)]
        show 0x7FF0000000000000 = _
        omega
    · cases infinite
  · split at infinite <;> cases infinite

open Float.Model UnpackedFloat in
/-- There is only one number that is none. -/
theorem nan_parts (none : parts x = .nan) : nan = x := by
  unfold parts at none
  simp only [Nat.pow_eq] at none
  split at none
  · rename_i full
    split at none
    · cases none
    · rename_i fraction
      have exponent : @unpackExponent Format.binary64 x.toModel.toBits.toBitVec = -1#_ := by
        apply BitVec.eq_of_toNat_eq
        show x.toBits.toNat >>> 52 % 2 ^ 11 = 2047
        rw [Nat.shiftRight_eq_div_pow]
        exact full
      have mantissa : @unpackMantissa Format.binary64 x.toModel.toBits.toBitVec ≠ 0#_ := by
        intro absent
        have field := congrArg BitVec.toNat absent
        exact fraction (by simpa [unpackMantissa, Float.toBits] using field)
      have same := x.toModel.valid.eq_packedNaN exponent mantissa
      apply Float.toBits_inj.1
      apply UInt64.toBitVec_inj.1
      rw [Float.toBits.eq_def x, same]
      decide
  · split at none <;> cases none

end Parts

section Zeros

open Float.Model UnpackedFloat

theorem unpack_inj {x y : Float} (same : x.toModel.unpack = y.toModel.unpack) : x = y := by
  have bits := (unpack_inj_of_valid x.toModel.valid y.toModel.valid).1 same
  exact Float.toBits_inj.1 (UInt64.toBitVec_inj.1 bits)

/-- Besides the negative zero, only zero is equal to zero. -/
theorem eq_zero_of_beq {x : Float} (equal : x == 0) (positive : x ≠ -0) : x = 0 := by
  have compared : (x.toModel.unpack.compare (0 : Float).toModel.unpack == some .eq) = true := equal
  have unpacked : (0 : Float).toModel.unpack = .zero .positive := rfl
  rw [unpacked] at compared
  cases value : x.toModel.unpack with
  | notANumber => simp [value, UnpackedFloat.compare] at compared
  | infinity sign => cases sign <;> simp [value, UnpackedFloat.compare] at compared
  | finite sign mantissa exponent mantissaPositive =>
      cases sign <;> simp [value, UnpackedFloat.compare] at compared
  | zero sign =>
      cases sign with
      | positive => exact unpack_inj (value.trans unpacked.symm)
      | negative =>
          have negated : (-0 : Float).toModel.unpack = .zero .negative := rfl
          exact absurd (unpack_inj (value.trans negated.symm)) positive

end Zeros

end Lehce.Number
