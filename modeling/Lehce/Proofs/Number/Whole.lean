import Lehce.Number.Integral
import Lehce.Proofs.Number.Opposite

/-!
# Numbers that are integers

A 64-bit number is an integer when the number that it stands for is one, and `integer?` finds
that integer. Bits that are put together from a number of the format are taken apart into it
again, so every integer with at most 53 binary digits is a 64-bit number.
-/

namespace Lehce.Number

variable {x : Float} {n : Int} {s : Scaled} {negative : Bool}

/-- A number stands for an integer. -/
def IsInteger (x : Float) (n : Int) : Prop :=
  ∃ negative magnitude, parts x = .finite negative magnitude ∧
    (n : ℚ) = if negative then -magnitude.value else magnitude.value

theorem value_eq_of_nonneg (nonnegative : 0 ≤ s.exponent) :
    s.value = (s.significand * 2 ^ s.exponent.toNat : ℕ) := by
  have same : (s.exponent.toNat : ℤ) = s.exponent := Int.toNat_of_nonneg nonnegative
  rw [Scaled.value, Nat.cast_mul, Nat.cast_pow, Nat.cast_ofNat, ← zpow_natCast, same]

theorem value_eq_of_neg (negative : s.exponent < 0) :
    s.value = s.significand / (2 ^ (-s.exponent).toNat : ℕ) := by
  have same : ((-s.exponent).toNat : ℤ) = -s.exponent := Int.toNat_of_nonneg (by omega)
  rw [Scaled.value, Nat.cast_pow, Nat.cast_ofNat, ← zpow_natCast, same, zpow_neg, div_inv_eq_mul]

theorem value_nonneg (s : Scaled) : 0 ≤ s.value := by
  unfold Scaled.value
  positivity

theorem whole?_eq_some_iff {n : ℕ} : s.whole? = some n ↔ (n : ℚ) = s.value := by
  unfold Scaled.whole?
  by_cases nonnegative : 0 ≤ s.exponent
  · rw [if_pos nonnegative, value_eq_of_nonneg nonnegative, Nat.cast_inj, Option.some_inj]
    exact eq_comm
  · have positive : 0 < 2 ^ (-s.exponent).toNat := Nat.two_pow_pos _
    rw [if_neg nonnegative, value_eq_of_neg (not_le.1 nonnegative),
      eq_div_iff (by exact_mod_cast positive.ne'), ← Nat.cast_mul, Nat.cast_inj]
    simp only [Nat.pow_eq]
    constructor
    · intro found
      split at found
      · rename_i whole
        cases found
        exact Nat.div_mul_cancel (Nat.dvd_of_mod_eq_zero whole)
      · cases found
    · intro same
      rw [← same, Nat.mul_mod_left, if_pos rfl, Nat.mul_div_cancel _ positive]

theorem integer?_finite {magnitude : Scaled} (finite : parts x = .finite negative magnitude) :
    integer? x =
      magnitude.whole?.map fun whole : ℕ => if negative then -(whole : ℤ) else whole := by
  cases found : magnitude.whole? <;> simp [integer?, finite, found]

/-- The integer that is found is the one that the number stands for. -/
theorem integer?_eq_some_iff : integer? x = some n ↔ IsInteger x n := by
  cases taken : parts x with
  | nan => simp [integer?, IsInteger, taken]
  | infinite negative => simp [integer?, IsInteger, taken]
  | finite negative magnitude =>
      have nonnegative := value_nonneg magnitude
      rw [integer?_finite taken, Option.map_eq_some_iff]
      unfold IsInteger
      simp only [whole?_eq_some_iff, taken, Parts.finite.injEq, ↓existsAndEq, true_and]
      cases negative with
      | false =>
          simp only [Bool.false_eq_true, if_false]
          constructor
          · rintro ⟨whole, same, rfl⟩
            exact_mod_cast same
          · intro same
            have positive : 0 ≤ n := by
              rw [← same] at nonnegative
              exact_mod_cast nonnegative
            refine ⟨n.toNat, ?_, Int.toNat_of_nonneg positive⟩
            rw [← same]
            exact_mod_cast Int.toNat_of_nonneg positive
      | true =>
          simp only [if_true]
          constructor
          · rintro ⟨whole, same, rfl⟩
            rw [← same]
            simp
          · intro same
            have negated : magnitude.value = (-n : ℤ) := by
              rw [Int.cast_neg, same, neg_neg]
            have positive : 0 ≤ -n := by
              rw [negated] at nonnegative
              exact_mod_cast nonnegative
            refine ⟨(-n).toNat, ?_, by omega⟩
            rw [negated]
            exact_mod_cast Int.toNat_of_nonneg positive

theorem IsInteger.unique {m : Int} (first : IsInteger x n) (second : IsInteger x m) : n = m :=
  Option.some_inj.1 ((integer?_eq_some_iff.2 first).symm.trans (integer?_eq_some_iff.2 second))

section Assembling

open Float.Model UnpackedFloat

/-- Bits stay as they are unless they are those of the number that is none. -/
theorem toBits_ofBits {bits : UInt64} (proper : bits.toNat / 2 ^ 52 % 2 ^ 11 ≠ 2047) :
    (Float.ofBits bits).toBits = bits := by
  apply UInt64.toBitVec_inj.1
  have packed : (Float.ofBits bits).toBits.toBitVec = UnpackedFloat.pack Format.binary64
      (UnpackedFloat.unpack Format.binary64 bits.toBitVec) := rfl
  rw [packed, pack_unpack_of_valid]
  constructor
  intro full
  rw [← toNat_unpackExponent] at proper
  exact absurd (congrArg BitVec.toNat full) proper

end Assembling

/-- The sign, the exponent field and the fraction of the bits of a number of the format. -/
theorem assembleBits_fields (holds : Format.double.Holds s) :
    assembleBits negative s < 2 ^ 64 ∧
      assembleBits negative s / 2 ^ 63 = negative.toNat ∧
      assembleBits negative s / 2 ^ 52 % 2 ^ 11 =
        (if s.significand < 2 ^ 52 then 0 else (s.exponent + 1075).toNat) ∧
      assembleBits negative s % 2 ^ 52 =
        if s.significand < 2 ^ 52 then s.significand else s.significand - 2 ^ 52 := by
  rcases holds with ⟨precise, least, greatest, normal⟩
  simp only [Format.double] at precise least greatest normal
  have sign : (if negative then 2 ^ 63 else 0) = negative.toNat * 2 ^ 63 := by
    cases negative <;> rfl
  have bound : negative.toNat ≤ 1 := Bool.toNat_le negative
  simp only [assembleBits, Nat.pow_eq, sign]
  split <;> omega

/-- A number of the format that is put together is taken apart into itself. -/
theorem parts_assemble (holds : Format.double.Holds s) :
    parts (assemble negative s) = .finite negative s := by
  rcases @assembleBits_fields s negative holds with ⟨bound, sign, field, fraction⟩
  rcases holds with ⟨precise, least, greatest, normal⟩
  simp only [Format.double] at precise least greatest normal
  have bits : (assembleBits negative s).toUInt64.toNat = assembleBits negative s := by
    rw [Nat.toUInt64, UInt64.toNat_ofNat', Nat.mod_eq_of_lt bound]
  have proper : assembleBits negative s / 2 ^ 52 % 2 ^ 11 ≠ 2047 := by
    rw [field]
    split <;> omega
  have signed : decide (negative.toNat = 1) = negative := by cases negative <;> rfl
  unfold parts assemble
  rw [toBits_ofBits (by rwa [bits]), bits]
  simp only [Nat.pow_eq]
  rw [if_neg proper]
  simp only [field, fraction, sign, signed]
  by_cases small : s.significand < 2 ^ 52
  · have lowest : -1074 = s.exponent := (normal small).symm
    simp only [small, if_true]
    rw [lowest]
  · have above : (s.exponent + 1075).toNat ≠ 0 := by omega
    have exponent : Int.ofNat (s.exponent + 1075).toNat - 1075 = s.exponent := by
      rw [Int.ofNat_eq_natCast]
      omega
    simp only [small, above, if_false, exponent]
    rw [Nat.add_sub_cancel' (not_lt.1 small)]

/-- A natural number of at most 53 binary digits is a number of the format. -/
theorem exists_holds {n : ℕ} (fits : n ≤ 2 ^ 53) :
    ∃ s : Scaled, Format.double.Holds s ∧ (n : ℚ) = s.value := by
  rcases Nat.eq_zero_or_pos n with rfl | positive
  · exact ⟨⟨0, -1074⟩, ⟨by decide, by decide, .inl rfl, fun _ => rfl⟩, by simp [Scaled.value]⟩
  rcases Nat.lt_or_eq_of_le fits with below | rfl
  · have lower : 2 ^ n.log2 ≤ n := Nat.log2_self_le positive.ne'
    have upper : n < 2 ^ (n.log2 + 1) := Nat.lt_log2_self
    have width : n.log2 ≤ 52 := by
      have : n.log2 < 53 := (Nat.log2_lt positive.ne').2 below
      omega
    have whole : 2 ^ 53 = 2 ^ (n.log2 + 1) * 2 ^ (52 - n.log2) := by
      rw [← pow_add]
      congr 1
      omega
    have half : 2 ^ 52 = 2 ^ n.log2 * 2 ^ (52 - n.log2) := by
      rw [← pow_add]
      congr 1
      omega
    refine ⟨⟨n * 2 ^ (52 - n.log2), (n.log2 : ℤ) - 52⟩, ⟨?_, ?_, .inr ?_, ?_⟩, ?_⟩
    · show n * 2 ^ (52 - n.log2) < 2 ^ 53
      rw [whole]
      exact Nat.mul_lt_mul_of_pos_right upper (Nat.two_pow_pos _)
    · simp only [Format.double]
      omega
    · simp only [Format.double]
      omega
    · intro small
      have large : 2 ^ 52 ≤ n * 2 ^ (52 - n.log2) := by
        rw [half]
        exact Nat.mul_le_mul_right _ lower
      exact absurd small (not_lt.2 large)
    · have exponent : ((52 - n.log2 : ℕ) : ℤ) + ((n.log2 : ℤ) - 52) = 0 := by omega
      rw [Scaled.value, Nat.cast_mul, Nat.cast_pow, Nat.cast_ofNat, mul_assoc, ← zpow_natCast,
        ← zpow_add₀ two_ne_zero, exponent, zpow_zero, mul_one]
  · refine ⟨⟨2 ^ 52, 1⟩, ⟨by decide, by decide, .inr (by decide), fun small => ?_⟩, ?_⟩
    · exact absurd small (lt_irrefl _)
    · norm_num [Scaled.value]

theorem parts_ofQuotient {num den : ℕ} (holds : Format.double.Holds s) (positive : 0 < den)
    (equal : (num : ℚ) / den = s.value) :
    parts (ofQuotient negative num den) = .finite negative s := by
  rw [ofQuotient, nearest_eq_self holds (by decide) positive equal]
  exact parts_assemble holds

/-- An integer of at most 53 binary digits is a 64-bit number. -/
theorem isInteger_ofInt (fits : n.natAbs ≤ 2 ^ 53) : IsInteger (ofInt n) n := by
  rcases exists_holds fits with ⟨s, holds, same⟩
  refine ⟨decide (n < 0), s, parts_ofQuotient holds Nat.one_pos (by simpa using same), ?_⟩
  rw [← same]
  by_cases negative : n < 0
  · rw [if_pos (decide_eq_true negative), ← Int.cast_natCast, Int.natCast_natAbs,
      abs_of_neg negative, Int.cast_neg, neg_neg]
  · rw [if_neg (by simpa using negative), ← Int.cast_natCast, Int.natCast_natAbs,
      abs_of_nonneg (not_lt.1 negative)]

end Lehce.Number
