import Lehce.Proofs.Number.Exact
import Lehce.Proofs.Token.NumeralReading

/-!
# Decimal expansions

Every finite number has a decimal expansion: its significand times a power of two or
of five, over a power of ten. Written out as digits and an exponent, it is a numeral
that denotes the number exactly, so every finite number that is not negative has a
numeral, and every negative one is the opposite of a number that has one.
-/

namespace Lehce.Number

/-- A quotient by a power of ten that is a number of the format is scaled to that number. -/
theorem scaledValue_of_equal {x : Float} {magnitude : Scaled} {digits power : Nat}
    (finite : parts x = .finite false magnitude) (near : power ≤ 1074)
    (equal : (digits : ℚ) / 10 ^ power = magnitude.value) :
    scaledValue .double false digits 10 (-(power : Int)) = .ok x := by
  have tenPositive : 0 < 10 ^ power := Nat.pow_pos (by decide)
  have castEqual : (digits : ℚ) / ((10 ^ power : Nat) : ℚ) = magnitude.value := by
    rw [← equal]
    push_cast
    rfl
  have zeroPower : (-(power : Int)).toNat = 0 := by omega
  have samePower : (-(-(power : Int))).toNat = power := by omega
  unfold scaledValue
  simp only
  split
  · rename_i low
    have zero : digits = 0 := by omega
    subst zero
    have found : ofQuotient false 0 1 = x := by
      refine ofQuotient_parts finite Nat.one_pos ?_
      rw [← equal]
      simp
    rw [found]
  · split
    · omega
    · simp only [zeroPower, samePower, Nat.pow_eq, Nat.pow_zero, Nat.mul_one,
        nearest_eq_self (assemble_parts finite).1 (by decide) tenPositive castEqual]
      rw [ofQuotient_parts finite (quotient_positive magnitude) (value_quotient magnitude)]

/-- Every finite number is a quotient by a power of ten. -/
theorem exists_decimal {x : Float} {magnitude : Scaled}
    (finite : parts x = .finite false magnitude) :
    ∃ digits power : Nat, power ≤ 1074 ∧ (digits : ℚ) / 10 ^ power = magnitude.value := by
  have least := (assemble_parts finite).1.least
  rcases magnitude with ⟨significand, exponent⟩
  simp only [Format.double] at least
  by_cases negative : exponent < 0
  · -- a power of two below one is the same power of five over one of ten
    have scale : (2 : ℚ) ^ exponent = (2 ^ (-exponent).toNat)⁻¹ := by
      rw [← zpow_natCast, ← zpow_neg]
      congr 1
      omega
    refine ⟨significand * 5 ^ (-exponent).toNat, (-exponent).toNat, by omega, ?_⟩
    have ten : (10 : ℚ) = 5 * 2 := by norm_num
    rw [Scaled.value, scale, ten, mul_pow]
    push_cast
    field_simp
  · have scale : (2 : ℚ) ^ exponent = 2 ^ exponent.toNat := by
      rw [← zpow_natCast]
      congr 1
      omega
    refine ⟨significand * 2 ^ exponent.toNat, 0, by omega, ?_⟩
    rw [Scaled.value, scale]
    push_cast
    simp

end Lehce.Number

namespace Lehce.Token

theorem head_toDigits {n : Nat} (positive : 0 < n) : (Nat.toDigits 10 n).head? ≠ some '0' := by
  induction n using Nat.strongRecOn with
  | ind n ih =>
      by_cases small : n < 10
      · rw [Nat.toDigits_of_lt_base small]
        have nine : ∀ n < 10, 0 < n → [n.digitChar].head? ≠ some '0' := by decide
        exact nine n small positive
      · rw [Nat.toDigits_of_base_le (by decide) (by omega)]
        rw [List.head?_append_of_ne_nil _ Nat.toDigits_ne_nil]
        exact ih (n / 10) (by omega) (by omega)

/-- Every finite number that is not negative has a numeral. -/
theorem exists_numeral {x : Float} {magnitude : Number.Scaled}
    (finite : Number.parts x = .finite false magnitude) :
    ∃ chars, (Kind.double x).IsSpelled chars := by
  rcases Number.exists_decimal finite with ⟨digits, power, near, equal⟩
  have allDigits : ∀ n, Number.AllDigits (Nat.toDigits 10 n) := fun n c member =>
    Nat.isDigit_of_mem_toDigits (by decide) (by decide) member
  have isExponent := IsExponent.some (.inl rfl) (by simp : ['-'] ∈ [[], ['+'], ['-']])
    (isDigits_of_allDigits (allDigits power) Nat.toDigits_ne_nil)
  have isPower := Number.IsPower.some (.inl rfl) (by simp : ['-'] ∈ [[], ['+'], ['-']])
    (allDigits power) Nat.toDigits_ne_nil
  have read := Number.readFloat_plain (allDigits digits) .none isPower
    (by simp [Nat.toDigits_ne_nil])
  rw [if_pos rfl, List.append_nil, Nat.ofDigitChars_ten_toDigits, Nat.ofDigitChars_ten_toDigits,
    List.length_nil, Nat.cast_zero, Int.sub_zero,
    Number.scaledValue_of_equal finite near equal] at read
  have literal := decimalLiteral_parts (isRun_of_allDigits (allDigits digits)) .none isExponent
  simp only [digitsOf_of_allDigits (allDigits digits), digitsOf_of_allDigits (allDigits power),
    List.append_nil, decimalKind?, read] at literal
  -- the digits have no leading zero unless there is just one of them
  have plain : ∀ c more, Nat.toDigits 10 digits ++ ('e' :: ['-'] ++ Nat.toDigits 10 power) =
      '0' :: c :: more → c.isDigit = false ∧ c ∉ ['x', 'X', 'b', 'B', 'o', 'O', '_'] := by
    intro c more same
    rcases Nat.eq_zero_or_pos digits with rfl | positive
    · cases same
      decide
    · have first := head_toDigits positive
      rw [← List.head?_append_of_ne_nil _ Nat.toDigits_ne_nil, same] at first
      exact absurd rfl first
  have starts : startsNumeral (Nat.toDigits 10 digits ++ ('e' :: ['-'] ++ Nat.toDigits 10 power)) =
      true := by
    rcases split : Nat.toDigits 10 digits with _ | ⟨first, others⟩
    · exact absurd split Nat.toDigits_ne_nil
    · exact startsNumeral_of_isDigit (allDigits digits first (by simp [split])) _
  exact ⟨_, .numeral starts ((numeral_of_plain plain).trans literal)⟩

end Lehce.Token
