import Lehce.Number.Numeral
import Mathlib.Data.Nat.Digits.Lemmas

/-!
# What digits denote

Digits of a base denote their positional value. The reader of 64-bit integers gives this value
when it is below `2^63`, and otherwise it refuses the digits as out of range.
-/

namespace Lehce.Number

variable {base : ℕ} {digits rest : List Char} {c : Char}

/-- The positional value of digits of a base; what is no digit does not count. -/
def positional (base : ℕ) (digits : List Char) : ℕ :=
  Nat.ofDigits base (digits.filterMap digitValue?).reverse

/-- Some characters are digits of a base. -/
def AreDigits (base : ℕ) (digits : List Char) : Prop :=
  ∀ c ∈ digits, ∃ digit < base, digitValue? c = some digit

theorem AreDigits.tail (areDigits : AreDigits base (c :: rest)) : AreDigits base rest :=
  fun d member => areDigits d (List.mem_cons_of_mem _ member)

theorem AreDigits.length_values (areDigits : AreDigits base digits) :
    (digits.filterMap digitValue?).length = digits.length := by
  induction digits with
  | nil => rfl
  | cons c digits ih =>
      rcases areDigits c List.mem_cons_self with ⟨digit, -, known⟩
      rw [List.filterMap_cons_some known, List.length_cons, List.length_cons, ih areDigits.tail]

/-- The first digit counts most. -/
theorem positional_cons {digit : ℕ} (known : digitValue? c = some digit)
    (areDigits : AreDigits base rest) :
    positional base (c :: rest) = digit * base ^ rest.length + positional base rest := by
  rw [positional, positional, List.filterMap_cons_some known, List.reverse_cons,
    Nat.ofDigits_append, Nat.ofDigits_singleton, List.length_reverse, areDigits.length_values,
    Nat.add_comm, Nat.mul_comm]

theorem positionalValue?_singleton {digit : ℕ} (known : digitValue? c = some digit)
    (fits : digit < base) : positionalValue? base [c] = some digit := by
  simp [positionalValue?, known, fits]

/-- Digits go on from a value to their positional one, unless that is too large. -/
theorem boundedValue_digits {most : ℕ} (positive : 0 < base) (areDigits : AreDigits base digits)
    {value : ℕ} (small : value ≤ most) :
    boundedValue base most value digits =
      if value * base ^ digits.length + positional base digits ≤ most then
        .ok (value * base ^ digits.length + positional base digits)
      else .error .outOfRange := by
  induction digits generalizing value with
  | nil => simp [boundedValue, positional, small]
  | cons c rest ih =>
      rcases areDigits c List.mem_cons_self with ⟨digit, fits, known⟩
      have whole : value * base ^ (c :: rest).length + positional base (c :: rest) =
          (value * base + digit) * base ^ rest.length + positional base rest := by
        rw [positional_cons known areDigits.tail, List.length_cons]
        ring
      rw [boundedValue, positionalValue?_singleton known fits, whole]
      simp only
      by_cases large : most < value * base + digit
      · -- what is too large before the last digit is too large behind it
        have grows : value * base + digit ≤ (value * base + digit) * base ^ rest.length :=
          Nat.le_mul_of_pos_right _ (Nat.pow_pos positive)
        rw [if_pos large, if_neg (by omega)]
      · rw [if_neg large, ih areDigits.tail (not_lt.1 large)]

/-- Digits are read as their positional value when it is an integer of 64 bits. -/
theorem readInteger_digits (positive : 0 < base) (areDigits : AreDigits base digits)
    (nonempty : digits ≠ []) :
    readInteger base 64 digits =
      if positional base digits < 2 ^ 63 then .ok (positional base digits)
      else .error .outOfRange := by
  have unsigned : splitSign digits = (false, digits) := by
    unfold splitSign
    split
    · rcases areDigits '-' List.mem_cons_self with ⟨_, _, known⟩
      cases known
    · rcases areDigits '+' List.mem_cons_self with ⟨_, _, known⟩
      cases known
    · rfl
  have start : digits.isEmpty = false := by simpa using nonempty
  have read := @boundedValue_digits base digits (Nat.pow 2 64 - 1) positive areDigits 0
    (Nat.zero_le _)
  rw [Nat.zero_mul, Nat.zero_add] at read
  simp only [readInteger, unsigned, readNatural, start, Bool.false_eq_true, if_false, read]
  simp only [Nat.pow_eq, Nat.reducePow, Nat.reduceSub]
  by_cases most : positional base digits ≤ 18446744073709551615
  · rw [if_pos most]
  · rw [if_neg most, if_neg (by omega)]

end Lehce.Number
