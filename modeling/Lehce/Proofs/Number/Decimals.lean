import Lehce.Proofs.Number.Exact
import Lehce.Proofs.Token.Spelling

/-!
# Decimal numerals without underscores

A decimal numeral is made of digits, a fraction and an exponent. The reader of floating-point
numbers scales its digits by a power of ten, whatever mark its exponent has.
-/

namespace Lehce.Number

variable {digits whole fraction places power : List Char} {exponent : ℤ}

/-- Some characters are decimal digits. -/
def AllDigits (chars : List Char) : Prop := ∀ c ∈ chars, c.isDigit = true

/-- A fraction with its point, and its digits. -/
inductive IsPoint : List Char → List Char → Prop where
  | none : IsPoint [] []
  | some {digits : List Char} (allDigits : AllDigits digits) (nonempty : digits ≠ []) :
      IsPoint ('.' :: digits) digits

/-- An exponent with its mark, and its value. -/
inductive IsPower : List Char → ℤ → Prop where
  | none : IsPower [] 0
  | some {mark : Char} {sign digits : List Char} (isMark : mark = 'e' ∨ mark = 'E')
      (isSign : sign ∈ [[], ['+'], ['-']]) (allDigits : AllDigits digits)
      (nonempty : digits ≠ []) :
      IsPower (mark :: sign ++ digits)
        (if sign = ['-'] then -(Nat.ofDigitChars 10 digits 0 : ℤ) else Nat.ofDigitChars 10 digits 0)

section Digits

theorem digitValue_of_isDigit {c : Char} (digit : c.isDigit = true) :
    digitValue? c = some (c.toNat - '0'.toNat) ∧ c.toNat - '0'.toNat < 10 := by
  simp only [Char.isDigit, Bool.and_eq_true, decide_eq_true_eq] at digit
  have low : '0' ≤ c := digit.1
  have high : c ≤ '9' := digit.2
  refine ⟨by simp [digitValue?, low, high], ?_⟩
  have bound : c.toNat ≤ 57 := digit.2
  show c.toNat - 48 < 10
  omega

theorem positionalValue_of_digits (allDigits : ∀ c ∈ digits, c.isDigit = true) :
    positionalValue? 10 digits = some (Nat.ofDigitChars 10 digits 0) := by
  have general : ∀ value : Nat, digits.foldl (fun value c => do
      let value ← value
      let digit ← digitValue? c
      if digit < 10 then some (value * 10 + digit) else none) (some value) =
        some (Nat.ofDigitChars 10 digits value) := by
    induction digits with
    | nil => simp
    | cons c digits ih =>
        intro value
        rcases digitValue_of_isDigit (allDigits c List.mem_cons_self) with ⟨known, small⟩
        have others := ih (fun c member => allDigits c (List.mem_cons_of_mem _ member))
          (value * 10 + (c.toNat - '0'.toNat))
        simp only [List.foldl_cons, known, Option.bind_eq_bind, Option.bind_some, small, if_true,
          Nat.ofDigitChars_cons]
        rw [Nat.mul_comm 10 value]
        exact others
  exact general 0

theorem ne_underscore_of_isDigit {c : Char} (digit : c.isDigit = true) : c ≠ '_' := by
  rintro rfl
  cases digit

end Digits

section Mantissa

/-- Digits belong to the mantissa. -/
theorem readMantissa_append (allDigits : AllDigits digits) (point : Bool) (tail : List Char) :
    readMantissa Char.isDigit point (digits ++ tail) =
      ⟨digits ++ (readMantissa Char.isDigit point tail).digits,
        (if point then digits.length else 0) + (readMantissa Char.isDigit point tail).places,
        (readMantissa Char.isDigit point tail).rest⟩ := by
  induction digits with
  | nil => simp
  | cons c digits ih =>
      have digit := allDigits c List.mem_cons_self
      have others := ih fun d member => allDigits d (List.mem_cons_of_mem _ member)
      have noPoint : c ≠ '.' := by
        rintro rfl
        cases digit
      simp only [List.cons_append, readMantissa, ne_underscore_of_isDigit digit, noPoint, digit,
        others, if_false, if_true, false_and]
      cases point <;> simp [Nat.add_right_comm]

/-- An exponent does not belong to the mantissa. -/
theorem readMantissa_power (isPower : IsPower power exponent) (point : Bool) :
    readMantissa Char.isDigit point power = ⟨[], 0, power⟩ := by
  cases isPower with
  | none => rfl
  | some isMark => rcases isMark with rfl | rfl <;> rfl

theorem readMantissa_plain (allDigits : AllDigits whole) (isPoint : IsPoint fraction places)
    (isPower : IsPower power exponent) :
    readMantissa Char.isDigit false (whole ++ fraction ++ power) =
      ⟨whole ++ places, places.length, power⟩ := by
  rw [List.append_assoc, readMantissa_append allDigits]
  cases isPoint with
  | none => simp [readMantissa_power isPower]
  | some placesDigits =>
      have behind := readMantissa_append placesDigits true power
      rw [readMantissa_power isPower] at behind
      simp [readMantissa, behind]

end Mantissa

section Reading

/-- Digits have no sign. -/
theorem splitSign_of_digit (allDigits : AllDigits digits) : splitSign digits = (false, digits) := by
  unfold splitSign
  split
  · cases allDigits '-' List.mem_cons_self
  · cases allDigits '+' List.mem_cons_self
  · rfl

/-- An exponent is read as it is written. -/
theorem readExponent_sign {sign : List Char} (isSign : sign ∈ [[], ['+'], ['-']])
    (allDigits : AllDigits digits) (nonempty : digits ≠ []) :
    readExponent (sign ++ digits) = some
      (if sign = ['-'] then -(Nat.ofDigitChars 10 digits 0 : ℤ) else Nat.ofDigitChars 10 digits 0,
        []) := by
  have run : (digits.takeWhile fun c => c.isDigit || decide (c = '_')) = digits :=
    List.takeWhile_eq_self_iff.2 fun c member => by simp [allDigits c member]
  have kept : digits.filter (fun c => decide (c ≠ '_')) = digits :=
    List.filter_eq_self.2 fun c member => by
      simpa using ne_underscore_of_isDigit (allDigits c member)
  have split : splitSign (sign ++ digits) = (decide (sign = ['-']), digits) := by
    simp only [List.mem_cons, List.not_mem_nil, or_false] at isSign
    rcases isSign with rfl | rfl | rfl
    · rw [List.nil_append, splitSign_of_digit allDigits]
      rfl
    · rfl
    · rfl
  rcases digits with _ | ⟨first, others⟩
  · exact absurd rfl nonempty
  · have digit := allDigits first List.mem_cons_self
    simp only [readExponent, split, digit, run, kept, positionalValue_of_digits allDigits,
      if_true, Option.getD_some, List.drop_length, decide_eq_true_eq]

/-- The digits of a numeral are scaled by a power of ten. -/
theorem readDecimalFloat_plain (allDigits : AllDigits whole) (isPoint : IsPoint fraction places)
    (isPower : IsPower power exponent) (nonempty : whole ++ places ≠ []) :
    readDecimalFloat .double false (whole ++ fraction ++ power) =
      scaledValue .double false (Nat.ofDigitChars 10 (whole ++ places) 0) 10
        (exponent - places.length) := by
  have digits : AllDigits (whole ++ places) := by
    intro c member
    rcases List.mem_append.1 member with inWhole | inPlaces
    · exact allDigits c inWhole
    · cases isPoint with
      | none => cases inPlaces
      | some placesDigits => exact placesDigits c inPlaces
  have start : (whole ++ places).isEmpty = false := by simpa using nonempty
  simp only [readDecimalFloat, readMantissa_plain allDigits isPoint isPower, start,
    positionalValue_of_digits digits, Bool.false_eq_true, if_false, Option.getD_some]
  cases isPower with
  | none => rw [Int.zero_sub]
  | some isMark isSign powerDigits powerNonempty =>
      simp only [List.cons_append, isMark, if_true,
        readExponent_sign isSign powerDigits powerNonempty]

/-- What a numeral without underscores is made of. -/
theorem isPart_of_mem (allDigits : AllDigits whole) (isPoint : IsPoint fraction places)
    (isPower : IsPower power exponent) :
    ∀ c ∈ whole ++ fraction ++ power, c.isDigit = true ∨ c ∈ ['.', 'e', 'E', '+', '-'] := by
  intro c member
  rcases List.mem_append.1 member with member | inPower
  · rcases List.mem_append.1 member with inWhole | inFraction
    · exact .inl (allDigits c inWhole)
    · cases isPoint with
      | none => cases inFraction
      | some placesDigits =>
          rcases List.mem_cons.1 inFraction with rfl | inPlaces
          · exact .inr (by decide)
          · exact .inl (placesDigits c inPlaces)
  · cases isPower with
    | none => cases inPower
    | @some mark sign digits isMark isSign powerDigits powerNonempty =>
        rcases List.mem_append.1 inPower with inSign | inDigits
        · simp only [List.mem_cons, List.not_mem_nil, or_false] at isSign
          have small : c ∈ mark :: sign → c ∈ ['.', 'e', 'E', '+', '-'] := by
            rcases isSign with rfl | rfl | rfl <;> rcases isMark with rfl | rfl <;> grind
          exact .inr (small inSign)
        · exact .inl (powerDigits c inDigits)

/-- A numeral without underscores is read as a decimal one. -/
theorem readFloat_plain (allDigits : AllDigits whole) (isPoint : IsPoint fraction places)
    (isPower : IsPower power exponent) (nonempty : whole ++ places ≠ []) :
    readFloat .double (whole ++ fraction ++ power) =
      scaledValue .double false (Nat.ofDigitChars 10 (whole ++ places) 0) 10
        (exponent - places.length) := by
  rw [← readDecimalFloat_plain allDigits isPoint isPower nonempty]
  have parts := isPart_of_mem allDigits isPoint isPower
  have first : ∃ c rest, whole ++ fraction ++ power = c :: rest ∧ (c.isDigit = true ∨ c = '.') := by
    rcases whole with _ | ⟨c, whole⟩
    · cases isPoint with
      | none => exact absurd rfl nonempty
      | some => exact ⟨_, _, rfl, .inr rfl⟩
    · exact ⟨c, _, rfl, .inl (allDigits c List.mem_cons_self)⟩
  rcases first with ⟨c, rest, split, start⟩
  rw [split] at parts ⊢
  have plain : c ≠ '-' ∧ c ≠ '+' ∧ c.toLower ≠ 'i' ∧ c.toLower ≠ 'n' := by
    rcases start with digit | rfl
    · rcases Token.exists_of_isDigit digit with ⟨n, small, rfl⟩
      clear parts split digit
      revert n
      decide
    · decide
  rcases plain with ⟨noMinus, noPlus, noInfinity, noNan⟩
  have unsigned : splitSign (c :: rest) = (false, c :: rest) := by
    simp [splitSign, noMinus, noPlus]
  have noUnderscore : (c :: rest).contains '_' = false := by
    rw [List.contains_eq_mem, decide_eq_false_iff_not]
    intro member
    rcases parts '_' member with digit | other
    · cases digit
    · exact absurd other (by decide)
  unfold readFloat
  simp only [unsigned, noUnderscore, Bool.false_eq_true, false_and, if_false]
  have noWord : ∀ word : String, word.toList.head? ≠ some c.toLower →
      sameLetters (c :: rest) word = false := by
    intro word other
    rw [sameLetters, decide_eq_false_iff_not]
    intro same
    rw [← same] at other
    exact other rfl
  rw [noWord "inf" (by simp [Ne.symm noInfinity]), noWord "infinity" (by simp [Ne.symm noInfinity]),
    noWord "nan" (by simp [Ne.symm noNan])]
  simp only [Bool.false_eq_true, or_self, if_false]
  split
  · rename_i mark more same
    have noMark : ¬(mark = 'x' ∨ mark = 'X') := by
      have part := parts mark (by simp [same])
      rintro (rfl | rfl) <;> revert part <;> decide
    rw [if_neg noMark]
  · rfl

end Reading

end Lehce.Number
