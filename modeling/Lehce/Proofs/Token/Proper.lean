import Lehce.Proofs.Number.Nearest
import Lehce.Proofs.Program.Reading
import Lehce.Token.Scan

/-!
# The numbers of tokens

A decimal literal keeps only digits, a point and an exponent mark with its sign, so it
never spells the word for no number: the token of every literal holds a number, and
every program that is read from a source is shaped with numbers for its literals.
-/

namespace Lehce

namespace Token

/-- The characters that a decimal literal keeps. -/
def isNumeralPart (c : Char) : Bool := c.isDigit || c == '.' || c == 'e' || c == '+' || c == '-'

/-- Whether all characters that a run has kept are parts of a decimal literal. -/
def Run.IsDecimal (run : Run) : Prop := ∀ c ∈ run.kept, isNumeralPart c = true

theorem isDecimal_decimalRun (chars : List Char) : (decimalRun chars).IsDecimal := by
  intro c member
  simp only [decimalRun, List.mem_filter] at member
  have part := List.all_eq_true.1 List.all_takeWhile c member.1
  simp only [Bool.or_eq_true, beq_iff_eq] at part
  rcases part with digit | underscore
  · simp [isNumeralPart, digit]
  · simp [underscore] at member

theorem isDecimal_withFraction {run : Run} (decimal : run.IsDecimal) :
    (withFraction run).1.IsDecimal := by
  unfold withFraction
  split
  · split
    · intro c member
      simp only [List.mem_append, List.mem_cons] at member
      rcases member with early | point | late
      · exact decimal c early
      · simp [isNumeralPart, point]
      · exact isDecimal_decimalRun _ c late
    · exact decimal
  · exact decimal

theorem isDecimal_extended {run : Run} (decimal : run.IsDecimal) {sign : List Char}
    (signed : ∀ c ∈ sign, isNumeralPart c = true) (chars : List Char) (length : Nat)
    (rest : List Char) :
    (Run.mk (run.kept ++ 'e' :: sign ++ (decimalRun chars).kept) length rest).IsDecimal := by
  intro c member
  simp only [List.mem_append, List.mem_cons] at member
  rcases member with (early | mark | signs) | late
  · exact decimal c early
  · simp [isNumeralPart, mark]
  · exact signed c signs
  · exact isDecimal_decimalRun _ c late

theorem isDecimal_withExponent {run : Run} (decimal : run.IsDecimal) :
    (withExponent run).1.IsDecimal := by
  unfold withExponent
  simp only
  split
  · split
    · split
      · exact isDecimal_extended decimal (by simp) _ _ _
      · split
        · rename_i sign
          split
          · split
            · refine isDecimal_extended decimal ?_ _ _ _
              simp only [List.mem_singleton, forall_eq]
              rcases sign with rfl | rfl <;> rfl
            · exact decimal
          · exact decimal
        · exact decimal
    · exact decimal
  · exact decimal

theorem toLower_of_isDigit {c : Char} (digit : c.isDigit = true) : c.toLower = c := by
  simp only [Char.isDigit, Bool.and_eq_true, decide_eq_true_eq] at digit
  have notUpper : ¬(c.val ≥ 'A'.val ∧ c.val ≤ 'Z'.val) := fun upper =>
    absurd (UInt32.le_trans upper.1 digit.2) (by decide)
  simp only [Char.toLower, notUpper, dite_false]

/-- What a decimal literal keeps does not spell the word for no number. -/
theorem sameLetters_of_isDecimal {run : Run} (decimal : run.IsDecimal) :
    Number.sameLetters run.kept "nan" = false := by
  cases kept : run.kept with
  | nil => rfl
  | cons c rest =>
      have part := decimal c (by simp [kept])
      have differs : c.toLower ≠ 'n' := by
        simp only [isNumeralPart, Bool.or_eq_true, beq_iff_eq] at part
        rcases part with (((digit | rfl) | rfl) | rfl) | rfl
        · rw [toLower_of_isDigit digit]
          rintro rfl
          cases digit
        all_goals decide
      simp [Number.sameLetters, differs]

theorem isProper_basedLiteral {base mark : Nat} {chars : List Char} {literal : Literal}
    (read : basedLiteral base mark chars = .ok literal) :
    literal.kind.IsProper Number.IsNumber := by
  simp only [basedLiteral, bind_eq_ok] at read
  rcases read with ⟨run, _, read⟩
  split at read
  · cases read
  · split at read
    · split at read
      · cases read
      · split at read <;> cases read
        trivial
    · split at read <;> cases read
      trivial

theorem isProper_decimalLiteral {chars : List Char} {literal : Literal}
    (read : decimalLiteral chars = .ok literal) : literal.kind.IsProper Number.IsNumber := by
  have decimal := isDecimal_withExponent (isDecimal_withFraction (isDecimal_decimalRun chars))
  simp only [decimalLiteral] at read
  split at read
  on_goal 1 => split at read
  on_goal 1 => cases read
  all_goals
    split at read
    · cases read
      trivial
    · split at read
      · rename_i value valueRead
        cases read
        exact Number.isNumber_readFloat valueRead (sameLetters_of_isDecimal decimal)
      · cases read

theorem isProper_numeral {chars : List Char} {literal : Literal}
    (read : numeral chars = .ok literal) : literal.kind.IsProper Number.IsNumber := by
  unfold numeral at read
  split at read
  · repeat' split at read
    all_goals first
      | exact isProper_basedLiteral read
      | exact isProper_decimalLiteral read
  · exact isProper_decimalLiteral read

/-- Whether the token of a step, if it has one, is proper. -/
def Step.IsProper (step : Step) : Prop :=
  ∀ token ∈ step.token, token.kind.IsProper Number.IsNumber

theorem isProper_scanWord (cursor : Cursor) : (scanWord cursor).IsProper := by
  intro token member
  simp only [scanWord, Option.mem_some_iff] at member
  subst member
  simp only [Cursor.token]
  split <;> trivial

theorem isProper_scanText {cursor : Cursor} {delimiter : Char} {rest : List Char} {step : Step}
    (read : scanText cursor delimiter rest = .ok step) : step.IsProper := by
  unfold scanText at read
  split at read
  · cases read
    rintro token ⟨⟩
    trivial
  · cases read

theorem isProper_scanNumeral {cursor : Cursor} {step : Step}
    (read : scanNumeral cursor = .ok step) : step.IsProper := by
  unfold scanNumeral at read
  split at read
  · rename_i literal literalRead
    cases read
    rintro token ⟨⟩
    exact isProper_numeral literalRead
  · cases read

theorem isProper_scanMark {colonAllowed : Bool} {cursor : Cursor} {c : Char} {rest : List Char}
    {step : Step} (read : scanMark colonAllowed cursor c rest = .ok step) : step.IsProper := by
  simp only [scanMark] at read
  split at read
  · cases read
    rintro token ⟨⟩
    trivial
  · split at read
    · cases read
      rintro token ⟨⟩
      trivial
    · split at read
      · cases read
        rintro token ⟨⟩
        trivial
      · cases read

/-- One step of scanning reads a proper token, if it reads one at all. -/
theorem isProper_scanStep {colonAllowed : Bool} {cursor : Cursor} {c : Char} {rest : List Char}
    {step : Step} (read : scanStep colonAllowed cursor c rest = .ok step) : step.IsProper := by
  simp only [scanStep] at read
  split at read
  · cases read
    rintro token ⟨⟩
    trivial
  split at read
  · cases read
    rintro token ⟨⟩
    trivial
  split at read
  · cases read
    rintro token ⟨⟩
    trivial
  split at read
  · cases read
    rintro token ⟨⟩
  split at read
  · unfold scanComment at read
    split at read
    · cases read
      rintro token ⟨⟩
    · cases read
  split at read
  · cases read
    exact isProper_scanWord cursor
  split at read
  · exact isProper_scanText read
  split at read
  · exact isProper_scanNumeral read
  · exact isProper_scanMark read

theorem isProper_scanFrom {steps : Nat} {cursor : Cursor} {earlier tokens : List Token}
    (proper : ∀ token ∈ earlier, token.kind.IsProper Number.IsNumber)
    (read : scanFrom steps cursor earlier = .ok tokens) :
    ∀ token ∈ tokens, token.kind.IsProper Number.IsNumber := by
  induction steps generalizing cursor earlier with
  | zero =>
      cases read
      simpa using proper
  | succ steps ih =>
      unfold scanFrom at read
      split at read
      · cases read
        simpa using proper
      · rw [bind_eq_ok] at read
        rcases read with ⟨step, stepRead, read⟩
        refine ih ?_ read
        intro token member
        rcases List.mem_append.1 member with new | old
        · exact isProper_scanStep stepRead token (Option.mem_toList.1 new)
        · exact proper token old

/-- All tokens of a source are proper. -/
theorem isProper_scan {source : String} {tokens : List Token} (read : scan source = .ok tokens) :
    ∀ token ∈ tokens, token.kind.IsProper Number.IsNumber :=
  isProper_scanFrom (by simp) read

end Token

theorem signless_isNumber : Signless Number.IsNumber where
  ofInt := Number.isNumber_ofInt
  neg _ := Number.isNumber_neg

/-- Every program that is read from a source is shaped, with numbers for its literals. -/
theorem Program.isShaped_ofSource {source : String} {program : Program}
    (read : Program.ofSource source = .ok program) : program.IsShaped Number.IsNumber := by
  rw [Program.ofSource, bind_eq_ok] at read
  rcases read with ⟨tokens, scanned, read⟩
  exact Program.isShaped_ofTokens signless_isNumber (Token.isProper_scan scanned) read

end Lehce
