import Lehce.Proofs.Token.Segment

/-!
# What is read of a numeral

A numeral is read in runs: the digits of a base behind its mark, or else the digits, the
fraction and the exponent of a decimal numeral, each as far as it goes. So what a literal has
passed over spells the number that it stands for (`numeral_spec`), and a refused one has
stopped behind characters of one line (`numeral_error`).
-/

namespace Lehce.Token

variable {text chars : List Char}

/-- Whether a run has passed over the characters at the front of a text. -/
structure Run.Passes (text front : List Char) (run : Run) : Prop where
  split : text = front ++ run.rest
  length : run.length = front.length

/-- Whether no digit and no underscore comes first in a text. -/
def EndsRun (text : List Char) : Prop := ∀ c ∈ text.head?, c.isDigit = false ∧ c ≠ '_'

theorem IsRun.unbroken (isRun : IsRun chars) : '\n' ∉ chars := by
  intro member
  rcases isRun _ member with digit | same <;> contradiction

theorem IsFraction.unbroken {kept : List Char} (isFraction : IsFraction kept chars) :
    '\n' ∉ chars := by
  cases isFraction with
  | none => simp
  | some isDigits =>
      rw [List.mem_cons, not_or]
      exact ⟨by decide, isDigits.2.unbroken⟩

theorem IsExponent.unbroken {kept : List Char} (isExponent : IsExponent kept chars) :
    '\n' ∉ chars := by
  cases isExponent with
  | none => simp
  | some isMark isSign isDigits =>
      rw [List.mem_append, not_or]
      refine ⟨?_, isDigits.2.unbroken⟩
      simp only [List.mem_cons, List.not_mem_nil, or_false] at isSign
      rcases isMark with rfl | rfl <;> rcases isSign with rfl | rfl | rfl <;> decide

theorem decimalRun_spec (text : List Char) :
    ∃ digits, (decimalRun text).Passes text digits ∧ IsRun digits ∧
      (decimalRun text).kept = digitsOf digits ∧ EndsRun (decimalRun text).rest := by
  let holds : Char → Bool := fun c => c.isDigit || c == '_'
  have rest : (decimalRun text).rest = text.dropWhile holds := by
    have whole : text = text.takeWhile holds ++ text.dropWhile holds :=
      List.takeWhile_append_dropWhile.symm
    have dropped := congrArg (List.drop (text.takeWhile holds).length) whole
    rw [List.drop_left] at dropped
    exact dropped
  refine ⟨text.takeWhile holds, ⟨?_, rfl⟩, ?_, rfl, ?_⟩
  · rw [rest, List.takeWhile_append_dropWhile]
  · intro c member
    have part := List.all_eq_true.1 List.all_takeWhile c member
    simpa [holds] using part
  · intro c first
    have stops := List.head?_dropWhile_not holds text
    rw [rest] at first
    rw [first] at stops
    simpa [holds] using stops

/-- A run of digits that starts with a digit. -/
theorem decimalRun_digits_spec {c : Char} (rest : List Char) (digit : c.isDigit = true) :
    ∃ digits, (decimalRun (c :: rest)).Passes (c :: rest) digits ∧ IsDigits digits ∧
      (decimalRun (c :: rest)).kept = digitsOf digits ∧ EndsRun (decimalRun (c :: rest)).rest := by
  rcases decimalRun_spec (c :: rest) with ⟨digits, passes, isRun, kept, ends⟩
  refine ⟨digits, passes, ⟨?_, isRun⟩, kept, ends⟩
  have split := passes.split
  rcases digits with _ | ⟨d, digits⟩
  · have stops := ends c (by rw [← List.nil_append (decimalRun (c :: rest)).rest, ← split]; rfl)
    rw [digit] at stops
    cases stops.1
  · rw [List.cons_append, List.cons.injEq] at split
    change d.isDigit = true
    rwa [← split.1]

theorem withFraction_spec {run : Run} {front : List Char} (passes : run.Passes text front)
    (ends : EndsRun run.rest) :
    ∃ fraction kept, (withFraction run).1.Passes text (front ++ fraction) ∧
      IsFraction kept fraction ∧ (withFraction run).1.kept = run.kept ++ kept ∧
      (withFraction run).2 = !fraction.isEmpty ∧ EndsRun (withFraction run).1.rest := by
  have unchanged : ∃ fraction kept, run.Passes text (front ++ fraction) ∧ IsFraction kept fraction ∧
      run.kept = run.kept ++ kept ∧ false = !fraction.isEmpty ∧ EndsRun run.rest :=
    ⟨[], [], by rwa [List.append_nil], .none, by rw [List.append_nil], rfl, ends⟩
  unfold withFraction
  split
  · rename_i c rest ahead
    split
    · rename_i digit
      rcases decimalRun_digits_spec rest digit with ⟨digits, inner, isDigits, kept, stops⟩
      refine ⟨'.' :: digits, _, ⟨?_, ?_⟩, .some isDigits, by rw [← kept], rfl, stops⟩
      · rw [passes.split, ahead, List.append_assoc, List.cons_append, ← inner.split]
      · simp only [passes.length, inner.length, List.length_append, List.length_cons]
        omega
    · exact unchanged
  · exact unchanged

theorem withExponent_spec {run : Run} {front : List Char} (passes : run.Passes text front)
    (ends : EndsRun run.rest) :
    ∃ exponent kept, (withExponent run).1.Passes text (front ++ exponent) ∧
      IsExponent kept exponent ∧ (withExponent run).1.kept = run.kept ++ kept ∧
      (withExponent run).2 = !exponent.isEmpty ∧ EndsRun (withExponent run).1.rest := by
  have unchanged : ∃ exponent kept, run.Passes text (front ++ exponent) ∧ IsExponent kept exponent ∧
      run.kept = run.kept ++ kept ∧ false = !exponent.isEmpty ∧ EndsRun run.rest :=
    ⟨[], [], by rwa [List.append_nil], .none, by rw [List.append_nil], rfl, ends⟩
  have extended : ∀ (sign : List Char) {mark c : Char} {rest : List Char}, mark = 'e' ∨ mark = 'E' →
      sign ∈ [[], ['+'], ['-']] → c.isDigit = true → run.rest = mark :: sign ++ c :: rest →
      ∃ exponent kept, (Run.mk (run.kept ++ 'e' :: sign ++ (decimalRun (c :: rest)).kept)
          (run.length + 1 + sign.length + (decimalRun (c :: rest)).length)
          (decimalRun (c :: rest)).rest).Passes text (front ++ exponent) ∧
        IsExponent kept exponent ∧
        run.kept ++ 'e' :: sign ++ (decimalRun (c :: rest)).kept = run.kept ++ kept ∧
        true = !exponent.isEmpty ∧ EndsRun (decimalRun (c :: rest)).rest := by
    intro sign mark c rest isMark isSign digit ahead
    rcases decimalRun_digits_spec rest digit with ⟨digits, inner, isDigits, kept, stops⟩
    refine ⟨mark :: sign ++ digits, _, ⟨?_, ?_⟩, .some isMark isSign isDigits, ?_, by simp, stops⟩
    · rw [passes.split, ahead]
      simp only [List.append_assoc, List.cons_append]
      rw [← inner.split]
    · simp only [passes.length, inner.length, List.length_append, List.length_cons]
      omega
    · rw [kept]
      simp
  unfold withExponent
  simp only
  split
  · rename_i mark c rest ahead
    split
    · rename_i isMark
      split
      · rename_i digit
        exact extended [] isMark (by simp) digit ahead
      · split
        · rename_i isSign
          split
          · rename_i d more
            split
            · rename_i digit
              exact extended [c] isMark (by simpa using isSign) digit ahead
            · exact unchanged
          · exact unchanged
        · exact unchanged
    · exact unchanged
  · exact unchanged

/-- What is read of a decimal numeral before it is known whether it is one. -/
theorem decimal_spec (text : List Char) :
    let whole := withFraction (decimalRun text)
    let scaled := withExponent whole.1
    ∃ digits fraction exponent fractionKept exponentKept,
      scaled.1.Passes text (digits ++ fraction ++ exponent) ∧ IsRun digits ∧
      IsFraction fractionKept fraction ∧ IsExponent exponentKept exponent ∧
      scaled.1.kept = digitsOf digits ++ fractionKept ++ exponentKept ∧
      (whole.2 || scaled.2) = !(fraction ++ exponent).isEmpty ∧ EndsRun scaled.1.rest := by
  rcases decimalRun_spec text with ⟨digits, passes, isRun, kept, ends⟩
  rcases withFraction_spec passes ends with
    ⟨fraction, fractionKept, passesWhole, isFraction, keptWhole, flag, endsWhole⟩
  rcases withExponent_spec passesWhole endsWhole with
    ⟨exponent, exponentKept, passesAll, isExponent, keptAll, flagAll, endsAll⟩
  refine ⟨digits, fraction, exponent, fractionKept, exponentKept, passesAll, isRun, isFraction,
    isExponent, ?_, ?_, endsAll⟩
  · rw [keptAll, keptWhole, kept]
  · rw [flag, flagAll]
    cases fraction <;> cases exponent <;> rfl

/-- What a run of digits of a base comes to: it passes over digits and underscores, and a digit
of another base is reported where it stands. -/
def PassesBased (base : Nat) (text : List Char) (length : Nat) (kept : List Char) :
    Except (NumeralFault × Nat) Run → Prop
  | .ok run => ∃ digits, text = digits ++ run.rest ∧ run.length = length + digits.length ∧
      IsBased base digits ∧ run.kept = kept.reverse ++ digitsOf digits
  | .error fault => ∃ digits rest, text = digits ++ rest ∧ fault.2 = length + digits.length ∧
      IsBased base digits

theorem PassesBased.stop (base : Nat) (text : List Char) (length : Nat) (kept : List Char) :
    PassesBased base text length kept (.ok ⟨kept.reverse, length, text⟩) :=
  ⟨[], rfl, rfl, by simp [IsBased], by simp [digitsOf]⟩

theorem PassesBased.cons {base length : Nat} {c : Char} {rest kept : List Char}
    {result : Except (NumeralFault × Nat) Run}
    (isBased : IsBased base [c])
    (passes : PassesBased base rest (length + 1) (digitsOf [c] ++ kept) result) :
    PassesBased base (c :: rest) length kept result := by
  have longer : ∀ {digits : List Char}, IsBased base digits → IsBased base (c :: digits) := by
    intro digits others d member
    rcases List.mem_cons.1 member with rfl | later
    · exact isBased d (by simp)
    · exact others d later
  have same : ∀ digits, digitsOf [c] ++ digitsOf digits = digitsOf (c :: digits) := by
    intro digits
    rw [digitsOf, digitsOf, ← List.filter_append]
    rfl
  have single : (digitsOf [c]).reverse = digitsOf [c] := by
    rw [digitsOf, List.filter_cons]
    split <;> rfl
  cases result with
  | ok run =>
      rcases passes with ⟨digits, rfl, measured, areBased, whole⟩
      refine ⟨c :: digits, rfl, ?_, longer areBased, ?_⟩
      · rw [measured, List.length_cons]
        omega
      · rw [whole, List.reverse_append, single, List.append_assoc, same]
  | error fault =>
      rcases passes with ⟨digits, more, rfl, measured, areBased⟩
      refine ⟨c :: digits, more, rfl, ?_, longer areBased⟩
      rw [measured, List.length_cons]
      omega

theorem passesBased (base : Nat) (text : List Char) (length : Nat) (kept : List Char) :
    PassesBased base text length kept (basedRun base text length kept) := by
  fun_induction basedRun base text length kept with
  | case1 length kept => exact .stop base [] length kept
  | case2 rest length kept ih => exact .cons (by simp [IsBased]) ih
  | case3 c rest length kept mark value known large => exact .stop base (c :: rest) length kept
  | case4 c rest length kept mark value known small large =>
      exact ⟨[], c :: rest, rfl, rfl, by simp [IsBased]⟩
  | case5 c rest length kept mark value known small fits ih =>
      have counts : digitsOf [c] = [c] := by simp [digitsOf, mark]
      apply PassesBased.cons
      · intro d member
        rw [List.mem_singleton.1 member]
        exact .inr ⟨value, by omega, known⟩
      · rw [counts]
        exact ih
  | case6 c rest length kept mark unknown => exact .stop base (c :: rest) length kept

theorem IsBased.unbroken {base : Nat} (isBased : IsBased base chars) : '\n' ∉ chars := by
  intro member
  rcases isBased _ member with same | ⟨digit, -, known⟩ <;> contradiction

theorem unbroken_mark {mark : List Char} {base : Nat} (known : (mark, base) ∈ baseMarks) :
    '\n' ∉ mark := by
  revert known
  simp only [baseMarks, List.mem_cons, Prod.mk.injEq, List.not_mem_nil, or_false]
  rintro (⟨rfl, -⟩ | ⟨rfl, -⟩ | ⟨rfl, -⟩ | ⟨rfl, -⟩ | ⟨rfl, -⟩ | ⟨rfl, -⟩ | ⟨rfl, -⟩) <;> decide

theorem IsNumeral.unbroken {kind : Kind} (isNumeral : IsNumeral kind chars) : '\n' ∉ chars := by
  cases isNumeral with
  | @based mark digits base value known isBased read =>
      rw [List.mem_append, not_or]
      exact ⟨unbroken_mark known, isBased.unbroken⟩
  | decimal isRun _ _ isFraction isExponent _ =>
      rw [List.mem_append, List.mem_append, not_or, not_or]
      exact ⟨⟨isRun.unbroken, isFraction.unbroken⟩, isExponent.unbroken⟩

theorem IsNumeral.nonempty {kind : Kind} (isNumeral : IsNumeral kind chars) : chars ≠ [] := by
  intro empty
  cases isNumeral with
  | based known isBased read =>
      rw [(List.append_eq_nil_iff.1 empty).1] at known
      revert known
      simp [baseMarks]
  | decimal isRun unmarked starts isFraction isExponent read =>
      rw [(List.append_eq_nil_iff.1 empty).1] at starts
      cases starts

theorem basedLiteral_spec {base : Nat} {mark : List Char} {literal : Literal}
    (known : (mark, base) ∈ baseMarks)
    (read : basedLiteral base mark.length text = .ok literal) :
    ∃ digits, mark ++ text = mark ++ digits ++ literal.rest ∧
      literal.length = (mark ++ digits).length ∧ IsNumeral literal.kind (mark ++ digits) ∧
      ∀ c ∈ literal.rest.head?, isSymbolStart c = false := by
  rcases basedLiteral_eq_ok.1 read with ⟨run, value, ran, -, ends, valued, rfl⟩
  have passes := passesBased base text mark.length []
  rw [ran] at passes
  rcases passes with ⟨digits, rfl, measured, isBased, kept⟩
  rw [kept] at valued
  refine ⟨digits, by simp, ?_, .based known isBased valued, ends⟩
  rw [measured, List.length_append]

/-- A decimal numeral starts with a digit, or with a point and a digit. -/
theorem startsNumeral_front {digits fraction exponent fractionKept exponentKept rest : List Char}
    {kind : Kind} (isRun : IsRun digits) (isFraction : IsFraction fractionKept fraction)
    (isExponent : IsExponent exponentKept exponent)
    (starts : startsNumeral (digits ++ fraction ++ exponent ++ rest) = true)
    (known : decimalKind? (digitsOf digits ++ fractionKept ++ exponentKept)
      (!(fraction ++ exponent).isEmpty) = some kind) :
    startsNumeral (digits ++ fraction) = true := by
  rcases digits with _ | ⟨c, digits⟩
  · cases isFraction with
    | some isDigits =>
        rename_i more
        rcases more with _ | ⟨d, more⟩
        · cases isDigits.1
        · exact isDigits.1
    | none =>
        -- without digits no reader takes the numeral
        cases isExponent with
        | none => cases known
        | some isMark _ _ => rcases isMark with rfl | rfl <;> cases starts
  · have noPoint : c ≠ '.' := by
      rintro rfl
      rcases isRun '.' (by simp) with digit | same <;> contradiction
    simp only [List.cons_append] at starts ⊢
    rw [startsNumeral.eq_2 _ _ (by simp [noPoint])] at starts ⊢
    exact starts

/-- Whether no leading zero chooses a base. -/
def IsUnmarked (text : List Char) : Prop :=
  ∀ c more, text = '0' :: c :: more → c.isDigit = false ∧ c ≠ '_'

theorem decimalLiteral_spec {literal : Literal} (unmarked : IsUnmarked text)
    (starts : startsNumeral text = true) (read : decimalLiteral text = .ok literal) :
    ∃ chars, text = chars ++ literal.rest ∧ literal.length = chars.length ∧
      IsNumeral literal.kind chars ∧ ∀ c ∈ literal.rest.head?, isSymbolStart c = false := by
  rcases decimalLiteral_eq_ok.1 read with ⟨noLetter, known, taken, consumed⟩
  rcases decimal_spec text with
    ⟨digits, fraction, exponent, fractionKept, exponentKept, passes, isRun, isFraction, isExponent,
      kept, flag, ends⟩
  rw [kept, flag] at known
  rw [consumed] at noLetter ends
  refine ⟨digits ++ fraction ++ exponent, ?_, ?_,
    .decimal isRun ?_ ?_ isFraction isExponent known, ?_⟩
  · rw [← consumed]
    exact passes.split
  · rw [← taken]
    exact passes.length
  · rintro c more rfl
    rcases unmarked c _ (by rw [passes.split]; rfl) with ⟨noDigit, noScore⟩
    rcases isRun c (by simp) with digit | same
    · rw [noDigit] at digit
      cases digit
    · exact noScore same
  · have ahead : startsNumeral (digits ++ fraction ++ exponent ++ literal.rest) = true := by
      rwa [← consumed, ← passes.split]
    exact startsNumeral_front isRun isFraction isExponent ahead known
  · intro c first
    rw [isSymbolStart, noLetter c first, Bool.false_or]
    simpa using (ends c first).2

/-- The mark in front of the digits of a numeral chooses the base. -/
theorem numeral_cases (text : List Char) :
    (∃ mark base rest, (mark, base) ∈ baseMarks ∧ text = mark ++ rest ∧
      numeral text = basedLiteral base mark.length rest) ∨
      IsUnmarked text ∧ numeral text = decimalLiteral text := by
  unfold numeral
  split
  · rename_i mark rest
    split_ifs with hex binary octal legacy
    · rcases hex with rfl | rfl
      · exact .inl ⟨['0', 'x'], 16, rest, by decide, rfl, rfl⟩
      · exact .inl ⟨['0', 'X'], 16, rest, by decide, rfl, rfl⟩
    · rcases binary with rfl | rfl
      · exact .inl ⟨['0', 'b'], 2, rest, by decide, rfl, rfl⟩
      · exact .inl ⟨['0', 'B'], 2, rest, by decide, rfl, rfl⟩
    · rcases octal with rfl | rfl
      · exact .inl ⟨['0', 'o'], 8, rest, by decide, rfl, rfl⟩
      · exact .inl ⟨['0', 'O'], 8, rest, by decide, rfl, rfl⟩
    · exact .inl ⟨['0'], 8, mark :: rest, by decide, rfl, rfl⟩
    · refine .inr ⟨?_, rfl⟩
      rintro c more ⟨⟩
      simpa using legacy
  · rename_i short
    refine .inr ⟨?_, rfl⟩
    intro c more same
    exact absurd same (short c more)

/-- A literal takes the spelling of its number, and no word starts behind it. -/
theorem numeral_spec {literal : Literal} (starts : startsNumeral text = true)
    (read : numeral text = .ok literal) :
    ∃ chars, text = chars ++ literal.rest ∧ literal.length = chars.length ∧
      IsNumeral literal.kind chars ∧ ∀ c ∈ literal.rest.head?, isSymbolStart c = false := by
  rcases numeral_cases text with ⟨mark, base, rest, known, rfl, same⟩ | ⟨unmarked, same⟩
  · rw [same] at read
    rcases basedLiteral_spec known read with ⟨digits, split, measured, isNumeral, ends⟩
    exact ⟨mark ++ digits, split, measured, isNumeral, ends⟩
  · rw [same] at read
    exact decimalLiteral_spec unmarked starts read

theorem basedLiteral_error {base mark : Nat} {reason : NumeralFault} {length : Nat}
    (refused : basedLiteral base mark text = .error (reason, length)) :
    ∃ digits more, text = digits ++ more ∧ length = mark + digits.length ∧ '\n' ∉ digits := by
  have passes := passesBased base text mark []
  rw [basedLiteral] at refused
  cases ran : basedRun base text mark [] with
  | error fault =>
      rw [ran] at passes refused
      cases refused
      rcases passes with ⟨digits, more, split, measured, isBased⟩
      exact ⟨digits, more, split, measured, isBased.unbroken⟩
  | ok run =>
      rw [ran] at passes refused
      rcases passes with ⟨digits, split, measured, isBased, -⟩
      refine ⟨digits, run.rest, split, ?_, isBased.unbroken⟩
      rw [← measured]
      simp only [bind, Except.bind, pure, Except.pure, throw, throwThe,
        MonadExceptOf.throw] at refused
      split at refused
      · cases refused
        rfl
      · split at refused
        · split at refused
          · cases refused
            rfl
          · split at refused <;> cases refused
            rfl
        · split at refused <;> cases refused
          rfl

theorem decimalLiteral_error {reason : NumeralFault} {length : Nat}
    (refused : decimalLiteral text = .error (reason, length)) :
    ∃ front more, text = front ++ more ∧ length = front.length ∧ '\n' ∉ front := by
  rcases decimal_spec text with
    ⟨digits, fraction, exponent, fractionKept, exponentKept, passes, isRun, isFraction, isExponent,
      -, -, -⟩
  refine ⟨digits ++ fraction ++ exponent, _, passes.split, ?_, ?_⟩
  · rw [← passes.length]
    simp only [decimalLiteral, bind, Except.bind, pure, Except.pure, throw, throwThe,
      MonadExceptOf.throw] at refused
    -- every refusal reports how many characters were passed over
    repeat' split at refused
    all_goals
      cases refused
      try rfl
  · simp [isRun.unbroken, isFraction.unbroken, isExponent.unbroken]

/-- A refused literal has stopped on the line where it starts. -/
theorem numeral_error {reason : NumeralFault} {length : Nat}
    (refused : numeral text = .error (reason, length)) :
    ∃ front more, text = front ++ more ∧ length = front.length ∧ '\n' ∉ front := by
  rcases numeral_cases text with ⟨mark, base, rest, known, rfl, same⟩ | ⟨-, same⟩
  · rw [same] at refused
    rcases basedLiteral_error refused with ⟨digits, more, rfl, measured, unbroken⟩
    refine ⟨mark ++ digits, more, by simp, by simp [measured], ?_⟩
    rw [List.mem_append, not_or]
    exact ⟨unbroken_mark known, unbroken⟩
  · rw [same] at refused
    exact decimalLiteral_error refused

end Lehce.Token
