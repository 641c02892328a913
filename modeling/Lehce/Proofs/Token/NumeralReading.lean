import Lehce.Proofs.Number.Decimals
import Lehce.Proofs.Number.Positional
import Lehce.Proofs.Token.Segmentation

/-!
# How the grammar of numerals is read

The readers of numerals take all of what the grammar of numerals spells. The digits of a base
are read up to a character that is no digit of any base, and a digit of another base refuses
the literal. A decimal literal is read up to a letter that starts no exponent, and this letter
refuses it.
-/

namespace Lehce.Token

variable {base mark length : ℕ} {digits rest kept whole fraction exponent fractionKept
  exponentKept text : List Char} {c : Char}

instance (base : ℕ) : DecidablePred (IsBased base) := fun chars =>
  decidable_of_iff (chars.all fun c => c = '_' ∨ ∃ digit < base, Number.digitValue? c = some digit)
    (by simp [IsBased])

instance : DecidablePred IsRun := fun chars =>
  decidable_of_iff (chars.all fun c => c.isDigit || c == '_') (by simp [IsRun])

section Based

/-- Whether a character is a digit of a base. -/
def IsDigitOf (base : ℕ) (c : Char) : Prop := ∃ digit < base, Number.digitValue? c = some digit

theorem IsDigitOf.ne_underscore (digit : IsDigitOf base c) : c ≠ '_' := by
  rintro rfl
  rcases digit with ⟨_, -, known⟩
  cases known

theorem IsBased.tail (isBased : IsBased base (c :: digits)) : IsBased base digits :=
  fun d member => isBased d (List.mem_cons_of_mem _ member)

theorem digitsOf_cons (noScore : c ≠ '_') (rest : List Char) :
    digitsOf (c :: rest) = c :: digitsOf rest :=
  List.filter_cons_of_pos (by simpa using noScore)

theorem IsBased.areDigits (isBased : IsBased base digits) :
    Number.AreDigits base (digitsOf digits) := by
  intro c member
  rcases List.mem_filter.1 member with ⟨within, noScore⟩
  rcases isBased c within with rfl | digit
  · cases noScore
  · exact digit

/-- Underscores do not count. -/
theorem positional_digitsOf (base : ℕ) (digits : List Char) :
    Number.positional base (digitsOf digits) = Number.positional base digits := by
  rw [Number.positional, Number.positional, digitsOf, List.filterMap_filter]
  congr 2
  refine List.filterMap_congr fun c _ => ?_
  by_cases score : c = '_'
  · subst score
    rfl
  · rw [if_pos (by simpa using score)]

/-- A step of a run passes over a digit of its base. -/
theorem basedRun_cons (small : base ≤ 16) (digit : IsDigitOf base c) (rest kept : List Char) :
    basedRun base (c :: rest) length kept = basedRun base rest (length + 1) (c :: kept) := by
  have noScore := digit.ne_underscore
  rcases digit with ⟨value, fits, known⟩
  rw [basedRun, if_neg noScore, known]
  simp only
  rw [if_neg (by omega), if_neg (by omega)]

/-- A run passes over all digits of its base and keeps them. -/
theorem basedRun_digits (small : base ≤ 16) (isBased : IsBased base digits) (rest : List Char)
    (length : ℕ) (kept : List Char) :
    basedRun base (digits ++ rest) length kept =
      basedRun base rest (length + digits.length) ((digitsOf digits).reverse ++ kept) := by
  induction digits generalizing length kept with
  | nil => rfl
  | cons c digits ih =>
      have later : length + (c :: digits).length = length + 1 + digits.length := by
        rw [List.length_cons]
        omega
      rcases isBased c List.mem_cons_self with rfl | digit
      · rw [List.cons_append, basedRun, if_pos rfl, ih isBased.tail, later]
        rfl
      · rw [List.cons_append, basedRun_cons small digit, ih isBased.tail, later,
          digitsOf_cons (IsDigitOf.ne_underscore digit), List.reverse_cons, List.append_assoc]
        rfl

/-- Whether a text does not start with an underscore or a digit of any base. -/
def EndsBased (text : List Char) : Prop := ∀ c ∈ text.head?, c ≠ '_' ∧ ¬IsDigitOf 16 c

theorem EndsBased.nil : EndsBased [] := by simp [EndsBased]

/-- A run ends where no digit of any base follows. -/
theorem basedRun_ends (ends : EndsBased rest) (length : ℕ) (kept : List Char) :
    basedRun base rest length kept = .ok ⟨kept.reverse, length, rest⟩ := by
  cases rest with
  | nil => rfl
  | cons c rest =>
      rcases ends c rfl with ⟨noScore, noDigit⟩
      rw [basedRun, if_neg noScore]
      cases known : Number.digitValue? c with
      | none => rfl
      | some value =>
          have large : 16 ≤ value := not_lt.1 fun small => noDigit ⟨value, small, known⟩
          simp only
          rw [if_pos large]

/-- A run of digits of its base is all that comes before what ends it. -/
theorem basedRun_whole (small : base ≤ 16) (isBased : IsBased base digits)
    (ends : EndsBased rest) (length : ℕ) :
    basedRun base (digits ++ rest) length [] =
      .ok ⟨digitsOf digits, length + digits.length, rest⟩ := by
  rw [basedRun_digits small isBased, basedRun_ends ends, List.append_nil, List.reverse_reverse]

/-- A digit of another base refuses a run. -/
theorem basedRun_invalid (isHex : IsBased 16 digits) (invalid : ¬IsBased base digits)
    (small : base ≤ 16) (rest : List Char) (length : ℕ) (kept : List Char) :
    ∃ fault, basedRun base (digits ++ rest) length kept = .error fault := by
  induction digits generalizing length kept with
  | nil => exact absurd (fun c member => by cases member) invalid
  | cons c digits ih =>
      have others : c = '_' ∨ IsDigitOf base c → ¬IsBased base digits := by
        intro first later
        refine invalid fun d member => ?_
        rcases List.mem_cons.1 member with rfl | within
        · exact first
        · exact later d within
      rcases isHex c List.mem_cons_self with rfl | ⟨value, hex, known⟩
      · rw [List.cons_append, basedRun, if_pos rfl]
        exact ih isHex.tail (others (.inl rfl)) _ _
      · by_cases fits : value < base
        · rw [List.cons_append, basedRun_cons small ⟨value, fits, known⟩]
          exact ih isHex.tail (others (.inr ⟨value, fits, known⟩)) _ _
        · have noScore := IsDigitOf.ne_underscore ⟨value, hex, known⟩
          rw [List.cons_append, basedRun, if_neg noScore, known]
          simp only
          rw [if_neg (by omega), if_pos (not_lt.1 fits)]
          exact ⟨_, rfl⟩

theorem basedLiteral_invalid (isHex : IsBased 16 digits) (invalid : ¬IsBased base digits)
    (small : base ≤ 16) (rest : List Char) :
    ∃ fault, basedLiteral base mark (digits ++ rest) = .error fault := by
  rcases basedRun_invalid isHex invalid small rest mark [] with ⟨fault, ran⟩
  exact ⟨fault, by rw [basedLiteral, ran]; rfl⟩

/-- Digits of a base are the integer of 64 bits that they denote, or none. -/
theorem basedLiteral_digits (positive : 0 < base) (small : base ≤ 16)
    (isBased : IsBased base digits) (nonempty : digitsOf digits ≠ []) :
    if Number.positional base digits < 2 ^ 63 then
      basedLiteral base mark digits =
        .ok ⟨.integer (Number.positional base digits), mark + digits.length, []⟩
    else ∃ fault, basedLiteral base mark digits = .error fault := by
  have ran := basedRun_whole small isBased .nil mark
  rw [List.append_nil] at ran
  have read := Number.readInteger_digits positive isBased.areDigits nonempty
  rw [positional_digitsOf] at read
  split
  · rename_i fits
    rw [if_pos fits] at read
    exact basedLiteral_eq_ok.2 ⟨_, _, ran, nonempty, by simp, read, rfl⟩
  · rename_i large
    rw [if_neg large] at read
    cases found : basedLiteral base mark digits with
    | error fault => exact ⟨fault, rfl⟩
    | ok literal =>
        rcases basedLiteral_eq_ok.1 found with ⟨run, value, same, -, -, known, -⟩
        rw [ran] at same
        cases same
        rw [read] at known
        cases known

/-- Without digits there is no literal of a base. -/
theorem basedLiteral_empty (small : base ≤ 16) (isBased : IsBased base digits)
    (empty : digitsOf digits = []) : ∃ fault, basedLiteral base mark digits = .error fault := by
  have ran := basedRun_whole small isBased .nil mark
  rw [List.append_nil, empty] at ran
  exact ⟨_, by rw [basedLiteral, ran]; rfl⟩

/-- A letter behind the digits of a base refuses the literal. -/
theorem basedLiteral_letter (small : base ≤ 16) (isHex : IsBased 16 digits)
    (letter : isSymbolStart c = true) (noScore : c ≠ '_') (noDigit : ¬IsDigitOf 16 c)
    (rest : List Char) :
    ∃ fault, basedLiteral base mark (digits ++ c :: rest) = .error fault := by
  by_cases isBased : IsBased base digits
  · have ends : EndsBased (c :: rest) := by
      rintro d ⟨⟩
      exact ⟨noScore, noDigit⟩
    have ran := basedRun_whole small isBased ends mark
    cases found : basedLiteral base mark (digits ++ c :: rest) with
    | error fault => exact ⟨fault, rfl⟩
    | ok literal =>
        rcases basedLiteral_eq_ok.1 found with ⟨run, value, same, -, stops, -, -⟩
        rw [ran] at same
        cases same
        rw [stops c rfl] at letter
        cases letter
  · exact basedLiteral_invalid isHex isBased small _

end Based

section Decimal

theorem isRun_of_allDigits (allDigits : Number.AllDigits digits) : IsRun digits :=
  fun c member => .inl (allDigits c member)

theorem isDigits_of_allDigits (allDigits : Number.AllDigits digits) (nonempty : digits ≠ []) :
    IsDigits digits := by
  rcases digits with _ | ⟨c, digits⟩
  · exact absurd rfl nonempty
  · exact ⟨allDigits c List.mem_cons_self, isRun_of_allDigits allDigits⟩

/-- Digits count completely. -/
theorem digitsOf_of_allDigits (allDigits : Number.AllDigits digits) : digitsOf digits = digits :=
  List.filter_eq_self.2 fun c member => by
    simpa using Number.ne_underscore_of_isDigit (allDigits c member)

/-- Whether a text is empty or starts with a letter. -/
def Lettered (text : List Char) : Prop := ∀ c ∈ text.head?, Text.isLetter c = true

/-- A letter belongs to no run of digits and is no point. -/
theorem isLetter_spec (letter : Text.isLetter c = true) :
    c.isDigit = false ∧ c ≠ '_' ∧ c ≠ '.' := by
  refine ⟨?_, ?_, ?_⟩
  · rw [Bool.eq_false_iff]
    intro digit
    rcases exists_of_isDigit digit with ⟨n, small, rfl⟩
    revert n
    decide
  · rintro rfl
    revert letter
    decide
  · rintro rfl
    revert letter
    decide

theorem Lettered.endsRun (lettered : Lettered rest) : EndsRun rest := by
  intro c first
  rcases isLetter_spec (lettered c first) with ⟨noDigit, noScore, -⟩
  exact ⟨noDigit, noScore⟩

theorem IsExponent.lettered (isExponent : IsExponent exponentKept exponent)
    (lettered : Lettered rest) : Lettered (exponent ++ rest) := by
  cases isExponent with
  | none => exact lettered
  | some isMark =>
      rintro c ⟨⟩
      rcases isMark with rfl | rfl <;> decide

/-- A run passes over digits and underscores up to what ends it. -/
theorem decimalRun_isRun (isRun : IsRun digits) (ends : EndsRun rest) :
    decimalRun (digits ++ rest) = ⟨digitsOf digits, digits.length, rest⟩ := by
  have passed : ∀ c ∈ digits, (c.isDigit || c == '_') = true := fun c member => by
    simpa using isRun c member
  have stopped : (rest.takeWhile fun c => c.isDigit || c == '_') = [] := by
    cases rest with
    | nil => rfl
    | cons c rest =>
        rcases ends c rfl with ⟨noDigit, noScore⟩
        simp [noDigit, noScore]
  have run : ((digits ++ rest).takeWhile fun c => c.isDigit || c == '_') = digits := by
    rw [List.takeWhile_append_of_pos passed, stopped, List.append_nil]
  simp only [decimalRun, run, List.drop_left]
  rfl

theorem IsFraction.endsRun (isFraction : IsFraction fractionKept fraction)
    (lettered : Lettered rest) : EndsRun (fraction ++ rest) := by
  cases isFraction with
  | none => exact lettered.endsRun
  | some isDigits =>
      rintro c ⟨⟩
      decide

/-- A fraction is passed over up to a letter. -/
theorem withFraction_isFraction (isFraction : IsFraction fractionKept fraction)
    (lettered : Lettered rest) (kept : List Char) (length : ℕ) :
    withFraction ⟨kept, length, fraction ++ rest⟩ =
      (⟨kept ++ fractionKept, length + fraction.length, rest⟩, !fraction.isEmpty) := by
  cases isFraction with
  | none =>
      rw [List.nil_append, List.append_nil]
      unfold withFraction
      split
      · rename_i c more same
        have letter := lettered '.' (by rw [show rest = _ from same]; rfl)
        exact absurd rfl (isLetter_spec letter).2.2
      · rfl
  | @some digits isDigits =>
      rcases digits with _ | ⟨c, digits⟩
      · cases isDigits.1
      have digit : c.isDigit = true := isDigits.1
      have run := decimalRun_isRun isDigits.2 lettered.endsRun
      rw [List.cons_append] at run
      simp [withFraction, digit, run]
      omega

/-- Whether a text does not start with an exponent. -/
def Unscaled (text : List Char) : Prop :=
  ∀ kept power, IsExponent kept power → power <+: text → power = []

/-- Where no exponent starts, none is read. -/
theorem withExponent_unscaled (unscaled : Unscaled rest) (kept : List Char) (length : ℕ) :
    withExponent ⟨kept, length, rest⟩ = (⟨kept, length, rest⟩, false) := by
  have excluded : ∀ (sign : List Char) {mark c : Char} {more : List Char}, mark = 'e' ∨ mark = 'E' →
      sign ∈ [[], ['+'], ['-']] → c.isDigit = true → rest ≠ mark :: sign ++ c :: more := by
    rintro sign mark c more isMark isSign digit rfl
    have isDigits : IsDigits [c] := ⟨digit, by simp [IsRun, digit]⟩
    have empty := unscaled _ _ (.some isMark isSign isDigits) ⟨more, by simp⟩
    cases empty
  unfold withExponent
  simp only
  split
  · split
    · rename_i isMark
      split
      · rename_i digit
        exact absurd rfl (excluded [] isMark (by simp) digit)
      · split
        · rename_i isSign
          split
          · split
            · rename_i digit
              exact absurd rfl (excluded [_] isMark (by simpa using isSign) digit)
            · rfl
          · rfl
        · rfl
    · rfl
  · rfl

/-- An exponent is passed over up to a letter. -/
theorem withExponent_isExponent (isExponent : IsExponent exponentKept exponent)
    (lettered : Lettered rest) (unscaled : exponent = [] → Unscaled rest) (kept : List Char)
    (length : ℕ) :
    withExponent ⟨kept, length, exponent ++ rest⟩ =
      (⟨kept ++ exponentKept, length + exponent.length, rest⟩, !exponent.isEmpty) := by
  cases isExponent with
  | none =>
      rw [List.nil_append, withExponent_unscaled (unscaled rfl), List.append_nil]
      rfl
  | @some mark sign digits isMark isSign isDigits =>
      rcases digits with _ | ⟨c, digits⟩
      · cases isDigits.1
      have digit : c.isDigit = true := isDigits.1
      have run := decimalRun_isRun isDigits.2 lettered.endsRun
      rw [List.cons_append] at run
      simp only [List.mem_cons, List.not_mem_nil, or_false] at isSign
      rcases isSign with rfl | rfl | rfl
      · simp [withExponent, isMark, digit, run]
        omega
      · simp [withExponent, isMark, digit, run]
        omega
      · simp [withExponent, isMark, digit, run]
        omega

/-- The parts of a decimal numeral are read up to a letter. -/
theorem decimal_parts (isRun : IsRun whole) (isFraction : IsFraction fractionKept fraction)
    (isExponent : IsExponent exponentKept exponent) (lettered : Lettered rest)
    (unscaled : exponent = [] → Unscaled rest) :
    let part := withFraction (decimalRun (whole ++ fraction ++ exponent ++ rest))
    let scaled := withExponent part.1
    scaled.1 = ⟨digitsOf whole ++ fractionKept ++ exponentKept,
        (whole ++ fraction ++ exponent).length, rest⟩ ∧
      (part.2 || scaled.2) = !(fraction ++ exponent).isEmpty := by
  have behind := isExponent.lettered lettered
  simp only [List.append_assoc]
  rw [decimalRun_isRun isRun (isFraction.endsRun behind),
    withFraction_isFraction isFraction behind,
    withExponent_isExponent isExponent lettered unscaled]
  constructor
  · simp only [List.append_assoc, List.length_append, Nat.add_assoc]
  · cases fraction <;> rfl

/-- A letter that starts no exponent refuses the decimal literal in front of it. -/
theorem decimalLiteral_letter (isRun : IsRun whole) (isFraction : IsFraction fractionKept fraction)
    (isExponent : IsExponent exponentKept exponent) (letter : Text.isLetter c = true)
    (unscaled : exponent = [] → Unscaled (c :: rest)) :
    ∃ fault, decimalLiteral (whole ++ fraction ++ exponent ++ c :: rest) = .error fault := by
  have lettered : Lettered (c :: rest) := by
    rintro d ⟨⟩
    exact letter
  rcases decimal_parts isRun isFraction isExponent lettered unscaled with ⟨parts, -⟩
  cases found : decimalLiteral (whole ++ fraction ++ exponent ++ c :: rest) with
  | error fault => exact ⟨fault, rfl⟩
  | ok literal =>
      have noLetter := (decimalLiteral_eq_ok.1 found).1 c (by rw [parts]; rfl)
      rw [letter] at noLetter
      cases noLetter

/-- A decimal literal is the token that a reader of numbers makes of it, or it is refused. -/
theorem decimalLiteral_parts (isRun : IsRun whole) (isFraction : IsFraction fractionKept fraction)
    (isExponent : IsExponent exponentKept exponent) :
    match decimalKind? (digitsOf whole ++ fractionKept ++ exponentKept)
        (!(fraction ++ exponent).isEmpty) with
    | some kind => decimalLiteral (whole ++ fraction ++ exponent) =
        .ok ⟨kind, (whole ++ fraction ++ exponent).length, []⟩
    | none => ∃ fault, decimalLiteral (whole ++ fraction ++ exponent) = .error fault := by
  have unscaled : Unscaled [] := fun kept power _ front => List.prefix_nil.1 front
  have lettered : Lettered [] := by simp [Lettered]
  rcases decimal_parts isRun isFraction isExponent lettered fun _ => unscaled with ⟨parts, flag⟩
  rw [List.append_nil] at parts flag
  split
  · rename_i kind known
    rw [decimalLiteral_eq_ok]
    simp only
    rw [parts, flag]
    exact ⟨by simp, known, rfl, rfl⟩
  · rename_i unknown
    cases found : decimalLiteral (whole ++ fraction ++ exponent) with
    | error fault => exact ⟨fault, rfl⟩
    | ok literal =>
        have known := (decimalLiteral_eq_ok.1 found).2.1
        rw [parts, flag, unknown] at known
        cases known

/-- What does not choose a base is left to the reader of decimal literals. -/
theorem numeral_of_plain (plain : ∀ c more, text = '0' :: c :: more →
    c.isDigit = false ∧ c ∉ ['x', 'X', 'b', 'B', 'o', 'O', '_']) :
    numeral text = decimalLiteral text := by
  unfold numeral
  split
  · rename_i mark more
    rcases plain mark more rfl with ⟨noDigit, noMark⟩
    simp only [List.mem_cons, List.not_mem_nil, or_false, not_or] at noMark
    simp [noDigit, noMark]
  · rfl

end Decimal

end Lehce.Token
