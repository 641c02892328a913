import Lehce.Proofs.Code.Carets
import Lehce.Proofs.Number.Whole
import Lehce.Proofs.Program.Writable

/-!
# The values of numerals

A numeral that stands alone is one token, or it is refused for its syntax. The digits of a base
are the integer that they denote when it is below `2^63`; a greater one is refused behind a mark
of a base, and is a floating-point number in a decimal literal. Fractions and exponents make a
floating-point number of a decimal literal. A digit of another base, a mark without digits and a
letter behind a literal refuse it (`numerals_denote`). No floating-point number of a source is
infinite or NaN.
-/

namespace Lehce.Number

/-- What digits are scaled to is a finite number, unless it is too large. -/
theorem scaledValue_cases (negative : Bool) (n : ℕ) (exponent : ℤ) :
    (∃ x, scaledValue .double negative n 10 exponent = .ok x ∧ IsFinite x) ∨
      scaledValue .double negative n 10 exponent = .error .outOfRange := by
  unfold scaledValue
  simp only
  split
  · have zero : Format.double.Holds ⟨0, -1074⟩ :=
      ⟨by decide, by decide, .inl rfl, fun _ => rfl⟩
    exact .inl ⟨_, rfl, negative, _, parts_ofQuotient zero Nat.one_pos (by simp [Scaled.value])⟩
  · split
    · exact .inr rfl
    · have positive : 0 < Nat.pow 10 (-exponent).toNat := Nat.pow_pos (by decide)
      split
      · rename_i magnitude found
        exact .inl ⟨_, rfl, negative, magnitude,
          parts_ofQuotient (nearest_holds (by decide) positive found) (quotient_positive magnitude)
            (value_quotient magnitude)⟩
      · exact .inr rfl

end Lehce.Number

namespace Lehce.Token

variable {base : ℕ} {mark body rest whole fraction exponent fractionKept exponentKept
  text : List Char} {c : Char} {kind : Kind}

/-- Whether a text is a single token. -/
def IsSingle (text : List Char) (kind : Kind) : Prop :=
  scan (String.ofList text) = .ok [⟨0, 0, text.length, kind⟩]

/-- Whether a text is refused for its syntax. -/
def IsRefused (text : List Char) : Prop :=
  ∃ fault, scan (String.ofList text) = .error fault ∧ fault.kind = .syntaxError

/-- Whether a text is the finite number that the reader of numbers makes of it without its
underscores, or it is refused because this number is out of range. -/
def IsDouble (text : List Char) : Prop :=
  match Number.readFloat .double (digitsOf text) with
  | .ok x => Number.IsFinite x ∧ IsSingle text (.double x)
  | .error problem => problem = .outOfRange ∧ IsRefused text

/-- Whether a mark chooses a base in front of a text: a zero alone needs a digit or an underscore
behind it. -/
def Chooses (mark body : List Char) : Prop :=
  mark = ['0'] → body.head?.any (fun c => c.isDigit || c == '_') = true

/-- The parts of a decimal literal, and what counts of its fraction and of its exponent. -/
structure IsDecimalLiteral (whole fraction exponent fractionKept exponentKept : List Char) :
    Prop where
  isRun : IsRun whole
  unmarked : ∀ c more, whole ≠ '0' :: c :: more
  starts : startsNumeral (whole ++ fraction) = true
  isFraction : IsFraction fractionKept fraction
  isExponent : IsExponent exponentKept exponent

section Scanning

/-- The step that scans a numeral at the start of a source. -/
theorem scan_numeral (starts : startsNumeral text = true) :
    scan (String.ofList text) = (do
      let step ← scanNumeral (Cursor.start (String.ofList text))
      scanFrom (text.length - 1) step.next step.token.toList) := by
  have ahead : (Cursor.start (String.ofList text)).rest = text := by simp [Cursor.start]
  rcases text with _ | ⟨c, rest⟩
  · cases starts
  rcases isNumeralStart_spec (isNumeralStart_of_startsNumeral starts) with
    ⟨noLine, noReturn, noBlank, noTab, noSlash, noQuote, noTick, noStart⟩
  simp only [scan, ahead, List.length_cons, scanFrom, scanStep, noLine, noReturn, noBlank, noTab,
    noSlash, noQuote, noTick, noStart, starts, false_and, or_self, if_false, if_true,
    Bool.false_eq_true, List.append_nil, Nat.add_sub_cancel]

theorem isSingle_of_numeral (starts : startsNumeral text = true)
    (read : numeral text = .ok ⟨kind, text.length, []⟩) : IsSingle text kind := by
  have ahead : (Cursor.start (String.ofList text)).rest = text := by simp [Cursor.start]
  rw [IsSingle, scan_numeral starts]
  simp only [scanNumeral, ahead, read]
  cases text.length - 1 <;> simp [scanFrom, Cursor.start, Cursor.token, bind, Except.bind]

theorem isRefused_of_numeral {fault : NumeralFault × ℕ} (starts : startsNumeral text = true)
    (refused : numeral text = .error fault) : IsRefused text := by
  have ahead : (Cursor.start (String.ofList text)).rest = text := by simp [Cursor.start]
  rw [IsRefused, scan_numeral starts]
  simp only [scanNumeral, ahead, refused]
  exact ⟨_, rfl, rfl⟩

end Scanning

section Based

/-- A mark that chooses a base leaves the digits to the reader of this base. -/
theorem numeral_mark (known : (mark, base) ∈ baseMarks) (chooses : Chooses mark body)
    (rest : List Char) :
    numeral (mark ++ body ++ rest) = basedLiteral base mark.length (body ++ rest) := by
  simp only [baseMarks, List.mem_cons, Prod.mk.injEq, List.not_mem_nil, or_false] at known
  rcases known with ⟨rfl, rfl⟩ | ⟨rfl, rfl⟩ | ⟨rfl, rfl⟩ | ⟨rfl, rfl⟩ | ⟨rfl, rfl⟩ | ⟨rfl, rfl⟩ |
    ⟨rfl, rfl⟩
  · rfl
  · rfl
  · rfl
  · rfl
  · rfl
  · rfl
  · rcases body with _ | ⟨c, body⟩
    · cases chooses rfl
    have first : c.isDigit = true ∨ c = '_' := by simpa using chooses rfl
    have noMark : ¬(c = 'x' ∨ c = 'X') ∧ ¬(c = 'b' ∨ c = 'B') ∧ ¬(c = 'o' ∨ c = 'O') := by
      rcases first with digit | rfl
      · rcases exists_of_isDigit digit with ⟨n, small, rfl⟩
        clear digit chooses
        revert n
        decide
      · decide
    simp [numeral, noMark, first]

theorem baseMarks_spec :
    ∀ known ∈ baseMarks, known.1.head? = some '0' ∧ 0 < known.2 ∧ known.2 ≤ 16 := by
  decide

theorem startsNumeral_mark (known : (mark, base) ∈ baseMarks) (rest : List Char) :
    startsNumeral (mark ++ rest) = true := by
  have first := (baseMarks_spec _ known).1
  rcases mark with _ | ⟨c, mark⟩
  · cases first
  · cases first
    rfl

/-- How the literals of a base are read. -/
structure BasedLaws (mark : List Char) (base : ℕ) : Prop where
  invalid : ∀ body rest, IsBased 16 body → Chooses mark body → ¬IsBased base body →
    IsRefused (mark ++ body ++ rest)
  empty : ∀ body, IsBased base body → Chooses mark body → digitsOf body = [] →
    IsRefused (mark ++ body)
  letter : ∀ body c rest, IsBased 16 body → Chooses mark body → Text.isLetter c = true →
    ¬IsDigitOf 16 c → IsRefused (mark ++ body ++ c :: rest)
  value : ∀ body, IsBased base body → Chooses mark body → digitsOf body ≠ [] →
    if Number.positional base body < 2 ^ 63 then
      IsSingle (mark ++ body) (.integer (Number.positional base body))
    else IsRefused (mark ++ body)

/-- What refuses a literal of a base refuses the text that it starts. -/
theorem isRefused_of_based (known : (mark, base) ∈ baseMarks) (chooses : Chooses mark body)
    (refused : ∃ fault, basedLiteral base mark.length (body ++ rest) = .error fault) :
    IsRefused (mark ++ body ++ rest) := by
  rcases refused with ⟨fault, refused⟩
  refine isRefused_of_numeral ?_ ((numeral_mark known chooses rest).trans refused)
  rw [List.append_assoc]
  exact startsNumeral_mark known _

theorem basedLaws (known : (mark, base) ∈ baseMarks) : BasedLaws mark base := by
  rcases baseMarks_spec _ known with ⟨-, positive, small⟩
  have alone : ∀ {body}, Chooses mark body →
      (∃ fault, basedLiteral base mark.length body = .error fault) → IsRefused (mark ++ body) := by
    intro body chooses refused
    have same := @isRefused_of_based base mark body [] known chooses
    rw [List.append_nil, List.append_nil] at same
    exact same refused
  constructor
  · intro body rest isHex chooses invalid
    exact isRefused_of_based known chooses (basedLiteral_invalid isHex invalid small rest)
  · intro body isBased chooses empty
    exact alone chooses (basedLiteral_empty small isBased empty)
  · intro body c rest isHex chooses letter noDigit
    have start : isSymbolStart c = true := by rw [isSymbolStart, letter, Bool.true_or]
    exact isRefused_of_based known chooses
      (basedLiteral_letter small isHex start (isLetter_spec letter).2.1 noDigit rest)
  · intro body isBased chooses nonempty
    have read := @basedLiteral_digits base mark.length body positive small isBased nonempty
    split
    · rename_i fits
      rw [if_pos fits] at read
      refine isSingle_of_numeral (startsNumeral_mark known body) ?_
      have same := numeral_mark known chooses []
      rw [List.append_nil, List.append_nil] at same
      rw [same, read, List.length_append]
    · rename_i large
      rw [if_neg large] at read
      exact alone chooses read

end Based

section Decimal

section Values

theorem digitsOf_append (front behind : List Char) :
    digitsOf (front ++ behind) = digitsOf front ++ digitsOf behind :=
  List.filter_append front behind

theorem IsRun.allDigits (isRun : IsRun whole) : Number.AllDigits (digitsOf whole) := by
  intro c member
  rcases List.mem_filter.1 member with ⟨within, noScore⟩
  rcases isRun c within with digit | rfl
  · exact digit
  · cases noScore

theorem IsRun.isBased (isRun : IsRun whole) : IsBased 10 whole := by
  intro c member
  rcases isRun c member with digit | score
  · rcases Number.digitValue_of_isDigit digit with ⟨known, small⟩
    exact .inr ⟨_, small, known⟩
  · exact .inl score

theorem IsDigits.nonempty (isDigits : IsDigits whole) : digitsOf whole ≠ [] := by
  rcases whole with _ | ⟨c, whole⟩
  · cases isDigits.1
  · rw [digitsOf_cons (Number.ne_underscore_of_isDigit isDigits.1)]
    exact List.cons_ne_nil _ _

/-- Digits and underscores at the start of a numeral start with a digit. -/
theorem isDigits_of_starts (isRun : IsRun (c :: whole))
    (starts : startsNumeral (c :: whole ++ rest) = true) : IsDigits (c :: whole) := by
  refine ⟨?_, isRun⟩
  rcases isRun c List.mem_cons_self with digit | rfl
  · exact digit
  · cases starts

/-- What counts of a fraction is the fraction without its underscores. -/
theorem IsFraction.isPoint (isFraction : IsFraction fractionKept fraction) :
    fractionKept = digitsOf fraction ∧ ∃ places, Number.IsPoint fractionKept places ∧
      (fraction ≠ [] → places ≠ []) := by
  cases isFraction with
  | none => exact ⟨rfl, [], .none, id⟩
  | some isDigits =>
      exact ⟨(digitsOf_cons (by decide) _).symm, _, .some isDigits.2.allDigits isDigits.nonempty,
        fun _ => isDigits.nonempty⟩

/-- What counts of an exponent has the value of the exponent without its underscores. -/
theorem IsExponent.isPower (isExponent : IsExponent exponentKept exponent) :
    ∃ power, Number.IsPower exponentKept power ∧ Number.IsPower (digitsOf exponent) power := by
  cases isExponent with
  | none => exact ⟨0, .none, .none⟩
  | @some mark sign digits isMark isSign isDigits =>
      have plain : digitsOf (mark :: sign) = mark :: sign := by
        simp only [List.mem_cons, List.not_mem_nil, or_false] at isSign
        rcases isMark with rfl | rfl <;> rcases isSign with rfl | rfl | rfl <;> rfl
      rw [digitsOf_append, plain]
      exact ⟨_, .some (.inl rfl) isSign isDigits.2.allDigits isDigits.nonempty,
        .some isMark isSign isDigits.2.allDigits isDigits.nonempty⟩

/-- What counts of a decimal literal is read as the literal is without its underscores: as a
finite number, unless it is too large. -/
theorem readFloat_kept (isRun : IsRun whole) (starts : startsNumeral (whole ++ fraction) = true)
    (isFraction : IsFraction fractionKept fraction)
    (isExponent : IsExponent exponentKept exponent) :
    let read := Number.readFloat .double (digitsOf whole ++ fractionKept ++ exponentKept)
    read = Number.readFloat .double (digitsOf (whole ++ fraction ++ exponent)) ∧
      ((∃ x, read = .ok x ∧ Number.IsFinite x) ∨ read = .error .outOfRange) := by
  rcases isFraction.isPoint with ⟨same, places, isPoint, someDigits⟩
  rcases isExponent.isPower with ⟨power, keptPower, isPower⟩
  have nonempty : digitsOf whole ++ places ≠ [] := by
    rcases whole with _ | ⟨c, whole⟩
    · rcases fraction with _ | ⟨c, fraction⟩
      · cases starts
      · simpa [digitsOf] using someDigits (List.cons_ne_nil _ _)
    · intro empty
      exact (isDigits_of_starts isRun starts).nonempty (List.append_eq_nil_iff.1 empty).1
  rw [digitsOf_append, digitsOf_append, ← same]
  simp only
  rw [Number.readFloat_plain isRun.allDigits isPoint keptPower nonempty,
    Number.readFloat_plain isRun.allDigits isPoint isPower nonempty]
  exact ⟨rfl, Number.scaledValue_cases _ _ _⟩

end Values

namespace IsDecimalLiteral

variable (isLiteral : IsDecimalLiteral whole fraction exponent fractionKept exponentKept)
include isLiteral

/-- A decimal literal chooses no base, also in front of a letter that is no mark. -/
theorem numeral_eq (rest : List Char) (lettered : Lettered rest)
    (noMark : whole ++ fraction ++ exponent = ['0'] →
      ∀ c ∈ rest.head?, c ∉ ['x', 'X', 'b', 'B', 'o', 'O']) :
    numeral (whole ++ fraction ++ exponent ++ rest) =
      decimalLiteral (whole ++ fraction ++ exponent ++ rest) := by
  rcases isLiteral with ⟨isRun, unmarked, starts, isFraction, isExponent⟩
  refine numeral_of_plain fun c more same => ?_
  rcases whole with _ | ⟨zero, _ | ⟨second, whole⟩⟩
  · cases isFraction with
    | none => cases starts
    | some => cases same
  · -- behind a zero comes a point, the mark of an exponent or a letter
    cases isFraction with
    | some =>
        cases same
        decide
    | none =>
        cases isExponent with
        | some isMark =>
            cases same
            rcases isMark with rfl | rfl <;> decide
        | none =>
            cases same
            have letter := lettered c rfl
            rcases isLetter_spec letter with ⟨noDigit, noScore, -⟩
            refine ⟨noDigit, fun member => ?_⟩
            rcases List.mem_append.1 (show c ∈ ['x', 'X', 'b', 'B', 'o', 'O'] ++ ['_'] from member)
              with mark | score
            · exact noMark rfl c rfl mark
            · exact noScore (List.mem_singleton.1 score)
  · cases same
    exact absurd rfl (unmarked c whole)

theorem startsNumeral_append (rest : List Char) :
    startsNumeral (whole ++ fraction ++ exponent ++ rest) = true := by
  rw [List.append_assoc]
  exact Token.startsNumeral_append isLiteral.starts _

/-- A decimal literal that stands alone is the token that a reader of numbers makes of it. -/
theorem scan_alone :
    match decimalKind? (digitsOf whole ++ fractionKept ++ exponentKept)
        (!(fraction ++ exponent).isEmpty) with
    | some kind => IsSingle (whole ++ fraction ++ exponent) kind
    | none => IsRefused (whole ++ fraction ++ exponent) := by
  have starts := isLiteral.startsNumeral_append []
  have same := isLiteral.numeral_eq [] (by simp [Lettered]) (by simp)
  rw [List.append_nil] at starts same
  have read := decimalLiteral_parts isLiteral.isRun isLiteral.isFraction isLiteral.isExponent
  split <;> rename_i known <;> rw [known] at read <;> simp only at read
  · exact isSingle_of_numeral starts (same.trans read)
  · rcases read with ⟨fault, refused⟩
    exact isRefused_of_numeral starts (same.trans refused)

/-- A decimal literal that is no integer of 64 bits is a floating-point number. -/
theorem isDouble (noInteger : fraction ++ exponent = [] →
      Number.readInteger 10 64 (digitsOf whole ++ fractionKept ++ exponentKept) =
        .error .outOfRange) :
    IsDouble (whole ++ fraction ++ exponent) := by
  have alone := isLiteral.scan_alone
  rcases readFloat_kept isLiteral.isRun isLiteral.starts isLiteral.isFraction isLiteral.isExponent
    with ⟨same, read⟩
  have floating : decimalKind? (digitsOf whole ++ fractionKept ++ exponentKept)
      (!(fraction ++ exponent).isEmpty) =
        (Number.readFloat .double
          (digitsOf whole ++ fractionKept ++ exponentKept)).toOption.map .double := by
    unfold decimalKind?
    by_cases unscaled : fraction ++ exponent = []
    · rw [noInteger unscaled, unscaled]
      rfl
    · have flag : (fraction ++ exponent).isEmpty = false := by
        simpa [List.isEmpty_iff] using unscaled
      rw [flag]
      rfl
  rw [floating] at alone
  unfold IsDouble
  rw [← same]
  rcases read with ⟨x, read, finite⟩ | read
  · rw [read] at alone ⊢
    exact ⟨finite, alone⟩
  · rw [read] at alone ⊢
    exact ⟨rfl, alone⟩

end IsDecimalLiteral

/-- How decimal literals are read. -/
structure DecimalLaws (whole fraction exponent : List Char) : Prop where
  integer : fraction ++ exponent = [] →
    if Number.positional 10 whole < 2 ^ 63 then
      IsSingle whole (.integer (Number.positional 10 whole))
    else IsDouble whole
  floating : fraction ++ exponent ≠ [] → IsDouble (whole ++ fraction ++ exponent)
  letter : ∀ c rest, Text.isLetter c = true → (exponent = [] → Unscaled (c :: rest)) →
    (whole ++ fraction ++ exponent = ['0'] → c ∉ ['x', 'X', 'b', 'B', 'o', 'O']) →
    IsRefused (whole ++ fraction ++ exponent ++ c :: rest)

theorem decimalLaws
    (isLiteral : IsDecimalLiteral whole fraction exponent fractionKept exponentKept) :
    DecimalLaws whole fraction exponent := by
  constructor
  · intro plain
    rcases List.append_eq_nil_iff.1 plain with ⟨rfl, rfl⟩
    cases isLiteral.isFraction
    cases isLiteral.isExponent
    rcases whole with _ | ⟨c, whole⟩
    · cases isLiteral.starts
    have isDigits := isDigits_of_starts isLiteral.isRun isLiteral.starts
    have read := Number.readInteger_digits (by decide) isLiteral.isRun.isBased.areDigits
      isDigits.nonempty
    rw [positional_digitsOf] at read
    split
    · rename_i fits
      rw [if_pos fits] at read
      have alone := isLiteral.scan_alone
      simpa [decimalKind?, read, Except.toOption] using alone
    · rename_i large
      rw [if_neg large] at read
      have double := isLiteral.isDouble fun _ => by simpa using read
      simpa using double
  · exact fun scaled => isLiteral.isDouble fun plain => absurd plain scaled
  · intro c rest letter unscaled noMark
    have lettered : Lettered (c :: rest) := by
      rintro d ⟨⟩
      exact letter
    rcases decimalLiteral_letter isLiteral.isRun isLiteral.isFraction isLiteral.isExponent letter
      unscaled with ⟨fault, refused⟩
    have same := isLiteral.numeral_eq (c :: rest) lettered fun zero d first => by
      cases first
      exact noMark zero
    exact isRefused_of_numeral (isLiteral.startsNumeral_append _) (same.trans refused)

theorem readFloat_of_decimalKind? {kept : List Char} {scaled : Bool} {x : Float}
    (known : decimalKind? kept scaled = some (.double x)) :
    Number.readFloat .double kept = .ok x := by
  unfold decimalKind? at known
  split at known
  · cases known
  · cases read : Number.readFloat .double kept with
    | error problem =>
        rw [read] at known
        cases known
    | ok y =>
        rw [read] at known
        cases known
        rfl

/-- A numeral that is a floating-point number is a finite one. -/
theorem IsNumeral.isFinite {x : Float} (isNumeral : IsNumeral (.double x) text) :
    Number.IsFinite x := by
  cases isNumeral with
  | decimal isRun unmarked starts isFraction isExponent read =>
      have known := readFloat_of_decimalKind? read
      rcases (readFloat_kept isRun starts isFraction isExponent).2 with ⟨y, same, finite⟩ | refused
      · rw [known] at same
        cases same
        exact finite
      · rw [known] at refused
        cases refused

/-- A floating-point number of a source is finite. -/
theorem isFinite_of_scan {source : String} {tokens : List Token} {token : Token} {x : Float}
    (scanned : scan source = .ok tokens) (member : token ∈ tokens)
    (double : token.kind = .double x) : Number.IsFinite x := by
  have cut := scan_segments source
  rw [scanned] at cut
  rcases cut with ⟨segments, splits, rfl⟩
  rcases splits.exists_segment member with ⟨front, chars, behind, -, spells, -⟩
  rw [double] at spells
  cases spells with
  | numeral isNumeral => exact isNumeral.isFinite

end Decimal

/-- Numerals that stand alone denote their value or are refused, and the numbers of a source are
finite. -/
theorem numerals_denote :
    (∀ mark base, (mark, base) ∈ baseMarks → BasedLaws mark base) ∧
      (∀ whole fraction exponent fractionKept exponentKept,
        IsDecimalLiteral whole fraction exponent fractionKept exponentKept →
          DecimalLaws whole fraction exponent) ∧
      ∀ source tokens, scan source = .ok tokens → ∀ token ∈ tokens, ∀ x,
        token.kind = .double x → Number.IsFinite x :=
  ⟨fun _ _ known => basedLaws known, fun _ _ _ _ _ isLiteral => decimalLaws isLiteral,
    fun _ _ scanned _ member _ double => isFinite_of_scan scanned member double⟩

/-- The laws hold of a hexadecimal numeral, of a binary one with a wrong digit and of a decimal
one with a fraction. -/
theorem numerals_denote_samples :
    IsSingle ['0', 'x', '1', '_', 'F'] (.integer 31) ∧ IsRefused ['0', 'b', '1', '2'] ∧
      ∃ x, IsSingle ['1', '.', '5'] (.double x) ∧ Number.IsFinite x := by
  refine ⟨?_, ?_, ?_⟩
  · have laws := numerals_denote.1 ['0', 'x'] 16 (by decide)
    have value := laws.value ['1', '_', 'F'] (by decide)
      (by simp [Chooses]) (by decide)
    exact value
  · have laws := numerals_denote.1 ['0', 'b'] 2 (by decide)
    exact laws.invalid ['1', '2'] [] (by decide) (by simp [Chooses]) (by decide)
  · have digits : IsDigits ['5'] := ⟨rfl, by decide⟩
    have laws := numerals_denote.2.1 ['1'] ['.', '5'] [] _ _
      ⟨by decide, by simp, rfl, .some digits, .none⟩
    have double : IsDouble ['1', '.', '5'] := laws.floating (by simp)
    have reads : (Number.readFloat .double (digitsOf ['1', '.', '5'])).toOption.isSome = true := by
      decide +kernel
    unfold IsDouble at double
    cases read : Number.readFloat .double (digitsOf ['1', '.', '5']) with
    | error problem =>
        rw [read] at reads
        cases reads
    | ok x =>
        rw [read] at double
        refine ⟨x, double.2, ?_⟩
        exact numerals_denote.2.2 _ _ double.2 _ List.mem_cons_self x rfl

end Lehce.Token
