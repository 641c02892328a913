import Lehce.Proofs.Token.Numeral
import Lehce.Token.Scan

/-!
# The spellings of tokens

`Kind.IsSpelled` says which characters spell a token: a keyword has several
spellings, a name and an atom have one, a text is written between quotation marks
with its backslashes and quotation marks escaped, and a number has every numeral
that denotes it. A spelling that is followed by a delimiter, or by nothing, is
scanned in one step to the token it spells (`Kind.IsSpelled.scans`).
-/

namespace Lehce.Token

/-- Whether some characters are a word: the start of a symbol and what may go on with it. -/
def IsWord : List Char → Prop
  | [] => False
  | c :: rest => isSymbolStart c = true ∧ ∀ part ∈ rest, isSymbolPart part = true

instance : DecidablePred IsWord
  | [] => inferInstanceAs (Decidable False)
  | c :: rest =>
    decidable_of_iff (isSymbolStart c = true ∧ rest.all isSymbolPart = true) (by simp [IsWord])

/-- A text with a backslash before each of its backslashes and quotation marks. -/
def escape (content : List Char) : List Char :=
  content.flatMap fun c => if c = '\\' ∨ c = '"' then ['\\', c] else [c]

/-- The characters that spell a token. -/
inductive Kind.IsSpelled : Kind → List Char → Prop where
  | keyword {word : Keyword} {spelling : String} (known : (spelling, word) ∈ Keyword.spellings) :
      IsSpelled (.keyword word) spelling.toList
  | symbol {name : String} (word : IsWord name.toList) (free : Keyword.ofSpelling? name = none) :
      IsSpelled (.symbol name) name.toList
  | atom {name : String} (word : IsWord name.toList) : IsSpelled (.atom name) (':' :: name.toList)
  | text (content : String) :
      IsSpelled (.text content) ('"' :: (escape content.toList ++ ['"']))
  | operator {mark : Operator} (known : mark ≠ .unknown) :
      IsSpelled (.operator mark) mark.text.toList
  | numeral {kind : Kind} {chars : List Char} (starts : startsNumeral chars = true)
      (read : numeral chars = .ok ⟨kind, chars.length, []⟩) : IsSpelled kind chars

variable {allowed : Bool} {cursor : Cursor} {lexeme more : List Char} {kind : Kind}

/-- Whether a lexeme in front of a text is scanned in one step to a token of a kind. -/
def Scans (allowed : Bool) (kind : Kind) (lexeme more : List Char) : Prop :=
  ∀ cursor : Cursor, cursor.rest = lexeme ++ more →
    ∃ c rest token next, cursor.rest = c :: rest ∧
      scanStep allowed cursor c rest = .ok ⟨some token, next⟩ ∧
      token.kind = kind ∧ next.rest = more ∧ 0 < next.column

theorem isSymbolStart_spec {c : Char} (start : isSymbolStart c = true) :
    c ≠ '\n' ∧ c ≠ '\r' ∧ c ≠ ' ' ∧ c ≠ '\t' ∧ c ≠ '/' := by
  refine ⟨?_, ?_, ?_, ?_, ?_⟩ <;>
  · rintro rfl
    revert start
    decide

theorem IsWord.takeWhile_append {word : List Char} (isWord : IsWord word)
    (delimited : Delimited more) : (word ++ more).takeWhile isSymbolPart = word := by
  have parts : ∀ c ∈ word, isSymbolPart c = true := by
    rcases word with _ | ⟨c, rest⟩
    · simp
    · have start : isSymbolPart c = true := by simp [isSymbolPart, isWord.1]
      exact List.forall_mem_cons.2 ⟨start, isWord.2⟩
  have stops := delimited.takeWhile_append (fun _ delimiter => delimiter.not_isSymbolPart) []
  rw [List.takeWhile_append_of_pos parts]
  simpa using stops

theorem isWord_of_mem_spellings : ∀ known ∈ Keyword.spellings,
    IsWord known.1.toList ∧ Keyword.ofSpelling? known.1 = some known.2 := by
  decide +kernel

/-- What a word is: a keyword, or else a symbol. -/
def wordKind (name : String) : Kind :=
  match Keyword.ofSpelling? name with
  | some keyword => .keyword keyword
  | none => .symbol name

theorem IsWord.scans {word : List Char} (isWord : IsWord word) (delimited : Delimited more) :
    Scans allowed (wordKind (String.ofList word)) word more := by
  intro cursor ahead
  rcases word with _ | ⟨c, rest⟩
  · cases isWord
  have taken := isWord.takeWhile_append delimited
  rcases isSymbolStart_spec isWord.1 with ⟨noLine, noReturn, noBlank, noTab, noSlash⟩
  let next := cursor.forward (c :: rest).length
  let token := cursor.token next (wordKind (String.ofList (c :: rest)))
  refine ⟨c, rest ++ more, token, next, ahead, ?_, rfl, ?_, ?_⟩
  · simp only [scanStep, noLine, noReturn, noBlank, noTab, noSlash, isWord.1, false_and, or_self,
      if_true, if_false, scanWord, ahead, taken]
    rfl
  · simp [next, Cursor.forward, ahead]
  · exact Nat.lt_add_left _ (Nat.succ_pos _)

/-- An escaped text is read up to its closing quotation mark as it was before. -/
theorem closeText_escape (content : List Char) (line column : Nat) (earlier more : List Char) :
    ∃ next : Cursor, closeText '"' (escape content ++ '"' :: more) line column earlier =
      .ok (earlier.reverse ++ content, next) ∧ next.rest = more ∧ 0 < next.column := by
  induction content generalizing line column earlier with
  | nil => exact ⟨⟨more, line, column + 1⟩, by simp [escape, closeText], rfl, by simp⟩
  | cons c content ih =>
      by_cases special : c = '\\' ∨ c = '"'
      · rcases ih line (column + 2) (c :: earlier) with ⟨next, read, behind, right⟩
        refine ⟨next, ?_, behind, right⟩
        rcases special with rfl | rfl <;>
          simpa [escape, closeText, unescape] using read
      · rcases not_or.1 special with ⟨noSlash, noQuote⟩
        have split : escape (c :: content) = c :: escape content := by
          simp [escape, noSlash, noQuote]
        by_cases breaks : c = '\n'
        · rcases ih (line + 1) 0 (c :: earlier) with ⟨next, read, behind, right⟩
          refine ⟨next, ?_, behind, right⟩
          subst breaks
          simpa [split, closeText] using read
        · rcases ih line (column + 1) (c :: earlier) with ⟨next, read, behind, right⟩
          refine ⟨next, ?_, behind, right⟩
          simpa [split, closeText, noSlash, noQuote, breaks] using read

/-- A text is scanned to the text that was escaped. -/
theorem scans_text (content : List Char) :
    Scans allowed (.text (String.ofList content)) ('"' :: (escape content ++ ['"'])) more := by
  intro cursor ahead
  rcases closeText_escape content cursor.line (cursor.column + 1) [] more with
    ⟨next, read, behind, right⟩
  refine ⟨'"', escape content ++ '"' :: more,
    ⟨cursor.line, cursor.column, next.column, .text (String.ofList content)⟩, next, ?_, ?_, rfl,
    behind, right⟩
  · simp [ahead]
  · have noStart : isSymbolStart '"' = false := by decide
    simp [scanStep, scanText, noStart, read]

/-- An atom is scanned to its name where a colon is no mark. -/
theorem IsWord.scans_atom {word : List Char} (isWord : IsWord word) (delimited : Delimited more) :
    Scans false (.atom (String.ofList word)) (':' :: word) more := by
  intro cursor ahead
  have taken := isWord.takeWhile_append delimited
  let next := cursor.forward (word.length + 1)
  refine ⟨':', word ++ more, cursor.token next (.atom (String.ofList word)), next, ahead, ?_, rfl,
    ?_, ?_⟩
  · rcases word with _ | ⟨c, rest⟩
    · cases isWord
    have noStart : isSymbolStart ':' = false := by decide
    have noNumeral : startsNumeral cursor.rest = false := by
      rw [ahead]
      rfl
    simp only [List.cons_append] at taken
    simp [scanStep, scanMark, scanAtom, noStart, noNumeral, isWord.1, taken, next]
  · simp [next, Cursor.forward, ahead]
  · exact Nat.lt_add_left _ (Nat.succ_pos _)

/-- The characters that operators are spelled with start no other token. -/
theorem ofChar_spec {c : Char} (known : Operator.ofChar? c ≠ none ∨ c = '&' ∨ c = '|') :
    c ≠ '\n' ∧ c ≠ '\r' ∧ c ≠ ' ' ∧ c ≠ '\t' ∧ c ≠ '"' ∧ c ≠ '\'' ∧ isSymbolStart c = false ∧
      c.isDigit = false := by
  rcases known with known | rfl | rfl
  · unfold Operator.ofChar? at known
    split at known
    case h_19 => exact absurd rfl known
    all_goals decide
  all_goals decide

theorem ofPair_of_isDelimiter {c d : Char} (delimiter : IsDelimiter d) :
    Operator.ofPair? c d = none := by
  unfold Operator.ofPair?
  rcases delimiter with rfl | rfl | rfl | rfl <;> split <;> simp_all

/-- What follows a mark and is delimited neither opens a comment nor goes on with the mark. -/
theorem Delimited.head_spec (delimited : Delimited more) (c : Char) :
    more.head? ≠ some '/' ∧ more.head? ≠ some '*' ∧ more.head?.any isSymbolStart = false ∧
      more.head?.bind (Operator.ofPair? c) = none ∧ more.head?.any Char.isDigit = false := by
  cases first : more.head? with
  | none => simp
  | some d =>
      have delimiter := delimited d first
      have noComment : d ≠ '/' ∧ d ≠ '*' := by
        rcases delimiter with rfl | rfl | rfl | rfl <;> decide
      simp [noComment, delimiter.not_isSymbolStart, delimiter.not_isDigit,
        ofPair_of_isDelimiter delimiter]

theorem startsNumeral_cons {c : Char} (noDigit : c.isDigit = false) (rest : List Char) :
    startsNumeral (c :: rest) = (c == '.' && rest.head?.any Char.isDigit) := by
  by_cases point : c = '.'
  · cases rest <;> simp [startsNumeral, point]
  · simp [startsNumeral, point, noDigit]

theorem startsNumeral_of_isDigit {c : Char} (digit : c.isDigit = true) (rest : List Char) :
    startsNumeral (c :: rest) = true := by
  have noPoint : c ≠ '.' := by
    rintro rfl
    cases digit
  simp [startsNumeral, noPoint, digit]

/-- A character that is a mark by itself is scanned to that mark. -/
theorem scans_mark {c : Char} {mark : Operator} (known : Operator.ofChar? c = some mark)
    (delimited : Delimited more) : Scans allowed (.operator mark) [c] more := by
  intro cursor ahead
  have spelled : Operator.ofChar? c ≠ none := by simp [known]
  rcases ofChar_spec (.inl spelled) with
    ⟨noLine, noReturn, noBlank, noTab, noQuote, noTick, noStart, noDigit⟩
  rcases delimited.head_spec c with ⟨noLineComment, noComment, noWord, noPair, noFraction⟩
  have noNumeral : startsNumeral cursor.rest = false := by
    simp [ahead, startsNumeral_cons noDigit, noFraction]
  let next := cursor.forward 1
  refine ⟨c, more, cursor.token next (.operator mark), next, ahead, ?_, rfl, ?_, ?_⟩
  · simp [scanStep, scanMark, noLine, noReturn, noBlank, noTab, noQuote, noTick, noStart,
      noNumeral, known, scanOperator, noLineComment, noComment, noWord, noPair, next]
  · simp [next, Cursor.forward, ahead]
  · exact Nat.lt_add_left _ Nat.one_pos

/-- Two characters that are a mark together are scanned to that mark. -/
theorem scans_pair {c d : Char} {mark : Operator} (known : Operator.ofPair? c d = some mark) :
    Scans allowed (.operator mark) [c, d] more := by
  intro cursor ahead
  have spelled : c ≠ '.' ∧ c ≠ ':' ∧ d ≠ '/' ∧ d ≠ '*' ∧
      (Operator.ofChar? c ≠ none ∨ c = '&' ∨ c = '|') := by
    unfold Operator.ofPair? at known
    split at known <;> simp_all [Operator.ofChar?]
  rcases spelled with ⟨noPoint, noColon, noLineComment, noComment, spelled⟩
  rcases ofChar_spec spelled with
    ⟨noLine, noReturn, noBlank, noTab, noQuote, noTick, noStart, noDigit⟩
  have noNumeral : startsNumeral cursor.rest = false := by
    simp [ahead, startsNumeral_cons noDigit, noPoint]
  let next := cursor.forward 2
  refine ⟨c, d :: more, cursor.token next (.operator mark), next, ahead, ?_, rfl, ?_, ?_⟩
  · simp [scanStep, scanMark, noLine, noReturn, noBlank, noTab, noQuote, noTick, noStart, noColon,
      noNumeral, known, scanOperator, noLineComment, noComment, next]
  · simp [next, Cursor.forward, ahead]
  · exact Nat.lt_add_left _ Nat.two_pos

/-- An operator is scanned to its mark where something else follows. -/
theorem scans_operator {mark : Operator} (known : mark ≠ .unknown) (delimited : Delimited more) :
    Scans allowed (.operator mark) mark.text.toList more := by
  cases mark with
  | unknown => exact absurd rfl known
  | increment | decrement | assignPlus | assignMinus | assignTimes | assignDivide | equal
  | notEqual | lessEqual | greaterEqual | andAnd | orOr => exact scans_pair rfl
  | _ => exact scans_mark rfl delimited

/-- There are ten digits. -/
theorem exists_of_isDigit {c : Char} (digit : c.isDigit = true) :
    ∃ n < 10, c = Char.ofNat (48 + n) := by
  simp only [Char.isDigit, Bool.and_eq_true, decide_eq_true_eq] at digit
  have low : 48 ≤ c.toNat := digit.1
  have high : c.toNat ≤ 57 := digit.2
  refine ⟨c.toNat - 48, by omega, ?_⟩
  rw [Nat.add_sub_cancel' low, Char.ofNat_toNat]

/-- A digit and a point start no other token. -/
theorem isNumeralStart_spec {c : Char} (known : c.isDigit = true ∨ c = '.') :
    c ≠ '\n' ∧ c ≠ '\r' ∧ c ≠ ' ' ∧ c ≠ '\t' ∧ c ≠ '/' ∧ c ≠ '"' ∧ c ≠ '\'' ∧
      isSymbolStart c = false := by
  rcases known with digit | rfl
  · rcases exists_of_isDigit digit with ⟨n, small, rfl⟩
    revert n
    decide
  · decide

theorem isNumeralStart_of_startsNumeral {c : Char} {rest : List Char}
    (starts : startsNumeral (c :: rest) = true) : c.isDigit = true ∨ c = '.' := by
  unfold startsNumeral at starts
  split at starts
  case h_1 same =>
    cases same
    exact .inr rfl
  case h_2 same =>
    cases same
    exact .inl starts
  case h_3 same => cases same

theorem startsNumeral_append {chars : List Char} (starts : startsNumeral chars = true)
    (more : List Char) : startsNumeral (chars ++ more) = true := by
  unfold startsNumeral at starts
  split at starts
  · exact starts
  · exact startsNumeral_of_isDigit starts _
  · cases starts

/-- A numeral is scanned to the number that it denotes. -/
theorem scans_numeral {chars : List Char} (starts : startsNumeral chars = true)
    (read : numeral chars = .ok ⟨kind, chars.length, []⟩) (delimited : Delimited more) :
    Scans allowed kind chars more := by
  intro cursor ahead
  have longer := numeral_append delimited read
  rw [← ahead] at longer
  rcases chars with _ | ⟨c, rest⟩
  · cases starts
  rcases isNumeralStart_spec (isNumeralStart_of_startsNumeral starts) with
    ⟨noLine, noReturn, noBlank, noTab, noSlash, noQuote, noTick, noStart⟩
  have begins : startsNumeral cursor.rest = true := ahead ▸ startsNumeral_append starts more
  let next : Cursor := ⟨more, cursor.line, cursor.column + (c :: rest).length⟩
  refine ⟨c, rest ++ more, cursor.token next kind, next, ahead, ?_, rfl, rfl, ?_⟩
  · simp [scanStep, noLine, noReturn, noBlank, noTab, noSlash, noQuote, noTick, noStart, begins,
      scanNumeral, longer, next]
  · exact Nat.lt_add_left _ (Nat.succ_pos _)

/-- A spelling in front of a delimiter is scanned in one step to the token it spells. -/
theorem Kind.IsSpelled.scans (spelled : kind.IsSpelled lexeme) (delimited : Delimited more)
    (apart : ∀ name, kind = .atom name → allowed = false) : Scans allowed kind lexeme more := by
  cases spelled with
  | @keyword word spelling known =>
      rcases isWord_of_mem_spellings _ known with ⟨isWord, spelled⟩
      have scanned : Scans allowed _ spelling.toList more := isWord.scans delimited
      simpa [wordKind, spelled] using scanned
  | @symbol name word free =>
      have scanned : Scans allowed _ name.toList more := word.scans delimited
      simpa [wordKind, free] using scanned
  | @atom name word =>
      cases apart name rfl
      simpa using word.scans_atom delimited
  | text content =>
      have scanned : Scans allowed _ _ more := scans_text content.toList
      simpa using scanned
  | operator known => exact scans_operator known delimited
  | numeral starts read => exact scans_numeral starts read delimited

end Lehce.Token
