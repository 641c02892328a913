import Lehce.Proofs.Token.Spelling
import Mathlib.Data.List.Chain
import Mathlib.Data.List.Forall2

/-!
# Lines of tokens

A line of spellings with a blank between any two is scanned to the tokens they
spell, with a blank between any two (`scansTo_spaced`). No spelling reaches into
the next one, but an atom must not follow a token after which a colon is a mark.
`Lists` says which tokens a piece of the scanned tokens holds, blanks apart.
-/

namespace Lehce.Token

/-- Whether a token of the second kind may be spelled after one of the first: an atom may not
where its colon would be a mark. -/
def Kind.Precedes (before after : Kind) : Prop :=
  ∀ name, after = .atom name → before.allowsColon = false

/-- Whether a token is more than a blank or a line break. -/
def Kind.isVisible : Kind → Bool
  | .blank _ | .newline _ => false
  | _ => true

/-- Whether tokens hold some of the listed kinds, blanks inside their line, and then a rest. -/
inductive Lists : List Kind → List Token → List Token → Prop where
  | nil (rest : List Token) : Lists [] rest rest
  | blank {kinds : List Kind} {token : Token} {tokens rest : List Token} {width : Int}
      (blank : token.kind = .blank width) (inside : token.start ≠ 0)
      (listed : Lists kinds tokens rest) : Lists kinds (token :: tokens) rest
  | cons {kinds : List Kind} {token : Token} {tokens rest : List Token}
      (visible : token.kind.isVisible = true) (listed : Lists kinds tokens rest) :
      Lists (token.kind :: kinds) (token :: tokens) rest

theorem Lists.length_le {kinds : List Kind} {tokens rest : List Token}
    (listed : Lists kinds tokens rest) : kinds.length + rest.length ≤ tokens.length := by
  induction listed with
  | nil => simp
  | blank _ _ _ ih => exact Nat.le_succ_of_le ih
  | cons _ _ ih =>
      simp only [List.length_cons]
      omega

section Spellings

variable {kind : Kind} {lexeme : List Char}

theorem isVisible_basedLiteral {base mark : Nat} {chars : List Char} {literal : Literal}
    (read : basedLiteral base mark chars = .ok literal) : literal.kind.isVisible = true := by
  rcases basedLiteral_eq_ok.1 read with ⟨run, value, -, -, -, -, rfl⟩
  rfl

theorem isVisible_decimalLiteral {chars : List Char} {literal : Literal}
    (read : decimalLiteral chars = .ok literal) : literal.kind.isVisible = true := by
  have known := (decimalLiteral_eq_ok.1 read).2.1
  generalize literal.kind = kind at known ⊢
  unfold decimalKind? at known
  split at known
  · cases known
    rfl
  · rcases Option.map_eq_some_iff.1 known with ⟨value, -, rfl⟩
    rfl

theorem isVisible_numeral {chars : List Char} {literal : Literal}
    (read : numeral chars = .ok literal) : literal.kind.isVisible = true := by
  unfold numeral at read
  split at read
  · split_ifs at read
    case neg => exact isVisible_decimalLiteral read
    all_goals exact isVisible_basedLiteral read
  · exact isVisible_decimalLiteral read

theorem Kind.IsSpelled.isVisible (spelled : kind.IsSpelled lexeme) : kind.isVisible = true := by
  cases spelled with
  | numeral starts read => exact isVisible_numeral read
  | _ => rfl

theorem IsWord.head_spec {word : List Char} (isWord : IsWord word) :
    word ≠ [] ∧ ∀ c ∈ word.head?, ¬IsDelimiter c := by
  rcases word with _ | ⟨first, rest⟩
  · cases isWord
  · refine ⟨by simp, ?_⟩
    rintro c ⟨⟩ delimiter
    have start := isWord.1
    simp [delimiter.not_isSymbolStart] at start

/-- A spelling is not empty and starts with no delimiter. -/
theorem Kind.IsSpelled.head_spec (spelled : kind.IsSpelled lexeme) :
    lexeme ≠ [] ∧ ∀ c ∈ lexeme.head?, ¬IsDelimiter c := by
  cases spelled with
  | keyword known => exact (isWord_of_mem_spellings _ known).1.head_spec
  | symbol word free => exact word.head_spec
  | atom word => exact ⟨by simp, by simp [IsDelimiter]⟩
  | text content => exact ⟨by simp, by simp [IsDelimiter]⟩
  | @operator mark known => cases mark <;> exact ⟨by decide, by simp [Operator.text, IsDelimiter]⟩
  | numeral starts read =>
      rcases lexeme with _ | ⟨first, rest⟩
      · cases starts
      · refine ⟨by simp, ?_⟩
        rintro c ⟨⟩ delimiter
        rcases isNumeralStart_spec (isNumeralStart_of_startsNumeral starts) with
          ⟨noLine, noReturn, noBlank, noTab, -⟩
        rcases delimiter with rfl | rfl | rfl | rfl <;> contradiction

end Spellings

/-- Whether scanning comes from one cursor to another, given the tokens read before either. -/
def ScansTo (cursor : Cursor) (earlier : List Token) (next : Cursor) (later : List Token) : Prop :=
  ∀ steps, cursor.rest.length ≤ steps → ∃ left, next.rest.length ≤ left ∧
    scanFrom steps cursor earlier = scanFrom left next later

namespace ScansTo

variable {cursor between next : Cursor} {earlier middle later : List Token}

theorem refl (cursor : Cursor) (earlier : List Token) : ScansTo cursor earlier cursor earlier :=
  fun steps enough => ⟨steps, enough, rfl⟩

theorem trans (first : ScansTo cursor earlier between middle)
    (second : ScansTo between middle next later) : ScansTo cursor earlier next later := by
  intro steps enough
  rcases first steps enough with ⟨left, enough, same⟩
  rcases second left enough with ⟨last, enough, sameToo⟩
  exact ⟨last, enough, same.trans sameToo⟩

/-- One step of scanning that moves forward. -/
theorem step {c : Char} {rest : List Char} {step : Step} (ahead : cursor.rest = c :: rest)
    (scanned : scanStep (colonAllowed earlier) cursor c rest = .ok step)
    (forward : step.next.rest.length < cursor.rest.length) :
    ScansTo cursor earlier step.next (step.token.toList ++ earlier) := by
  intro steps enough
  cases steps with
  | zero => omega
  | succ steps =>
      refine ⟨steps, by omega, ?_⟩
      rw [scanFrom]
      simp [ahead, scanned, bind, Except.bind]

/-- The tokens of a text are those read when scanning has come to its end. -/
theorem scan_eq {source : String} (scanned : ScansTo (.start source) [] next later)
    (ended : next.rest = []) : scan source = .ok later.reverse := by
  rcases scanned _ (Nat.le_refl _) with ⟨left, -, same⟩
  rw [scan, same]
  cases left with
  | zero => rfl
  | succ left => rw [scanFrom, ended]

end ScansTo

section Spaced

variable {kind : Kind} {kinds : List Kind} {lexeme more : List Char} {cursor : Cursor}
  {earlier : List Token}

/-- A spelling in front of a delimiter is scanned to a token. -/
theorem Kind.IsSpelled.scansTo (spelled : kind.IsSpelled lexeme) (delimited : Delimited more)
    (apart : ∀ name, kind = .atom name → colonAllowed earlier = false)
    (ahead : cursor.rest = lexeme ++ more) :
    ∃ token next, ScansTo cursor earlier next (token :: earlier) ∧ token.kind = kind ∧
      next.rest = more ∧ 0 < next.column := by
  rcases spelled.scans delimited apart cursor ahead with
    ⟨c, rest, token, next, first, scanned, same, behind, right⟩
  have nonempty := List.length_pos_iff.2 spelled.head_spec.1
  have moved := ScansTo.step first scanned (by
    simp only [behind, ahead, List.length_append]
    omega)
  exact ⟨token, next, moved, same, behind, right⟩

/-- A blank in front of what is none is scanned to a token. -/
theorem scansTo_blank (visible : ∀ c ∈ more.head?, ¬IsDelimiter c)
    (ahead : cursor.rest = ' ' :: more) (right : 0 < cursor.column) :
    ∃ token next, ScansTo cursor earlier next (token :: earlier) ∧ token.kind = .blank 1 ∧
      token.start ≠ 0 ∧ next.rest = more ∧ 0 < next.column := by
  have single : blanks (' ' :: more) = (1, 1) := by
    have none : blanks more = (0, 0) := by
      unfold blanks
      split <;> simp_all [IsDelimiter]
    simp [blanks, none]
  let next := cursor.forward 1
  refine ⟨cursor.token next (.blank 1), next, ?_, rfl, ?_, ?_, ?_⟩
  · have scanned : scanStep (colonAllowed earlier) cursor ' ' more =
        .ok ⟨some (cursor.token next (.blank 1)), next⟩ := by
      simp [scanStep, scanBlanks, ahead, single, next]
    exact ScansTo.step ahead scanned (by simp [next, Cursor.forward, ahead])
  · simp only [Cursor.token]
    omega
  · simp [next, Cursor.forward, ahead]
  · exact Nat.lt_add_left _ Nat.one_pos

theorem colonAllowed_blank {token : Token} {width : Int} (blank : token.kind = .blank width) :
    colonAllowed (token :: earlier) = colonAllowed earlier := by
  rcases token with ⟨line, start, stop, kind⟩
  cases blank
  rfl

theorem colonAllowed_visible {token : Token} (visible : token.kind.isVisible = true) :
    colonAllowed (token :: earlier) = token.kind.allowsColon := by
  rcases token with ⟨line, start, stop, kind⟩
  cases kind <;> first | rfl | cases visible

theorem Kind.IsSpelled.head_intercalate (spelled : kind.IsSpelled lexeme)
    (lexemes : List (List Char)) :
    ∀ c ∈ ([' '].intercalate (lexeme :: lexemes) ++ more).head?, ¬IsDelimiter c := by
  rcases lexeme with _ | ⟨first, rest⟩
  · exact absurd rfl spelled.head_spec.1
  · simpa using spelled.head_spec.2

/-- A line of spellings with a blank between any two is scanned to the tokens they spell. -/
theorem scansTo_spaced {lexemes : List (List Char)}
    (spelled : List.Forall₂ Kind.IsSpelled (kind :: kinds) lexemes)
    (chained : (kind :: kinds).IsChain Kind.Precedes)
    (apart : ∀ name, kind = .atom name → colonAllowed earlier = false)
    (delimited : Delimited more) (ahead : cursor.rest = [' '].intercalate lexemes ++ more) :
    ∃ tokens next, ScansTo cursor earlier next (tokens.reverse ++ earlier) ∧
      next.rest = more ∧ 0 < next.column ∧ ∀ rest, Lists (kind :: kinds) (tokens ++ rest) rest := by
  induction kinds generalizing kind lexemes cursor earlier with
  | nil =>
      rcases spelled with _ | ⟨spelled, _ | _⟩
      rcases spelled.scansTo delimited apart (by simpa using ahead) with
        ⟨token, next, scans, rfl, behind, right⟩
      exact ⟨[token], next, scans, behind, right, fun rest => .cons spelled.isVisible (.nil rest)⟩
  | cons second kinds ih =>
      rcases spelled with _ | @⟨_, lexeme, _, lexemes, spelled, others⟩
      rcases chained with _ | _ | ⟨precedes, chained⟩
      have nonempty : lexemes ≠ [] := by
        rintro rfl
        cases others
      have split : cursor.rest = lexeme ++ ' ' :: ([' '].intercalate lexemes ++ more) := by
        simp [ahead, List.intercalate_cons_of_ne_nil nonempty]
      have blank : Delimited (' ' :: ([' '].intercalate lexemes ++ more)) := by
        rintro c ⟨⟩
        exact .inl rfl
      have starts : ∀ c ∈ ([' '].intercalate lexemes ++ more).head?, ¬IsDelimiter c := by
        rcases others with _ | ⟨spelled, _⟩
        exact spelled.head_intercalate _
      rcases spelled.scansTo blank apart split with ⟨token, middle, first, rfl, behind, right⟩
      rcases @scansTo_blank _ _ (token :: earlier) starts behind right with
        ⟨gap, next, passed, isBlank, inside, behind, right⟩
      have follows : ∀ name, second = .atom name →
          colonAllowed (gap :: token :: earlier) = false := by
        intro name isAtom
        rw [colonAllowed_blank isBlank, colonAllowed_visible spelled.isVisible]
        exact precedes name isAtom
      rcases ih others chained follows behind with ⟨tokens, last, rest, behind, right, listed⟩
      refine ⟨token :: gap :: tokens, last, ?_, behind, right, fun tail => ?_⟩
      · simpa using (first.trans passed).trans rest
      · exact .cons spelled.isVisible (.blank isBlank inside (listed tail))

end Spaced

end Lehce.Token
