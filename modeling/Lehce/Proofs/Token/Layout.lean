import Lehce.Proofs.Token.Line

/-!
# Lines of a text

A text is scanned line by line (`IsText.scan`): a line break and the margin behind it
are one token that tells how far the line is indented, and the tokens of the line
follow. A line may hold no tokens, only a margin and perhaps a comment. Lines are
broken by a line feed, with or without a carriage return in front of it.
-/

namespace Lehce.Token

/-- A line of a text: how far it is indented, and the tokens on it. -/
structure Line where
  indent : Int
  kinds : List Kind

/-- How far some spaces and tabulators indent a line. -/
inductive IsMargin : Int → List Char → Prop where
  | nil : IsMargin 0 []
  | space {indent : Int} {margin : List Char} (others : IsMargin indent margin) :
      IsMargin (indent + 1) (' ' :: margin)
  | tabulator {indent : Int} {margin : List Char} (others : IsMargin indent margin) :
      IsMargin (indent + 4) ('\t' :: margin)

/-- The breaks between lines. -/
inductive IsBreak : List Char → Prop where
  | feed : IsBreak ['\n']
  | returned : IsBreak ['\r', '\n']

/-- What may stand behind a margin: spellings with a blank between any two, or a comment. A carriage
return at the end of a comment would belong to the line break. -/
inductive IsContent : List Kind → List Char → Prop where
  | tokens {kinds : List Kind} {lexemes : List (List Char)}
      (spelled : List.Forall₂ Kind.IsSpelled kinds lexemes) :
      IsContent kinds ([' '].intercalate lexemes)
  | comment {text : List Char} (unbroken : '\n' ∉ text) (ended : text.getLast? ≠ some '\r') :
      IsContent [] ('/' :: '/' :: text)

/-- Whether a text consists of some lines. -/
inductive IsText : List Line → List Char → Prop where
  | last {line : Line} {margin content : List Char} (isMargin : IsMargin line.indent margin)
      (isContent : IsContent line.kinds content) : IsText [line] (margin ++ content)
  | more {line : Line} {lines : List Line} {margin content lineBreak text : List Char}
      (isMargin : IsMargin line.indent margin) (isContent : IsContent line.kinds content)
      (isBreak : IsBreak lineBreak) (isText : IsText lines text) :
      IsText (line :: lines) (margin ++ (content ++ (lineBreak ++ text)))

/-- Whether a line ends in front of a text. -/
def EndsLine (more : List Char) : Prop :=
  more = [] ∨ ∃ lineBreak text, IsBreak lineBreak ∧ more = lineBreak ++ text

/-- Whether tokens are those of some lines, each line behind its line break. -/
inductive ListsLines : List Line → List Token → Prop where
  | nil : ListsLines [] []
  | cons {line : Line} {lines : List Line} {token : Token} {tokens rest : List Token}
      (isBreak : token.kind = .newline line.indent) (listed : Lists line.kinds tokens rest)
      (others : ListsLines lines rest) : ListsLines (line :: lines) (token :: tokens)

/-- Whether tokens stand for the margin at the start of a text. -/
inductive IsGap : Int → List Token → Prop where
  | nil : IsGap 0 []
  | blank {indent : Int} {token : Token} (isBlank : token.kind = .blank indent)
      (starts : token.start = 0) : IsGap indent [token]

section Scanning

variable {indent : Int} {kinds : List Kind} {lines : List Line} {earlier : List Token}
  {cursor : Cursor} {margin content lineBreak text body more : List Char}

theorem EndsLine.delimited (ends : EndsLine more) : Delimited more := by
  rcases ends with rfl | ⟨lineBreak, text, isBreak, rfl⟩
  · rintro c ⟨⟩
  · cases isBreak <;> rintro c ⟨⟩ <;> simp [IsDelimiter]

/-- Nothing behind the margin of a line is taken for a part of it. -/
theorem IsContent.blanks_eq (isContent : IsContent kinds content) (ends : EndsLine more) :
    blanks (content ++ more) = (0, 0) ∧ indentation (content ++ more) = (0, 0) := by
  cases isContent with
  | comment => exact ⟨rfl, rfl⟩
  | tokens spelled =>
      cases spelled with
      | nil =>
          rcases ends with rfl | ⟨lineBreak, text, isBreak, rfl⟩
          · exact ⟨rfl, rfl⟩
          · cases isBreak <;> exact ⟨rfl, rfl⟩
      | @cons kind lexeme kinds lexemes spelled _ =>
          have visible := @Kind.IsSpelled.head_intercalate _ _ more spelled lexemes
          generalize [' '].intercalate (lexeme :: lexemes) ++ more = chars at visible
          rcases chars with _ | ⟨c, chars⟩
          · exact ⟨rfl, rfl⟩
          · have visible := visible c rfl
            constructor
            · unfold blanks
              split <;> simp_all [IsDelimiter]
            · unfold indentation
              split <;> simp_all [IsDelimiter]

theorem IsMargin.blanks_append (isMargin : IsMargin indent margin) (stops : blanks body = (0, 0)) :
    ∃ width : Nat, width = indent ∧ blanks (margin ++ body) = (width, margin.length) := by
  induction isMargin with
  | nil => exact ⟨0, rfl, stops⟩
  | space _ ih | tabulator _ ih =>
      rcases ih with ⟨width, rfl, measured⟩
      exact ⟨_, rfl, by simp [blanks, tabWidth, measured]⟩

theorem IsMargin.indentation_append (isMargin : IsMargin indent margin)
    (stops : indentation body = (0, 0)) :
    ∃ width : Nat, width = indent ∧ indentation (margin ++ body) = (width, margin.length) := by
  induction isMargin with
  | nil => exact ⟨0, rfl, stops⟩
  | space _ ih | tabulator _ ih =>
      rcases ih with ⟨width, rfl, measured⟩
      exact ⟨_, rfl, by simp [indentation, tabWidth, measured]⟩

/-- A comment takes its line up to the break. -/
theorem lineLength_append (unbroken : '\n' ∉ text) (ended : text.getLast? ≠ some '\r')
    (ends : EndsLine more) (n : Nat) : lineLength (text ++ more) n = n + text.length := by
  induction text generalizing n with
  | nil =>
      rcases ends with rfl | ⟨lineBreak, text, isBreak, rfl⟩
      · rfl
      · cases isBreak <;> rfl
  | cons c text ih =>
      have noFeed : c ≠ '\n' := fun isFeed => unbroken (isFeed ▸ List.mem_cons_self)
      have noReturn : ∀ rest, c :: (text ++ more) ≠ '\r' :: '\n' :: rest := by
        rintro rest same
        rcases text with _ | ⟨next, text⟩
        · simp_all
        · simp_all
      have others : text.getLast? ≠ some '\r' := by
        rcases text with _ | ⟨next, text⟩
        · simp
        · simpa using ended
      rw [List.cons_append, lineLength]
      · rw [ih (fun member => unbroken (List.mem_cons_of_mem _ member)) others]
        simp only [List.length_cons]
        omega
      · exact fun isFeed => noFeed isFeed
      · intro rest isReturn follows
        exact noReturn rest (by rw [isReturn, follows])

/-- What stands behind a margin is scanned to its tokens. -/
theorem IsContent.scansTo (isContent : IsContent kinds content)
    (chained : kinds.IsChain Kind.Precedes) (apart : colonAllowed earlier = false)
    (ends : EndsLine more) (ahead : cursor.rest = content ++ more) :
    ∃ tokens next, ScansTo cursor earlier next (tokens.reverse ++ earlier) ∧ next.rest = more ∧
      ∀ rest, Lists kinds (tokens ++ rest) rest := by
  cases isContent with
  | @tokens _ lexemes spelled =>
      cases kinds with
      | nil =>
          cases spelled
          exact ⟨[], cursor, .refl _ _, ahead, .nil⟩
      | cons kind kinds =>
          rcases scansTo_spaced spelled chained (fun _ _ => apart) ends.delimited ahead with
            ⟨tokens, next, scans, behind, -, listed⟩
          exact ⟨tokens, next, scans, behind, listed⟩
  | @comment text unbroken ended =>
      have whole : lineLength cursor.rest 0 = text.length + 2 := by
        have unbroken : '\n' ∉ '/' :: '/' :: text := by simpa using unbroken
        have ended : ('/' :: '/' :: text).getLast? ≠ some '\r' := by
          rcases text with _ | ⟨c, text⟩
          · simp
          · simpa using ended
        rw [ahead, lineLength_append unbroken ended ends]
        simp
      let next := cursor.forward (text.length + 2)
      have behind : next.rest = more := by simp [next, Cursor.forward, ahead]
      have scanned : scanStep (colonAllowed earlier) cursor '/' ('/' :: (text ++ more)) =
          .ok ⟨none, next⟩ := by
        simp [scanStep, whole, next]
      have moved := ScansTo.step (by simpa using ahead) scanned (by
        simp only [behind, ahead, List.length_append, List.length_cons]
        omega)
      exact ⟨[], next, moved, behind, .nil⟩

/-- A line break and the margin behind it are scanned to one token. -/
theorem IsBreak.scansTo (isBreak : IsBreak lineBreak) (isMargin : IsMargin indent margin)
    (stops : indentation body = (0, 0)) (ahead : cursor.rest = lineBreak ++ (margin ++ body)) :
    ∃ token next, ScansTo cursor earlier next (token :: earlier) ∧
      token.kind = .newline indent ∧ next.rest = body := by
  rcases isMargin.indentation_append stops with ⟨width, rfl, measured⟩
  let next : Cursor := ⟨body, cursor.line + 1, margin.length⟩
  let token : Token := ⟨next.line, 0, next.column, .newline width⟩
  refine ⟨token, next, ?_, rfl, rfl⟩
  cases isBreak with
  | feed =>
      have scanned : scanStep (colonAllowed earlier) cursor '\n' (margin ++ body) =
          .ok ⟨some token, next⟩ := by
        simp [scanStep, scanNewline, ahead, measured, next, token]
      exact ScansTo.step ahead scanned (by
        simp only [next, ahead, List.length_append, List.length_cons]
        omega)
  | returned =>
      have scanned : scanStep (colonAllowed earlier) cursor '\r' ('\n' :: (margin ++ body)) =
          .ok ⟨some token, next⟩ := by
        simp [scanStep, scanNewline, ahead, measured, next, token]
      exact ScansTo.step ahead scanned (by
        simp only [next, ahead, List.length_append, List.length_cons]
        omega)

/-- The margin at the start of a text is scanned to a blank in the first column, or to nothing. -/
theorem IsMargin.scansTo (isMargin : IsMargin indent margin) (stops : blanks body = (0, 0))
    (ahead : cursor.rest = margin ++ body) (first : cursor.column = 0) :
    ∃ gap next, ScansTo cursor [] next gap ∧ next.rest = body ∧ IsGap indent gap := by
  rcases margin with _ | ⟨c, margin⟩
  · cases isMargin
    exact ⟨[], cursor, .refl _ _, ahead, .nil⟩
  · have blank : c = ' ' ∨ c = '\t' := by cases isMargin <;> simp
    rcases isMargin.blanks_append stops with ⟨width, rfl, measured⟩
    let next := cursor.forward (c :: margin).length
    let token := cursor.token next (.blank width)
    have starts : token.start = 0 := by simp [token, Cursor.token, first]
    have behind : next.rest = body := by simp [next, Cursor.forward, ahead]
    have scanned : scanStep (colonAllowed []) cursor c (margin ++ body) =
        .ok ⟨some token, next⟩ := by
      rw [List.cons_append] at ahead measured
      rcases blank with rfl | rfl <;> simp [scanStep, scanBlanks, ahead, measured, next, token]
    have moved := ScansTo.step ahead scanned (by
      simp only [behind, ahead, List.length_append, List.length_cons]
      omega)
    exact ⟨[token], next, moved, behind, .blank rfl starts⟩

theorem IsGap.colonAllowed_eq {gap : List Token} (isGap : IsGap indent gap) :
    colonAllowed gap = false := by
  cases isGap with
  | nil => rfl
  | blank isBlank => rw [colonAllowed_blank isBlank, colonAllowed]

theorem IsGap.reverse_eq {gap : List Token} (isGap : IsGap indent gap) : gap.reverse = gap := by
  cases isGap <;> rfl

theorem colonAllowed_newline {token : Token} {width : Int} (isBreak : token.kind = .newline width) :
    colonAllowed (token :: earlier) = false := by
  rcases token with ⟨line, start, stop, kind⟩
  cases isBreak
  rfl

/-- The lines behind a line break are scanned to their tokens. -/
theorem IsText.scansTo (isText : IsText lines text)
    (chained : ∀ line ∈ lines, line.kinds.IsChain Kind.Precedes) (isBreak : IsBreak lineBreak)
    (ahead : cursor.rest = lineBreak ++ text) :
    ∃ tokens next, ScansTo cursor earlier next (tokens.reverse ++ earlier) ∧ next.rest = [] ∧
      ListsLines lines tokens := by
  induction isText generalizing cursor earlier lineBreak with
  | @last line margin content isMargin isContent =>
      have ends : EndsLine [] := .inl rfl
      have stops := isContent.blanks_eq ends
      rw [List.append_nil] at stops
      rcases @IsBreak.scansTo _ earlier _ _ _ _ isBreak isMargin stops.2 ahead with
        ⟨token, middle, broken, isNewline, behind⟩
      rcases isContent.scansTo (chained line List.mem_cons_self)
          (@colonAllowed_newline earlier _ _ isNewline) ends (by simpa using behind) with
        ⟨tokens, next, scans, exhausted, listed⟩
      refine ⟨token :: tokens, next, ?_, exhausted, ?_⟩
      · simpa using broken.trans scans
      · exact .cons isNewline (by simpa using listed []) .nil
  | @more line lines margin content following text isMargin isContent follows isText ih =>
      rcases List.forall_mem_cons.1 chained with ⟨lineChained, chained⟩
      have ends : EndsLine (following ++ text) := .inr ⟨following, text, follows, rfl⟩
      have stops := isContent.blanks_eq ends
      rcases @IsBreak.scansTo _ earlier _ _ _ _ isBreak isMargin stops.2 ahead with
        ⟨token, middle, broken, isNewline, behind⟩
      rcases isContent.scansTo lineChained (@colonAllowed_newline earlier _ _ isNewline) ends
          behind with
        ⟨tokens, next, scans, behind, listed⟩
      rcases @ih (tokens.reverse ++ token :: earlier) _ _ chained follows behind with
        ⟨others, last, scansOthers, exhausted, othersListed⟩
      refine ⟨token :: (tokens ++ others), last, ?_, exhausted, ?_⟩
      · simpa using (broken.trans scans).trans scansOthers
      · exact .cons isNewline (listed others) othersListed

/-- A text is scanned to the tokens of its lines, behind what its first margin is scanned to. -/
theorem IsText.scan {line : Line} (isText : IsText (line :: lines) text)
    (chained : ∀ each ∈ line :: lines, each.kinds.IsChain Kind.Precedes) :
    ∃ gap tokens rest, scan (String.ofList text) = .ok (gap ++ tokens) ∧ IsGap line.indent gap ∧
      Lists line.kinds tokens rest ∧ ListsLines lines rest := by
  have start : (Cursor.start (String.ofList text)).rest = text := by simp [Cursor.start]
  rcases List.forall_mem_cons.1 chained with ⟨lineChained, chained⟩
  cases isText with
  | @last _ margin content isMargin isContent =>
      have ends : EndsLine [] := .inl rfl
      have stops := isContent.blanks_eq ends
      rw [List.append_nil] at stops
      rcases isMargin.scansTo stops.1 start rfl with ⟨gap, middle, passed, behind, isGap⟩
      rcases isContent.scansTo lineChained isGap.colonAllowed_eq ends (by simpa using behind) with
        ⟨tokens, next, scans, exhausted, listed⟩
      refine ⟨gap, tokens, [], ?_, isGap, by simpa using listed [], .nil⟩
      rw [(passed.trans scans).scan_eq exhausted]
      simp [isGap.reverse_eq]
  | @more _ _ margin content following text isMargin isContent follows isText =>
      have ends : EndsLine (following ++ text) := .inr ⟨following, text, follows, rfl⟩
      have stops := isContent.blanks_eq ends
      rcases isMargin.scansTo stops.1 start rfl with ⟨gap, middle, passed, behind, isGap⟩
      rcases isContent.scansTo lineChained isGap.colonAllowed_eq ends behind with
        ⟨tokens, next, scans, behind, listed⟩
      rcases @IsText.scansTo _ (tokens.reverse ++ gap) _ _ _ isText chained follows behind with
        ⟨others, last, scansOthers, exhausted, othersListed⟩
      refine ⟨gap, tokens ++ others, others, ?_, isGap, listed others, othersListed⟩
      rw [((passed.trans scans).trans scansOthers).scan_eq exhausted]
      simp [isGap.reverse_eq]

end Scanning

end Lehce.Token
