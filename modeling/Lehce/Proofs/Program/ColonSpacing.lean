import Lehce.Proofs.Program.StatementColonPlaces
import Lehce.Proofs.Program.StatementTrimming
import Lehce.Proofs.Token.Walk

/-!
# The space behind a colon

A colon and a name right behind it are an atom unless the token before the colon tells that
the colon is a mark. It tells so wherever a program can have a colon, but for three kinds of
tokens: a `++`, a `--`, and a line break between brackets. Everywhere else the one space
between a colon and a name may be left out, and the program is read as before, up to columns
(`Program.ofSource_withoutSpace`).
-/

namespace Lehce

namespace Token

variable {before after : List Char} {c : Char}

/-- Whether programs can have a colon behind a token of this kind that is no mark, by its token
alone, when a name follows at once. -/
def Kind.hidesColon : Kind → Bool
  | .operator .increment | .operator .decrement | .newline _ => true
  | _ => false

/-- Whether a source has a colon behind some text, as a mark behind some tokens. -/
def ColonBehind (source : String) (before : List Char) (earlier : List Token) : Prop :=
  ∃ (colon : Token) (later : List Token), scan source = .ok (earlier ++ colon :: later) ∧
    colon.kind = .operator .colon ∧ colon.line = lineAfter before ∧
    colon.start = columnAfter before

theorem eq_of_place (text : List Char) {front : List Char} (first : front <+: text) (second : before <+: text)
    (sameLine : lineAfter front = lineAfter before)
    (sameColumn : columnAfter front = columnAfter before) : front = before := by
  have extends_ : ∀ {short long : List Char}, short <+: long → lineAfter short = lineAfter long →
      columnAfter short = columnAfter long → short = long := by
    rintro short _ ⟨more, rfl⟩ sameLine sameColumn
    rw [lineAfter_append] at sameLine
    have unbroken : '\n' ∉ more := List.count_eq_zero.1 (by omega)
    rw [columnAfter_of_unbroken unbroken] at sameColumn
    rw [List.eq_nil_of_length_eq_zero (l := more) (by omega), List.append_nil]
  rcases List.prefix_or_prefix_of_prefix first second with shorter | longer
  · exact extends_ shorter sameLine sameColumn
  · exact (extends_ longer sameLine.symm sameColumn.symm).symm

theorem scanStep_colon {allowed : Bool} {cursor : Cursor} {rest : List Char}
    (ahead : cursor.rest = ':' :: rest)
    (isMark : allowed = true ∨ ∀ d ∈ rest.head?, isSymbolStart d = false) :
    scanStep allowed cursor ':' rest = .ok (scanOperator cursor .colon 1) := by
  have noAtom : ¬(allowed = false ∧ rest.head?.any isSymbolStart = true) := by
    rintro ⟨refused, starts⟩
    rcases isMark with rfl | ends
    · cases refused
    · rcases rest with _ | ⟨d, rest⟩
      · cases starts
      · rw [List.head?_cons, Option.any_some, ends d rfl] at starts
        cases starts
  have noPair : rest.head?.bind (Operator.ofPair? ':') = none := by
    rcases rest with _ | ⟨d, rest⟩ <;> simp [Operator.ofPair?]
  have noNumeral : startsNumeral cursor.rest = false := by rw [ahead]; rfl
  have noWord : isSymbolStart ':' = false := by decide
  simp only [scanStep, scanMark, noNumeral, noWord, noPair, true_and, if_neg noAtom]
  rfl

theorem scanStep_space {allowed : Bool} {cursor : Cursor} (ahead : cursor.rest = ' ' :: c :: after)
    (named : isSymbolStart c = true) :
    scanStep allowed cursor ' ' (c :: after) =
      .ok ⟨some (cursor.token (cursor.forward 1) (.blank 1)), cursor.forward 1⟩ := by
  have alone : blanks (c :: after) = (0, 0) := by
    rw [blanks_cons]
    have noBlank : c ≠ '\t' ∧ c ≠ ' ' ∧ c ≠ '\r' := by
      refine ⟨?_, ?_, ?_⟩ <;> rintro rfl <;> exact absurd named (by decide)
    simp [noBlank]
  have measured : blanks cursor.rest = (1, 1) := by
    rw [ahead, blanks_cons, alone]
    rfl
  simp [scanStep, scanBlanks, measured]

theorem Trims.append {tokens twins rest others : List Token} (same : List.Forall₂ Matches tokens twins)
    (trims : Trims rest others) : Trims (tokens ++ rest) (twins ++ others) := by
  induction same with
  | nil => exact trims
  | cons same _ ih => exact .cons same ih

/-- Scanning walks to a colon of the source and on from behind it. -/
theorem walks_colon {behind : List Char} {earlier later : List Token} {colon : Token}
    (scanned : scan (String.ofList (before ++ ':' :: behind)) = .ok (earlier ++ colon :: later))
    (isColon : colon.kind = .operator .colon) (line : colon.line = lineAfter before)
    (start : colon.start = columnAfter before)
    (ends : ∀ d ∈ behind.head?, isSymbolStart d = false) :
    ∃ place last, Walks (.start (String.ofList (before ++ ':' :: behind))) [] place earlier.reverse ∧
      place.rest = ':' :: behind ∧
      colon = place.token (place.forward 1) (.operator .colon) ∧
      Walks (place.forward 1) (colon :: earlier.reverse) last
        (later.reverse ++ colon :: earlier.reverse) ∧ last.rest = [] := by
  rcases Walks.of_scan scanned with ⟨last, walks, ended⟩
  have whole : (earlier ++ colon :: later).reverse = later.reverse ++ colon :: earlier.reverse := by
    simp
  rw [whole] at walks
  rcases walks.cut rfl (List.nil_suffix : [] <:+ earlier.reverse) with
    ⟨place, d, rest, between, toColon, here, readColon, fromColon⟩
  rcases toColon.passes (Walks.isBehind_start _) with ⟨front, split, place_⟩
  rw [List.nil_append] at place_
  rcases cuts_scanStep here place_ readColon with ⟨chars, cuts⟩
  have covered := (cuts.covers colon rfl).start
  simp only [isColon] at covered
  simp only [Cursor.start, String.toList_ofList] at split
  obtain rfl : front = before := by
    apply eq_of_place (front ++ place.rest) (List.prefix_append _ _)
    · rw [← split]
      exact List.prefix_append _ _
    · exact Int.ofNat.inj (covered.1.symm.trans line)
    · exact Int.ofNat.inj (covered.2.symm.trans start)
  have placeRest : place.rest = ':' :: behind := (List.append_cancel_left split).symm
  rw [placeRest] at here
  cases here
  rw [scanStep_colon placeRest (.inr ends)] at readColon
  cases readColon
  exact ⟨place, last, toColon, placeRest, rfl, fromColon, ended⟩

/-- Behind a token that makes a colon a mark, a source without the space behind that colon has
the tokens of the source with it, up to columns, without the blank. -/
theorem scan_withoutSpace {earlier : List Token} {colon : Token} {later : List Token}
    (scanned : scan (String.ofList (before ++ ':' :: ' ' :: c :: after)) =
      .ok (earlier ++ colon :: later))
    (isColon : colon.kind = .operator .colon) (line : colon.line = lineAfter before)
    (start : colon.start = columnAfter before) (named : isSymbolStart c = true)
    (allowed : colonAllowed earlier.reverse = true) :
    ∃ others, scan (String.ofList (before ++ ':' :: c :: after)) = .ok others ∧
      Trims (earlier ++ colon :: later) others := by
  rcases walks_colon scanned isColon line start (by simp; decide) with
    ⟨place, last, toColon, placeRest, same, fromColon, ended⟩
  -- behind the colon, scanning walks over the space and goes on with the name
  have space : (place.forward 1).rest = ' ' :: c :: after := by simp [Cursor.forward, placeRest]
  rcases fromColon.first space ended with ⟨step, readSpace, fromSpace⟩
  rw [scanStep_space space named] at readSpace
  cases readSpace
  -- without the space, the same walk comes to the same colon, which is a mark there too
  have shares : Shares (' ' :: c :: after) (c :: after)
      (Cursor.start (String.ofList (before ++ ':' :: ' ' :: c :: after))).rest
      (before ++ ':' :: c :: after) := by
    simpa [Cursor.start] using Shares.append before (' ' :: c :: after) (c :: after)
  have twinToColon := toColon.shares (Walks.isBehind_start _) placeRest shares
  have twinColon := @scanStep_colon (colonAllowed earlier.reverse)
    ⟨':' :: c :: after, place.line, place.column⟩ _ rfl (.inl allowed)
  -- there it goes on with the name in another column
  have beside : ((place.forward 1).forward 1).Beside ⟨c :: after, place.line, place.column + 1⟩ := by
    refine ⟨?_, rfl, ?_⟩
    · simp [Cursor.forward, placeRest]
    · simp [Cursor.forward]
  have sameColon : colon.Matches (Cursor.token ⟨':' :: c :: after, place.line, place.column⟩
      ⟨c :: after, place.line, place.column + 1⟩ (.operator .colon)) := by
    rw [same]
    exact ⟨rfl, rfl, Iff.rfl⟩
  rcases fromSpace.beside beside (sameColon.colonAllowed rfl) with
    ⟨twinLast, new, twinNew, twinWalks, lastBeside, split, newMatches⟩
  have twinWhole : Walks (.start (String.ofList (before ++ ':' :: c :: after))) [] twinLast
      (twinNew ++ Cursor.token ⟨':' :: c :: after, place.line, place.column⟩
        ⟨c :: after, place.line, place.column + 1⟩ (.operator .colon) :: earlier.reverse) := by
    have walked := twinToColon.trans (.step rfl twinColon twinWalks)
    simpa [Cursor.start] using walked
  have laterSplit : later = (place.forward 1).token ((place.forward 1).forward 1) (.blank 1) ::
      new.reverse := by
    have cancelled : later.reverse =
        new ++ [(place.forward 1).token ((place.forward 1).forward 1) (.blank 1)] := by
      have whole : later.reverse ++ colon :: earlier.reverse =
          new ++ [(place.forward 1).token ((place.forward 1).forward 1) (.blank 1)] ++
            colon :: earlier.reverse := by
        rw [split]
        simp
      exact List.append_cancel_right whole
    rw [← List.reverse_reverse later, cancelled, List.reverse_append]
    rfl
  refine ⟨_, twinWhole.scan (lastBeside.rest ▸ ended), ?_⟩
  rw [laterSplit]
  simp only [List.reverse_append, List.reverse_cons, List.reverse_reverse, List.append_assoc,
    List.cons_append, List.nil_append]
  apply Trims.append (List.forall₂_same.2 fun token _ => .refl token)
  refine .cons sameColon (.blank rfl ?_ ?_)
  · simp only [Cursor.token, Cursor.forward]
    omega
  · have trims := Trims.append (List.forall₂_reverse_iff.2 newMatches) .nil
    simpa using trims

end Token

/-- A colon and a name may have one space between them or none, unless the token before the
colon hides it: the program is the same up to columns. -/
theorem Program.ofSource_withoutSpace {before after : List Char} {c : Char}
    {earlier : List Token} {program : Program}
    (read : Program.ofSource (String.ofList (before ++ ':' :: ' ' :: c :: after)) = .ok program)
    (colon : Token.ColonBehind (String.ofList (before ++ ':' :: ' ' :: c :: after)) before earlier)
    (named : Token.isSymbolStart c = true)
    (shown : ∀ kind ∈ Token.lastKind? earlier.reverse, kind.hidesColon = false) :
    ∃ twin, Program.ofSource (String.ofList (before ++ ':' :: c :: after)) = .ok twin ∧
      twin.atMargin = program.atMargin := by
  rcases colon with ⟨colon, later, scanned, isColon, line, start⟩
  rw [Program.ofSource, scanned] at read
  have settled := Program.colonsSettled_of_ofTokens read
  have whole : (earlier ++ colon :: later).reverse = later.reverse ++ colon :: earlier.reverse := by
    simp
  rw [whole] at settled
  have allowed : Token.colonAllowed earlier.reverse = true := by
    rcases settled.precedes isColon with ⟨kind, last, precedes⟩
    have noHidden := shown kind last
    rw [Token.colonAllowed_eq_lastKind, Option.mem_def.1 last]
    rcases precedes with (allows | rfl | rfl) | ⟨width, rfl⟩
    · exact allows
    · cases noHidden
    · cases noHidden
    · cases noHidden
  rcases Token.scan_withoutSpace scanned isColon line start named allowed with
    ⟨others, twinScanned, trims⟩
  rcases Program.ofTokens_of_trims trims read with ⟨twin, twinRead, same⟩
  refine ⟨twin, ?_, same⟩
  rw [Program.ofSource, twinScanned]
  exact twinRead

/-- A source that is read, as it can be tested. -/
theorem Program.exists_of_isSome (source : String)
    (isRead : (Program.ofSource source).toOption.isSome = true) :
    ∃ program, Program.ofSource source = .ok program := by
  cases read : Program.ofSource source with
  | ok program => exact ⟨program, rfl⟩
  | error fault =>
      rw [read] at isRead
      cases isRead

/-- The space in front of the body of a loop. -/
theorem Program.ofSource_withoutSpace_loop :
    ∃ program twin, Program.ofSource "döngü x: kır" = .ok program ∧
      Program.ofSource "döngü x:kır" = .ok twin ∧ twin.atMargin = program.atMargin := by
  rcases Program.exists_of_isSome "döngü x: kır" (by decide +kernel) with
    ⟨program, read⟩
  have colon : Token.ColonBehind "döngü x: kır" "döngü x".toList
      [⟨0, 0, 5, .keyword .loopWord⟩, ⟨0, 5, 6, .blank 1⟩, ⟨0, 6, 7, .symbol "x"⟩] :=
    ⟨⟨0, 7, 8, .operator .colon⟩, [⟨0, 8, 9, .blank 1⟩, ⟨0, 9, 12, .keyword .breakWord⟩], rfl,
      rfl, rfl, rfl⟩
  have shown : ∀ kind ∈ Token.lastKind? [(⟨0, 6, 7, .symbol "x"⟩ : Token), ⟨0, 5, 6, .blank 1⟩,
      ⟨0, 0, 5, .keyword .loopWord⟩], kind.hidesColon = false := by
    rintro kind ⟨⟩
    rfl
  rcases @Program.ofSource_withoutSpace "döngü x".toList "ır".toList 'k' _ _ read colon
    (by decide) shown with ⟨twin, twinRead, same⟩
  exact ⟨program, twin, read, twinRead, same⟩

/-- Behind a step of a variable the space is needed. -/
theorem Program.not_ofSource_withoutSpace_step :
    ¬∀ (before after : List Char) (c : Char) (earlier : List Token) (program : Program),
      Program.ofSource (String.ofList (before ++ ':' :: ' ' :: c :: after)) = .ok program →
      Token.ColonBehind (String.ofList (before ++ ':' :: ' ' :: c :: after)) before earlier →
      Token.isSymbolStart c = true →
      ∃ twin, Program.ofSource (String.ofList (before ++ ':' :: c :: after)) = .ok twin ∧
        twin.atMargin = program.atMargin := by
  intro always
  rcases Program.exists_of_isSome "döngü x++: kır" (by decide +kernel) with
    ⟨program, read⟩
  have colon : Token.ColonBehind "döngü x++: kır" "döngü x++".toList
      [⟨0, 0, 5, .keyword .loopWord⟩, ⟨0, 5, 6, .blank 1⟩, ⟨0, 6, 7, .symbol "x"⟩,
        ⟨0, 7, 9, .operator .increment⟩] :=
    ⟨⟨0, 9, 10, .operator .colon⟩, [⟨0, 10, 11, .blank 1⟩, ⟨0, 11, 14, .keyword .breakWord⟩], rfl,
      rfl, rfl, rfl⟩
  rcases always "döngü x++".toList "ır".toList 'k' _ program read colon (by decide) with
    ⟨twin, twinRead, -⟩
  have refused : (Program.ofSource "döngü x++:kır").toOption.isSome = false := by decide +kernel
  change Program.ofSource "döngü x++:kır" = .ok twin at twinRead
  rw [twinRead] at refused
  cases refused

end Lehce
