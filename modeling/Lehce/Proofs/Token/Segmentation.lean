import Lehce.Proofs.Token.NumeralSegment

/-!
# How a source is segmented

Every step of scanning cuts off one segment (`cuts_scanStep`): it takes at least one character,
what it takes spells the token that it reads, and the cursor stays behind what was taken. So the
tokens of a source are those of segments that make up all of it (`scan_segments`), and a fault
is at the place behind some text that the source starts with.
-/

namespace Lehce.Token

/-- Whether a token tells the place of a segment that stands behind a text. -/
structure Covers (before chars : List Char) (token : Token) : Prop where
  start : match token.kind with
    | .newline _ => token.line = lineAfter before + 1 ∧ token.start = 0
    | _ => token.line = lineAfter before ∧ token.start = columnAfter before
  stop : token.stop = columnAfter (before ++ chars)

/-- Some characters of a source, with the token that they spell; a comment spells none. -/
structure Segment where
  chars : List Char
  token : Option Token

/-- Whether segments make up all of a text that stands behind another one. -/
inductive Splits : List Char → List Segment → List Char → Prop where
  | nil (before : List Char) : Splits before [] []
  | cons {before behind : List Char} {segment : Segment} {segments : List Segment}
      (nonempty : segment.chars ≠ [])
      (spells : Renders before (segment.token.map (·.kind)) segment.chars behind)
      (covers : ∀ token ∈ segment.token, token.Covers before segment.chars)
      (others : Splits (before ++ segment.chars) segments behind) :
      Splits before (segment :: segments) (segment.chars ++ behind)

section Places

variable {before chars : List Char}

theorem lineAfter_append (before chars : List Char) :
    lineAfter (before ++ chars) = lineAfter before + chars.count '\n' :=
  List.count_append

theorem lineAfter_of_unbroken (unbroken : '\n' ∉ chars) :
    lineAfter (before ++ chars) = lineAfter before := by
  rw [lineAfter_append, List.count_eq_zero.2 unbroken, Nat.add_zero]

theorem columnAfter_of_unbroken (unbroken : '\n' ∉ chars) :
    columnAfter (before ++ chars) = columnAfter before + chars.length := by
  have whole : ∀ c ∈ chars.reverse, (c != '\n') = true := by
    intro c member
    rw [bne_iff_ne]
    rintro rfl
    exact unbroken (List.mem_reverse.1 member)
  rw [columnAfter, List.reverse_append, List.takeWhile_append_of_pos whole, List.length_append,
    List.length_reverse, Nat.add_comm, columnAfter]

theorem lineAfter_feed (before : List Char) : lineAfter (before ++ ['\n']) = lineAfter before + 1 := by
  rw [lineAfter_append]
  rfl

theorem columnAfter_feed (before : List Char) : columnAfter (before ++ ['\n']) = 0 := by
  simp [columnAfter]

end Places

/-- Whether a cursor is at the place behind a text, where no word of the text goes on. -/
structure Cursor.IsBehind (before : List Char) (cursor : Cursor) : Prop where
  line : cursor.line = lineAfter before
  column : cursor.column = columnAfter before
  apart : ∀ c ∈ before.getLast?, isSymbolPart c = true →
    ∀ d ∈ cursor.rest.head?, isSymbolStart d = false

/-- Whether a step cuts some characters off the text ahead of a cursor. -/
structure Step.Cuts (before : List Char) (cursor : Cursor) (chars : List Char) (step : Step) :
    Prop where
  split : cursor.rest = chars ++ step.next.rest
  nonempty : chars ≠ []
  spells : Renders before (step.token.map (·.kind)) chars step.next.rest
  covers : ∀ token ∈ step.token, token.Covers before chars
  behind : step.next.IsBehind (before ++ chars)

section Ends

variable {before behind chars : List Char} {kind : Option Kind}

theorem isSymbolPart_of_isSymbolStart {c : Char} (start : isSymbolStart c = true) :
    isSymbolPart c = true := by
  rw [isSymbolPart, start, Bool.true_or]

theorem EndsLine.not_isSymbolStart (ends : EndsLine behind) :
    ∀ d ∈ behind.head?, isSymbolStart d = false := by
  intro d first
  exact (ends.delimited d first).not_isSymbolStart

theorem not_isSymbolPart_text (mark : Operator) :
    ∀ c ∈ mark.text.toList.getLast?, isSymbolPart c = false := by
  have outside : mark.text.toList.getLast?.all (!isSymbolPart ·) = true := by
    cases mark <;> decide +kernel
  intro c last
  rw [Option.mem_def.1 last] at outside
  simpa using outside

/-- A segment that ends with a part of a word is not followed by the start of one. -/
theorem Renders.apart (spells : Renders before kind chars behind) (nonempty : chars ≠ []) :
    ∀ c ∈ (before ++ chars).getLast?, isSymbolPart c = true →
      ∀ d ∈ behind.head?, isSymbolStart d = false := by
  have ends : (∀ d ∈ behind.head?, isSymbolPart d = false) →
      ∀ d ∈ behind.head?, isSymbolStart d = false := by
    intro parts d first
    cases start : isSymbolStart d with
    | false => rfl
    | true =>
        have part := parts d first
        rw [isSymbolPart_of_isSymbolStart start] at part
        cases part
  have noPart : (∀ c ∈ chars.getLast?, isSymbolPart c = false) →
      ∀ c ∈ (before ++ chars).getLast?, isSymbolPart c = true →
        ∀ d ∈ behind.head?, isSymbolStart d = false := by
    intro last c member part
    rw [List.getLast?_append_of_ne_nil _ nonempty] at member
    rw [last c member] at part
    cases part
  have blank : ∀ c, c = ' ' ∨ c = '\t' ∨ c = '\r' ∨ c = '\n' → isSymbolPart c = false :=
    fun c delimiter => IsDelimiter.not_isSymbolPart delimiter
  cases spells with
  | newline isBreak isMargin =>
      apply noPart
      intro c member
      apply blank
      rcases List.mem_append.1 (List.mem_of_getLast? member) with inBreak | inMargin
      · cases isBreak <;> simp at inBreak <;> simp [inBreak]
      · rcases isMargin c inMargin with rfl | rfl <;> simp
  | blank areBlanks =>
      apply noPart
      intro c member
      apply blank
      rcases areBlanks c (List.mem_of_getLast? member) with rfl | rfl | rfl <;> simp
  | lineComment _ stops => exact fun _ _ _ => stops.not_isSymbolStart
  | blockComment _ =>
      apply noPart
      intro c member
      rw [List.getLast?_append_of_ne_nil _ (by simp)] at member
      cases member
      decide
  | keyword _ maximal | symbol _ _ maximal => exact fun _ _ _ => ends maximal.2
  | atom _ stops => exact fun _ _ _ => ends stops
  | text isDelimiter _ =>
      apply noPart
      intro c member
      rw [List.getLast?_append_of_ne_nil _ (by simp)] at member
      cases member
      rcases isDelimiter with rfl | rfl <;> decide
  | numeral _ stops => exact fun _ _ _ => stops
  | @operator mark _ _ _ => exact noPart (not_isSymbolPart_text mark)

end Ends

section Steps

variable {before chars : List Char} {cursor : Cursor} {kind : Kind}

/-- A step that cuts off a segment and stays behind it. -/
theorem Step.Cuts.of_spells {step : Step} (split : cursor.rest = chars ++ step.next.rest)
    (nonempty : chars ≠ []) (spells : Renders before (step.token.map (·.kind)) chars step.next.rest)
    (covers : ∀ token ∈ step.token, token.Covers before chars)
    (line : step.next.line = lineAfter (before ++ chars))
    (column : step.next.column = columnAfter (before ++ chars)) : step.Cuts before cursor chars :=
  ⟨split, nonempty, spells, covers, line, column, spells.apart nonempty⟩

theorem Cursor.IsBehind.forward (behind : cursor.IsBehind before) (unbroken : '\n' ∉ chars) :
    (cursor.forward chars.length).line = lineAfter (before ++ chars) ∧
      (cursor.forward chars.length).column = columnAfter (before ++ chars) := by
  rw [lineAfter_of_unbroken unbroken, columnAfter_of_unbroken unbroken, ← behind.line,
    ← behind.column]
  exact ⟨rfl, rfl⟩

/-- A step that reads a token of one line moves the cursor forward. -/
theorem Step.Cuts.of_forward {more : List Char} (behind : cursor.IsBehind before)
    (split : cursor.rest = chars ++ more) (nonempty : chars ≠ []) (unbroken : '\n' ∉ chars)
    (spells : Renders before (some kind) chars more) (inside : ∀ indent, kind ≠ .newline indent) :
    Step.Cuts before cursor chars
      ⟨some (cursor.token (cursor.forward chars.length) kind), cursor.forward chars.length⟩ := by
  have rest : (cursor.forward chars.length).rest = more := by
    rw [Cursor.forward, split, List.drop_left]
  rcases behind.forward unbroken with ⟨line, column⟩
  refine .of_spells (by rw [rest, split]) nonempty (by rwa [rest]) ?_ line column
  rintro token ⟨⟩
  constructor
  · have start : cursor.token (cursor.forward chars.length) kind =
        ⟨lineAfter before, columnAfter before, (cursor.forward chars.length).column, kind⟩ := by
      rw [Cursor.token, ← behind.line, ← behind.column]
      rfl
    rw [start]
    cases kind with
    | newline indent => exact absurd rfl (inside indent)
    | _ => exact ⟨rfl, rfl⟩
  · exact congrArg Int.ofNat column

theorem indentation_spec (text : List Char) :
    ∃ margin more, text = margin ++ more ∧ (∀ c ∈ margin, c = ' ' ∨ c = '\t') ∧
      indentation text = (blankWidth margin, margin.length) := by
  fun_induction indentation text with
  | case1 rest width length same ih | case2 rest width length same ih =>
      rcases ih with ⟨margin, more, rfl, isMargin, measured⟩
      rw [same] at measured
      cases measured
      refine ⟨_ :: margin, more, rfl, ?_, ?_⟩
      · simpa using isMargin
      · simp [blankWidth, tabWidth, Nat.add_comm]
  | case3 text => exact ⟨[], text, rfl, by simp, rfl⟩

theorem blanks_spec (text : List Char) :
    ∃ front more, text = front ++ more ∧ (∀ c ∈ front, c = ' ' ∨ c = '\t' ∨ c = '\r') ∧
      blanks text = (blankWidth front, front.length) := by
  fun_induction blanks text with
  | case1 rest => exact ⟨[], '\r' :: '\n' :: rest, rfl, by simp, rfl⟩
  | case2 rest width length same ih | case3 rest width length same ih
  | case4 rest _ width length same ih =>
      rcases ih with ⟨front, more, rfl, areBlanks, measured⟩
      rw [same] at measured
      cases measured
      refine ⟨_ :: front, more, rfl, ?_, ?_⟩
      · simpa using areBlanks
      · simp [blankWidth, tabWidth, Nat.add_comm]
  | case5 text => exact ⟨[], text, rfl, by simp, rfl⟩

theorem cuts_scanNewline {lineBreak more : List Char} (isBreak : IsBreak lineBreak)
    (split : cursor.rest = lineBreak ++ more) (behind : cursor.IsBehind before) :
    ∃ chars, (scanNewline cursor lineBreak.length).Cuts before cursor chars := by
  rcases indentation_spec more with ⟨margin, text, rfl, isMargin, measured⟩
  have next : scanNewline cursor lineBreak.length =
      ⟨some ⟨(cursor.line + 1 : Nat), 0, margin.length, .newline (blankWidth margin)⟩,
        ⟨text, cursor.line + 1, margin.length⟩⟩ := by
    simp only [scanNewline, split, List.drop_left, measured]
  have noFeed : '\n' ∉ margin := by
    intro member
    rcases isMargin _ member with same | same <;> cases same
  -- the line feed is the last character of the break
  have feed : ∃ front, '\n' ∉ front ∧ lineBreak = front ++ ['\n'] := by
    cases isBreak with
    | feed => exact ⟨[], by simp, rfl⟩
    | returned => exact ⟨['\r'], by decide, rfl⟩
  rcases feed with ⟨front, noFront, rfl⟩
  have line : lineAfter (before ++ (front ++ ['\n'] ++ margin)) = cursor.line + 1 := by
    rw [← List.append_assoc, ← List.append_assoc, lineAfter_of_unbroken noFeed, lineAfter_feed,
      lineAfter_of_unbroken noFront, behind.line]
  have column : columnAfter (before ++ (front ++ ['\n'] ++ margin)) = margin.length := by
    rw [← List.append_assoc, ← List.append_assoc, columnAfter_of_unbroken noFeed, columnAfter_feed,
      Nat.zero_add]
  refine ⟨front ++ ['\n'] ++ margin, ?_⟩
  rw [next]
  refine .of_spells (by simp [split]) (by simp) (.newline isBreak isMargin) ?_ line.symm column.symm
  rintro token ⟨⟩
  constructor
  · exact ⟨by rw [behind.line]; rfl, rfl⟩
  · exact congrArg Int.ofNat column.symm

theorem cuts_scanBlanks {c : Char} {rest : List Char} (split : cursor.rest = c :: rest)
    (isBlank : c = ' ' ∨ c = '\t' ∨ c = '\r') (noBreak : ¬(c = '\r' ∧ rest.head? = some '\n'))
    (behind : cursor.IsBehind before) : ∃ chars, (scanBlanks cursor).Cuts before cursor chars := by
  rcases blanks_spec cursor.rest with ⟨front, more, whole, areBlanks, measured⟩
  have nonempty : front ≠ [] := by
    rintro rfl
    have some_ : (blanks (c :: rest)).2 ≠ 0 := by
      rcases isBlank with rfl | rfl | rfl
      · simp [blanks]
      · simp [blanks]
      · rcases rest with _ | ⟨d, rest⟩
        · simp [blanks]
        · have other : d ≠ '\n' := by simpa using noBreak
          simp [blanks, other]
    rw [← split, measured] at some_
    exact some_ rfl
  have unbroken : '\n' ∉ front := by
    intro member
    rcases areBlanks _ member with same | same | same <;> cases same
  refine ⟨front, ?_⟩
  have cuts := Step.Cuts.of_forward behind whole nonempty unbroken (.blank areBlanks) (by simp)
  simpa only [scanBlanks, measured] using cuts

/-- A comment of one line ends where the line does. -/
theorem lineLength_spec (text : List Char) (n : Nat) :
    ∃ front more, text = front ++ more ∧ '\n' ∉ front ∧ EndsLine more ∧
      lineLength text n = n + front.length := by
  fun_induction lineLength text n with
  | case1 n => exact ⟨[], [], rfl, by simp, .inl rfl, rfl⟩
  | case2 rest n => exact ⟨[], '\n' :: rest, rfl, by simp, .inr ⟨_, rest, .feed, rfl⟩, rfl⟩
  | case3 rest n =>
      exact ⟨[], '\r' :: '\n' :: rest, rfl, by simp, .inr ⟨_, rest, .returned, rfl⟩, rfl⟩
  | case4 c rest n noFeed noReturn ih =>
      rcases ih with ⟨front, more, rfl, unbroken, ends, measured⟩
      have other : c ≠ '\n' := fun same => noFeed same
      refine ⟨c :: front, more, rfl, ?_, ends, ?_⟩
      · simp [unbroken, other.symm]
      · rw [measured, List.length_cons]
        omega

theorem cuts_lineComment {rest : List Char} (split : cursor.rest = '/' :: rest)
    (follows : rest.head? = some '/') (behind : cursor.IsBehind before) :
    ∃ chars, Step.Cuts before cursor chars
      ⟨none, cursor.forward (lineLength cursor.rest 0)⟩ := by
  rcases rest with _ | ⟨second, rest⟩
  · cases follows
  cases follows
  rcases lineLength_spec rest 2 with ⟨text, more, rfl, unbroken, ends, measured⟩
  have whole : cursor.rest = ('/' :: '/' :: text) ++ more := split
  have length : lineLength cursor.rest 0 = ('/' :: '/' :: text).length := by
    have skipped : lineLength cursor.rest 0 = lineLength (text ++ more) 2 := by
      rw [split]
      rfl
    rw [skipped, measured, List.length_cons, List.length_cons]
    omega
  have noFeed : '\n' ∉ '/' :: '/' :: text := by simpa using unbroken
  have next : (cursor.forward (lineLength cursor.rest 0)).rest = more := by
    rw [Cursor.forward, length, whole, List.drop_left]
  refine ⟨'/' :: '/' :: text, ?_⟩
  rcases behind.forward noFeed with ⟨line, column⟩
  rw [← length] at line column
  refine .of_spells (by rw [next, whole]) (by simp) ?_ (by simp) line column
  exact .lineComment unbroken (by rwa [next])

/-- Whether a line and a column are the place behind a text. -/
def IsPlaceAfter (before : List Char) (line column : Nat) : Prop :=
  line = lineAfter before ∧ column = columnAfter before

theorem IsPlaceAfter.feed {line column : Nat} (place : IsPlaceAfter before line column) :
    IsPlaceAfter (before ++ ['\n']) (line + 1) 0 := by
  rw [IsPlaceAfter, lineAfter_feed, columnAfter_feed, ← place.1]
  exact ⟨rfl, rfl⟩

theorem IsPlaceAfter.unbroken {line column : Nat} (place : IsPlaceAfter before line column)
    (unbroken : '\n' ∉ chars) : IsPlaceAfter (before ++ chars) line (column + chars.length) := by
  rw [IsPlaceAfter, lineAfter_of_unbroken unbroken, columnAfter_of_unbroken unbroken, ← place.1,
    ← place.2]
  exact ⟨rfl, rfl⟩

theorem IsPlaceAfter.one {line column : Nat} {c : Char} (place : IsPlaceAfter before line column)
    (noFeed : c ≠ '\n') : IsPlaceAfter (before ++ [c]) line (column + 1) :=
  place.unbroken (by simpa using noFeed.symm)

/-- What reading the rest of a block comment comes to: the comment ends at the first mark that
closes it, or else the cursor stops at the end of the text. -/
def ClosesComment (before text : List Char) : Except Cursor Cursor → Prop
  | .ok next => ∃ body, text = body ++ '*' :: '/' :: next.rest ∧ ¬['*', '/'] <:+: body ++ ['*'] ∧
      IsPlaceAfter (before ++ body ++ ['*', '/']) next.line next.column
  | .error stop => IsPlaceAfter (before ++ text) stop.line stop.column

theorem ClosesComment.cons {c : Char} {rest : List Char} {result : Except Cursor Cursor}
    (open_ : ∀ more, c = '*' → rest = '/' :: more → False)
    (closes : ClosesComment (before ++ [c]) rest result) :
    ClosesComment before (c :: rest) result := by
  cases result with
  | error stop => simpa [ClosesComment] using closes
  | ok next =>
      rcases closes with ⟨body, rfl, unclosed, placed⟩
      refine ⟨c :: body, rfl, ?_, by simpa using placed⟩
      rw [List.cons_append, List.infix_cons_iff]
      rintro (first | later)
      · rcases body with _ | ⟨d, body⟩
        · simp [List.prefix_cons_iff] at first
        · simp only [List.cons_append, List.cons_prefix_cons, List.nil_prefix, and_true] at first
          apply open_ _ first.1.symm
          rw [← first.2]
          rfl
      · exact unclosed later

theorem closesComment (text : List Char) {line column : Nat}
    (place : IsPlaceAfter before line column) :
    ClosesComment before text (closeComment text line column) := by
  fun_induction closeComment text line column generalizing before with
  | case1 line column => simpa [ClosesComment] using place
  | case2 rest line column =>
      refine ⟨[], rfl, by decide, ?_⟩
      have noFeed : '\n' ∉ ['*', '/'] := by decide
      simpa using place.unbroken noFeed
  | case3 rest line column ih => exact .cons (by simp) (ih place.feed)
  | case4 c rest line column noClose noFeed ih =>
      exact .cons noClose (ih (place.one noFeed))

theorem cuts_scanComment {rest : List Char} {step : Step} (split : cursor.rest = '/' :: rest)
    (follows : rest.head? = some '*') (behind : cursor.IsBehind before)
    (read : scanComment cursor = .ok step) : ∃ chars, step.Cuts before cursor chars := by
  rcases rest with _ | ⟨second, rest⟩
  · cases follows
  cases follows
  have place : IsPlaceAfter (before ++ ['/', '*']) cursor.line (cursor.column + 2) :=
    IsPlaceAfter.unbroken ⟨behind.line, behind.column⟩ (by decide)
  have closes := closesComment rest place
  have ahead : cursor.rest.drop 2 = rest := by rw [split]; rfl
  rw [scanComment, ahead] at read
  generalize closeComment rest cursor.line (cursor.column + 2) = result at closes read
  cases result with
  | error stop => cases read
  | ok next =>
      cases read
      rcases closes with ⟨body, rfl, unclosed, placed⟩
      have whole : before ++ ['/', '*'] ++ body ++ ['*', '/'] =
        before ++ ('/' :: '*' :: body ++ ['*', '/']) := by simp
      rw [whole] at placed
      refine ⟨'/' :: '*' :: body ++ ['*', '/'], ?_⟩
      exact .of_spells (by simp [split]) (by simp) (.blockComment unclosed) (by simp) placed.1
        placed.2

/-- What reading the rest of a text comes to: its body ends at the first delimiter that is not
escaped, or else the cursor stops at the end of the source. -/
def ClosesText (delimiter : Char) (earlier before text : List Char) :
    Except Cursor (List Char × Cursor) → Prop
  | .ok (whole, next) => ∃ content body, whole = earlier.reverse ++ content ∧
      text = body ++ delimiter :: next.rest ∧ IsBody delimiter content body ∧
      IsPlaceAfter (before ++ body ++ [delimiter]) next.line next.column
  | .error stop => IsPlaceAfter (before ++ text) stop.line stop.column

theorem ClosesText.plain {delimiter c : Char} {earlier rest : List Char}
    {result : Except Cursor (List Char × Cursor)} (open_ : c ≠ delimiter) (bare : c ≠ '\\')
    (closes : ClosesText delimiter (c :: earlier) (before ++ [c]) rest result) :
    ClosesText delimiter earlier before (c :: rest) result := by
  cases result with
  | error stop => simpa [ClosesText] using closes
  | ok read =>
      rcases closes with ⟨content, body, whole, rfl, isBody, placed⟩
      exact ⟨c :: content, c :: body, by simpa using whole, rfl, .plain open_ bare isBody,
        by simpa using placed⟩

theorem ClosesText.escaped {delimiter c : Char} {earlier rest : List Char}
    {result : Except Cursor (List Char × Cursor)}
    (closes : ClosesText delimiter ((unescape c).reverse ++ earlier) (before ++ ['\\', c]) rest
      result) : ClosesText delimiter earlier before ('\\' :: c :: rest) result := by
  cases result with
  | error stop => simpa [ClosesText] using closes
  | ok read =>
      rcases closes with ⟨content, body, whole, rfl, isBody, placed⟩
      exact ⟨unescape c ++ content, '\\' :: c :: body, by simpa using whole, rfl,
        .escaped c isBody, by simpa using placed⟩

theorem closesText {delimiter : Char} (isDelimiter : delimiter = '"' ∨ delimiter = '\'')
    (text earlier : List Char) {line column : Nat} (place : IsPlaceAfter before line column) :
    ClosesText delimiter earlier before text (closeText delimiter text line column earlier) := by
  have quotes : delimiter ≠ '\n' ∧ delimiter ≠ '\\' := by
    rcases isDelimiter with rfl | rfl <;> decide
  fun_induction closeText delimiter text line column earlier generalizing before with
  | case1 line column earlier => simpa [ClosesText] using place
  | case2 line column earlier => exact place.one (by decide)
  | case3 line column earlier rest ih =>
      apply ClosesText.escaped
      have passed := (place.one (c := '\\') (by decide)).feed
      rw [List.append_assoc] at passed
      exact ih passed
  | case4 line column earlier c rest noFeed ih =>
      apply ClosesText.escaped
      have unbroken : '\n' ∉ ['\\', c] := by simpa using fun same => noFeed same.symm
      exact ih (place.unbroken unbroken)
  | case5 rest line column earlier bare =>
      exact ⟨[], [], by simp, rfl, .nil, by simpa using place.one quotes.1⟩
  | case6 rest line column earlier bare open_ ih =>
      exact .plain open_ bare (ih place.feed)
  | case7 c rest line column earlier bare open_ noFeed ih =>
      exact .plain open_ bare (ih (place.one noFeed))

theorem cuts_scanText {delimiter : Char} {rest : List Char} {step : Step}
    (isDelimiter : delimiter = '"' ∨ delimiter = '\'') (split : cursor.rest = delimiter :: rest)
    (behind : cursor.IsBehind before) (read : scanText cursor delimiter rest = .ok step) :
    ∃ chars, step.Cuts before cursor chars := by
  have noFeed : delimiter ≠ '\n' := by
    rcases isDelimiter with rfl | rfl <;> decide
  have place : IsPlaceAfter (before ++ [delimiter]) cursor.line (cursor.column + 1) :=
    IsPlaceAfter.one ⟨behind.line, behind.column⟩ noFeed
  have closes := closesText isDelimiter rest [] place
  rw [scanText] at read
  generalize closeText delimiter rest cursor.line (cursor.column + 1) [] = result at closes read
  rcases result with stop | ⟨content, next⟩
  · cases read
  · cases read
    rcases closes with ⟨content, body, rfl, rfl, isBody, placed⟩
    have whole : before ++ [delimiter] ++ body ++ [delimiter] =
      before ++ (delimiter :: body ++ [delimiter]) := by simp
    rw [whole] at placed
    refine ⟨delimiter :: body ++ [delimiter], ?_⟩
    refine .of_spells (by simp [split]) (by simp) (.text isDelimiter isBody) ?_ placed.1 placed.2
    rintro token ⟨⟩
    exact ⟨⟨congrArg Int.ofNat behind.line, congrArg Int.ofNat behind.column⟩,
      congrArg Int.ofNat placed.2⟩

theorem not_isSymbolPart_dropWhile (text : List Char) :
    ∀ c ∈ (text.dropWhile isSymbolPart).head?, isSymbolPart c = false := by
  intro c first
  have stops := List.head?_dropWhile_not isSymbolPart text
  rw [first] at stops
  simpa using stops

theorem mem_takeWhile_isSymbolPart {text : List Char} :
    ∀ c ∈ text.takeWhile isSymbolPart, isSymbolPart c = true :=
  List.all_eq_true.1 List.all_takeWhile

theorem unbroken_of_parts {word : List Char} (parts : ∀ c ∈ word, isSymbolPart c = true) :
    '\n' ∉ word := by
  intro member
  have part := parts _ member
  revert part
  decide

theorem ofSpelling_spec (name : String) :
    match Keyword.ofSpelling? name with
    | some word => (name, word) ∈ Keyword.spellings
    | none => ∀ word, (name, word) ∉ Keyword.spellings := by
  cases found : Keyword.ofSpelling? name with
  | some word =>
      rcases List.lookup_eq_some_iff.1 found with ⟨earlier, later, whole, -⟩
      rw [whole]
      simp
  | none =>
      intro word member
      have other := List.lookup_eq_none_iff.1 found _ member
      simp at other

theorem cuts_scanWord {c : Char} {rest : List Char} (split : cursor.rest = c :: rest)
    (start : isSymbolStart c = true) (behind : cursor.IsBehind before) :
    ∃ chars, (scanWord cursor).Cuts before cursor chars := by
  let word := cursor.rest.takeWhile isSymbolPart
  have whole : cursor.rest = word ++ cursor.rest.dropWhile isSymbolPart :=
    List.takeWhile_append_dropWhile.symm
  have isWord : IsWord word := by
    have parts : ∀ d ∈ word, isSymbolPart d = true := mem_takeWhile_isSymbolPart
    have first : word = c :: rest.takeWhile isSymbolPart := by
      simp only [word, split, List.takeWhile_cons, isSymbolPart_of_isSymbolStart start, if_true]
    rw [first] at parts ⊢
    exact ⟨start, (List.forall_mem_cons.1 parts).2⟩
  have maximal : IsMaximal before (cursor.rest.dropWhile isSymbolPart) := by
    refine ⟨?_, not_isSymbolPart_dropWhile _⟩
    intro d last
    cases part : isSymbolPart d with
    | false => rfl
    | true =>
        have apart := behind.apart d last part c (by rw [split]; rfl)
        rw [start] at apart
        cases apart
  have spells : Renders before (some (wordKind (String.ofList word))) word
      (cursor.rest.dropWhile isSymbolPart) := by
    have known := ofSpelling_spec (String.ofList word)
    rw [wordKind]
    cases found : Keyword.ofSpelling? (String.ofList word) with
    | some keyword =>
        rw [found] at known
        have spelled := Renders.keyword known maximal
        rwa [String.toList_ofList] at spelled
    | none =>
        rw [found] at known
        have named : IsWord (String.ofList word).toList := by rwa [String.toList_ofList]
        have spelled := Renders.symbol named known maximal
        rwa [String.toList_ofList] at spelled
  have nonempty : word ≠ [] := by
    intro empty
    rw [empty] at isWord
    exact isWord
  refine ⟨word, ?_⟩
  apply Step.Cuts.of_forward behind whole nonempty
    (unbroken_of_parts mem_takeWhile_isSymbolPart) spells
  intro indent
  rw [wordKind]
  split <;> simp

theorem cuts_scanAtom {rest : List Char} (split : cursor.rest = ':' :: rest)
    (start : rest.head?.any isSymbolStart = true) (behind : cursor.IsBehind before) :
    ∃ chars, (scanAtom cursor rest).Cuts before cursor chars := by
  rcases rest with _ | ⟨c, rest⟩
  · cases start
  have start : isSymbolStart c = true := start
  let word := (c :: rest).takeWhile isSymbolPart
  have whole : cursor.rest = ':' :: word ++ (c :: rest).dropWhile isSymbolPart := by
    rw [split, List.cons_append, List.takeWhile_append_dropWhile]
  have parts : ∀ d ∈ word, isSymbolPart d = true := mem_takeWhile_isSymbolPart
  have isWord : IsWord word := by
    have first : word = c :: rest.takeWhile isSymbolPart := by
      simp only [word, List.takeWhile_cons, isSymbolPart_of_isSymbolStart start, if_true]
    rw [first] at parts ⊢
    exact ⟨start, (List.forall_mem_cons.1 parts).2⟩
  have named : IsWord (String.ofList word).toList := by rwa [String.toList_ofList]
  have spells : Renders before _ _ _ := .atom named (not_isSymbolPart_dropWhile (c :: rest))
  rw [String.toList_ofList] at spells
  have unbroken : '\n' ∉ ':' :: word := by
    rw [List.mem_cons, not_or]
    exact ⟨by decide, unbroken_of_parts parts⟩
  exact ⟨':' :: word, .of_forward behind whole (by simp) unbroken spells (by simp)⟩

theorem toList_text_of_ofPair {c d : Char} {mark : Operator}
    (known : Operator.ofPair? c d = some mark) : mark.text.toList = [c, d] ∧ mark ≠ .unknown := by
  unfold Operator.ofPair? at known
  split at known <;> cases known <;> decide

theorem toList_text_of_ofChar {c : Char} {mark : Operator}
    (known : Operator.ofChar? c = some mark) : mark.text.toList = [c] ∧ mark ≠ .unknown := by
  unfold Operator.ofChar? at known
  split at known <;> cases known <;> decide

/-- An operator is spelled with one character, or else with two that spell it together. -/
theorem text_spec {mark : Operator} (known : mark ≠ .unknown) :
    (∃ c, mark.text.toList = [c]) ∨
      ∃ c d, mark.text.toList = [c, d] ∧ Operator.ofPair? c d = some mark := by
  cases mark with
  | unknown => exact absurd rfl known
  | increment | decrement | assignPlus | assignMinus | assignTimes | assignDivide | equal
  | notEqual | lessEqual | greaterEqual | andAnd | orOr => exact .inr ⟨_, _, rfl, rfl⟩
  | _ => exact .inl ⟨_, rfl⟩

theorem unbroken_text (mark : Operator) : '\n' ∉ mark.text.toList := by
  cases mark <;> decide

theorem text_nonempty (mark : Operator) : mark.text.toList ≠ [] := by
  cases mark <;> decide

theorem cuts_scanOperator {mark : Operator} {more : List Char} (known : mark ≠ .unknown)
    (split : cursor.rest = mark.text.toList ++ more)
    (longest : ∀ other ≠ Operator.unknown, other.text.toList <+: mark.text.toList ++ more →
      other.text.length ≤ mark.text.length)
    (behind : cursor.IsBehind before) :
    (scanOperator cursor mark mark.text.toList.length).Cuts before cursor mark.text.toList :=
  .of_forward behind split (text_nonempty mark) (unbroken_text mark) (.operator known longest)
    (by simp)

theorem cuts_scanMark {allowed : Bool} {c : Char} {rest : List Char} {step : Step}
    (split : cursor.rest = c :: rest) (behind : cursor.IsBehind before)
    (read : scanMark allowed cursor c rest = .ok step) :
    ∃ chars, step.Cuts before cursor chars := by
  simp only [scanMark] at read
  split at read
  · rename_i isAtom
    cases read
    rcases isAtom with ⟨rfl, -, start⟩
    exact cuts_scanAtom split start behind
  · split at read
    · rename_i mark paired
      cases read
      rcases Option.bind_eq_some_iff.1 paired with ⟨d, first, known⟩
      rcases rest with _ | ⟨e, more⟩
      · cases first
      cases first
      rcases toList_text_of_ofPair known with ⟨spelled, proper⟩
      have shown : cursor.rest = mark.text.toList ++ more := by rw [spelled, split]; rfl
      have cuts := cuts_scanOperator proper shown ?_ behind
      · rw [spelled] at cuts
        exact ⟨[c, d], cuts⟩
      · intro other otherProper _
        rw [← String.length_toList, ← String.length_toList, spelled]
        rcases text_spec otherProper with ⟨e, single⟩ | ⟨e, f, double, -⟩
        · rw [single]
          exact Nat.le_succ 1
        · rw [double]
          exact Nat.le_refl 2
    · rename_i unpaired
      split at read
      · rename_i mark known
        cases read
        rcases toList_text_of_ofChar known with ⟨spelled, proper⟩
        have shown : cursor.rest = mark.text.toList ++ rest := by rw [spelled, split]; rfl
        have cuts := cuts_scanOperator proper shown ?_ behind
        · rw [spelled] at cuts
          exact ⟨[c], cuts⟩
        · intro other otherProper fits
          rw [← String.length_toList, ← String.length_toList, spelled]
          rcases text_spec otherProper with ⟨d, single⟩ | ⟨d, e, double, pair⟩
          · rw [single]
            exact Nat.le_refl _
          · -- a longer operator would have been found first
            rw [double, spelled] at fits
            rcases rest with _ | ⟨f, rest⟩
            · simp [List.prefix_cons_iff] at fits
            · simp only [List.cons_append, List.nil_append, List.cons_prefix_cons, List.nil_prefix,
                and_true] at fits
              rcases fits with ⟨rfl, rfl⟩
              simp [pair] at unpaired
      · cases read

theorem IsNumeral.inside {chars : List Char} (isNumeral : IsNumeral kind chars) :
    ∀ indent, kind ≠ .newline indent := by
  rintro indent rfl
  cases isNumeral with
  | decimal _ _ _ _ _ read =>
      rw [decimalKind?] at read
      split at read
      · cases read
      · rcases Option.map_eq_some_iff.1 read with ⟨value, -, same⟩
        cases same

theorem cuts_scanNumeral {step : Step} (starts : startsNumeral cursor.rest = true)
    (behind : cursor.IsBehind before) (read : scanNumeral cursor = .ok step) :
    ∃ chars, step.Cuts before cursor chars := by
  rw [scanNumeral] at read
  split at read
  · rename_i literal known
    cases read
    rcases numeral_spec starts known with ⟨chars, split, measured, isNumeral, ends⟩
    have cuts := Step.Cuts.of_forward behind split isNumeral.nonempty isNumeral.unbroken
      (.numeral isNumeral ends) isNumeral.inside
    have next : cursor.forward chars.length =
        ⟨literal.rest, cursor.line, cursor.column + literal.length⟩ := by
      rw [Cursor.forward, measured, split, List.drop_left]
    rw [next] at cuts
    exact ⟨chars, cuts⟩
  · cases read

/-- Every step of scanning cuts a segment off the front of the text. -/
theorem cuts_scanStep {allowed : Bool} {c : Char} {rest : List Char} {step : Step}
    (split : cursor.rest = c :: rest) (behind : cursor.IsBehind before)
    (read : scanStep allowed cursor c rest = .ok step) :
    ∃ chars, step.Cuts before cursor chars := by
  simp only [scanStep] at read
  split_ifs at read with feed returned blank line block word quote number
  · cases read
    rw [feed] at split
    exact cuts_scanNewline .feed split behind
  · cases read
    rcases rest with _ | ⟨d, rest⟩
    · cases returned.2
    · rcases returned with ⟨rfl, ⟨⟩⟩
      exact cuts_scanNewline .returned split behind
  · cases read
    exact cuts_scanBlanks split blank returned behind
  · cases read
    rw [line.1] at split
    exact cuts_lineComment split line.2 behind
  · rw [block.1] at split
    exact cuts_scanComment split block.2 behind read
  · cases read
    exact cuts_scanWord split word behind
  · exact cuts_scanText quote split behind read
  · exact cuts_scanNumeral number behind read
  · exact cuts_scanMark split behind read

end Steps

section Faults

variable {before : List Char} {cursor : Cursor} {fault : Fault}

/-- Whether a fault is one of scanning, at a place inside a text or at its end. -/
structure Refuses (before text : List Char) (fault : Fault) : Prop where
  kind : fault.kind = .syntaxError ∨ fault.kind = .missingStringDelimiter
  place : ∃ front more, text = front ++ more ∧ fault.line = lineAfter (before ++ front) ∧
    fault.column = columnAfter (before ++ front)

theorem refuses_scanComment {rest : List Char} (split : cursor.rest = '/' :: rest)
    (follows : rest.head? = some '*') (behind : cursor.IsBehind before)
    (refused : scanComment cursor = .error fault) : Refuses before cursor.rest fault := by
  rcases rest with _ | ⟨second, rest⟩
  · cases follows
  cases follows
  have place : IsPlaceAfter (before ++ ['/', '*']) cursor.line (cursor.column + 2) :=
    IsPlaceAfter.unbroken ⟨behind.line, behind.column⟩ (by decide)
  have closes := closesComment rest place
  have ahead : cursor.rest.drop 2 = rest := by rw [split]; rfl
  rw [scanComment, ahead] at refused
  generalize closeComment rest cursor.line (cursor.column + 2) = result at closes refused
  cases result with
  | ok next => cases refused
  | error stop =>
      cases refused
      rw [ClosesComment, List.append_assoc] at closes
      exact ⟨.inl rfl, _, [], by simp [split], congrArg Int.ofNat closes.1,
        congrArg Int.ofNat closes.2⟩

theorem refuses_scanText {delimiter : Char} {rest : List Char}
    (isDelimiter : delimiter = '"' ∨ delimiter = '\'') (split : cursor.rest = delimiter :: rest)
    (behind : cursor.IsBehind before) (refused : scanText cursor delimiter rest = .error fault) :
    Refuses before cursor.rest fault := by
  have noFeed : delimiter ≠ '\n' := by
    rcases isDelimiter with rfl | rfl <;> decide
  have place : IsPlaceAfter (before ++ [delimiter]) cursor.line (cursor.column + 1) :=
    IsPlaceAfter.one ⟨behind.line, behind.column⟩ noFeed
  have closes := closesText isDelimiter rest [] place
  rw [scanText] at refused
  generalize closeText delimiter rest cursor.line (cursor.column + 1) [] = result at closes refused
  rcases result with stop | read
  · cases refused
    rw [ClosesText, List.append_assoc] at closes
    exact ⟨.inr rfl, _, [], by simp [split], congrArg Int.ofNat closes.1,
      congrArg Int.ofNat closes.2⟩
  · cases refused

theorem refuses_scanNumeral (behind : cursor.IsBehind before)
    (refused : scanNumeral cursor = .error fault) : Refuses before cursor.rest fault := by
  rw [scanNumeral] at refused
  split at refused
  · cases refused
  · rename_i reason length known
    cases refused
    rcases numeral_error known with ⟨front, more, split, measured, unbroken⟩
    rcases behind.forward unbroken with ⟨line, column⟩
    rw [← measured] at line column
    exact ⟨.inl rfl, front, more, split, congrArg Int.ofNat line, congrArg Int.ofNat column⟩

theorem refuses_scanMark {allowed : Bool} {c : Char} {rest : List Char}
    (behind : cursor.IsBehind before) (refused : scanMark allowed cursor c rest = .error fault) :
    Refuses before cursor.rest fault := by
  simp only [scanMark] at refused
  split at refused
  · cases refused
  · split at refused
    · cases refused
    · split at refused
      · cases refused
      · cases refused
        refine ⟨.inl rfl, [], cursor.rest, rfl, ?_, ?_⟩
        · rw [List.append_nil, ← behind.line]
          rfl
        · rw [List.append_nil, ← behind.column]
          rfl

theorem refuses_scanStep {allowed : Bool} {c : Char} {rest : List Char}
    (split : cursor.rest = c :: rest) (behind : cursor.IsBehind before)
    (refused : scanStep allowed cursor c rest = .error fault) : Refuses before cursor.rest fault := by
  simp only [scanStep] at refused
  split_ifs at refused with feed returned blank line block word quote number
  · rw [block.1] at split
    exact refuses_scanComment split block.2 behind refused
  · exact refuses_scanText quote split behind refused
  · exact refuses_scanNumeral behind refused
  · exact refuses_scanMark behind refused

theorem Refuses.earlier {front text : List Char} (refuses : Refuses (before ++ front) text fault) :
    Refuses before (front ++ text) fault := by
  rcases refuses with ⟨kind, inner, more, rfl, line, column⟩
  rw [List.append_assoc] at line column
  exact ⟨kind, front ++ inner, more, by simp, line, column⟩

end Faults

/-- What scanning a text to its end comes to: the text is split into segments, or else it is
refused at a place inside it. -/
def ScansAll (before text : List Char) (earlier : List Token) : Except Fault (List Token) → Prop
  | .ok tokens => ∃ segments, Splits before segments text ∧
      tokens = earlier.reverse ++ segments.filterMap (·.token)
  | .error fault => Refuses before text fault

/-- Behind a segment, scanning goes on in the same way. -/
theorem ScansAll.cons {before chars : List Char} {cursor : Cursor} {step : Step}
    {earlier : List Token} {result : Except Fault (List Token)}
    (cuts : step.Cuts before cursor chars)
    (others : ScansAll (before ++ chars) step.next.rest (step.token.toList ++ earlier) result) :
    ScansAll before cursor.rest earlier result := by
  rw [cuts.split]
  cases result with
  | error fault => exact Refuses.earlier others
  | ok tokens =>
      rcases others with ⟨segments, splits, rfl⟩
      refine ⟨⟨chars, step.token⟩ :: segments, ?_, ?_⟩
      · have more := @Splits.cons before step.next.rest ⟨chars, step.token⟩ segments
        exact more cuts.nonempty cuts.spells cuts.covers splits
      · cases step.token <;> simp

/-- From any place behind a text, scanning splits what is ahead into segments. -/
theorem scansAll_scanFrom {steps : Nat} {before : List Char} {cursor : Cursor}
    {earlier : List Token} (enough : cursor.rest.length ≤ steps)
    (behind : cursor.IsBehind before) :
    ScansAll before cursor.rest earlier (scanFrom steps cursor earlier) := by
  induction steps generalizing before cursor earlier with
  | zero =>
      have empty : cursor.rest = [] := List.eq_nil_of_length_eq_zero (by omega)
      rw [empty]
      exact ⟨[], .nil before, by simp⟩
  | succ steps ih =>
      rw [scanFrom]
      split
      · rename_i empty
        rw [empty]
        exact ⟨[], .nil before, by simp⟩
      · rename_i c rest split
        cases read : scanStep (colonAllowed earlier) cursor c rest with
        | error fault => exact refuses_scanStep split behind read
        | ok step =>
            rcases cuts_scanStep split behind read with ⟨chars, cuts⟩
            have shorter : step.next.rest.length < cursor.rest.length := by
              have some_ := List.length_pos_iff.2 cuts.nonempty
              rw [cuts.split, List.length_append]
              omega
            exact .cons cuts (ih (by omega) cuts.behind)

theorem scansAll_scan (source : String) : ScansAll [] source.toList [] (scan source) := by
  have start : (Cursor.start source).IsBehind [] := ⟨rfl, rfl, by simp⟩
  exact scansAll_scanFrom (Nat.le_refl _) start

/-- A source that is scanned splits into segments that spell its tokens, each at its place; a
source that is refused is refused for its syntax or for a missing delimiter. -/
theorem scan_segments (source : String) :
    match scan source with
    | .ok tokens => ∃ segments, Splits [] segments source.toList ∧
        tokens = segments.filterMap (·.token)
    | .error fault => fault.kind = .syntaxError ∨ fault.kind = .missingStringDelimiter := by
  have scans := scansAll_scan source
  cases read : scan source with
  | ok tokens =>
      rw [read, ScansAll, List.reverse_nil] at scans
      exact scans
  | error fault =>
      rw [read] at scans
      exact scans.kind

end Lehce.Token
