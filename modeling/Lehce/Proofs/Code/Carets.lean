import Lehce.Proofs.Code.FaultPlaces
import Lehce.Proofs.Text.Lines
import Lehce.Proofs.Token.Segmentation

/-!
# Where the caret of a fault stands

Scanning is refused at the place behind a front of the source. Readers and the compiler tell
where tokens start and end, and all of these are such places too, with one exception: a text
that goes on over lines tells the line where it starts and the column where it ends, which may
be a column that its first line does not have. So the caret under a fault stands at a place of
the source, unless the fault is told to be behind such a text (`isRefused_pointsInto`).
-/

namespace Lehce

open Token (lineAfter columnAfter)

/-- The places of a source: each is behind a front of it. -/
def IsInside (source : String) (position : Position) : Prop :=
  ∃ front behind, source.toList = front ++ behind ∧
    position = ⟨lineAfter front, columnAfter front⟩

/-- Whether a position is the line where a text of several lines starts, with the column where
the text ends. -/
def IsTextEnd (source : String) (position : Position) : Prop :=
  ∃ tokens, Token.scan source = .ok tokens ∧ ∃ token ∈ tokens,
    (∃ content, token.kind = .text content) ∧ position = ⟨token.line, token.stop⟩ ∧
    ∃ before chars behind, source.toList = before ++ chars ++ behind ∧ '\n' ∈ chars ∧
      token.Covers before chars

/-- Whether the caret under a fault stands at a place of the source. -/
def Fault.PointsInto (source : String) (fault : Fault) : Prop :=
  0 ≤ fault.line ∧ ∃ before after : List Char,
    (source.splitOn "\n")[fault.line.toNat]? = some (String.ofList (before ++ after)) ∧
    fault.column = before.length ∧
    fault.pretty source = fault.message ++ "\n" ++ String.ofList (before ++ after) ++ "\n" ++
      String.join (before.map Fault.blankFor) ++ "^\n"

namespace Token

/-- A token of a source is spelled somewhere in it and tells where. -/
theorem Splits.exists_segment {before text : List Char} {segments : List Segment} {token : Token}
    (splits : Splits before segments text) (member : token ∈ segments.filterMap (·.token)) :
    ∃ front chars behind, before ++ text = front ++ chars ++ behind ∧
      Renders front (some token.kind) chars behind ∧ token.Covers front chars := by
  induction splits with
  | nil => simp at member
  | @cons before behind segment segments _ spells covers _ ih =>
      rcases List.mem_filterMap.1 member with ⟨found, listed, same⟩
      rcases List.mem_cons.1 listed with rfl | later
      · refine ⟨before, found.chars, behind, by simp, ?_, covers token same⟩
        simpa [same] using spells
      · rcases ih (List.mem_filterMap.2 ⟨found, later, same⟩) with
          ⟨front, chars, after, split, spelled, placed⟩
        exact ⟨front, chars, after, by simpa using split, spelled, placed⟩

theorem unbroken_keyword {word : Keyword} {spelling : String}
    (known : (spelling, word) ∈ Keyword.spellings) : '\n' ∉ spelling.toList := by
  have all : ∀ entry ∈ Keyword.spellings, '\n' ∉ entry.1.toList := by decide
  exact all _ known

theorem IsWord.unbroken {word : List Char} (isWord : IsWord word) : '\n' ∉ word := by
  rcases word with _ | ⟨c, rest⟩
  · exact isWord.elim
  · apply unbroken_of_parts
    intro d member
    rcases List.mem_cons.1 member with rfl | later
    · exact isSymbolPart_of_isSymbolStart isWord.1
    · exact isWord.2 d later

/-- Only texts go on over lines. -/
theorem Renders.unbroken {before chars behind : List Char} {kind : Kind}
    (spells : Renders before (some kind) chars behind) (visible : kind.isVisible = true)
    (noText : ∀ content, kind ≠ .text content) : '\n' ∉ chars := by
  cases spells with
  | newline | blank => cases visible
  | keyword known => exact unbroken_keyword known
  | symbol isWord => exact isWord.unbroken
  | atom isWord =>
      rw [List.mem_cons, not_or]
      exact ⟨by decide, isWord.unbroken⟩
  | text => exact absurd rfl (noText _)
  | numeral isNumeral => exact isNumeral.unbroken
  | operator => exact unbroken_text _

theorem Covers.starts {token : Token} {before chars : List Char} (covers : token.Covers before chars)
    (inside : ∀ indent, token.kind ≠ .newline indent) :
    token.line = lineAfter before ∧ token.start = columnAfter before := by
  have begins := covers.start
  split at begins
  · rename_i indent isNewline
    exact absurd isNewline (inside indent)
  · exact begins

/-- Where a token starts is behind the front of the source that comes before its spelling; a line
break starts behind its line feed. -/
theorem Renders.start_inside {source : String} {token : Token} {before chars behind : List Char}
    (split : source.toList = before ++ (chars ++ behind))
    (spells : Renders before (some token.kind) chars behind) (covers : token.Covers before chars) :
    IsInside source token.position := by
  by_cases inside : ∀ indent, token.kind ≠ .newline indent
  · refine ⟨before, _, split, ?_⟩
    rw [Token.position, (covers.starts inside).1, (covers.starts inside).2]
  · have isBreak : ∃ indent, token.kind = .newline indent := by simpa using inside
    rcases isBreak with ⟨indent, isNewline⟩
    have begins := covers.start
    rw [isNewline] at spells begins
    cases spells with
    | @newline lineBreak margin _ isBreak isMargin =>
        have feed : ∃ front, '\n' ∉ front ∧ lineBreak = front ++ ['\n'] := by
          cases isBreak with
          | feed => exact ⟨[], by simp, rfl⟩
          | returned => exact ⟨['\r'], by decide, rfl⟩
        rcases feed with ⟨front, unbroken, rfl⟩
        refine ⟨before ++ front ++ ['\n'], margin ++ behind, by simpa using split, ?_⟩
        rw [lineAfter_feed, columnAfter_feed, lineAfter_of_unbroken unbroken, Token.position,
          begins.1, begins.2]
        rfl
    | numeral isNumeral => exact absurd rfl (isNumeral.inside indent)

end Token

/-- Every token of a source starts and ends at places of it, texts of several lines apart. -/
theorem isPlaced_scan {source : String} {tokens : List Token}
    (read : Token.scan source = .ok tokens) : ∀ token ∈ tokens,
      token.IsPlaced fun position => IsInside source position ∨ IsTextEnd source position := by
  have scans := Token.scansAll_scan source
  rw [read] at scans
  rcases scans with ⟨segments, splits, rfl⟩
  intro token member
  rcases splits.exists_segment (by simpa using member) with
    ⟨before, chars, behind, split, spells, covers⟩
  rw [List.nil_append] at split
  refine ⟨.inl (spells.start_inside (by simpa using split) covers), fun visible => ?_⟩
  have line : token.line = lineAfter before := by
    refine (covers.starts fun indent isNewline => ?_).1
    rw [isNewline] at visible
    cases visible
  by_cases broken : '\n' ∈ chars
  · right
    refine ⟨_, read, token, member, ?_, rfl, before, chars, behind, split, broken, covers⟩
    by_contra noText
    exact spells.unbroken visible (fun content same => noText ⟨content, same⟩) broken
  · left
    refine ⟨before ++ chars, behind, split, ?_⟩
    rw [Token.lineAfter_of_unbroken broken, line, covers.stop]

/-- Where the caret stands under a fault at a place of the source. -/
theorem IsInside.pointsInto {source : String} {fault : Fault}
    (inside : IsInside source fault.position) : fault.PointsInto source := by
  rcases inside with ⟨front, behind, split, place⟩
  rcases Text.exists_line front behind with ⟨before, after, found, measured⟩
  have line : fault.line = (front.count '\n' : Nat) := congrArg Position.line place
  have column : fault.column = columnAfter front := congrArg Position.column place
  have shown : (source.splitOn "\n")[fault.line.toNat]? =
      some (String.ofList (before ++ after)) := by
    rw [Text.splitOn_feed, split, List.getElem?_map, line, Int.toNat_natCast, found]
    rfl
  have placed : fault.column = before.length := by
    rw [column, measured]
    rfl
  refine ⟨by rw [line]; exact Int.natCast_nonneg _, before, after, shown, placed, ?_⟩
  have notNegative : ¬fault.line < 0 := by
    rw [line]
    omega
  rw [Fault.pretty, if_neg notNegative, shown]
  simp only [String.toList_ofList, placed, Int.toNat_natCast, List.take_left]

/-- The faults with which a source is refused: when it is scanned, read or compiled. -/
def IsRefused (source : String) (fault : Fault) : Prop :=
  Token.scan source = .error fault ∨ Program.ofSource source = .error fault ∨
    ∃ natives, Code.compileSource natives source = .error (.fault fault)

/-- A source is refused at a place of it, or behind a text of several lines. -/
theorem isRefused_placed {source : String} {fault : Fault} (refused : IsRefused source fault) :
    IsInside source fault.position ∨ IsTextEnd source fault.position := by
  have origin : IsInside source ⟨0, 0⟩ := ⟨[], source.toList, rfl, rfl⟩
  have scanned : ∀ {fault}, Token.scan source = .error fault → IsInside source fault.position := by
    intro fault failed
    have scans := Token.scansAll_scan source
    rw [failed] at scans
    rcases scans.place with ⟨front, behind, split, line, column⟩
    exact ⟨front, behind, split, by rw [Fault.position, line, column]; rfl⟩
  have yields : ∀ {tokens}, Token.scan source = .ok tokens →
      Yields (Program.IsPlaced fun position =>
          IsInside source position ∨ IsTextEnd source position)
        (Fault.IsProper (fun position => IsInside source position ∨ IsTextEnd source position) True)
        (Program.ofSource source) := by
    intro tokens read
    have yields := Program.ofTokens_yields (.inl origin) (isPlaced_scan read)
    simpa [Program.ofSource, read, bind, Except.bind] using yields
  have readOrNot : ∀ {fault}, Program.ofSource source = .error fault →
      IsInside source fault.position ∨ IsTextEnd source fault.position := by
    intro fault failed
    cases read : Token.scan source with
    | error other =>
        rw [Program.ofSource, read] at failed
        cases failed
        exact .inl (scanned read)
    | ok tokens =>
        have yields := yields read
        rw [failed] at yields
        exact yields.placed
  rcases refused with failed | failed | ⟨natives, failed⟩
  · exact .inl (scanned failed)
  · exact readOrNot failed
  · cases read : Program.ofSource source with
    | error other =>
        simp only [Code.compileSource, read, Except.mapError, bind, Except.bind] at failed
        cases failed
        exact readOrNot read
    | ok program =>
        simp only [Code.compileSource, read, Except.mapError, bind, Except.bind] at failed
        cases scan : Token.scan source with
        | error other =>
            rw [Program.ofSource, scan] at read
            cases read
        | ok tokens =>
            have placed := yields scan
            rw [read] at placed
            rcases Code.compile_faultPlaced (Program.isShaped_ofSource read) placed failed with
              ⟨told, same, proper⟩
            cases same
            exact proper

/-- The caret under a fault stands at the place of the source that the fault tells, unless the
fault is told to be behind a text of several lines: its line is then that of the start of the
text and its column that of the end. Compilation has no fault that tells no place. -/
theorem isRefused_pointsInto (source : String) :
    (∀ fault, IsRefused source fault → fault.PointsInto source ∨
      IsTextEnd source fault.position) ∧
    ∀ natives error, Code.compileSource natives source = .error error →
      ∃ fault, error = .fault fault := by
  refine ⟨fun fault refused => ?_, fun natives error failed => ?_⟩
  · exact (isRefused_placed refused).imp_left IsInside.pointsInto
  · cases read : Program.ofSource source with
    | error fault =>
        simp only [Code.compileSource, read, Except.mapError, bind, Except.bind] at failed
        cases failed
        exact ⟨fault, rfl⟩
    | ok program =>
        simp only [Code.compileSource, read, Except.mapError, bind, Except.bind] at failed
        rcases (Code.compile_iff_wellScoped read natives).2 error failed with ⟨fault, same, -⟩
        exact ⟨fault, same⟩

/-- A call that is not closed behind a text that goes on over two lines. -/
def openBehindText : String := "(\"a\nbbbbbbbbbbbb\""

/-- The fault of a program that is not read, if it is the one that is expected. -/
theorem ofSource_eq_error {source : String} {fault : Fault}
    (told : (match Program.ofSource source with
      | .error other => decide (other = fault)
      | .ok _ => false) = true) : Program.ofSource source = .error fault := by
  split at told
  · rename_i other failed
    rw [failed, of_decide_eq_true told]
  · cases told

theorem isRefused_openBehindText :
    IsRefused openBehindText ⟨.rightParenthesesMissing, 0, 13, ""⟩ :=
  .inr (.inl (ofSource_eq_error (by decide +kernel)))

/-- The fault behind the text is told to be on its first line, which is not that long. -/
theorem not_pointsInto_openBehindText :
    ¬∀ source fault, IsRefused source fault → 0 ≤ fault.line ∧ 0 ≤ fault.column ∧
      ∃ line, (source.splitOn "\n")[fault.line.toNat]? = some line ∧ fault.column ≤ line.length := by
  intro all
  rcases (all _ _ isRefused_openBehindText).2.2 with ⟨line, found, short⟩
  have first : ((openBehindText.toList.splitOn '\n').map String.ofList)[0]? = some "(\"a" := by
    decide +kernel
  rw [Text.splitOn_feed] at found
  cases first.symm.trans found
  revert short
  decide

theorem pointsInto_unclosedCall :
    IsRefused "print(1\n" ⟨.rightParenthesesMissing, 0, 7, ""⟩ ∧
      (Fault.PointsInto "print(1\n" ⟨.rightParenthesesMissing, 0, 7, ""⟩ ∨
        IsTextEnd "print(1\n" ⟨0, 7⟩) ∧
      ∃ error fault, Code.compileSource (fun _ => none) "print(1\n" = .error error ∧
        error = .fault fault := by
  have read : Program.ofSource "print(1\n" = .error ⟨.rightParenthesesMissing, 0, 7, ""⟩ :=
    ofSource_eq_error (by decide +kernel)
  have compiled : Code.compileSource (fun _ => none) "print(1\n" =
      .error (.fault ⟨.rightParenthesesMissing, 0, 7, ""⟩) := by
    rw [Code.compileSource, read]
    rfl
  rcases isRefused_pointsInto "print(1\n" with ⟨points, tells⟩
  rcases tells _ _ compiled with ⟨fault, same⟩
  exact ⟨.inr (.inl read), points _ (.inr (.inl read)), _, fault, compiled, same⟩

end Lehce
