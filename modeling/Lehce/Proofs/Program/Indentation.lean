import Lehce.Proofs.Program.LayingOut

/-!
# Layout of programs

Every program can be laid out, and every way to lay it out is read back, up to positions
(`Program.ofSource_laidOut`): however far its bodies are indented, with whatever lines
without tokens between its lines, and with either break behind a line. A line that is
indented further than its block is refused.

No line may hold an atom directly behind a word after which a colon is a mark: the colon
would be taken for the end of a header (`ofSource_loopOnAtom`).
-/

namespace Lehce

open Token (Kind Line IsText ListsLines)
open Token.Kind (Chained)

/-- Whether a text consists of some lines, between any number of lines without tokens. -/
def Prints (lines : List Line) (source : String) : Prop :=
  ∃ all, IsText all source.toList ∧ all.filter (·.isFilled) = lines

/-- Whether some lines are those of the statements of a program. -/
def IsLaidOut (nodes : List Node) (lines : List Line) : Prop :=
  ∃ items : List (Node × List Line), items.map (·.1) = nodes ∧ items.flatMap (·.2) = lines ∧
    ∀ item ∈ items, IsLaid 0 { indent := 0 } false (some item.1) item.2

section Scanning

variable {lines : List Line} {source : String} {tokens : List Token}

theorem weight_filter (all : List Line) : weight (all.filter (·.isFilled)) = weight all := by
  induction all with
  | nil => rfl
  | cons line all ih =>
      rcases line with ⟨indent, _ | ⟨kind, kinds⟩⟩
      · simpa [List.filter_cons, Line.isFilled] using ih
      · simpa [List.filter_cons, Line.isFilled] using ih

theorem Token.ListsLines.weight_le (listed : ListsLines lines tokens) :
    weight lines ≤ 8 * tokens.length := by
  induction listed with
  | nil => simp
  | cons _ listed _ ih =>
      have fewer := listed.length_le
      simp only [weight_cons, List.length_cons]
      omega

/-- A text is scanned to a stream that awaits its lines. -/
theorem Prints.scan (prints : Prints lines source) (chained : ∀ line ∈ lines, Chained line.kinds) :
    ∃ tokens, Token.scan source = .ok tokens ∧ Stream.Awaits { rest := tokens } lines ∧
      weight lines ≤ 8 * tokens.length := by
  rcases prints with ⟨all, isText, rfl⟩
  have allChained : ∀ line ∈ all, Chained line.kinds := by
    intro line member
    cases filled : line.isFilled with
    | true => exact chained line (List.mem_filter.2 ⟨member, filled⟩)
    | false =>
        rcases line with ⟨indent, _ | _⟩
        · exact .nil
        · cases filled
  cases all with
  | nil => cases isText
  | cons line all =>
      rcases isText.scan allChained with ⟨gap, tokens, rest, scanned, isGap, listed, others⟩
      refine ⟨gap ++ tokens, by simpa using scanned, Stream.awaits_text isGap listed others, ?_⟩
      have fewer := listed.length_le
      have light := others.weight_le
      rw [weight_filter]
      simp only [weight_cons, List.length_append]
      omega

end Scanning

/-- The statements of a program are read back from the lines that its tokens hold. -/
theorem Program.ofTokens_laidOut {nodes : List Node} {lines : List Line} {tokens : List Token}
    (laidOut : IsLaidOut nodes lines) (awaits : Stream.Awaits { rest := tokens } lines)
    (light : weight lines ≤ 8 * tokens.length) :
    ∃ program, Program.ofTokens tokens = .ok program ∧
      program.items.map Node.bare = nodes.map Node.bare := by
  rcases laidOut with ⟨items, rfl, rfl, laid⟩
  have enough : weight (items.flatMap (·.2)) + 1 < depthFor tokens := by
    simp only [depthFor]
    omega
  rcases @readLines_items (depthFor tokens) { indent := 0 } { rest := tokens } [] items []
      (Stream.here false { rest := tokens }) (fun item member => (laid item member).reads)
      (fun item member => (laid item member).leads) (by simpa using awaits) closes_nil enough with
    ⟨left, results, rest, start, same, ended, -, least, read⟩
  obtain ⟨left, rfl⟩ : ∃ fewer, left = fewer + 1 := ⟨left - 1, by omega⟩
  rw [readLines_ended ended nofun] at read
  have last : rest.nextLine? = none := ended
  refine ⟨⟨start, results⟩, ?_, by simpa [Function.comp_def] using same⟩
  simp only [Program.ofTokens, read, bind, Except.bind, last]
  simp
  rfl

/-- A program with a line that is indented too far is refused. -/
theorem Program.ofTokens_stray {lines following : List Line} {stray : Line} {tokens : List Token}
    (strays : Strays stray { indent := 0 } .block lines ∨ lines = [] ∧ 0 < stray.indent)
    (awaits : Stream.Awaits { rest := tokens } (lines ++ stray :: following))
    (light : weight lines ≤ 8 * tokens.length) : RefusesIndentation (Program.ofTokens tokens) := by
  have enough : weight lines + 1 < depthFor tokens := by
    simp only [depthFor]
    omega
  refine RefusesIndentation.bind ?_
  rcases strays with strays | ⟨rfl, deeper⟩
  · exact strays.refuses _ [] awaits enough
  · obtain ⟨depth, deep⟩ : ∃ fewer, depthFor tokens = fewer + 1 := ⟨depthFor tokens - 1, by omega⟩
    rw [deep]
    exact readLines_stray awaits deeper

theorem isMargin_spaces (width : Nat) : Token.IsMargin width (List.replicate width ' ') := by
  induction width with
  | zero => exact .nil
  | succ width ih => exact .space ih

/-- A line that can be spelled has a margin and spellings. -/
theorem Token.Line.IsWritable.exists_text {line : Line} (writable : line.IsWritable) :
    ∃ margin content, IsMargin line.indent margin ∧ IsContent line.kinds content := by
  rcases Int.eq_ofNat_of_zero_le writable.indented with ⟨width, same⟩
  rcases writable.spellable.exists_lexemes with ⟨lexemes, spelled⟩
  refine ⟨List.replicate width ' ', _, ?_, .tokens (List.forall₂_map_right_iff.2 spelled)⟩
  rw [same]
  exact isMargin_spaces width

theorem exists_isText {lines : List Line} (nonempty : lines ≠ [])
    (writable : ∀ line ∈ lines, line.IsWritable) : ∃ text, IsText lines text := by
  induction lines with
  | nil => exact absurd rfl nonempty
  | cons line lines ih =>
      rcases (writable line List.mem_cons_self).exists_text with
        ⟨margin, content, isMargin, isContent⟩
      rcases lines with _ | ⟨next, lines⟩
      · exact ⟨_, .last isMargin isContent⟩
      · rcases ih (by simp) fun line member => writable line (List.mem_cons_of_mem _ member) with
          ⟨text, isText⟩
        exact ⟨_, .more isMargin isContent .feed isText⟩

/-- Lines that can be spelled can be printed. -/
theorem exists_prints {lines : List Line} (writable : ∀ line ∈ lines, line.IsWritable) :
    ∃ source, Prints lines source := by
  rcases lines with _ | ⟨line, lines⟩
  · have isText : IsText [⟨0, []⟩] ([] ++ []) := .last .nil (.tokens .nil)
    exact ⟨"", [⟨0, []⟩], isText, rfl⟩
  · rcases exists_isText (by simp) writable with ⟨text, isText⟩
    refine ⟨.ofList text, line :: lines, by simpa using isText, ?_⟩
    refine List.filter_eq_self.2 fun line member => ?_
    simpa [Line.isFilled] using (writable line member).filled

/-- The statements of a program can be laid out. -/
theorem exists_laidOut {nodes : List Node}
    (wellFormed : ∀ node ∈ nodes,
      node.IsStatement Number.IsFinite false false ∧ node.IsPrintable) :
    ∃ lines, IsLaidOut nodes lines ∧ ∀ line ∈ lines, line.IsWritable := by
  have each : ∀ node ∈ nodes, ∃ laid : Node × List Line, laid.1 = node ∧
      IsLaid 0 { indent := 0 } false (some laid.1) laid.2 ∧
        ∀ line ∈ laid.2, line.IsWritable := by
    intro node member
    rcases wellFormed node member with ⟨shape, printable⟩
    rcases And.left (@Node.IsStatement.isLayable { indent := 0 } node false false shape printable
      rfl rfl (Int.le_refl _)) with ⟨lines, laid, writable⟩
    exact ⟨(node, lines), rfl, laid, writable⟩
  rcases Node.exists_descriptions each with ⟨items, rfl, laid⟩
  refine ⟨_, ⟨items, rfl, rfl, fun item member => (laid item member).1⟩, ?_⟩
  intro line member
  rcases List.mem_flatMap.1 member with ⟨item, inItems, inLines⟩
  exact (laid item inItems).2 line inLines

/-- Every program has a layout, every layout is read back as its program, and a line that is
indented further than its block is refused. -/
theorem Program.ofSource_laidOut :
    (∀ nodes : List Node,
      (∀ node ∈ nodes, node.IsStatement Number.IsFinite false false ∧ node.IsPrintable) →
      ∃ lines source, IsLaidOut nodes lines ∧ (∀ line ∈ lines, Chained line.kinds) ∧
        Prints lines source) ∧
    (∀ nodes lines source, IsLaidOut nodes lines → (∀ line ∈ lines, Chained line.kinds) →
      Prints lines source →
      ∃ program, Program.ofSource source = .ok program ∧
        program.items.map Node.bare = nodes.map Node.bare) ∧
    ∀ lines stray following source,
      (Strays stray { indent := 0 } .block lines ∨ lines = [] ∧ 0 < stray.indent) →
      (∀ line ∈ lines ++ stray :: following, Chained line.kinds) →
      Prints (lines ++ stray :: following) source →
      RefusesIndentation (Program.ofSource source) := by
  refine ⟨?_, ?_, ?_⟩
  · intro nodes wellFormed
    rcases exists_laidOut wellFormed with ⟨lines, laidOut, writable⟩
    rcases exists_prints writable with ⟨source, prints⟩
    exact ⟨lines, source, laidOut, fun line member => (writable line member).chained, prints⟩
  · intro nodes lines source laidOut chained prints
    rcases prints.scan chained with ⟨tokens, scanned, awaits, light⟩
    rcases Program.ofTokens_laidOut laidOut awaits light with ⟨program, read, same⟩
    exact ⟨program, by rw [Program.ofSource, scanned]; exact read, same⟩
  · intro lines stray following source strays chained prints
    rcases prints.scan chained with ⟨tokens, scanned, awaits, light⟩
    rw [Program.ofSource, scanned]
    refine Program.ofTokens_stray strays awaits ?_
    rw [weight_append] at light
    omega

theorem isIdentifier_conditions : IsIdentifier "a" ∧ IsIdentifier "b" := by decide +kernel

/-- A loop around a branch. -/
def loopAroundBranch : Node :=
  .whileLoop .origin (.symbol .origin "a") .origin
    [.branch .origin (.symbol .origin "b") .origin [.breaks .origin]
      (some (.block .origin [.continues .origin]))]

/-- The lines of a loop around a branch whose bodies have different indentations. -/
def loopAroundBranchLines : List Line := [
  ⟨0, [.keyword .loopWord, .symbol "a", .operator .colon]⟩,
  ⟨4, [.keyword .ifWord, .symbol "b", .operator .colon]⟩, ⟨6, [.keyword .breakWord]⟩,
  ⟨4, [.keyword .elseWord, .operator .colon]⟩, ⟨5, [.keyword .continueWord]⟩]

theorem isLaidOut_loopAroundBranch : IsLaidOut [loopAroundBranch] loopAroundBranchLines := by
  have elseLaid : IsLaid 4 { indent := 4, inLoop := true } true
      (some (.block .origin [.continues .origin]))
      [⟨4, [.keyword .elseWord, .operator .colon]⟩, ⟨5, [.keyword .continueWord]⟩] :=
    @IsLaid.headed 4 5 { indent := 4, inLoop := true } true _ _ none _ [(.continues .origin, _)] []
      .alternative (by decide) (fun _ => by decide) (by simp)
      (List.forall_mem_singleton.2 (.simple (.continues rfl))) (fun _ => rfl) .nothing rfl
  have branchLaid : IsLaid 4 { indent := 4, inLoop := true } false
      (some (.branch .origin (.symbol .origin "b") .origin [.breaks .origin]
        (some (.block .origin [.continues .origin]))))
      [⟨4, [.keyword .ifWord, .symbol "b", .operator .colon]⟩, ⟨6, [.keyword .breakWord]⟩,
        ⟨4, [.keyword .elseWord, .operator .colon]⟩, ⟨5, [.keyword .continueWord]⟩] :=
    @IsLaid.headed 4 6 { indent := 4, inLoop := true } false _ _ (some _) _ [(.breaks .origin, _)] _
      (.branch (.symbol _ "b")) (by decide) nofun (by simp)
      (List.forall_mem_singleton.2 (.simple (.breaks rfl))) nofun elseLaid rfl
  refine ⟨[(loopAroundBranch, loopAroundBranchLines)], rfl, by simp,
    List.forall_mem_singleton.2 ?_⟩
  exact @IsLaid.headed 0 4 { indent := 0 } false _ _ none _ [(_, _)] [] (.loop (.symbol _ "a"))
    (by decide) (fun _ => by decide) (by simp) (List.forall_mem_singleton.2 branchLaid)
    (fun _ => rfl) .nothing rfl

theorem spells_keyword {word : Keyword} (spelling : String)
    (known : (spelling, word) ∈ Keyword.spellings) :
    (Kind.keyword word).IsSpelled spelling.toList := .keyword known

theorem spells_operator {mark : Operator} (known : mark ≠ .unknown) :
    (Kind.operator mark).IsSpelled mark.text.toList := .operator known

theorem prints_loopAroundBranch : Prints loopAroundBranchLines
    "while a :\r\n\tif b :\r\n\r\n\t  break\n  // other\n    else :\n     continue" := by
  rcases isIdentifier_conditions with ⟨first, second⟩
  have colon := spells_operator (show Operator.colon ≠ .unknown by decide)
  have remark : Token.IsContent [] ('/' :: '/' :: " other".toList) :=
    .comment (by decide) (by decide)
  have isText : IsText [⟨0, [.keyword .loopWord, .symbol "a", .operator .colon]⟩,
      ⟨4, [.keyword .ifWord, .symbol "b", .operator .colon]⟩, ⟨0, []⟩, ⟨6, [.keyword .breakWord]⟩,
      ⟨2, []⟩, ⟨4, [.keyword .elseWord, .operator .colon]⟩, ⟨5, [.keyword .continueWord]⟩] _ :=
    .more .nil (.tokens (.cons (spells_keyword "while" (by decide))
      (.cons (.symbol first.1 first.2) (.cons colon .nil)))) .returned <|
    .more (.tabulator .nil) (.tokens (.cons (spells_keyword "if" (by decide))
      (.cons (.symbol second.1 second.2) (.cons colon .nil)))) .returned <|
    .more .nil (.tokens .nil) .returned <|
    .more (.tabulator (.space (.space .nil)))
      (.tokens (.cons (spells_keyword "break" (by decide)) .nil)) .feed <|
    .more (.space (.space .nil)) remark .feed <|
    .more (.space (.space (.space (.space .nil))))
      (.tokens (.cons (spells_keyword "else" (by decide)) (.cons colon .nil))) .feed <|
    .last (.space (.space (.space (.space (.space .nil)))))
      (.tokens (.cons (spells_keyword "continue" (by decide)) .nil))
  exact ⟨_, isText, rfl⟩

/-- The lines of a loop, and one behind it that is indented less than its body. -/
theorem prints_strayBehindLoop :
    Prints ([⟨0, [.keyword .loopWord, .symbol "a", .operator .colon]⟩,
      ⟨4, [.keyword .breakWord]⟩] ++ [⟨2, [.keyword .continueWord]⟩]) "while a :\n\tbreak\n  continue" := by
  rcases isIdentifier_conditions with ⟨first, -⟩
  have colon := spells_operator (show Operator.colon ≠ .unknown by decide)
  have isText : IsText [⟨0, [.keyword .loopWord, .symbol "a", .operator .colon]⟩,
      ⟨4, [.keyword .breakWord]⟩, ⟨2, [.keyword .continueWord]⟩] _ :=
    .more .nil (.tokens (.cons (spells_keyword "while" (by decide))
      (.cons (.symbol first.1 first.2) (.cons colon .nil)))) .feed <|
    .more (.tabulator .nil) (.tokens (.cons (spells_keyword "break" (by decide)) .nil)) .feed <|
    .last (.space (.space .nil)) (.tokens (.cons (spells_keyword "continue" (by decide)) .nil))
  exact ⟨_, isText, rfl⟩

/-- Spaces, tabulators, comments and both line breaks do not matter, but a line that is indented
less than the body before it and more than the header of that body is refused. -/
theorem ofSource_loopAroundBranch :
    (∃ lines source, IsLaidOut [loopAroundBranch] lines ∧ (∀ line ∈ lines, Chained line.kinds) ∧
      Prints lines source) ∧
    (∃ program, Program.ofSource
        "while a :\r\n\tif b :\r\n\r\n\t  break\n  // other\n    else :\n     continue" =
          .ok program ∧
      program.items.map Node.bare = [loopAroundBranch]) ∧
    RefusesIndentation (Program.ofSource "while a :\n\tbreak\n  continue") := by
  have noAtoms : ∀ line ∈ loopAroundBranchLines, ∀ kind ∈ line.kinds, kind.isAtom = false := by
    simp [loopAroundBranchLines, Kind.isAtom]
  have spellable : ∀ {name : String}, IsIdentifier name →
      (Node.symbol .origin name).AllSpellable := by
    intro name identifier
    simpa [Node.AllSpellable, Node.occurrences, Node.IsSpellable] using identifier
  rcases isIdentifier_conditions with ⟨first, second⟩
  refine ⟨Program.ofSource_laidOut.1 _ ?_, ?_, ?_⟩
  · refine List.forall_mem_singleton.2 ⟨?_, ?_⟩
    · exact .whileLoop (.name (.symbol _ _)) (List.forall_mem_singleton.2
        (.branchElse (.name (.symbol _ _)) (List.forall_mem_singleton.2 (.breaks _))
          (List.forall_mem_singleton.2 (.continues _))))
    · have alternative : Node.IsPrintable (.block .origin [.continues .origin]) :=
        .block (by simp) (List.forall_mem_singleton.2 .continues)
      exact .whileLoop (spellable first) (by simp) (List.forall_mem_singleton.2
        (.branch (spellable second) (by simp) (List.forall_mem_singleton.2 .breaks)
          (by rintro _ ⟨⟩; exact alternative)))
  · exact Program.ofSource_laidOut.2.1 _ _ _ isLaidOut_loopAroundBranch
      (fun line member => Token.Kind.chained_of_noAtom (noAtoms line member))
      prints_loopAroundBranch
  · have loopLaid : IsLaid 2 { indent := 0 } false
        (some (.whileLoop .origin (.symbol .origin "a") .origin [.breaks .origin]))
        [⟨0, [.keyword .loopWord, .symbol "a", .operator .colon]⟩, ⟨4, [.keyword .breakWord]⟩] :=
      @IsLaid.headed 2 4 { indent := 0 } false _ _ none _ [(.breaks .origin, _)] []
        (.loop (.symbol _ "a")) (by decide) (fun _ => by decide) (by simp)
        (List.forall_mem_singleton.2 (.simple (.breaks rfl))) (fun _ => rfl) .nothing rfl
    refine Program.ofSource_laidOut.2.2 _ _ [] _ (.inl ?_) ?_ prints_strayBehindLoop
    · exact @Strays.here ⟨2, _⟩ { indent := 0 } [] _ _ (by simp) loopLaid (by decide)
    · intro line member
      refine Token.Kind.chained_of_noAtom ?_
      revert line
      simp [Kind.isAtom]

/-- A loop whose condition is an atom. -/
def loopOnAtom : Node :=
  .whileLoop .origin (.literal .origin (.atom "a")) .origin [.breaks .origin]

/-- The lines of a loop whose condition is an atom, without parentheses around it. -/
def loopOnAtomLines : List Line :=
  [⟨0, [.keyword .loopWord, .atom "a", .operator .colon]⟩, ⟨4, [.keyword .breakWord]⟩]

/-- An atom directly behind the word that starts a loop is not read back: its colon is taken for
the end of the header. -/
theorem ofSource_loopOnAtom :
    loopOnAtom.IsStatement Number.IsFinite false false ∧ loopOnAtom.IsPrintable ∧
      IsLaidOut [loopOnAtom] loopOnAtomLines ∧
      Prints loopOnAtomLines "döngü :a :\n    kır" ∧
      Program.ofSource "döngü :a :\n    kır" = .error ⟨.expectedNewLine, 0, 9, ""⟩ := by
  have spellable : (Node.literal .origin (.atom "a")).AllSpellable := by
    have word : Token.IsWord "a".toList := isIdentifier_conditions.1.1
    simpa [Node.AllSpellable, Node.occurrences, Node.IsSpellable] using word
  have laid : IsLaid 0 { indent := 0 } false (some loopOnAtom) loopOnAtomLines := by
    have body : IsLaid 4 { indent := 4, inLoop := true } false (some (.breaks .origin))
        [⟨4, [.keyword .breakWord]⟩] := .simple (.breaks rfl)
    have condition : (Node.literal .origin (.atom "a")).IsWritten 0 [.atom "a"] := .literal rfl
    exact @IsLaid.headed 0 4 { indent := 0 } false _ _ none _ [(.breaks .origin, _)] []
      (.loop condition) (by decide) (fun _ => by decide) (by simp)
      (List.forall_mem_singleton.2 body) (fun _ => rfl) .nothing rfl
  have prints : Prints loopOnAtomLines "döngü :a :\n    kır" := by
    have colon := spells_operator (show Operator.colon ≠ .unknown by decide)
    have isText : IsText loopOnAtomLines _ :=
      .more .nil (.tokens (.cons (spells_keyword "döngü" (by decide))
        (.cons (.atom isIdentifier_conditions.1.1) (.cons colon .nil)))) .feed <|
      .last (.space (.space (.space (.space .nil))))
        (.tokens (.cons (spells_keyword "kır" (by decide)) .nil))
    exact ⟨_, isText, rfl⟩
  refine ⟨?_, ?_, ⟨[(loopOnAtom, loopOnAtomLines)], rfl, by simp, ?_⟩, prints, rfl⟩
  · exact .whileLoop (.literal trivial) (List.forall_mem_singleton.2 (.breaks _))
  · exact .whileLoop spellable (by simp) (List.forall_mem_singleton.2 .breaks)
  · exact List.forall_mem_singleton.2 laid

end Lehce
