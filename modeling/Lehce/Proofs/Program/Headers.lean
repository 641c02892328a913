import Lehce.Proofs.Program.Lines
import Lehce.Proofs.Program.SimpleStatements

/-!
# Simple statements and headers

A statement without a body is read from the tokens of its line
(`readStatement_simple`). A header is what stands in front of a body on its line. To
read a statement with a header is to read the body behind it, and behind the body of a
branch what stands there for the case that its condition fails
(`readStatement_headed`, `readOtherwise_headed`).
-/

namespace Lehce

open Token (Kind Line)
open Position (origin)

/-- The tokens of a statement without a body, where it may stand. -/
inductive Node.IsSimple (place : Surrounding) : Node → List Kind → Prop where
  | value {expression : Node} {kinds : List Kind} (written : expression.IsWritten 0 kinds) :
      IsSimple place expression.asStatement kinds
  | assignment {position : Position} {target value : Node} {targetKinds valueKinds : List Kind}
      {kind : Kind} {op : Op} (isTarget : target.IsTarget)
      (targetWritten : target.IsWritten 0 targetKinds) (marks : kind.assignment? = some op)
      (valueWritten : value.IsWritten 0 valueKinds) :
      IsSimple place (.assignment position target op value) (targetKinds ++ kind :: valueKinds)
  | breaks {position : Position} (inLoop : place.inLoop = true) :
      IsSimple place (.breaks position) [.keyword .breakWord]
  | continues {position : Position} (inLoop : place.inLoop = true) :
      IsSimple place (.continues position) [.keyword .continueWord]
  | returns {position : Position} {value : Node} {kinds : List Kind}
      (inFunction : place.inFunction = true) (written : value.IsWritten 0 kinds) :
      IsSimple place (.returns position (some value)) (.keyword .returnWord :: kinds)
  | returnsNothing {position valuePosition : Position} (inFunction : place.inFunction = true) :
      IsSimple place (.returns position (some (.nothing valuePosition))) [.keyword .returnWord]

/-- What may stand in front of a body. The last one is in front of the statements for the case
that all conditions of a branch fail. -/
inductive Header where
  | endless
  | loop (condition : Node)
  | function (name : String) (params : List String)
  | branch (condition : Node)
  | alternative

namespace Header

/-- What the body behind a header may contain. -/
def inside (place : Surrounding) : Header → Surrounding
  | .endless | .loop _ => { place with inLoop := true }
  | .function _ _ => { place with inLoop := false, inFunction := true }
  | .branch _ | .alternative => place

/-- The tree of a header with its body, and of what follows if it is a branch, at the origin. -/
def node (body : List Node) (otherwise : Option Node) : Header → Node
  | .endless => .endlessLoop origin origin body
  | .loop condition => .whileLoop origin condition.bare origin body
  | .function name params => .function origin name params origin (withReturn origin body)
  | .branch condition => .branch origin condition.bare origin body otherwise
  | .alternative => .block origin body

/-- Whether something may stand behind the body for the case that a condition fails. -/
def isBranch : Header → Bool
  | .branch _ => true
  | _ => false

/-- The word that may stand before and after a later condition of a branch. -/
def optionalIf : Bool → List Kind
  | true => [.keyword .ifWord]
  | false => []

/-- The tokens of a header up to its colon, at the start of a statement or in the middle of a
branch. -/
inductive Opens : Header → Bool → List Kind → Prop where
  | endless : Opens .endless false [.keyword .endlessWord]
  | bareLoop : Opens .endless false [.keyword .loopWord]
  | loop {condition : Node} {kinds : List Kind} (written : condition.IsWritten 0 kinds) :
      Opens (.loop condition) false (.keyword .loopWord :: kinds)
  | function {name : String} {params : List String} (distinct : params.Nodup) :
      Opens (.function name params) false (.keyword .functionWord :: .symbol name ::
        parenthesized (commaSeparated (params.map fun param => [.symbol param])))
  | branch {condition : Node} {kinds : List Kind} (written : condition.IsWritten 0 kinds) :
      Opens (.branch condition) false (.keyword .ifWord :: kinds)
  | branchBehind {condition : Node} {kinds : List Kind} (written : condition.IsWritten 0 kinds) :
      Opens (.branch condition) false (kinds ++ [.keyword .ifWord])
  | elseBranch {condition : Node} {kinds : List Kind} (written : condition.IsWritten 0 kinds)
      (before after : Bool) :
      Opens (.branch condition) true
        (.keyword .elseWord :: (optionalIf before ++ (kinds ++ optionalIf after)))
  | alternative : Opens .alternative true [.keyword .elseWord]

end Header

section Simple

variable {depth : Nat} {place : Surrounding} {stream : Stream} {kind : Kind}
  {kinds more : List Kind} {tail : List Token} {indent : Int} {node : Node}

theorem Stream.Holds.not_atLineEnd (holds : stream.Holds (kind :: kinds) tail indent) :
    stream.atLineEnd = false := by
  rcases dropBlanks_listed holds.listed false stream.lineIndent stream.lastEnd with
    ⟨token, rest, dropped, rfl, visible, listed⟩
  simp only [Stream.atLineEnd, skip, dropped]
  split
  · rename_i isNewline
    rw [isNewline] at visible
    cases visible
  · rfl

/-- At the end of a line nothing or a line break is next. -/
theorem Stream.Holds.next_ended (holds : stream.Holds [] tail indent) (ends : LineEnds tail)
    {token : Token} {after : Stream} (found : stream.next? false = some (token, after)) :
    ∃ width, token.kind = .newline width := by
  have next : NextIs false (fun _ => false) [] tail := ⟨rfl, ends⟩
  simpa using holds.nextIs next token after found

theorem Node.bare_asStatement (node : Node) : node.asStatement.bare = node.bare.asStatement := by
  cases node with
  | prefixed _ op => cases op <;> rfl
  | _ => simp [bare, asStatement]

theorem readStatement_value {expression : Node} (written : expression.IsWritten 0 kinds)
    (holds : stream.Holds kinds tail indent) (ends : LineEnds tail)
    (enough : 8 * kinds.length ≤ depth) :
    ∃ result rest, result.bare = expression.asStatement.bare ∧ rest.Holds [] tail indent ∧
      readStatement (depth + 1) place stream = .ok (result, rest) := by
  have ahead : stream.Holds (kinds ++ []) tail indent := by simpa using holds
  rcases written.next ahead with ⟨token, after, found, opens⟩
  rcases needExpression_written depth
      (fun _ => .detailed .syntaxError token.position ("unexpected " ++ token.kind.show))
      written ahead ⟨rfl, ends⟩ enough with
    ⟨result, rest, same, holds, read⟩
  refine ⟨result.asStatement, rest, by simp [Node.bare_asStatement, same], holds, ?_⟩
  simp only [readStatement_of_opens found opens, read, bind, Except.bind]
  cases following : rest.next? false with
  | none => rfl
  | some next =>
      rcases next with ⟨next, afterNext⟩
      rcases holds.next_ended ends following with ⟨width, isNewline⟩
      simp [Token.isKeyword, isNewline, Token.Kind.assignment?]
      rfl

/-- A statement without a body is read back. -/
theorem readStatement_simple (simple : node.IsSimple place kinds)
    (holds : stream.Holds kinds tail indent) (ends : LineEnds tail)
    (enough : 8 * kinds.length ≤ depth) :
    ∃ result rest, result.bare = node.bare ∧ rest.Holds [] tail indent ∧
      readStatement (depth + 1) place stream = .ok (result, rest) := by
  cases simple with
  | value written => exact readStatement_value written holds ends enough
  | assignment isTarget targetWritten marks valueWritten =>
      exact readStatement_assignment _ isTarget targetWritten marks valueWritten holds ends enough
  | breaks inLoop =>
      rcases holds.next false with ⟨token, after, found, isBreak, holds⟩
      exact ⟨.breaks token.position, after, rfl, holds, by
        simp [readStatement, found, isBreak, inLoop]⟩
  | continues inLoop =>
      rcases holds.next false with ⟨token, after, found, isContinue, holds⟩
      exact ⟨.continues token.position, after, rfl, holds, by
        simp [readStatement, found, isContinue, inLoop]⟩
  | @returns position value valueKinds inFunction written =>
      rcases holds.next false with ⟨token, after, found, isReturn, holds⟩
      have ahead : after.Holds (valueKinds ++ []) tail indent := by simpa using holds
      have ample : 8 * valueKinds.length ≤ depth := by
        simp only [List.length_cons] at enough
        omega
      rcases written.reads.whole ahead ⟨rfl, ends⟩ ample with
        ⟨result, rest, same, ended, read⟩
      refine ⟨.returns token.position (some result), rest, by simp [same], ended, ?_⟩
      have goesOn : after.atLineEnd = false := by
        rcases written.opens with ⟨kind, others, rfl, -⟩
        exact holds.not_atLineEnd
      simp [readStatement, found, isReturn, readReturn, inFunction, goesOn, read, bind,
        Except.bind]
      rfl
  | returnsNothing inFunction =>
      rcases holds.next false with ⟨token, after, found, isReturn, holds⟩
      refine ⟨.returns token.position (some (.nothing token.position)), after, rfl, holds, ?_⟩
      simp [readStatement, found, isReturn, readReturn, inFunction, holds.atLineEnd ends]
      rfl

end Simple

/-- Reads what stands behind the body of a branch for the case that its condition fails. -/
def readOtherwise (depth : Nat) (place : Surrounding) (stream : Stream) :
    Except Fault (Option Node × Stream) :=
  match stream.nextLine? with
  | none => return (none, stream)
  | some (token, indent, line) =>
    if indent ≠ place.indent ∨ token.isKeyword .elseWord = false then return (none, stream)
    else match line.next? false with
      | none => return (none, stream)
      | some (_, after) =>
        if after.isAt false .colon then do
          let ((position, other), rest) ← readBody depth place after
          return (some (.block position other), rest)
        else do
          let after := (after.acceptKeyword? false .ifWord).getD after
          let (condition, rest) ← needExpression depth
            (fun ahead => ahead.faultHere false .colonMarkMissing) after
          let rest := (rest.acceptKeyword? false .ifWord).getD rest
          let (other, rest) ← readBranch depth place token.position condition rest
          return (some other, rest)

/-- Reads the body behind a header and what belongs behind it, and puts the tree together. -/
def readHeaded (depth : Nat) (place : Surrounding) (header : Header)
    (build : Position → List Node → Option Node → Node) (stream : Stream) :
    Except Fault (Node × Stream) := do
  let ((position, body), rest) ← readBody depth (header.inside place) stream
  let (otherwise, rest) ←
    if header.isBranch then readOtherwise depth place rest else pure (none, rest)
  return (build position body otherwise, rest)

/-- Whether a way to put a tree together gives the tree of a header, up to positions. -/
def Header.Builds (header : Header) (build : Position → List Node → Option Node → Node) : Prop :=
  ∀ position body otherwise, (build position body otherwise).bare =
    header.node (body.map Node.bare) (otherwise.map Node.bare)

section Headed

variable {depth : Nat} {place : Surrounding} {stream : Stream} {header : Header}
  {kinds more : List Kind} {tail : List Token} {indent : Int}

/-- A branch whose condition has been read goes on as any header does. -/
theorem readBranch_eq (position : Position) (written condition : Node) :
    readBranch (depth + 1) place position condition stream =
      readHeaded depth place (.branch written)
        (fun bodyPosition body => .branch position condition bodyPosition body) stream := by
  rw [readBranch, readHeaded]
  simp only [Header.inside, Header.isBranch, if_true, readOtherwise]
  cases readBody depth place stream with
  | error fault => rfl
  | ok read =>
      rcases read with ⟨⟨bodyPosition, body⟩, rest⟩
      simp only [bind, Except.bind]
      cases rest.nextLine? with
      | none => rfl
      | some next =>
          rcases next with ⟨token, indent, line⟩
          dsimp only
          split_ifs with other
          · rfl
          · cases line.next? false with
            | none => rfl
            | some following =>
                rcases following with ⟨word, after⟩
                dsimp only
                split_ifs with colon
                · cases readBody depth place after <;> rfl
                · generalize (after.acceptKeyword? false .ifWord).getD after = ahead
                  cases needExpression depth _ ahead with
                  | error fault => rfl
                  | ok read =>
                      rcases read with ⟨otherCondition, rest⟩
                      dsimp only
                      cases readBranch depth place _ _ _ <;> rfl

theorem Header.builds_branch (position : Position) {result condition : Node}
    (same : result.bare = condition.bare) :
    (Header.branch condition).Builds fun bodyPosition body =>
      .branch position result bodyPosition body := by
  intro bodyPosition body otherwise
  simp [Header.node, same]

theorem map_bare_withReturn (position : Position) (body : List Node) :
    (withReturn position body).map Node.bare = withReturn origin (body.map Node.bare) := by
  unfold withReturn
  rw [List.getLast?_map]
  cases body.getLast? with
  | none => simp [Node.bare]
  | some last => cases last <;> simp [Node.bare, Node.position]

/-- The word that may stand around a condition is passed over. -/
theorem Stream.Holds.optionalIf {present : Bool}
    (holds : stream.Holds (Header.optionalIf present ++ kinds) tail indent)
    (other : kinds.head? ≠ some (.keyword .ifWord)) (nonempty : kinds ≠ []) :
    ((stream.acceptKeyword? false .ifWord).getD stream).Holds kinds tail indent := by
  cases present with
  | true =>
      rcases holds.next false with ⟨token, after, found, isIf, rest⟩
      simpa [acceptKeyword?, found, Token.isKeyword, isIf] using rest
  | false =>
      rcases kinds with _ | ⟨kind, kinds⟩
      · exact absurd rfl nonempty
      · rcases holds.next false with ⟨token, after, found, rfl, rest⟩
        have noIf : token.isKeyword .ifWord = false := by
          unfold Token.isKeyword
          split
          · rename_i word isWord
            simp_all
          · rfl
        simpa [acceptKeyword?, found, noIf, Header.optionalIf] using holds

theorem length_le_commaSeparated {α : Type} (kind : α → Kind) (parts : List α) :
    parts.length ≤ (commaSeparated (parts.map fun part => [kind part])).length := by
  induction parts with
  | nil => exact Nat.zero_le _
  | cons part parts ih =>
      rcases parts with _ | ⟨next, parts⟩
      · simp
      · simp only [List.map_cons, commaSeparated_cons_cons, List.length_append,
          List.length_cons] at ih ⊢
        omega

/-- The parameters of a function are read back. -/
theorem readParams_written {param : String} {others earlier : List String}
    (holds : stream.Holds (commaSeparated ((param :: others).map fun name => [.symbol name]) ++
      .operator .rightParenthesis :: more) tail indent)
    (distinct : (earlier.reverse ++ param :: others).Nodup) (enough : others.length < depth) :
    ∃ rest, rest.Holds more tail indent ∧
      readParams depth earlier stream = .ok (earlier.reverse ++ param :: others, rest) := by
  induction others generalizing depth param earlier stream with
  | nil =>
      obtain ⟨depth, rfl⟩ : ∃ left, depth = left + 1 := ⟨depth - 1, by simp at enough; omega⟩
      simp only [List.map_cons, List.map_nil, commaSeparated_singleton, List.singleton_append]
        at holds
      rcases holds.next true with ⟨token, after, found, isName, holds⟩
      rcases holds.accept true with ⟨closed, accepted, holds⟩
      have fresh : param ∉ earlier := fun member =>
        (List.nodup_append.1 distinct).2.2 param (by simpa using member) param (by simp) rfl
      refine ⟨closed, holds, ?_⟩
      simp [readParams, found, isName, fresh, accepted]
  | cons next others ih =>
      obtain ⟨depth, rfl⟩ : ∃ left, depth = left + 1 := ⟨depth - 1, by simp at enough; omega⟩
      simp only [List.map_cons, commaSeparated_cons_cons, List.cons_append, List.nil_append]
        at holds
      rcases holds.next true with ⟨token, after, found, isName, holds⟩
      have noEnd : after.accept? true .rightParenthesis = none :=
        holds.accept_none true (by simp)
      rcases holds.accept true with ⟨afterComma, accepted, holds⟩
      have fresh : param ∉ earlier := fun member =>
        (List.nodup_append.1 distinct).2.2 param (by simpa using member) param (by simp) rfl
      have moved : (param :: earlier).reverse ++ next :: others =
          earlier.reverse ++ param :: next :: others := by simp
      rcases ih (by simpa using holds) (moved ▸ distinct) (by simpa using enough) with
        ⟨rest, holds, read⟩
      refine ⟨rest, holds, ?_⟩
      simp [readParams, found, isName, fresh, noEnd, accepted, read]

/-- A list of parameters is read back behind its opening parenthesis. -/
theorem readParameters_written {params : List String}
    (holds : stream.Holds (commaSeparated (params.map fun name => [.symbol name]) ++
      .operator .rightParenthesis :: more) tail indent)
    (distinct : params.Nodup) (enough : params.length ≤ depth) :
    ∃ rest, rest.Holds more tail indent ∧ readParameters depth stream = .ok (params, rest) := by
  cases params with
  | nil =>
      rcases holds.accept true with ⟨closed, accepted, holds⟩
      exact ⟨closed, holds, by simp [readParameters, accepted]⟩
  | cons param others =>
      have first : ∃ kinds, commaSeparated ((param :: others).map fun name => [.symbol name]) =
          .symbol param :: kinds := by
        cases others with
        | nil => exact ⟨[], by simp⟩
        | cons next others => exact ⟨_, commaSeparated_cons_cons _ _ _⟩
      have noEnd : stream.accept? true .rightParenthesis = none := by
        rcases first with ⟨kinds, same⟩
        rw [same] at holds
        exact holds.accept_none true (by simp)
      rcases @readParams_written depth _ _ _ _ param others [] holds (by simpa using distinct)
          enough with ⟨rest, holds, read⟩
      exact ⟨rest, holds, by simpa [readParameters, noEnd] using read⟩

/-- Without a branch nothing belongs behind a body. -/
theorem readHeaded_of_not_isBranch {build : Position → List Node → Option Node → Node}
    (noBranch : header.isBranch = false) :
    readHeaded depth place header build stream = do
      let ((position, body), rest) ← readBody depth (header.inside place) stream
      return (build position body none, rest) := by
  simp only [readHeaded, noBranch]
  cases readBody depth (header.inside place) stream <;> rfl

/-- A statement with a header is read as its body and what belongs behind it. -/
theorem readStatement_headed (opens : header.Opens false kinds)
    (holds : stream.Holds (kinds ++ [.operator .colon]) tail indent)
    (enough : 8 * kinds.length + 2 ≤ depth) :
    ∃ opened left build, opened.Holds [.operator .colon] tail indent ∧ depth ≤ left + 2 ∧
      header.Builds build ∧
      readStatement depth place stream = readHeaded left place header build opened := by
  obtain ⟨depth, rfl⟩ : ∃ left, depth = left + 2 := ⟨depth - 2, by omega⟩
  cases opens with
  | endless =>
      rcases holds.next false with ⟨token, after, found, isEndless, holds⟩
      refine ⟨after, depth + 1, fun position body _ => .endlessLoop token.position position body,
        holds, by omega, fun _ _ _ => by simp [Node.bare, Header.node], ?_⟩
      rw [readHeaded_of_not_isBranch rfl]
      simp [readStatement, found, isEndless, Header.inside]
  | bareLoop =>
      rcases holds.next false with ⟨token, after, found, isLoop, holds⟩
      rcases holds.accept false with ⟨afterColon, accepted, -⟩
      refine ⟨after, depth + 1, fun position body _ => .endlessLoop token.position position body,
        holds, by omega, fun _ _ _ => by simp [Node.bare, Header.node], ?_⟩
      rw [readHeaded_of_not_isBranch rfl]
      simp [readStatement, found, isLoop, Stream.isAt, accepted, Header.inside]
  | @loop condition kinds written =>
      rcases holds.next false with ⟨token, after, found, isLoop, holds⟩
      have noColon : after.accept? false .colon = none := by
        rcases written.opens with ⟨kind, others, rfl, opens⟩
        refine holds.accept_none false ?_
        rintro rfl
        cases opens
      simp only [List.length_cons] at enough
      rcases needExpression_written (depth + 1) (fun _ => missingRight token) written holds
          (show Stream.NextIs false (Kind.stops 0) [.operator .colon] tail from rfl) (by omega)
        with ⟨result, rest, same, holds, read⟩
      refine ⟨rest, depth + 1,
        fun position body _ => .whileLoop token.position result position body, holds, by omega,
        fun _ _ _ => by simp [Node.bare, Header.node, same], ?_⟩
      rw [readHeaded_of_not_isBranch rfl]
      simp [readStatement, found, isLoop, Stream.isAt, noColon, read, Header.inside, bind,
        Except.bind]
  | @function name params distinct =>
      rcases holds.next false with ⟨token, after, found, isFunction, holds⟩
      rcases holds.next false with ⟨word, afterName, foundName, isName, holds⟩
      rcases holds.accept false with ⟨afterOpening, accepted, holds⟩
      have fewer : params.length ≤ depth := by
        have few := length_le_commaSeparated Kind.symbol params
        simp only [parenthesized, List.length_cons, List.length_append] at enough
        omega
      rcases @readParameters_written depth afterOpening [.operator .colon] tail indent params
          (by simpa using holds) distinct fewer with
        ⟨rest, holds, read⟩
      refine ⟨rest, depth, fun position body _ =>
        .function token.position name params position (withReturn position body), holds, by omega,
        fun _ _ _ => by simp [Node.bare, Header.node, map_bare_withReturn], ?_⟩
      rw [readHeaded_of_not_isBranch rfl]
      rcases word with ⟨line, start, stop, nameKind⟩
      cases isName
      simp [readStatement, found, isFunction, readFunction, foundName, accepted, read,
        Header.inside, bind, Except.bind]
  | @branch condition kinds written =>
      rcases holds.next false with ⟨token, after, found, isIf, holds⟩
      simp only [List.length_cons] at enough
      rcases needExpression_written (depth + 1) (fun _ => missingRight token) written holds
          (show Stream.NextIs false (Kind.stops 0) [.operator .colon] tail from rfl) (by omega)
        with ⟨result, rest, same, holds, read⟩
      refine ⟨rest, depth, _, holds, by omega, Header.builds_branch token.position same, ?_⟩
      rw [← readBranch_eq token.position condition result]
      simp [readStatement, found, isIf, read, bind, Except.bind]
  | @branchBehind condition kinds written =>
      have ahead : stream.Holds (kinds ++ [.keyword .ifWord, .operator .colon]) tail indent := by
        simpa using holds
      simp only [List.length_append, List.length_singleton] at enough
      rcases written.next ahead with ⟨token, after, found, opens⟩
      rcases needExpression_written (depth + 1)
          (fun _ => .detailed .syntaxError token.position ("unexpected " ++ token.kind.show))
          written ahead
          (show Stream.NextIs false (Kind.stops 0) [.keyword .ifWord, .operator .colon] tail
            from rfl) (by omega) with
        ⟨result, rest, same, holds, read⟩
      rcases holds.next false with ⟨word, afterWord, foundWord, isIf, holds⟩
      refine ⟨afterWord, depth, _, holds, by omega, Header.builds_branch result.position same, ?_⟩
      rw [← readBranch_eq result.position condition result, readStatement_of_opens found opens]
      simp [read, foundWord, Token.isKeyword, isIf, bind, Except.bind]

/-- What stands behind the body of a branch is read by its header as well. -/
theorem readOtherwise_headed {token : Token} {line : Stream} (opens : header.Opens true kinds)
    (found : stream.nextLine? = some (token, place.indent, line))
    (holds : line.Holds (kinds ++ [.operator .colon]) tail indent)
    (first : kinds.head? = some token.kind) (enough : 8 * kinds.length + 2 ≤ depth) :
    ∃ opened left build, opened.Holds [.operator .colon] tail indent ∧ depth ≤ left + 2 ∧
      header.Builds build ∧
      readOtherwise depth place stream = do
        let (other, rest) ← readHeaded left place header build opened
        return (some other, rest) := by
  obtain ⟨depth, rfl⟩ : ∃ left, depth = left + 2 := ⟨depth - 2, by omega⟩
  cases opens with
  | alternative =>
      have isElse : token.isKeyword .elseWord = true := by
        have isElse : token.kind = .keyword .elseWord := (Option.some.inj first).symm
        simp [Token.isKeyword, isElse]
      rcases holds.next false with ⟨word, after, foundWord, -, holds⟩
      rcases holds.accept false with ⟨afterColon, accepted, -⟩
      refine ⟨after, depth + 2, fun position body _ => .block position body, holds, by omega,
        fun _ _ _ => by simp [Node.bare, Header.node], ?_⟩
      rw [readHeaded_of_not_isBranch rfl]
      simp [readOtherwise, found, isElse, foundWord, Stream.isAt, accepted, Header.inside]
  | @elseBranch condition kinds written before after =>
      have isElse : token.isKeyword .elseWord = true := by
        have isElse : token.kind = .keyword .elseWord := (Option.some.inj first).symm
        simp [Token.isKeyword, isElse]
      rcases holds.next false with ⟨word, afterWord, foundWord, -, holds⟩
      have ahead : afterWord.Holds (Header.optionalIf before ++
          (kinds ++ (Header.optionalIf after ++ [.operator .colon]))) tail indent := by
        simpa using holds
      have noColon : afterWord.accept? false .colon = none := by
        rcases written.opens with ⟨kind, others, rfl, opens⟩
        cases before with
        | true => exact ahead.accept_none false (by simp)
        | false =>
            refine ahead.accept_none false ?_
            rintro rfl
            cases opens
      have conditionHolds : ((afterWord.acceptKeyword? false .ifWord).getD afterWord).Holds
          (kinds ++ (Header.optionalIf after ++ [.operator .colon])) tail indent := by
        rcases written.opens with ⟨kind, others, rfl, opens⟩
        refine ahead.optionalIf ?_ (by simp)
        rintro ⟨⟩
        cases opens
      have next : Stream.NextIs false (Kind.stops 0)
          (Header.optionalIf after ++ [.operator .colon]) tail := by
        cases after <;> rfl
      simp only [List.length_cons, List.length_append] at enough
      rcases needExpression_written (depth + 2)
          (fun ahead => ahead.faultHere false .colonMarkMissing) written conditionHolds next
          (by omega) with
        ⟨result, rest, same, holds, read⟩
      have opened := holds.optionalIf (by simp) (by simp)
      refine ⟨_, depth + 1, _, opened, by omega, Header.builds_branch token.position same, ?_⟩
      rw [← readBranch_eq token.position condition result]
      simp [readOtherwise, found, isElse, foundWord, Stream.isAt, noColon, read]
      rfl

end Headed

end Lehce
