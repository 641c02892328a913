import Lehce.Program.Expression
import Lehce.Token.Scan

/-!
# Reading programs

Statements stand on lines of the same indentation. The body of a branch, a loop or
a function follows a colon, either on the same line as one statement or as lines
of a deeper indentation. A function's body always ends with a return.
-/

namespace Lehce

/-- Where a statement stands: the indentation of its lines, and what it may contain. -/
structure Surrounding where
  indent : Int
  inLoop : Bool := false
  inFunction : Bool := false

/-- The assignment operator that a token stands for. -/
def Token.Kind.assignment? : Token.Kind → Option Op
  | .operator .assign => some .assign
  | .operator .assignPlus => some .assignAdd
  | .operator .assignMinus => some .assignSubtract
  | .operator .assignTimes => some .assignMultiply
  | .operator .assignDivide => some .assignDivide
  | _ => none

/-- An expression that is a statement: the value of a call, of `++` and of `--` is not used. -/
def Node.asStatement : Node → Node
  | .call position callee args _ => .call position callee args false
  | .prefixed position .increment operand _ => .prefixed position .increment operand false
  | .prefixed position .decrement operand _ => .prefixed position .decrement operand false
  | .suffixed position op operand _ => .suffixed position op operand false
  | node => node

/-- A body with a return at its end: one that returns nothing is added where there is none. -/
def withReturn (position : Position) (body : List Node) : List Node :=
  match body.getLast? with
  | none => [.returns position (some (.nothing position))]
  | some (.returns _ _) => body
  | some last => body ++ [.returns last.position (some (.nothing last.position))]

/-- Reads the parameters of a function up to the closing parenthesis; the last one comes first. -/
def readParams : Nat → List String → Stream → Except Fault (List String × Stream)
  | 0, _, _ => .error outOfDepth
  | depth + 1, params, stream =>
    match stream.next? true with
    | none => .error (stream.faultHere true .rightParenthesesMissing)
    | some (token, after) =>
      match token.kind with
      | .symbol name =>
        if params.contains name then
          .error (.detailed .duplicateDefinition token.position ("parameter " ++ token.kind.show))
        else match after.accept? true .rightParenthesis with
          | some closed => .ok ((name :: params).reverse, closed)
          | none =>
            match after.accept? true .comma with
            | some more => readParams depth (name :: params) more
            | none => .error (after.faultHere true .rightParenthesesMissing)
      | _ => .error (.located .functionCallSyntaxNotValid token.position)

/-- Reads a parameter list after its opening parenthesis. -/
def readParameters (depth : Nat) (stream : Stream) : Except Fault (List String × Stream) :=
  match stream.accept? true .rightParenthesis with
  | some closed => .ok ([], closed)
  | none => readParams depth [] stream

/-- Reads an expression that must be there; `missing` is the fault when it is not. -/
def needExpression (depth : Nat) (missing : Stream → Fault) (stream : Stream) :
    Except Fault (Node × Stream) := do
  match ← readExpression depth false 0 stream with
  | (some node, rest) => return (node, rest)
  | (none, rest) => throw (missing rest)

/-- Reads a return statement after its keyword. -/
def readReturn (depth : Nat) (place : Surrounding) (token : Token) (after : Stream) :
    Except Fault (Node × Stream) := do
  let position := token.position
  if !place.inFunction then throw (.located .returnMustBeUsedInFunction position)
  let bare : Node := .returns position (some (.nothing position))
  if after.atLineEnd then return (bare, after)
  match ← readExpression depth false 0 after with
  | (some value, rest) => return (.returns position (some value), rest)
  | (none, rest) => return (bare, rest)

/-- Reads the value of an assignment after its operator. -/
def readAssignment (depth : Nat) (target : Node) (op : Op) (token : Token) (after : Stream) :
    Except Fault (Node × Stream) := do
  match target with
  | .symbol _ _ | .index _ _ _ =>
    let (value, rest) ← needExpression depth (fun _ => missingRight token) after
    return (.assignment target.position target op value, rest)
  | _ => throw (.located .invalidAssignmentTarget target.position)

mutual

/-- Reads the lines of a block; `items` holds its statements so far, the last one first. -/
def readLines : Nat → Surrounding → Position → List Node → Stream →
    Except Fault ((Position × List Node) × Stream)
  | 0, _, _, _, _ => .error outOfDepth
  | depth + 1, place, start, items, stream =>
    match stream.nextLine? with
    | none => .ok ((start, items.reverse), stream)
    | some (token, indent, line) =>
      if indent < place.indent then .ok ((start, items.reverse), stream)
      else if place.indent < indent then .error (.located .indentationIssue token.position)
      else do
        let start := if items.isEmpty then token.position else start
        let (statement, rest) ← readStatement depth place line
        if !rest.atLineEnd then throw (rest.faultHere false .expectedNewLine)
        readLines depth place start (statement :: items) rest

/-- Reads the body after a colon, on the same line or on deeper lines. -/
def readBody : Nat → Surrounding → Stream → Except Fault ((Position × List Node) × Stream)
  | 0, _, _ => .error outOfDepth
  | depth + 1, place, stream =>
    match stream.accept? false .colon with
    | none => .error (stream.faultHere false .colonMarkMissing)
    | some after =>
      if after.atLineEnd then
        match after.nextLine? with
        | none => .error (after.faultHere false .functionConditionBodyNotFound)
        | some (_, indent, _) =>
          if indent ≤ place.indent then
            .error (after.faultHere false .functionConditionBodyNotFound)
          else readLines depth { place with indent } (after.here false) [] after
      else do
        let position := after.here false
        let (statement, rest) ← readStatement depth place after
        return ((position, [statement]), rest)

/-- Reads a statement. -/
def readStatement : Nat → Surrounding → Stream → Except Fault (Node × Stream)
  | 0, _, _ => .error outOfDepth
  | depth + 1, place, stream =>
    match stream.next? false with
    | none => .error (stream.faultHere false .syntaxError)
    | some (token, after) =>
      let position := token.position
      match token.kind with
      | .keyword .functionWord => readFunction depth place token after
      | .keyword .ifWord => do
        let (condition, rest) ← needExpression depth (fun _ => missingRight token) after
        readBranch depth place position condition rest
      | .keyword .loopWord =>
        if after.isAt false .colon then do
          let ((bodyPosition, body), rest) ← readBody depth { place with inLoop := true } after
          return (.endlessLoop position bodyPosition body, rest)
        else do
          let (condition, rest) ← needExpression depth (fun _ => missingRight token) after
          let ((bodyPosition, body), rest) ← readBody depth { place with inLoop := true } rest
          return (.whileLoop position condition bodyPosition body, rest)
      | .keyword .endlessWord => do
        let ((bodyPosition, body), rest) ← readBody depth { place with inLoop := true } after
        return (.endlessLoop position bodyPosition body, rest)
      | .keyword .breakWord =>
        if place.inLoop then .ok (.breaks position, after)
        else .error (.located .breakAndContinueBelongToLoops position)
      | .keyword .continueWord =>
        if place.inLoop then .ok (.continues position, after)
        else .error (.located .breakAndContinueBelongToLoops position)
      | .keyword .returnWord => readReturn depth place token after
      | .keyword .elseWord => .error (.detailed .syntaxError position "else without if")
      | kind => do
        let (node, rest) ← needExpression depth
          (fun _ => .detailed .syntaxError position ("unexpected " ++ kind.show)) stream
        match rest.next? false with
        | none => return (node.asStatement, rest)
        | some (following, afterFollowing) =>
          if following.isKeyword .ifWord then
            readBranch depth place node.position node afterFollowing
          else match following.kind.assignment? with
            | some op => readAssignment depth node op following afterFollowing
            | none => return (node.asStatement, rest)

/-- Reads the body of a branch whose condition has been read, and what follows when it fails. -/
def readBranch : Nat → Surrounding → Position → Node → Stream → Except Fault (Node × Stream)
  | 0, _, _, _, _ => .error outOfDepth
  | depth + 1, place, position, condition, stream => do
    let ((bodyPosition, body), rest) ← readBody depth place stream
    let node := Node.branch position condition bodyPosition body
    match rest.nextLine? with
    | none => return (node none, rest)
    | some (token, indent, line) =>
      if indent ≠ place.indent ∨ token.isKeyword .elseWord = false then return (node none, rest)
      else match line.next? false with
        | none => return (node none, rest)
        | some (_, after) =>
          if after.isAt false .colon then
            let ((otherPosition, other), rest) ← readBody depth place after
            return (node (some (.block otherPosition other)), rest)
          else
            let after := (after.acceptKeyword? false .ifWord).getD after
            let (otherCondition, rest) ← needExpression depth
              (fun ahead => ahead.faultHere false .colonMarkMissing) after
            let rest := (rest.acceptKeyword? false .ifWord).getD rest
            let (other, rest) ← readBranch depth place token.position otherCondition rest
            return (node (some other), rest)

/-- Reads a function definition after its keyword. -/
def readFunction : Nat → Surrounding → Token → Stream → Except Fault (Node × Stream)
  | 0, _, _, _ => .error outOfDepth
  | depth + 1, place, token, stream =>
    match stream.next? false with
    | some (⟨_, _, _, .symbol name⟩, afterName) =>
      match afterName.accept? false .leftParenthesis with
      | none => .error (afterName.faultHere false .functionCallSyntaxNotValid)
      | some opened => do
        let (params, rest) ← readParameters depth opened
        let ((bodyPosition, body), rest) ←
          readBody depth { place with inLoop := false, inFunction := true } rest
        return (.function token.position name params bodyPosition
          (withReturn bodyPosition body), rest)
    | _ => .error (stream.faultHere false .functionNameNotDefined)

end

/-- Depth enough to read any list of tokens: each is passed by at most sixteen nested readers. -/
def depthFor (tokens : List Token) : Nat := 16 * (tokens.length + 2)

/-- Reads a program from its tokens. -/
def Program.ofTokens (tokens : List Token) : Except Fault Program := do
  let stream : Stream := { rest := tokens }
  let ((position, items), rest) ←
    readLines (depthFor tokens) { indent := 0 } (stream.here false) [] stream
  match rest.nextLine? with
  | none => return ⟨position, items⟩
  | some (token, indent, _) =>
    if 0 < indent then throw (.located .indentationIssue token.position)
    else throw (.detailed .syntaxError token.position ("unexpected " ++ token.kind.show))

/-- Reads a program from its source. -/
def Program.ofSource (source : String) : Except Fault Program := do
  Program.ofTokens (← Token.scan source)

end Lehce
