import Lehce.Program.Stream
import Lehce.Value.Dict

/-!
# Reading expressions

Operators have six levels, from `veya` up to multiplication, and associate to the
left. One function reads an operand and then every operator of at least a given
level; the operand on the right of an operator is read one level higher. Unary
operators bind tighter than all of these, and calls, indexing and the suffixes
`++` and `--` tighter still.

Reading returns no node when no expression starts at the next token. The readers
call each other to a depth that the number of tokens bounds, and they count it
down.
-/

namespace Lehce

/-- An operator between two operands, and its level. -/
structure Dyadic where
  op : Op
  level : Nat
  logical : Bool

/-- The operator between operands that a token stands for. -/
def Token.Kind.dyadic? : Token.Kind → Option Dyadic
  | .keyword .orWord | .operator .orOr => some ⟨.or, 0, true⟩
  | .keyword .andWord | .operator .andAnd => some ⟨.and, 1, true⟩
  | .operator .equal => some ⟨.equal, 2, true⟩
  | .operator .notEqual => some ⟨.notEqual, 2, true⟩
  | .operator .less => some ⟨.less, 3, true⟩
  | .operator .lessEqual => some ⟨.lessEqual, 3, true⟩
  | .operator .greater => some ⟨.greater, 3, true⟩
  | .operator .greaterEqual => some ⟨.greaterEqual, 3, true⟩
  | .operator .plus => some ⟨.add, 4, false⟩
  | .operator .minus => some ⟨.subtract, 4, false⟩
  | .operator .times => some ⟨.multiply, 5, false⟩
  | .operator .divide => some ⟨.divide, 5, false⟩
  | .operator .percent | .keyword .moduloWord => some ⟨.modulo, 5, false⟩
  | _ => none

/-- The operator before an operand that a token stands for. -/
def Token.Kind.unary? : Token.Kind → Option Op
  | .operator .minus => some .negate
  | .operator .plus => some .plus
  | .operator .bang | .keyword .notWord => some .not
  | .operator .increment => some .increment
  | .operator .decrement => some .decrement
  | _ => none

/-- The node of an operator between two operands. -/
def Dyadic.node (operator : Dyadic) (left right : Node) : Node :=
  if operator.logical then .control left.position left operator.op right
  else .binary left.position left operator.op right

/-- The fault of an operator without its right operand. -/
def missingRight (token : Token) : Fault :=
  .located .rightSideOfExpressionNotFound ⟨token.line, token.stop⟩

/-- The fault of a reader that was not given enough depth for its tokens. -/
def outOfDepth : Fault := ⟨.invalid, 0, 0, "nesting too deep"⟩

/--
Applies a unary operator to its operand. A sign before a number gives a number, a
plus sign disappears, and `++` and `--` need a symbol.
-/
def applyUnary (token : Token) (op : Op) (operand : Node) : Except Fault Node :=
  let position := token.position
  match op, operand with
  | .negate, .literal _ (.number value) => .ok (.literal position (.number (-value)))
  | .plus, .literal _ (.number value) => .ok (.literal position (.number value))
  | .negate, .literal _ _ | .plus, .literal _ _ => .error (.located .unaryWorksWithNumber position)
  | .plus, operand => .ok operand
  | .increment, .symbol _ _ | .decrement, .symbol _ _ => .ok (.prefixed position op operand true)
  | .increment, _ | .decrement, _ => .error (.located .invalidUnaryOperation position)
  | op, operand => .ok (.prefixed position op operand true)

/-- Reads the parts of a dotted name after its first one; `parts` holds the last part first. -/
def dottedParts (bracketed : Bool) :
    Nat → List String → Stream → Except Fault (List String × Stream)
  | 0, _, _ => .error outOfDepth
  | depth + 1, parts, stream =>
    match stream.accept? bracketed .dot with
    | none => .ok (parts.reverse, stream)
    | some after =>
      match after.next? bracketed with
      | some (⟨_, _, _, .symbol part⟩, rest) => dottedParts bracketed depth (part :: parts) rest
      | _ => .error (after.faultHere bracketed .syntaxError)

/-- Reads a symbol or a dotted name after its first part. -/
def symbolOrPath (bracketed : Bool) (depth : Nat) (position : Position) (name : String)
    (stream : Stream) : Except Fault (Node × Stream) :=
  if stream.isAt bracketed .dot then do
    let (parts, rest) ← dottedParts bracketed depth [name] stream
    return (.path position parts, rest)
  else .ok (.symbol position name, stream)

mutual

/-- Reads an expression whose operators have at least the level `least`. -/
def readExpression : Nat → Bool → Nat → Stream → Except Fault (Option Node × Stream)
  | 0, _, _, _ => .error outOfDepth
  | depth + 1, bracketed, least, stream => do
    match ← readUnary depth bracketed stream with
    | (none, rest) => return (none, rest)
    | (some left, rest) =>
      let (node, rest) ← readOperators depth bracketed least left rest
      return (some node, rest)

/-- Extends an operand by the operators that follow it. -/
def readOperators : Nat → Bool → Nat → Node → Stream → Except Fault (Node × Stream)
  | 0, _, _, _, _ => .error outOfDepth
  | depth + 1, bracketed, least, left, stream =>
    match stream.next? bracketed with
    | none => .ok (left, stream)
    | some (token, after) =>
      match token.kind.dyadic? with
      | none => .ok (left, stream)
      | some operator =>
        if operator.level < least then .ok (left, stream)
        else do
          match ← readExpression depth bracketed (operator.level + 1) after with
          | (none, _) => throw (missingRight token)
          | (some right, rest) =>
            readOperators depth bracketed least (operator.node left right) rest

/-- Reads an operand with the unary operators before it. -/
def readUnary : Nat → Bool → Stream → Except Fault (Option Node × Stream)
  | 0, _, _ => .error outOfDepth
  | depth + 1, bracketed, stream =>
    match stream.next? bracketed with
    | none => .ok (none, stream)
    | some (token, after) =>
      match token.kind.unary? with
      | none => do
        match ← readPrimary depth bracketed token after with
        | none => return (none, stream)
        | some (node, rest) =>
          let (node, rest) ← readSuffixes depth bracketed node rest
          return (some node, rest)
      | some op => do
        match ← readUnary depth bracketed after with
        | (none, _) => throw (missingRight token)
        | (some operand, rest) =>
          let node ← applyUnary token op operand
          return (some node, rest)

/-- Extends an operand by calls, indices and the suffixes `++` and `--`. -/
def readSuffixes : Nat → Bool → Node → Stream → Except Fault (Node × Stream)
  | 0, _, _, _ => .error outOfDepth
  | depth + 1, bracketed, node, stream =>
    match stream.next? bracketed with
    | none => .ok (node, stream)
    | some (token, after) =>
      match token.kind with
      | .operator .leftParenthesis =>
        match node with
        | .symbol _ _ | .path _ _ => do
          let (args, rest) ← readArguments depth after
          readSuffixes depth bracketed (.call node.position node args true) rest
        | _ => .error (.located .functionCallSyntaxNotValid token.position)
      | .operator .leftBracket => do
        match ← readExpression depth true 0 after with
        | (none, rest) => throw (rest.faultHere true .syntaxError)
        | (some key, rest) =>
          match rest.accept? true .rightBracket with
          | none => throw (rest.faultHere true .arrayNotClosed)
          | some closed => readSuffixes depth bracketed (.index node.position node key) closed
      | .operator .increment | .operator .decrement =>
        match node with
        | .symbol position _ =>
          let op := if token.isOperator .increment then Op.increment else .decrement
          readSuffixes depth bracketed (.suffixed position op node true) after
        | _ => .error (.located .invalidUnaryOperation token.position)
      | _ => .ok (node, stream)

/-- Reads the arguments of a call after its opening parenthesis. -/
def readArguments : Nat → Stream → Except Fault (List Node × Stream)
  | 0, _ => .error outOfDepth
  | depth + 1, stream =>
    match stream.accept? true .rightParenthesis with
    | some rest => .ok ([], rest)
    | none => readMoreArguments depth [] stream

/-- Reads arguments up to the closing parenthesis; `args` holds the last one first. -/
def readMoreArguments : Nat → List Node → Stream → Except Fault (List Node × Stream)
  | 0, _, _ => .error outOfDepth
  | depth + 1, args, stream =>
    if stream.isAt true .comma then .error (stream.faultHere true .functionCallSyntaxNotValid)
    else do
      match ← readExpression depth true 0 stream with
      | (none, rest) =>
        if rest.isAt true .rightParenthesis then
          throw (rest.faultHere true .functionCallSyntaxNotValid)
        else throw (rest.faultHere true .rightParenthesesMissing)
      | (some arg, rest) =>
        match rest.accept? true .rightParenthesis with
        | some closed => return ((arg :: args).reverse, closed)
        | none =>
          match rest.accept? true .comma with
          | some more => readMoreArguments depth (arg :: args) more
          | none => throw (rest.faultHere true .rightParenthesesMissing)

/-- Reads the operand that starts with a token, if one does. -/
def readPrimary : Nat → Bool → Token → Stream → Except Fault (Option (Node × Stream))
  | 0, _, _, _ => .error outOfDepth
  | depth + 1, bracketed, token, after =>
    let position := token.position
    let literal (value : Datum) : Except Fault (Option (Node × Stream)) :=
      .ok (some (.literal position value, after))
    match token.kind with
    | .integer value => literal (.number (Number.ofInt value))
    | .double value => literal (.number value)
    | .text content => literal (.text content)
    | .atom name => literal (.atom name)
    | .symbol name => do return some (← symbolOrPath bracketed depth position name after)
    | .keyword .trueWord => literal (.bool true)
    | .keyword .falseWord => literal (.bool false)
    | .keyword .emptyWord => literal .empty
    | .operator .leftParenthesis => do
      match ← readExpression depth true 0 after with
      | (none, _) => throw (missingRight token)
      | (some node, rest) =>
        match rest.accept? true .rightParenthesis with
        | none => throw (rest.faultHere true .rightParenthesesMissing)
        | some closed => return some (node, closed)
    | .operator .leftBracket =>
      match after.accept? true .rightBracket with
      | some rest => .ok (some (.list position [], rest))
      | none => do
        let (items, rest) ← readItems depth [] after
        return some (.list position items, rest)
    | .operator .leftBrace =>
      match after.accept? true .rightBrace with
      | some rest => .ok (some (.dict position [], rest))
      | none => do
        let (entries, rest) ← readEntries depth [] after
        return some (.dict position (Dict.ofList entries).entries, rest)
    | _ => .ok none

/-- Reads the items of a list up to its closing bracket; `items` holds the last one first. -/
def readItems : Nat → List Node → Stream → Except Fault (List Node × Stream)
  | 0, _, _ => .error outOfDepth
  | depth + 1, items, stream => do
    match ← readExpression depth true 0 stream with
    | (none, rest) =>
      if rest.isAt true .comma then throw (rest.faultHere true .syntaxError)
      else throw (rest.faultHere true .arrayNotClosed)
    | (some item, rest) =>
      match rest.accept? true .rightBracket with
      | some closed => return ((item :: items).reverse, closed)
      | none =>
        match rest.accept? true .comma with
        | some more => readItems depth (item :: items) more
        | none => throw (rest.faultHere true .arrayNotClosed)

/-- Reads the entries of a dictionary up to its closing brace; `entries` holds the last first. -/
def readEntries : Nat → List (String × Node) → Stream →
    Except Fault (List (String × Node) × Stream)
  | 0, _, _ => .error outOfDepth
  | depth + 1, entries, stream =>
    match stream.next? true with
    | none => .error (stream.faultHere true .dictNotClosed)
    | some (token, after) =>
      match token.kind with
      | .text key =>
        match after.accept? true .colon with
        | none => .error (after.faultHere true .colonMarkMissing)
        | some afterColon => do
          match ← readExpression depth true 0 afterColon with
          | (none, rest) => throw (rest.faultHere true .rightSideOfExpressionNotFound)
          | (some value, rest) =>
            let entries := (key, value) :: entries
            match rest.accept? true .rightBrace with
            | some closed => return (entries.reverse, closed)
            | none =>
              match rest.accept? true .comma with
              | some more => readEntries depth entries more
              | none => throw (rest.faultHere true .dictNotClosed)
      | _ => .error (.located .argumentMustBeText token.position)

end

end Lehce
