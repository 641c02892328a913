/-!
# Faults

A fault is what goes wrong with a program: while it is read, while it is
compiled, or while it runs. It has a kind, a position counted from zero (both
coordinates are -1 for faults of a running program) and a detail text. `message`
is its one-line text and `pretty` adds the source line with a caret below it.
-/

namespace Lehce

/-- The kinds of faults, from lexical ones over resolution to those of a running program. -/
inductive Fault.Kind where
  | invalid
  | missingStringDelimiter
  | syntaxError
  | colonMarkMissing
  | rightParenthesesMissing
  | arrayNotClosed
  | dictNotClosed
  | argumentMustBeText
  | functionNameNotDefined
  | functionConditionBodyNotFound
  | rightSideOfExpressionNotFound
  | indentationIssue
  | expectedNewLine
  | invalidAssignmentTarget
  | functionCallSyntaxNotValid
  | breakAndContinueBelongToLoops
  | returnMustBeUsedInFunction
  | unaryWorksWithNumber
  | invalidUnaryOperation
  | unresolvedSymbol
  | duplicateDefinition
  | argumentCountMismatch
  | stackUnderflow
  | invalidJumpTarget
  | stackOverflow
  | notCallable
  | typeMismatch
  | indexOutOfRange
  | invalidSlot
  deriving Repr, DecidableEq, Inhabited

namespace Fault.Kind

/-- All kinds in the order of their numbers. -/
def all : List Kind := [
  .invalid, .missingStringDelimiter, .syntaxError, .colonMarkMissing, .rightParenthesesMissing,
  .arrayNotClosed, .dictNotClosed, .argumentMustBeText, .functionNameNotDefined,
  .functionConditionBodyNotFound, .rightSideOfExpressionNotFound, .indentationIssue,
  .expectedNewLine, .invalidAssignmentTarget, .functionCallSyntaxNotValid,
  .breakAndContinueBelongToLoops, .returnMustBeUsedInFunction, .unaryWorksWithNumber,
  .invalidUnaryOperation, .unresolvedSymbol, .duplicateDefinition, .argumentCountMismatch,
  .stackUnderflow, .invalidJumpTarget, .stackOverflow, .notCallable, .typeMismatch,
  .indexOutOfRange, .invalidSlot]

/-- The name of a kind. -/
def name : Kind → String
  | invalid => "Invalid"
  | missingStringDelimiter => "MissingStringDelimiter"
  | syntaxError => "SyntaxError"
  | colonMarkMissing => "ColonMarkMissing"
  | rightParenthesesMissing => "RightParenthesesMissing"
  | arrayNotClosed => "ArrayNotClosed"
  | dictNotClosed => "DictNotClosed"
  | argumentMustBeText => "ArgumentMustBeText"
  | functionNameNotDefined => "FunctionNameNotDefined"
  | functionConditionBodyNotFound => "FunctionConditionBodyNotFound"
  | rightSideOfExpressionNotFound => "RightSideOfExpressionNotFound"
  | indentationIssue => "IndentationIssue"
  | expectedNewLine => "ExpectedNewLine"
  | invalidAssignmentTarget => "InvalidAssignmentTarget"
  | functionCallSyntaxNotValid => "FunctionCallSyntaxNotValid"
  | breakAndContinueBelongToLoops => "BreakAndContinueBelongToLoops"
  | returnMustBeUsedInFunction => "ReturnMustBeUsedInFunction"
  | unaryWorksWithNumber => "UnaryWorksWithNumber"
  | invalidUnaryOperation => "InvalidUnaryOperation"
  | unresolvedSymbol => "UnresolvedSymbol"
  | duplicateDefinition => "DuplicateDefinition"
  | argumentCountMismatch => "ArgumentCountMismatch"
  | stackUnderflow => "StackUnderflow"
  | invalidJumpTarget => "InvalidJumpTarget"
  | stackOverflow => "StackOverflow"
  | notCallable => "NotCallable"
  | typeMismatch => "TypeMismatch"
  | indexOutOfRange => "IndexOutOfRange"
  | invalidSlot => "InvalidSlot"

/-- The number of a kind: its place among all kinds. -/
def number (kind : Kind) : Nat := all.idxOf kind

/-- The kind with a number. -/
def ofNumber? (n : Nat) : Option Kind := all[n]?

/-- The kind with a name. -/
def ofName? (text : String) : Option Kind := all.find? (·.name == text)

/-- Whether a fault of this kind ends a run even when its consumer would go on. -/
def fatal : Kind → Bool
  | stackUnderflow | invalidJumpTarget | stackOverflow | invalidSlot => true
  | _ => false

end Fault.Kind

/-- A fault with its position and detail. -/
structure Fault where
  kind : Fault.Kind
  line : Int
  column : Int
  detail : String
  deriving Repr, DecidableEq, Inhabited

namespace Fault

/-- A fault of a running program, which has no position. -/
def runtime (kind : Kind) (detail : String) : Fault := ⟨kind, -1, -1, detail⟩

/-- The one-line text of a fault. -/
def message (fault : Fault) : String :=
  if fault.line < 0 then fault.kind.name ++ ": " ++ fault.detail
  else
    let head := fault.kind.name ++ " at " ++ toString fault.line ++ ":" ++ toString fault.column
    if fault.detail.isEmpty then head else head ++ ": " ++ fault.detail

/-- The code points that take two columns of a terminal. -/
def wideRanges : List (Nat × Nat) := [
  (0x1100, 0x115f), (0x2329, 0x232a), (0x2e80, 0x303e), (0x3040, 0xa4cf), (0xac00, 0xd7a3),
  (0xf900, 0xfaff), (0xfe10, 0xfe19), (0xfe30, 0xfe6f), (0xff00, 0xff60), (0xffe0, 0xffe6)]

/-- How many columns of a terminal a character takes. -/
def columns (c : Char) : Nat :=
  if c.toNat = 0 then 0
  else if wideRanges.any fun (first, last) => first ≤ c.toNat && c.toNat ≤ last then 2
  else 1

/-- Blanks as wide as a character; a tabulator stays one. -/
def blankFor (c : Char) : String :=
  if c = '\t' then "\t" else String.ofList (List.replicate (columns c) ' ')

/-- The message, the source line, and a caret under the position. -/
def pretty (fault : Fault) (source : String) : String :=
  let head := fault.message ++ "\n"
  if fault.line < 0 then head
  else match (source.splitOn "\n")[fault.line.toNat]? with
    | none => head
    | some line =>
      let before := line.toList.take fault.column.toNat
      head ++ line ++ "\n" ++ String.join (before.map blankFor) ++ "^\n"

end Fault

end Lehce
