import Lehce.Value.Datum

/-!
# Programs

The tree of a program. Every node has the position of the token it starts with.
A body of statements is a position and a list of nodes. Calls and the operators
`++` and `--` carry a mark that says whether their value is used.
-/

namespace Lehce

/-- A line and a column, both counted from zero. -/
structure Position where
  line : Int
  column : Int
  deriving Repr, DecidableEq, Inhabited

/-- The operators of program trees. -/
inductive Op where
  | unknown
  | add
  | subtract
  | multiply
  | divide
  | modulo
  | equal
  | notEqual
  | greater
  | greaterEqual
  | less
  | lessEqual
  | and
  | or
  | increment
  | decrement
  | not
  | negate
  | plus
  | assign
  | assignAdd
  | assignSubtract
  | assignMultiply
  | assignDivide
  deriving Repr, DecidableEq, Inhabited

namespace Op

/-- The operators in the order of their numbers. -/
def all : List Op := [
  .unknown, .add, .subtract, .multiply, .divide, .modulo, .equal, .notEqual, .greater,
  .greaterEqual, .less, .lessEqual, .and, .or, .increment, .decrement, .not, .negate, .plus,
  .assign, .assignAdd, .assignSubtract, .assignMultiply, .assignDivide]

/-- The operator with a number. -/
def ofNumber (n : Nat) : Op := all[n]?.getD .unknown

/-- The number of an operator. -/
def number (op : Op) : Nat := all.idxOf op

/-- The spelling of an operator. -/
def text : Op → String
  | unknown => "?"
  | add => "+"
  | subtract => "-"
  | multiply => "*"
  | divide => "/"
  | modulo => "mod"
  | equal => "=="
  | notEqual => "!="
  | greater => ">"
  | greaterEqual => ">="
  | less => "<"
  | lessEqual => "<="
  | and => "ve"
  | or => "veya"
  | increment => "++"
  | decrement => "--"
  | not => "değil"
  | negate => "-"
  | plus => "+"
  | assign => "="
  | assignAdd => "+="
  | assignSubtract => "-="
  | assignMultiply => "*="
  | assignDivide => "/="

/-- The arithmetic an assignment operator applies before it assigns. -/
def arithmetic : Op → Op
  | assignAdd => add
  | assignSubtract => subtract
  | assignMultiply => multiply
  | assignDivide => divide
  | _ => unknown

end Op

/-- A node of a program. -/
inductive Node where
  | literal (position : Position) (value : Datum)
  | symbol (position : Position) (name : String)
  | path (position : Position) (parts : List String)
  | binary (position : Position) (left : Node) (op : Op) (right : Node)
  | control (position : Position) (left : Node) (op : Op) (right : Node)
  | assignment (position : Position) (target : Node) (op : Op) (value : Node)
  | block (position : Position) (items : List Node)
  | function (position : Position) (name : String) (params : List String)
      (bodyPosition : Position) (body : List Node)
  | call (position : Position) (callee : Node) (args : List Node) (used : Bool)
  | list (position : Position) (items : List Node)
  | dict (position : Position) (entries : List (String × Node))
  | prefixed (position : Position) (op : Op) (operand : Node) (used : Bool)
  | suffixed (position : Position) (op : Op) (operand : Node) (used : Bool)
  | index (position : Position) (body : Node) (key : Node)
  | branch (position : Position) (condition : Node) (bodyPosition : Position) (body : List Node)
      (otherwise : Option Node)
  | returns (position : Position) (value : Option Node)
  | breaks (position : Position)
  | continues (position : Position)
  | endlessLoop (position : Position) (bodyPosition : Position) (body : List Node)
  | whileLoop (position : Position) (condition : Node) (bodyPosition : Position) (body : List Node)
  | nothing (position : Position)
  deriving Inhabited

/-- A program: the statements of its top level and where they start. -/
structure Program where
  position : Position
  items : List Node
  deriving Inhabited

namespace Node

/-- Where a node starts. -/
def position : Node → Position
  | literal p _ | symbol p _ | path p _ | binary p _ _ _ | control p _ _ _ => p
  | assignment p _ _ _ | block p _ | function p _ _ _ _ | call p _ _ _ | list p _ => p
  | dict p _ | prefixed p _ _ _ | suffixed p _ _ _ | index p _ _ | branch p _ _ _ _ => p
  | .returns p _ | .breaks p | .continues p | endlessLoop p _ _ | .whileLoop p _ _ _ => p
  | nothing p => p

end Node

/-- The dotted name of a path. -/
def pathName (parts : List String) : String := ".".intercalate parts

end Lehce
