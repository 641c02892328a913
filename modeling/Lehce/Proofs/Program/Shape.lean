import Lehce.Program.Statement

/-!
# The shape of programs

Not every tree is a program that a source can have. `Node.IsExpression` and
`Node.IsStatement` describe the trees that a reader returns: which operators stand
where, what may be called, assigned and stepped, where `kır`, `devam` and `döndür`
may stand, and that every body of a function ends with a return. A call, `++` or
`--` is marked as used exactly when it is not a statement.

`allowed` is what is known of the numbers that the tokens of a source denote; the
sign of a number is folded into it, so it must not depend on the sign.
-/

namespace Lehce

/-- A number is one that equals itself. -/
def Number.IsNumber (x : Float) : Prop := (x == x) = true

namespace Op

/-- Whether an operator is one of the five arithmetic ones. -/
def isArithmetic : Op → Bool
  | add | subtract | multiply | divide | modulo => true
  | _ => false

/-- Whether an operator is a comparison. -/
def isComparison : Op → Bool
  | equal | notEqual | greater | greaterEqual | less | lessEqual => true
  | _ => false

/-- Whether an operator decides by one of its operands. -/
def isLogical : Op → Bool
  | and | or => true
  | _ => false

/-- Whether an operator steps a variable. -/
def isStep : Op → Bool
  | increment | decrement => true
  | _ => false

/-- Whether an operator assigns. -/
def isAssignment : Op → Bool
  | assign | assignAdd | assignSubtract | assignMultiply | assignDivide => true
  | _ => false

end Op

/-- The data that literals denote. -/
def Datum.IsLiteral (allowed : Float → Prop) : Datum → Prop
  | .number value => allowed value
  | .empty | .bool _ | .text _ | .atom _ => True
  | .absent | .list _ | .dict _ | .function _ => False

namespace Node

/-- The nodes that can be called. -/
inductive IsName : Node → Prop where
  | symbol (position : Position) (name : String) : IsName (.symbol position name)
  | path (position : Position) (parts : List String) : IsName (.path position parts)

/-- Whether a node is a literal. -/
def isLiteral : Node → Bool
  | .literal _ _ => true
  | _ => false

/-- Whether a node is a branch. -/
def isBranch : Node → Bool
  | .branch .. => true
  | _ => false

/-- Whether a node is a call, `++` or `--`, of which a statement does not use the value. -/
def isEffect : Node → Bool
  | .call .. | .suffixed .. => true
  | .prefixed _ op _ _ => op.isStep
  | _ => false

/-- Whether a node is compiled as an expression wherever it stands. -/
def isValued : Node → Bool
  | .assignment .. | .branch .. | .whileLoop .. | .endlessLoop .. | .breaks _ | .continues _
  | .returns .. | .function .. | .block .. => false
  | _ => true

/-- The trees of expressions whose value is used. -/
inductive IsExpression (allowed : Float → Prop) : Node → Prop where
  | literal {position : Position} {value : Datum} (known : value.IsLiteral allowed) :
      IsExpression allowed (.literal position value)
  | nothing (position : Position) : IsExpression allowed (.nothing position)
  | name {node : Node} (named : node.IsName) : IsExpression allowed node
  | binary {position : Position} {left right : Node} {op : Op} (arithmetic : op.isArithmetic)
      (leftShape : IsExpression allowed left) (rightShape : IsExpression allowed right) :
      IsExpression allowed (.binary position left op right)
  | comparison {position : Position} {left right : Node} {op : Op} (compares : op.isComparison)
      (leftShape : IsExpression allowed left) (rightShape : IsExpression allowed right) :
      IsExpression allowed (.control position left op right)
  | logical {position : Position} {left right : Node} {op : Op} (decides : op.isLogical)
      (leftShape : IsExpression allowed left) (rightShape : IsExpression allowed right) :
      IsExpression allowed (.control position left op right)
  | call {position : Position} {callee : Node} {args : List Node} (named : callee.IsName)
      (argShapes : ∀ arg ∈ args, IsExpression allowed arg) :
      IsExpression allowed (.call position callee args true)
  | list {position : Position} {items : List Node}
      (itemShapes : ∀ item ∈ items, IsExpression allowed item) :
      IsExpression allowed (.list position items)
  | dict {position : Position} {entries : List (String × Node)}
      (distinct : (entries.map (·.1)).Nodup)
      (valueShapes : ∀ entry ∈ entries, IsExpression allowed entry.2) :
      IsExpression allowed (.dict position entries)
  | not {position : Position} {operand : Node} (operandShape : IsExpression allowed operand) :
      IsExpression allowed (.prefixed position .not operand true)
  | negate {position : Position} {operand : Node} (unfolded : operand.isLiteral = false)
      (operandShape : IsExpression allowed operand) :
      IsExpression allowed (.prefixed position .negate operand true)
  | stepBefore {position : Position} {op : Op} (steps : op.isStep) (operandPosition : Position)
      (name : String) :
      IsExpression allowed (.prefixed position op (.symbol operandPosition name) true)
  | stepAfter {position : Position} {op : Op} (steps : op.isStep) (operandPosition : Position)
      (name : String) :
      IsExpression allowed (.suffixed position op (.symbol operandPosition name) true)
  | index {position : Position} {body key : Node} (bodyShape : IsExpression allowed body)
      (keyShape : IsExpression allowed key) : IsExpression allowed (.index position body key)

theorem IsExpression.isValued {allowed : Float → Prop} {node : Node}
    (shape : node.IsExpression allowed) : node.isValued = true := by
  cases shape with
  | name named => cases named <;> rfl
  | _ => rfl

/-- Whether the last of some statements is a return. -/
def EndsWithReturn (body : List Node) : Prop :=
  ∃ front position value, body = front ++ [.returns position value]

/-- The trees of statements, inside a loop or not, and inside a function or not. -/
inductive IsStatement (allowed : Float → Prop) : Bool → Bool → Node → Prop where
  | value {inLoop inFunction : Bool} {node : Node} (shape : node.IsExpression allowed)
      (lasting : node.isEffect = false) : IsStatement allowed inLoop inFunction node
  | call {inLoop inFunction : Bool} {position : Position} {callee : Node} {args : List Node}
      (named : callee.IsName) (argShapes : ∀ arg ∈ args, arg.IsExpression allowed) :
      IsStatement allowed inLoop inFunction (.call position callee args false)
  | stepBefore {inLoop inFunction : Bool} {position : Position} {op : Op} (steps : op.isStep)
      (operandPosition : Position) (name : String) :
      IsStatement allowed inLoop inFunction
        (.prefixed position op (.symbol operandPosition name) false)
  | stepAfter {inLoop inFunction : Bool} {position : Position} {op : Op} (steps : op.isStep)
      (operandPosition : Position) (name : String) :
      IsStatement allowed inLoop inFunction
        (.suffixed position op (.symbol operandPosition name) false)
  | assignment {inLoop inFunction : Bool} {position : Position} {op : Op} {value : Node}
      (assigns : op.isAssignment) (targetPosition : Position) (name : String)
      (valueShape : value.IsExpression allowed) :
      IsStatement allowed inLoop inFunction
        (.assignment position (.symbol targetPosition name) op value)
  | itemAssignment {inLoop inFunction : Bool} {position : Position} {op : Op}
      {body key value : Node} (assigns : op.isAssignment) (targetPosition : Position)
      (bodyShape : body.IsExpression allowed) (keyShape : key.IsExpression allowed)
      (valueShape : value.IsExpression allowed) :
      IsStatement allowed inLoop inFunction
        (.assignment position (.index targetPosition body key) op value)
  | branch {inLoop inFunction : Bool} {position bodyPosition : Position} {condition : Node}
      {body : List Node} (conditionShape : condition.IsExpression allowed)
      (bodyShapes : ∀ item ∈ body, IsStatement allowed inLoop inFunction item) :
      IsStatement allowed inLoop inFunction (.branch position condition bodyPosition body none)
  | branchElse {inLoop inFunction : Bool} {position bodyPosition otherPosition : Position}
      {condition : Node} {body other : List Node} (conditionShape : condition.IsExpression allowed)
      (bodyShapes : ∀ item ∈ body, IsStatement allowed inLoop inFunction item)
      (otherShapes : ∀ item ∈ other, IsStatement allowed inLoop inFunction item) :
      IsStatement allowed inLoop inFunction
        (.branch position condition bodyPosition body (some (.block otherPosition other)))
  | branchChain {inLoop inFunction : Bool} {position bodyPosition : Position} {condition : Node}
      {body : List Node} {other : Node} (conditionShape : condition.IsExpression allowed)
      (bodyShapes : ∀ item ∈ body, IsStatement allowed inLoop inFunction item)
      (chained : other.isBranch) (otherShape : IsStatement allowed inLoop inFunction other) :
      IsStatement allowed inLoop inFunction
        (.branch position condition bodyPosition body (some other))
  | endlessLoop {inLoop inFunction : Bool} {position bodyPosition : Position} {body : List Node}
      (bodyShapes : ∀ item ∈ body, IsStatement allowed true inFunction item) :
      IsStatement allowed inLoop inFunction (.endlessLoop position bodyPosition body)
  | whileLoop {inLoop inFunction : Bool} {position bodyPosition : Position} {condition : Node}
      {body : List Node} (conditionShape : condition.IsExpression allowed)
      (bodyShapes : ∀ item ∈ body, IsStatement allowed true inFunction item) :
      IsStatement allowed inLoop inFunction (.whileLoop position condition bodyPosition body)
  | breaks {inFunction : Bool} (position : Position) :
      IsStatement allowed true inFunction (.breaks position)
  | continues {inFunction : Bool} (position : Position) :
      IsStatement allowed true inFunction (.continues position)
  | returns {inLoop : Bool} {position : Position} {value : Node}
      (valueShape : value.IsExpression allowed) :
      IsStatement allowed inLoop true (.returns position (some value))
  | function {inLoop inFunction : Bool} {position bodyPosition : Position} {name : String}
      {params : List String} {body : List Node} (distinct : params.Nodup)
      (bodyShapes : ∀ item ∈ body, IsStatement allowed false true item)
      (ended : EndsWithReturn body) :
      IsStatement allowed inLoop inFunction (.function position name params bodyPosition body)

end Node

/-- The trees of programs. -/
def Program.IsShaped (allowed : Float → Prop) (program : Program) : Prop :=
  ∀ item ∈ program.items, item.IsStatement allowed false false

end Lehce
