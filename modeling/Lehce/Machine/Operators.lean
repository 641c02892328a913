import Lehce.Code.Instruction
import Lehce.Crash
import Lehce.Fault
import Lehce.Number.Integral
import Lehce.Value.Heap

/-!
# What operators compute

The meaning of the machine's operations on values. An operation yields a value or the
items of a new list, or it fails with a fault and changes nothing. Two things are neither
and crash: repeating a text more often than any memory has room for, and comparing or
writing out a list or dictionary that contains itself.
-/

namespace Lehce.Machine

open Code (BinaryOp UnaryOp)

/-- What an operation comes to. -/
inductive Outcome where
  | value (value : Value)
  | items (items : Array Value)
  | fault (fault : Fault)
  | crash (crash : Crash)

/-- What came of looking at all of a value, if there was an end to it. -/
def Outcome.ofEnding {α : Type} (result : α → Value) : Option α → Outcome
  | some answer => .value (result answer)
  | none => .crash .endless

/-- The fault of an operation on values of kinds that do not go together. -/
def mismatch (op : BinaryOp) (left right : Value) : Fault :=
  .runtime .typeMismatch (left.kind.name ++ " " ++ op.name ++ " " ++ right.kind.name)

/-- Arithmetic on numbers; a division by zero is empty, as is its remainder. -/
def arithmetic (op : BinaryOp) (a b : Float) : Value :=
  match op with
  | .add => .number (a + b)
  | .subtract => .number (a - b)
  | .multiply => .number (a * b)
  | .divide => if b == 0 then .empty else .number (a / b)
  | .modulo => if b == 0 then .empty else .number (Number.remainder a b)
  | _ => .empty

/-- The number of bytes beyond which no text can be had. -/
def maxTextBytes : Nat := Nat.pow 2 48

/--
A text repeated; empty for a count that is negative or not whole. No more times are counted
than 64 bits count, and no more bytes.
-/
def repeatText (text : String) (count : Float) : Outcome :=
  match Number.integer? count with
  | none => .value .empty
  | some n =>
    let bytes := text.utf8ByteSize * n.toNat
    if n < 0 then .value .empty
    else if -Number.minInt64 ≤ n then .crash .negativeRepeat
    else if n = 0 then .value (.text "")
    else if n = 1 then .value (.text text)
    else if -Number.minInt64 ≤ bytes then .crash .repeatOverflow
    else if bytes = 0 then .value (.text "")
    else if maxTextBytes < bytes then .crash .tooLong
    else .value (.text (String.join (List.replicate n.toNat text)))

/-- How two comparable values are ordered. -/
inductive Ordered where
  | less
  | same
  | greater
  | unordered
  deriving DecidableEq

/-- Orders two numbers or two texts; numbers that are none have no order. -/
def order? : Value → Value → Option Ordered
  | .number a, .number b =>
    some (if a != a || b != b then .unordered
      else if a < b then .less else if b < a then .greater else .same)
  | .text a, .text b => some (if a < b then .less else if b < a then .greater else .same)
  | _, _ => none

/-- Whether an order satisfies a comparison. -/
def Ordered.satisfies (order : Ordered) (op : BinaryOp) : Bool :=
  match op, order with
  | _, .unordered => false
  | .less, .less | .lessEqual, .less | .lessEqual, .same => true
  | .greater, .greater | .greaterEqual, .greater | .greaterEqual, .same => true
  | _, _ => false

/-- The sum of values that are not both numbers: texts are joined, and so are lists. -/
def addValues (heap : Heap) (left right : Value) : Outcome :=
  match left, right with
  | .text a, .text b => .value (.text (a ++ b))
  | .text a, b => .ofEnding (fun text => .text (a ++ text)) (heap.display b)
  | a, .text b => .ofEnding (fun text => .text (text ++ b)) (heap.display a)
  | .list a, .list b => .items (heap.items a ++ heap.items b)
  | a, b => .fault (mismatch .add a b)

/-- Applies an operation to two values. -/
def applyBinary (op : BinaryOp) (heap : Heap) (left right : Value) : Outcome :=
  match op with
  | .equal => .ofEnding .bool (heap.equal left right)
  | .notEqual => .ofEnding (fun same => .bool !same) (heap.equal left right)
  | .less | .lessEqual | .greater | .greaterEqual =>
    match order? left right with
    | some order => .value (.bool (order.satisfies op))
    | none => .fault (mismatch op left right)
  | .add | .subtract | .multiply | .divide | .modulo =>
    match left, right with
    | .number a, .number b => .value (arithmetic op a b)
    | left, right =>
      match op, left, right with
      | .add, left, right => addValues heap left right
      | .multiply, .text text, .number count => repeatText text count
      | .multiply, .number count, .text text => repeatText text count
      | op, left, right => .fault (mismatch op left right)

/-- Applies an operation to a value. -/
def applyUnary (op : UnaryOp) (heap : Heap) (operand : Value) : Except Fault Value :=
  match op, operand with
  | .not, operand => .ok (.bool (!heap.truthy operand))
  | .negate, .number n => .ok (.number (-n))
  | .increment, .number n => .ok (.number (n + 1))
  | .decrement, .number n => .ok (.number (n - 1))
  | op, operand => .error (.runtime .typeMismatch (op.name ++ " " ++ operand.kind.name))

/-- The index that a value stands for, when it is a whole number. -/
def integralIndex? : Value → Option Int
  | .number n => (Number.integer? n).map Number.clampInt64
  | _ => none

/-- The fault of an index that is no whole number. -/
def indexFault (container : String) (index : Value) : Fault :=
  .runtime .typeMismatch
    (container ++ " index must be an integral number, got " ++ index.kind.name)

/-- The fault of an index outside a container. -/
def rangeFault (index : Int) (length : Nat) : Fault :=
  .runtime .indexOutOfRange ("index " ++ toString index ++ " of " ++ toString length)

/-- The fault of a key that is no text. -/
def keyFault (key : Value) : Fault :=
  .runtime .typeMismatch ("dict key must be text, got " ++ key.kind.name)

/-- The place in a list that an index means. -/
def listPlace (items : Array Value) (index : Value) : Except Fault Nat :=
  match integralIndex? index with
  | none => .error (indexFault "list" index)
  | some i =>
    match resolveIndex items.size i with
    | none => .error (rangeFault i items.size)
    | some place => .ok place

/-- The character of a text that an index means; a fault shows the index counted from the front. -/
def textItem (text : String) (index : Value) : Except Fault Value :=
  match integralIndex? index with
  | none => .error (indexFault "text" index)
  | some i =>
    let chars := text.toList
    let front := if i < 0 then i + chars.length else i
    match if front < 0 then none else chars[front.toNat]? with
    | some c => .ok (.text c.toString)
    | none => .error (rangeFault front chars.length)

/-- Reads an item of a container. -/
def getItem (heap : Heap) (container index : Value) : Except Fault Value :=
  match container with
  | .list place => do
    let items := heap.items place
    let i ← listPlace items index
    return (items[i]?.getD .empty).orEmpty
  | .dict place =>
    match index with
    | .text key => .ok (((heap.entries place).get? key).getD .empty).orEmpty
    | index => .error (keyFault index)
  | .text text => textItem text index
  | container => .error (.runtime .typeMismatch (container.kind.name ++ " is not indexable"))

/-- The change of the heap that writes an item of a container. -/
def setItem (heap : Heap) (container index value : Value) : Except Fault (Heap → Heap) :=
  match container with
  | .list place => do
    let i ← listPlace (heap.items place) index
    return (·.modifyItems place fun items => items.setIfInBounds i value)
  | .dict place =>
    match index with
    | .text key => .ok (·.modifyEntries place fun entries => entries.set key value)
    | index => .error (keyFault index)
  | container =>
    .error (.runtime .typeMismatch (container.kind.name ++ " does not support item assignment"))

end Lehce.Machine
