import Lehce.Machine.Run
import Lehce.Proofs.Code.WellScoped

/-!
# What programs mean

A reference for what programs compute, given on their trees and without any code. Each
activation of a scope has variables of its own. They start empty, and parameters get their
arguments by position. A name means the variable of its scope, or else the function with
that name, or else the native one.

Programs need not end, so evaluation is given fuel: no loop goes through more rounds, and
no chain of calls gets longer, than there is fuel. A fault is reported and, unless it is
fatal or the policy says otherwise, evaluation goes on with the empty value.

Functions are values, and a reference tells which function such a value is. Evaluation
looks at the name in it and at the number of parameters, never at where code stands.
-/

namespace Lehce.Meaning

open Code (BinaryOp ScopeText definitions)

/-- Why an evaluation has no outcome. -/
inductive Halt where
  | stopped
  | crashed (crash : Crash)
  | exhausted
  deriving DecidableEq

/-- An activation of a scope with what all activations share. -/
structure State where
  store : String → Value := fun _ => .empty
  results : List Value := []
  host : Host := {}
  faults : List Fault := []

/-- An evaluation changes the state, and what it did remains when it halts. -/
abbrev Eval := EStateM Halt State

/-- How a statement ended. -/
inductive Flow where
  | normal
  | breaks
  | continues
  | returns (value : Value)

/-- What is the same throughout an evaluation. The functions are the references of the program's
own, and `number` says what a number that stands in a scope means. -/
structure Setting where
  program : Program
  number : ScopeText → Float → Float
  natives : Code.Resolver
  registry : Option Registry
  policy : Policy
  callDepth : Nat
  functions : List FunctionRef

/-- Where a node stands: in which scope, below how many calls, and whether values are dropped. -/
structure Place where
  text : ScopeText
  depth : Nat
  drops : Bool

/-- How a function of the program is called. -/
abbrev Invoke := FunctionRef → List Value → Eval Value

/-- Reports a fault. -/
def report (policy : Policy) (fault : Fault) : Eval PUnit := fun state =>
  let after := { state with faults := fault :: state.faults }
  if fault.kind.fatal || !policy after.faults then .error .stopped after else .ok ⟨⟩ after

/-- Reports a fault, after which the value is empty. -/
def fail (policy : Policy) (fault : Fault) : Eval Value := do
  report policy fault
  return .empty

/-- The value that an operation yields, or its fault. -/
def yield (policy : Policy) (operation : Heap → Except Fault Value) : Eval Value := do
  match operation (← get).host.heap with
  | .ok value => return value
  | .error fault => fail policy fault

/-- Puts a list or a dictionary on the heap. -/
def allocate (new : Heap → Value × Heap) : Eval Value :=
  modifyGet fun state =>
    let (value, heap) := new state.host.heap
    (value, { state with host := { state.host with heap } })

/-- Applies an operation to two values. -/
def operate (policy : Policy) (op : BinaryOp) (left right : Value) : Eval Value := do
  match Machine.applyBinary op (← get).host.heap left right with
  | .value value => return value
  | .items items => allocate (·.newList items)
  | .fault fault => fail policy fault
  | .crash crash => throw (.crashed crash)

/-- Writes an item of a container. -/
def writeItem (policy : Policy) (container index value : Value) : Eval PUnit := do
  match Machine.setItem (← get).host.heap container index value with
  | .ok change =>
    modify fun state =>
      { state with host := { state.host with heap := change state.host.heap } }
  | .error fault => report policy fault

/-- Assigns a variable. -/
def assign (name : String) (value : Value) : Eval PUnit :=
  modify fun state =>
    { state with store := fun other => if other = name then value else state.store other }

/-- Whether a value counts as true. -/
def truthy (value : Value) : Eval Bool := do
  return (← get).host.heap.truthy value

namespace Setting

/-- What a literal that stands in a scope means. -/
def literal (setting : Setting) (text : ScopeText) : Datum → Value
  | .number value => .number (setting.number text value)
  | value => (Value.ofScalar value).orEmpty

/-- The native function with a name. -/
def nativeValue (setting : Setting) (name : String) : Value :=
  match setting.natives name with
  | some full => .function { name := full, native := true, arity := -1 }
  | none => .empty

/-- The function with a name, or else the native one. -/
def functionValue (setting : Setting) (name : String) : Value :=
  match setting.functions.find? (·.name == name) with
  | some ref => .function ref
  | none => setting.nativeValue name

/-- What a name means in a store of variables. -/
def meaning (setting : Setting) (text : ScopeText) (store : String → Value) : Node → Value
  | .symbol _ name =>
    if text.binds name then store name else setting.functionValue name
  | .path _ parts => setting.nativeValue (pathName parts)
  | _ => .empty

/-- Calls a native function; there must be some at all. -/
def callNative (setting : Setting) (name : String) (args : List Value) : Eval Value := do
  match setting.registry with
  | none => throw (.crashed .missing)
  | some natives =>
    match natives.find? name with
    | none =>
      fail setting.policy (.runtime .notCallable ("native function " ++ name ++ " not registered"))
    | some native =>
      let result := native.call args (← get).host
      modify fun state => { state with host := result.host }
      match result.failure with
      | none => return result.value.orEmpty
      | some (.fault fault) =>
        report setting.policy fault
        return result.value.orEmpty
      | some (.other message) =>
        report setting.policy (.runtime .typeMismatch (name ++ ": " ++ message))
        return result.value.orEmpty
      | some (.crash crash) => throw (.crashed crash)

/-- Calls a function of the program, unless too many calls are in progress. -/
def callFunction (setting : Setting) (depth : Nat) (invoke : Invoke) (ref : FunctionRef)
    (args : List Value) : Eval Value :=
  if ref.arity ≠ args.length then
    fail setting.policy (.runtime .argumentCountMismatch
      (ref.name ++ " takes " ++ toString ref.arity ++ " arguments, got " ++
        toString args.length))
  else if setting.callDepth ≤ depth then
    fail setting.policy (.runtime .stackOverflow
      ("call depth " ++ toString setting.callDepth ++ " exceeded in " ++ ref.name))
  else invoke ref args

/-- Calls a value. -/
def call (setting : Setting) (depth : Nat) (invoke : Invoke) (callee : Value)
    (args : List Value) : Eval Value :=
  match callee with
  | .function ref =>
    if ref.native then setting.callNative ref.name args
    else setting.callFunction depth invoke ref args
  | other =>
    fail setting.policy (.runtime .notCallable (other.kind.name ++ " is not a function"))

end Setting

/-- Steps a variable and returns its old value and its new one. -/
def stepVariable (policy : Policy) (op : Op) (target : Node) : Eval (Value × Value) :=
  match target with
  | .symbol _ name => do
    let old := (← get).store name
    let new ← yield policy fun heap => Machine.applyUnary (Code.stepOp op) heap old
    assign name new
    return (old, new)
  | _ => return (.empty, .empty)

mutual

/-- The value of an expression. -/
def evalExpression (setting : Setting) (place : Place) (invoke : Invoke) (node : Node) :
    Eval Value := do
  match node with
  | .literal _ value => return setting.literal place.text value
  | .nothing _ => return .empty
  | .binary _ left op right =>
    let a ← evalExpression setting place invoke left
    let b ← evalExpression setting place invoke right
    operate setting.policy ((Code.arithmeticOp? op).getD .add) a b
  | .control _ left op right =>
    let a ← evalExpression setting place invoke left
    match Code.comparisonOp? op with
    | some operation =>
      let b ← evalExpression setting place invoke right
      operate setting.policy operation a b
    | none =>
      -- The left operand decides `ve` when it is false, and `veya` when it is true.
      if (← truthy a) = (op == .or) then return a
      else evalExpression setting place invoke right
  | .call _ callee args _ =>
    let values ← evalExpressions setting place invoke args
    let callee := setting.meaning place.text (← get).store callee
    setting.call place.depth invoke callee values
  | .list _ items =>
    let values ← evalExpressions setting place invoke items
    allocate (·.newList values.toArray)
  | .dict _ entries =>
    let values ← evalEntries setting place invoke entries
    allocate (·.newDict (Dict.ofList values))
  | .prefixed _ op operand _ =>
    match op with
    | .increment | .decrement => return (← stepVariable setting.policy op operand).2
    | .not =>
      let a ← evalExpression setting place invoke operand
      yield setting.policy fun heap => Machine.applyUnary .not heap a
    | .negate =>
      let a ← evalExpression setting place invoke operand
      yield setting.policy fun heap => Machine.applyUnary .negate heap a
    | _ => evalExpression setting place invoke operand
  | .suffixed _ op operand _ => return (← stepVariable setting.policy op operand).1
  | .index _ body key =>
    let container ← evalExpression setting place invoke body
    let index ← evalExpression setting place invoke key
    yield setting.policy fun heap => Machine.getItem heap container index
  | name => return setting.meaning place.text (← get).store name

/-- The values of some expressions, from left to right. -/
def evalExpressions (setting : Setting) (place : Place) (invoke : Invoke) :
    List Node → Eval (List Value)
  | [] => return []
  | node :: rest => do
    let value ← evalExpression setting place invoke node
    return value :: (← evalExpressions setting place invoke rest)

/-- The entries of a dictionary literal, from left to right. -/
def evalEntries (setting : Setting) (place : Place) (invoke : Invoke) :
    List (String × Node) → Eval (List (String × Value))
  | [] => return []
  | (key, node) :: rest => do
    let value ← evalExpression setting place invoke node
    return (key, value) :: (← evalEntries setting place invoke rest)

end

/-- The value that an operator makes of an old value and that of an expression. -/
def combine (setting : Setting) (place : Place) (invoke : Invoke) (op : Op) (old : Value)
    (node : Node) : Eval Value := do
  let value ← evalExpression setting place invoke node
  operate setting.policy ((Code.arithmeticOp? op.arithmetic).getD .add) old value

/-- Assigns a variable, or an item of a container. -/
def evalAssignment (setting : Setting) (place : Place) (invoke : Invoke) (target : Node) (op : Op)
    (node : Node) : Eval PUnit :=
  match target with
  | .symbol _ name =>
    if op = .assign then do
      let value ← evalExpression setting place invoke node
      assign name value
    else do
      let old := (← get).store name
      let value ← combine setting place invoke op old node
      assign name value
  | .index _ body key => do
    let container ← evalExpression setting place invoke body
    let index ← evalExpression setting place invoke key
    if op = .assign then
      let value ← evalExpression setting place invoke node
      writeItem setting.policy container index value
    else
      let old ← yield setting.policy fun heap => Machine.getItem heap container index
      let value ← combine setting place invoke op old node
      writeItem setting.policy container index value
  | _ => return ⟨⟩

/-- Whether an expression has a value where it is a statement: a call, `++` or `--` has none. -/
def hasValue : Node → Bool
  | .call _ _ _ used | .suffixed _ _ _ used => used
  | .prefixed _ op _ used => !op.isStep || used
  | _ => true

/-- Keeps the value of a statement among the results, where values are not dropped. -/
def keepValue (place : Place) (node : Node) (value : Value) : Eval PUnit :=
  if hasValue node && !place.drops then
    modify fun state => { state with results := state.results ++ [value] }
  else return ⟨⟩

/-- Goes through the rounds of a loop. -/
def iterate (guard : Eval Bool) (body : Eval Flow) : Nat → Eval Flow
  | 0 => throw .exhausted
  | fuel + 1 => do
    if ← guard then
      match ← body with
      | .normal | .continues => iterate guard body fuel
      | .breaks => return .normal
      | .returns value => return .returns value
    else return .normal

mutual

/-- Executes a statement. -/
def evalStatement (setting : Setting) (place : Place) (invoke : Invoke) (fuel : Nat)
    (node : Node) : Eval Flow := do
  match node with
  | .assignment _ target op value =>
    evalAssignment setting place invoke target op value
    return .normal
  | .branch _ condition _ body otherwise =>
    let decision ← evalExpression setting place invoke condition
    if ← truthy decision then evalStatements setting place invoke fuel body
    else match otherwise with
      | none => return .normal
      | some other => evalStatement setting place invoke fuel other
  | .whileLoop _ condition _ body =>
    iterate (evalExpression setting place invoke condition >>= truthy)
      (evalStatements setting { place with drops := true } invoke fuel body) fuel
  | .endlessLoop _ _ body =>
    iterate (pure true) (evalStatements setting { place with drops := true } invoke fuel body) fuel
  | .breaks _ => return .breaks
  | .continues _ => return .continues
  | .returns _ none => return .returns .empty
  | .returns _ (some value) => return .returns (← evalExpression setting place invoke value)
  | .function .. => return .normal
  | .block _ items => evalStatements setting place invoke fuel items
  | node =>
    let value ← evalExpression setting place invoke node
    keepValue place node value
    return .normal

/-- Executes some statements, up to the first that does not end normally. -/
def evalStatements (setting : Setting) (place : Place) (invoke : Invoke) (fuel : Nat) :
    List Node → Eval Flow
  | [] => return .normal
  | node :: rest => do
    match ← evalStatement setting place invoke fuel node with
    | .normal => evalStatements setting place invoke fuel rest
    | flow => return flow

end

/-- The variables of a function that was given some arguments. -/
def boundStore (params : List String) (args : List Value) (name : String) : Value :=
  ((params.zip args).lookup name).getD .empty

/-- The value of a call whose body ended in some way; without a return it is empty. -/
def Flow.value : Flow → Value
  | returns value => value
  | _ => .empty

/-- Runs the body of a function in an activation of its own. -/
def activate (store : String → Value) (body : Eval Flow) : Eval Value := fun state =>
  match body { state with store, results := [] } with
  | .ok flow inner => .ok flow.value { state with host := inner.host, faults := inner.faults }
  | .error halt inner => .error halt { state with host := inner.host, faults := inner.faults }

/-- Calls a function of the program below `depth` calls. -/
def invoke (setting : Setting) : Nat → Nat → Invoke
  | 0, _, _, _ => throw .exhausted
  | fuel + 1, depth, ref, args =>
    match (definitions setting.program).find? (·.name == ref.name) with
    | none => return .empty
    | some definition =>
      activate (boundStore definition.params args)
        (evalStatements setting ⟨definition.text, depth + 1, true⟩
          (invoke setting fuel (depth + 1)) fuel definition.body)

/-- Evaluates a program. -/
def evaluate (setting : Setting) (fuel : Nat) (host : Host) : EStateM.Result Halt State Flow :=
  evalStatements setting ⟨Code.topText setting.program, 1, false⟩ (invoke setting fuel 1) fuel
    setting.program.items { host }

end Lehce.Meaning
