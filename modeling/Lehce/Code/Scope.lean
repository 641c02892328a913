import Std.Data.HashMap
import Lehce.Program.Text
import Lehce.Program.Stream

/-!
# Scopes

The top level of a program and each of its functions is a scope with a memory of
its own: first its constants, each once, in the order in which the program meets
them, then its parameters and the variables that it assigns. A name that is no
variable of the scope must be a function of the program or a native function, and
becomes a constant.
-/

namespace Lehce

variable {α : Type}

mutual

/--
Folds over a node and all nodes below it in source order; bodies of functions are
entered only when `deep` is set.
-/
def Node.fold (deep : Bool) (f : α → Node → α) (acc : α) (node : Node) : α :=
  let acc := f acc node
  match node with
  | .binary _ left _ right | .control _ left _ right =>
    right.fold deep f (left.fold deep f acc)
  | .assignment _ target _ value => value.fold deep f (target.fold deep f acc)
  | .block _ items | .list _ items => Node.foldAll deep f acc items
  | .function _ _ _ _ body => if deep then Node.foldAll deep f acc body else acc
  | .call _ callee args _ => Node.foldAll deep f (callee.fold deep f acc) args
  | .dict _ entries => Node.foldEntries deep f acc entries
  | .prefixed _ _ operand _ | .suffixed _ _ operand _ => operand.fold deep f acc
  | .index _ body key => key.fold deep f (body.fold deep f acc)
  | .branch _ condition _ body otherwise =>
    let acc := Node.foldAll deep f (condition.fold deep f acc) body
    match otherwise with
    | some other => other.fold deep f acc
    | none => acc
  | .returns _ value =>
    match value with
    | some value => value.fold deep f acc
    | none => acc
  | .endlessLoop _ _ body => Node.foldAll deep f acc body
  | .whileLoop _ condition _ body => Node.foldAll deep f (condition.fold deep f acc) body
  | .literal _ _ | .symbol _ _ | .path _ _ | .breaks _ | .continues _ | .nothing _ => acc

/-- Folds over some nodes. -/
def Node.foldAll (deep : Bool) (f : α → Node → α) (acc : α) : List Node → α
  | [] => acc
  | node :: rest => Node.foldAll deep f (node.fold deep f acc) rest

/-- Folds over the values of a dictionary literal. -/
def Node.foldEntries (deep : Bool) (f : α → Node → α) (acc : α) : List (String × Node) → α
  | [] => acc
  | (_, value) :: rest => Node.foldEntries deep f (value.fold deep f acc) rest

end

namespace Code

/-- What a constant is known by. Numbers are known by their bits, and the two zeros are one. -/
inductive ConstantKey where
  | empty
  | bool (value : Bool)
  | number (bits : UInt64)
  | text (content : String)
  | atom (name : String)
  | function (name : String) (native : Bool)
  deriving Repr, DecidableEq, Hashable

/-- The key of a scalar datum. No number that is none equals another, so it has no key. -/
def ConstantKey.ofDatum? : Datum → Option ConstantKey
  | .empty => some .empty
  | .bool value => some (.bool value)
  | .number value =>
    if value == value then some (.number (if value == 0 then 0 else value.toBits)) else none
  | .text content => some (.text content)
  | .atom name => some (.atom name)
  | .absent | .list _ | .dict _ | .function _ => none

/-- Whether a datum is a scalar, which a scope keeps as a constant. -/
def isScalar : Datum → Bool
  | .empty | .bool _ | .number _ | .text _ | .atom _ => true
  | .absent | .list _ | .dict _ | .function _ => false

/-- The constants and variables of a scope, with the places at which they are found. -/
structure Scope where
  constants : Array Datum := #[]
  constantPlaces : Std.HashMap ConstantKey Nat := {}
  locals : Array String := #[]
  variablePlaces : Std.HashMap String Nat := {}

namespace Scope

/-- Adds a variable, unless the scope has it. -/
def declare (scope : Scope) (name : String) : Scope :=
  if scope.variablePlaces.contains name then scope
  else
    let place := scope.locals.size
    { scope with
      locals := scope.locals.push name
      variablePlaces := scope.variablePlaces.insert name place }

/-- Adds a constant under a key, unless the scope has it. -/
def addConstant (scope : Scope) (key : ConstantKey) (value : Datum) : Scope :=
  if scope.constantPlaces.contains key then scope
  else
    let place := scope.constants.size
    { scope with
      constants := scope.constants.push value
      constantPlaces := scope.constantPlaces.insert key place }

/-- Adds a literal to the constants, when it is a scalar. -/
def addScalar (scope : Scope) (value : Datum) : Scope :=
  match ConstantKey.ofDatum? value with
  | some key => scope.addConstant key value
  | none => if isScalar value then { scope with constants := scope.constants.push value } else scope

/-- The slot of a variable: the variables come after the constants. -/
def variableSlot? (scope : Scope) (name : String) : Option Nat :=
  scope.variablePlaces[name]?.map (scope.constants.size + ·)

/-- The slot of a constant. -/
def constantSlot? (scope : Scope) (key : ConstantKey) : Option Nat := scope.constantPlaces[key]?

/-- Declares the variable that a node assigns, increments or decrements. -/
def declareNode (scope : Scope) : Node → Scope
  | .assignment _ (.symbol _ name) _ _ => scope.declare name
  | .prefixed _ .increment (.symbol _ name) _ | .prefixed _ .decrement (.symbol _ name) _ =>
    scope.declare name
  | .suffixed _ _ (.symbol _ name) _ => scope.declare name
  | _ => scope

end Scope

/-- The functions of a program, in the order of their definitions, and where each name is. -/
structure Functions where
  refs : Array FunctionRef := #[]
  places : Std.HashMap String Nat := {}

namespace Functions

/-- The function with a name. -/
def find? (functions : Functions) (name : String) : Option FunctionRef :=
  functions.places[name]?.bind fun place => functions.refs[place]?

/-- Adds a function under its name. -/
def insert (functions : Functions) (ref : FunctionRef) : Functions :=
  let place := functions.refs.size
  { refs := functions.refs.push ref
    places := functions.places.insert ref.name place }

/-- Records where the code of a function starts. -/
def setEntry (functions : Functions) (name : String) (entry : Nat) : Functions :=
  match functions.places[name]? with
  | some place =>
    { functions with refs := functions.refs.modify place fun ref => { ref with entry } }
  | none => functions

end Functions

/-- How names of native functions are resolved to their full names. -/
abbrev Resolver := String → Option String

/-- What a name that is no variable stands for: the key and the value of its constant. -/
def resolveNative (natives : Resolver) (name : String) : Option (ConstantKey × FunctionRef) :=
  (natives name).map fun full =>
    (.function full true, { name := full, native := true, arity := -1 })

/-- A function of the program, or else a native one. -/
def resolveFunction (functions : Functions) (natives : Resolver) (name : String) :
    Option (ConstantKey × FunctionRef) :=
  match functions.find? name with
  | some ref => some (.function name false, ref)
  | none => resolveNative natives name

/-- A scope under construction, and the first name in it that nothing defines. -/
structure ScopeDraft where
  scope : Scope
  fault : Option Fault := none

/-- Adds the constant that a name stands for, or notes that there is none. -/
def ScopeDraft.resolve (draft : ScopeDraft) (position : Position) (name : String)
    (found : Option (ConstantKey × FunctionRef)) : ScopeDraft :=
  match found with
  | some (key, ref) => { draft with scope := draft.scope.addConstant key (.function ref) }
  | none =>
    { draft with fault := draft.fault <|> some (.detailed .unresolvedSymbol position name) }

/-- Adds the constants of one node. -/
def ScopeDraft.visit (functions : Functions) (natives : Resolver) (draft : ScopeDraft) :
    Node → ScopeDraft
  | .literal _ value => { draft with scope := draft.scope.addScalar value }
  | .nothing _ => { draft with scope := draft.scope.addScalar .empty }
  | .dict _ entries =>
    { draft with scope := entries.foldl (fun scope e => scope.addScalar (.text e.1)) draft.scope }
  | .symbol position name =>
    if (draft.scope.variablePlaces.contains name) then draft
    else draft.resolve position name (resolveFunction functions natives name)
  | .path position parts =>
    draft.resolve position (pathName parts) (resolveNative natives (pathName parts))
  | _ => draft

/-- The greatest operand, which bounds slots, counts and offsets. -/
def maxOperand : Nat := 0xffff

/-- The scope of some statements with parameters; `position` and `name` are for its fault. -/
def Scope.build (functions : Functions) (natives : Resolver) (name : String)
    (params : List String) (position : Position) (body : List Node) : Except Fault Scope :=
  let declared := Node.foldAll false Scope.declareNode (params.foldl Scope.declare {}) body
  let draft := Node.foldAll false (ScopeDraft.visit functions natives) { scope := declared } body
  match draft.fault with
  | some fault => .error fault
  | none =>
    if maxOperand < draft.scope.constants.size + draft.scope.locals.size then
      .error (.detailed .syntaxError position ("too many slots in " ++ name))
    else .ok draft.scope

end Code

end Lehce
