import Lehce.Code.Location
import Lehce.Code.Scope
import Lehce.Code.Unit
import Lehce.Program.Statement

/-!
# Compilation

Compiles a program into a unit. Expressions leave one value on the stack.
`ve` and `veya` jump over their right operand and leave the deciding one. A
function's code stands where the function is defined, behind a jump that skips it.
A statement's value is dropped inside loops and functions, and stays on the stack
at the top level.

Compilation fails at the first construct, in source order, that has no meaning;
for programs that were read from a source only names, numbers of arguments and
sizes can be at fault.
-/

namespace Lehce.Code

/-- Why a program cannot be compiled. -/
inductive CompileError where
  | fault (fault : Fault)
  | missingExpression
  deriving Repr, DecidableEq

/-- What has been emitted: the code and its locations, and the entries of functions so far. -/
structure Emission where
  draft : Draft := {}
  functions : Functions := {}
  breaks : List Int := []
  continues : List Int := []

/-- Emitting code: it extends the emission, or fails and leaves what was emitted so far. -/
abbrev Emit := EStateM CompileError Emission

/-- What is emitted by an action that does not fail. -/
def emitted {α : Type} (action : Emit α) (before : Emission) : Except CompileError Emission :=
  match action before with
  | .ok _ after => .ok after
  | .error error _ => .error error

/-- What surrounds the code being emitted. -/
structure Surroundings where
  natives : Resolver
  scopes : Array Scope
  scope : Scope
  inFunction : Bool := false
  inLoop : Bool := false

/-- Fails with a fault at a position. -/
def failAt {α : Type} (kind : Fault.Kind) (position : Position) (detail : String) : Emit α :=
  throw (.fault (.detailed kind position detail))

/-- The offset at which the next instruction will stand. -/
def offset : Emit Nat := do return (← get).draft.code.size

/-- Appends bytes. -/
def emitBytes (bytes : List UInt8) : Emit PUnit :=
  modify fun s => { s with draft := { s.draft with code := s.draft.code ++ bytes } }

/-- Appends an opcode without operands. -/
def emitOpcode (op : Opcode) : Emit PUnit := emitBytes [op.byte]

/-- Appends an opcode and a word, which keeps the lower two bytes of a number. -/
def emitWord (op : Opcode) (word : Nat) : Emit PUnit :=
  emitBytes (op.byte :: wordBytes word.toUInt16)

/-- Appends a call. -/
def emitCall (slot count : Nat) (used : Bool) : Emit PUnit :=
  emitBytes (Opcode.call.byte :: wordBytes slot.toUInt16 ++
    [count.toUInt8, if used then 1 else 0])

/-- Appends an instruction. -/
def emit (instruction : Instruction) : Emit PUnit :=
  match instruction with
  | .call slot count used => emitCall slot.toNat count.toNat used
  | _ =>
    if instruction.opcode.operandSize = 2 then emitWord instruction.opcode instruction.word
    else emitOpcode instruction.opcode

/-- A location that no jump refers to yet. -/
def newLocation : Emit Nat :=
  modifyGet fun s =>
    let (number, draft) := s.draft.addLocation
    (number, { s with draft })

/-- Appends a jump to a location. -/
def emitJump (jump : UInt16 → Instruction) (location : Nat) : Emit PUnit := do
  emit (jump 0)
  modify fun s =>
    { s with draft := (s.draft.use location ((s.draft.code.size : Int) - 2)).draft }

/-- Sets a location to an offset. -/
def setLocation (location : Int) (target : Nat) : Emit PUnit :=
  modify fun s => { s with draft := (s.draft.set location target).draft }

/-- Sets a location to the current offset. -/
def mark (location : Nat) : Emit PUnit := do setLocation location (← offset)

/-- The slot of a constant, which the scope must have; `shown` is its text in the fault. -/
def constantSlot (place : Surroundings) (position : Position) (key : Option ConstantKey)
    (shown : String) : Emit Nat :=
  match key.bind place.scope.constantSlot? with
  | some slot => return slot
  | none => failAt .unresolvedSymbol position ("no slot for " ++ shown)

/-- How a constant's key is shown when it has no slot. -/
def shownDatum : Datum → String
  | .absent => "<nil>"
  | value => value.display

/-- How a function's key is shown when it has no slot. -/
def shownFunction (name : String) (native : Bool) : String :=
  "\x7b" ++ name ++ " " ++ (if native then "true" else "false") ++ "\x7d"

/-- Loads a constant. -/
def loadConstant (place : Surroundings) (position : Position) (value : Datum) : Emit PUnit := do
  let slot ← constantSlot place position (ConstantKey.ofDatum? value) (shownDatum value)
  emit (.load slot.toUInt16)

/-- The slot of the constant that a resolved name stands for. -/
def functionSlot (place : Surroundings) (position : Position) (name : String)
    (found : Option (ConstantKey × FunctionRef)) : Emit Nat :=
  match found with
  | some (key, ref) => constantSlot place position (some key) (shownFunction ref.name ref.native)
  | none => failAt .unresolvedSymbol position name

/-- The slot of a symbol: a variable, or the constant of a function. -/
def symbolSlot (place : Surroundings) (position : Position) (name : String) : Emit Nat := do
  match place.scope.variableSlot? name with
  | some slot => return slot
  | none =>
    functionSlot place position name (resolveFunction (← get).functions place.natives name)

/-- The slot of a dotted name. -/
def pathSlot (place : Surroundings) (position : Position) (parts : List String) : Emit Nat :=
  functionSlot place position (pathName parts) (resolveNative place.natives (pathName parts))

/-- The slot of a variable that is assigned. -/
def assignedSlot (place : Surroundings) (position : Position) (name : String) : Emit Nat :=
  match place.scope.variableSlot? name with
  | some slot => return slot
  | none => failAt .unresolvedSymbol position name

/-- The slot of the operand of `++` or `--`, which must be a variable. -/
def steppedSlot (place : Surroundings) : Node → Emit Nat
  | .symbol position name => assignedSlot place position name
  | node => failAt .invalidUnaryOperation node.position ""

/-- The operation of an arithmetic operator. -/
def arithmeticOp? : Op → Option BinaryOp
  | .add => some .add
  | .subtract => some .subtract
  | .multiply => some .multiply
  | .divide => some .divide
  | .modulo => some .modulo
  | _ => none

/-- The operation of a comparison. -/
def comparisonOp? : Op → Option BinaryOp
  | .equal => some .equal
  | .notEqual => some .notEqual
  | .less => some .less
  | .lessEqual => some .lessEqual
  | .greater => some .greater
  | .greaterEqual => some .greaterEqual
  | _ => none

/-- Appends the arithmetic of an assignment operator; one that has none leaves an invalid byte. -/
def emitArithmetic (op : Op) : Emit PUnit :=
  match arithmeticOp? op.arithmetic with
  | some operation => emit (.binary operation)
  | none => emitBytes [0]

/-- The operation of `++`; any other suffix operator counts down. -/
def stepOp (op : Op) : UnaryOp := if op = .increment then .increment else .decrement

/-- The slot of the function that a call names, after a check of the number of arguments. -/
def calleeSlot (place : Surroundings) (position : Position) (count : Nat) : Node → Emit Nat
  | .symbol calleePosition name => do
    if (place.scope.variableSlot? name).isNone then
      if let some ref := (← get).functions.find? name then
        if ref.arity ≠ count then
          failAt .argumentCountMismatch position
            (name ++ " takes " ++ toString ref.arity ++ " arguments, got " ++ toString count)
    symbolSlot place calleePosition name
  | .path calleePosition parts => pathSlot place calleePosition parts
  | callee => failAt .functionCallSyntaxNotValid callee.position ""

/-- Whether a statement leaves a value on the stack. -/
def leavesValue : Node → Bool
  | .assignment .. | .branch .. | .endlessLoop .. | .whileLoop .. | .breaks .. | .continues ..
  | .returns .. | .function .. | .block .. => false
  | .call _ _ _ used => used
  | .prefixed _ .increment _ used | .prefixed _ .decrement _ used => used
  | .suffixed _ _ _ used => used
  | _ => true

/-- Runs the compilation of a loop's body with breaks and continues of its own. -/
def withLoop (start : Nat) (endLocation : Nat) (body : Emit PUnit) : Emit PUnit := do
  let outer ← modifyGet fun outer =>
    ((outer.breaks, outer.continues), { outer with breaks := [], continues := [] })
  body
  emit (.jump start.toUInt16)
  mark endLocation
  let stop ← offset
  modify fun inner =>
    let broken := (inner.draft.setAll stop inner.breaks.reverse).draft
    let resumed := (broken.setAll start inner.continues.reverse).draft
    { inner with draft := resumed, breaks := outer.1, continues := outer.2 }

/-- Appends a jump whose location is added to the innermost loop's breaks or continues. -/
def emitLeave (place : Surroundings) (position : Position) (leave : Int → Emission → Emission) :
    Emit PUnit := do
  if !place.inLoop then failAt .breakAndContinueBelongToLoops position ""
  let location ← newLocation
  modify (leave location)
  emitJump .jump location

mutual

/-- Compiles an expression. -/
def emitExpression (place : Surroundings) (node : Node) : Emit PUnit := do
  match node with
  | .literal position value => loadConstant place position value
  | .nothing position => loadConstant place position .empty
  | .symbol position name => emit (.load (← symbolSlot place position name).toUInt16)
  | .path position parts => emit (.load (← pathSlot place position parts).toUInt16)
  | .binary position left op right =>
    match arithmeticOp? op with
    | none => failAt .syntaxError position ("bad operator " ++ op.text)
    | some operation =>
      emitExpression place left
      emitExpression place right
      emit (.binary operation)
  | .control position left op right =>
    match comparisonOp? op with
    | some operation =>
      emitExpression place left
      emitExpression place right
      emit (.binary operation)
    | none =>
      if op ≠ .and ∧ op ≠ .or then failAt .syntaxError position ("bad operator " ++ op.text)
      emitExpression place left
      let stop ← newLocation
      emit .dup
      if op = .or then emit (.unary .not)
      emitJump .compare stop
      emit .pop
      emitExpression place right
      mark stop
  | .call position callee args used =>
    let slot ← calleeSlot place position args.length callee
    if 0xff < args.length then failAt .functionCallSyntaxNotValid position "too many arguments"
    emitExpressions place args
    emit (.call slot.toUInt16 args.length.toUInt8 used)
  | .list position items =>
    emitExpressions place items
    if maxOperand < items.length then failAt .syntaxError position "list too long"
    emit (.initList items.length.toUInt16)
  | .dict position entries =>
    emitEntries place position entries
    if maxOperand < entries.length then failAt .syntaxError position "dict too long"
    emit (.initDict entries.length.toUInt16)
  | .prefixed position op operand used =>
    match op with
    | .increment | .decrement =>
      let slot ← steppedSlot place operand
      emit (.load slot.toUInt16)
      emit (.unary (stepOp op))
      emit (if used then .fastStore slot.toUInt16 else .store slot.toUInt16)
    | .not =>
      emitExpression place operand
      emit (.unary .not)
    | .negate =>
      emitExpression place operand
      emit (.unary .negate)
    | .plus => emitExpression place operand
    | _ => failAt .invalidUnaryOperation position ""
  | .suffixed _ op operand used =>
    let slot ← steppedSlot place operand
    emit (.load slot.toUInt16)
    if used then emit .dup
    emit (.unary (stepOp op))
    emit (.store slot.toUInt16)
  | .index _ body key =>
    emitExpression place body
    emitExpression place key
    emit .getItem
  | other => failAt .syntaxError other.position ("unexpected " ++ other.text)

/-- Compiles some expressions in order. -/
def emitExpressions (place : Surroundings) : List Node → Emit PUnit
  | [] => return
  | node :: rest => do
    emitExpression place node
    emitExpressions place rest

/-- Compiles the entries of a dictionary literal: each key, then its value. -/
def emitEntries (place : Surroundings) (position : Position) : List (String × Node) → Emit PUnit
  | [] => return
  | (key, value) :: rest => do
    loadConstant place position (.text key)
    emitExpression place value
    emitEntries place position rest

end

mutual

/-- Compiles a statement. -/
def emitStatement (place : Surroundings) (node : Node) : Emit PUnit := do
  match node with
  | .assignment _ target op value =>
    match target with
    | .symbol position name =>
      let slot ← assignedSlot place position name
      if op ≠ .assign then emit (.load slot.toUInt16)
      emitExpression place value
      if op ≠ .assign then emitArithmetic op
      emit (.store slot.toUInt16)
    | .index _ body key =>
      emitExpression place body
      emitExpression place key
      if op ≠ .assign then
        emit .dup2
        emit .getItem
      emitExpression place value
      if op ≠ .assign then emitArithmetic op
      emit .setItem
    | other => failAt .invalidAssignmentTarget other.position ""
  | .branch _ condition _ body otherwise =>
    emitExpression place condition
    let elseLocation ← newLocation
    emitJump .compare elseLocation
    emitStatements place body
    match otherwise with
    | none => mark elseLocation
    | some other =>
      let stop ← newLocation
      emitJump .jump stop
      mark elseLocation
      emitStatement place other
      mark stop
  | .whileLoop _ condition _ body =>
    let start ← offset
    let stop ← newLocation
    withLoop start stop do
      emitExpression place condition
      emitJump .compare stop
      emitStatements { place with inLoop := true } body
  | .endlessLoop _ _ body =>
    let start ← offset
    let stop ← newLocation
    withLoop start stop (emitStatements { place with inLoop := true } body)
  | .breaks position =>
    emitLeave place position fun location s => { s with breaks := location :: s.breaks }
  | .continues position =>
    emitLeave place position fun location s => { s with continues := location :: s.continues }
  | .returns position value =>
    if !place.inFunction then failAt .returnMustBeUsedInFunction position ""
    match value with
    | none => throw .missingExpression
    | some value => emitExpression place value
    emit .return_
  | .function position name _ _ body =>
    match (← get).functions.find? name with
    | none => failAt .functionNameNotDefined position name
    | some ref =>
      let skip ← newLocation
      emitJump .jump skip
      let entry ← offset
      modify fun s => { s with functions := s.functions.setEntry name entry }
      let inner : Surroundings :=
        { place with
          scope := place.scopes[ref.storage.toNat]?.getD {}
          inFunction := true
          inLoop := false }
      emitStatements inner body
      if body.isEmpty then
        loadConstant inner position .empty
        emit .return_
      mark skip
  | .block _ items => emitStatements place items
  | node =>
    emitExpression place node
    if leavesValue node && (place.inFunction || place.inLoop) then emit .pop

/-- Compiles some statements in order. -/
def emitStatements (place : Surroundings) : List Node → Emit PUnit
  | [] => return
  | node :: rest => do
    emitStatement place node
    emitStatements place rest

end

/-- A function definition of a program. -/
structure Definition where
  position : Position
  name : String
  params : List String
  bodyPosition : Position
  body : List Node

/-- All function definitions of a program in source order, those inside functions included. -/
def definitions (program : Program) : List Definition :=
  (Node.foldAll true (fun found node =>
    match node with
    | .function position name params bodyPosition body =>
      ⟨position, name, params, bodyPosition, body⟩ :: found
    | _ => found) [] program.items).reverse

/-- The functions of a program; two of one name are a fault of the second. -/
def collectFunctions (found : List Definition) : Except Fault Functions :=
  found.foldlM (fun functions definition =>
    if functions.places.contains definition.name then
      .error (.detailed .duplicateDefinition definition.position ("function " ++ definition.name))
    else
      .ok (functions.insert
        { name := definition.name
          storage := functions.refs.size + 1
          arity := definition.params.length })) {}

/-- The scopes of a program: the top level, then each function in order. -/
def collectScopes (functions : Functions) (natives : Resolver) (program : Program)
    (found : List Definition) : Except Fault (Array Scope) := do
  let top ← Scope.build functions natives "" [] program.position program.items
  found.foldlM (fun scopes definition => do
    let scope ← Scope.build functions natives definition.name definition.params
      definition.bodyPosition definition.body
    return scopes.push scope) #[top]

/-- A constant as it is known after compilation: functions of the program have their entries. -/
def linkConstant (functions : Functions) : Datum → Datum
  | .function ref =>
    if ref.native then .function ref else .function ((functions.find? ref.name).getD ref)
  | value => value

/-- The storage of a scope. -/
def storageOf (functions : Functions) (index : Nat) (name : String) (arity : Nat) (scope : Scope) :
    Storage where
  index := index
  name := name
  arity := arity
  constants := scope.constants.map (linkConstant functions)
  locals := scope.locals

/-- Compiles a program, with the native functions that a resolver knows. -/
def compile (natives : Resolver) (program : Program) : Except CompileError Unit := do
  let found := definitions program
  let functions ← (collectFunctions found).mapError .fault
  let scopes ← (collectScopes functions natives program found).mapError .fault
  let place : Surroundings := { natives, scopes, scope := scopes[0]?.getD {} }
  let emission ← emitted (emitStatements place program.items) { functions }
  let draft := emission.draft
  if maxOperand < draft.code.size then
    throw (.fault (.detailed .syntaxError program.position "program too large"))
  let pending := draft.unresolved
  if !pending.isEmpty then
    throw (.fault (.detailed .invalidJumpTarget program.position
      (toString pending.length ++ " unresolved locations")))
  let functions := emission.functions
  let names : List (String × Nat) := ("", 0) :: found.map fun d => (d.name, d.params.length)
  return {
    opcodes := draft.code
    storages := ((names.zip scopes.toList).zipIdx.map fun (((name, arity), scope), index) =>
      storageOf functions index name arity scope).toArray
    functions := functions.refs.toList
    locations := draft.locations }

/-- Compiles a source text. -/
def compileSource (natives : Resolver) (source : String) : Except CompileError Unit := do
  let program ← (Program.ofSource source).mapError .fault
  compile natives program

end Lehce.Code
