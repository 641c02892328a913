import Lehce.Code.Emission

/-!
# Compilation into a context

A context holds what a compilation makes: code with its locations, scopes and functions. It
may be used for one program after another. A compilation first clears what an earlier one has
left, and then adds to the context step by step, so that one that fails leaves in it what it
has made so far.
-/

namespace Lehce.Code

/-- A scope with the name and the number of parameters of its function. -/
structure NamedScope where
  name : String
  arity : Nat
  scope : Scope

/-- What programs are compiled into, with the native functions that they may use. -/
structure Context where
  natives : Resolver
  draft : Draft := {}
  scopes : Array NamedScope := #[]
  functions : Functions := {}

/-- Compiling into a context: it makes something of the context, also when it fails. -/
abbrev Compilation := EStateM CompileError Context

namespace Context

/-- A context without what an earlier compilation has left in it. -/
def cleared (context : Context) : Context where
  natives := context.natives
  draft := { code := context.draft.code.take 0 }
  scopes := context.scopes.take 0

/-- Adds a function of the program, unless there is one of its name. -/
def addFunction (definition : Definition) : Compilation PUnit := do
  let context ← get
  if context.functions.places.contains definition.name then
    throw (.fault (.detailed .duplicateDefinition definition.position
      ("function " ++ definition.name)))
  set { context with
    functions := context.functions.insert
      { name := definition.name
        storage := context.functions.refs.size + 1
        arity := definition.params.length } }

/-- Adds the scope of some statements with parameters. -/
def addScope (name : String) (params : List String) (position : Position) (body : List Node) :
    Compilation PUnit := do
  let context ← get
  match Scope.build context.functions context.natives name params position body with
  | .ok scope => set { context with scopes := context.scopes.push ⟨name, params.length, scope⟩ }
  | .error fault => throw (.fault fault)

/-- A context with what was emitted into it. -/
def withEmission (context : Context) (emission : Emission) : Context :=
  { context with draft := emission.draft, functions := emission.functions }

/-- Emits the code of a program behind what is there, and the entries of its functions. -/
def emitProgram (program : Program) : Compilation PUnit := fun context =>
  let scopes := context.scopes.map (·.scope)
  let place : Surroundings := { natives := context.natives, scopes, scope := scopes[0]?.getD {} }
  let before : Emission := { draft := context.draft, functions := context.functions }
  match emitStatements place program.items before with
  | .ok _ emission => .ok ⟨⟩ (context.withEmission emission)
  | .error error emission => .error error (context.withEmission emission)

/-- Fails when the code is too large, or a jump in it leads nowhere. -/
def checkCode (program : Program) : Compilation PUnit := do
  let draft := (← get).draft
  if maxOperand < draft.code.size then
    throw (.fault (.detailed .syntaxError program.position "program too large"))
  let pending := draft.unresolved
  if !pending.isEmpty then
    throw (.fault (.detailed .invalidJumpTarget program.position
      (toString pending.length ++ " unresolved locations")))

/-- Compiles a program into a context that holds nothing. -/
def filling (program : Program) : Compilation PUnit := do
  let found := definitions program
  found.forM addFunction
  addScope "" [] program.position program.items
  found.forM fun d => addScope d.name d.params d.bodyPosition d.body
  emitProgram program
  checkCode program

/-- Compiles a program into a context, whatever an earlier compilation has left in it. -/
def compilation (program : Program) : Compilation PUnit := do
  modify cleared
  filling program

/-- What compiling a program comes to: its error, if any, and what it makes of a context. -/
def compile (context : Context) (program : Program) : Option CompileError × Context :=
  match compilation program context with
  | .ok _ after => (none, after)
  | .error error after => (some error, after)

/-- Compiles a source text into a context; one that is no program leaves the context alone. -/
def compileSource (context : Context) (source : String) : Option CompileError × Context :=
  match Program.ofSource source with
  | .ok program => context.compile program
  | .error fault => (some (.fault fault), context)

/-- What is in a context as a unit. -/
def unit (context : Context) : Unit where
  opcodes := context.draft.code
  storages := context.scopes.mapIdx fun index named =>
    storageOf context.functions index named.name named.arity named.scope
  functions := context.functions.refs.toList
  locations := context.draft.locations

end Context

end Lehce.Code
