import Lehce.Proofs.Image.Zeros
import Lehce.Proofs.Machine.Safety
import Lehce.Proofs.Meaning.Invocation

/-!
# Runs reproduce evaluations

Whatever a program is, the run of its code and the evaluation of its tree come to the same:
the same output and heap, the same faults, the same results on the stack and the same values
of the variables of the top level. A run is stopped where the evaluation is, and crashes where
the evaluation does. Where no fuel is enough for the evaluation, no number of steps is enough
for the run.
-/

namespace Lehce.Meaning

open Code (Scope ScopeText)

section Variables

variable {storage : Code.Storage}

theorem foldl_slots (names : List (String × Nat)) (size : Nat) (later : List (String × Nat))
    (distinct : ((names.map (·.1)).reverse ++ later.map (·.1)).Nodup) :
    names.foldl (fun slots entry =>
      if slots.any (·.1 == entry.1) then slots else (entry.1, size + entry.2) :: slots) later =
      (names.reverse.map fun entry => (entry.1, size + entry.2)) ++ later := by
  induction names generalizing later with
  | nil => rfl
  | cons entry rest ih =>
      rcases entry with ⟨name, place⟩
      have reordered : ((rest.map (·.1)).reverse ++
          ((name, size + place) :: later).map (·.1)).Nodup := by
        simpa [List.append_assoc] using distinct
      have fresh : name ∉ later.map (·.1) :=
        (List.nodup_cons.1 (List.nodup_append.1 reordered).2.1).1
      have absent : later.any (·.1 == name) = false := by
        rw [List.any_eq_false]
        intro entry member same
        exact fresh (List.mem_map.2 ⟨entry, member, by simpa using same⟩)
      simp only [List.foldl_cons, absent, Bool.false_eq_true, if_false, ih _ reordered]
      simp

/-- Variables with different names are listed in order. -/
theorem slots_eq (distinct : storage.locals.toList.Nodup) :
    storage.slots = storage.locals.toList.zipIdx.map fun entry =>
      (entry.1, storage.constants.size + entry.2) := by
  have unfolded : storage.slots = storage.locals.toList.zipIdx.reverse.foldl (fun slots entry =>
    if slots.any (·.1 == entry.1) then slots
    else (entry.1, storage.constants.size + entry.2) :: slots) [] := rfl
  rw [unfolded, foldl_slots _ _ _ (by simpa using distinct)]
  simp

/-- The variables of a storage have the values of a store that its memory remembers. -/
theorem values_of_remembers {e : Execution} {text : ScopeText} {scope : Scope}
    {store : String → Value} {memory : Array Value} (serves : e.Serves text scope)
    (remembers : e.Remembers scope store memory) {index arity : Nat} {name : String} :
    (Code.storageOf e.linked index name arity scope).values memory =
      scope.locals.toList.map fun name => (name, store name) := by
  have holds := serves.serves.holdsVariables
  have size : (Code.storageOf e.linked index name arity scope).constants.size =
    scope.constants.size := by simp [Code.storageOf]
  have held : ∀ entry ∈ scope.locals.toList.zipIdx,
      (memory[scope.constants.size + entry.2]?.map fun value => (entry.1, value)) =
        some (entry.1, store entry.1) := by
    rintro ⟨declared, place⟩ member
    have listed := List.mem_zipIdx_iff_getElem?.1 member
    have slot : scope.variableSlot? declared = some (scope.constants.size + place) :=
      (holds.slot_iff declared _).2 ⟨place, rfl, listed⟩
    rw [remembers.locals declared _ slot, Option.map_some]
  rw [Code.Storage.values, slots_eq holds.indexes.nodup, List.filterMap_map, size]
  have same : scope.locals.toList.map (fun name => (name, store name)) =
      scope.locals.toList.zipIdx.map fun entry => (entry.1, store entry.1) := by
    conv_lhs => rw [← List.zipIdx_map_fst 0 scope.locals.toList]
    exact List.map_map
  rw [same, ← List.filterMap_eq_map]
  exact List.filterMap_congr held

end Variables

/-- What a run and an evaluation agree on: what is shared, the faults, the results, which are the
lowest operands, and the variables of the top level. -/
structure Agrees (unit : Code.Unit) (state : State) (run : Run) : Prop where
  host : run.machine.host = state.host
  faults : run.faults = state.faults
  results : state.results <+: run.machine.stack.toList
  memory : ∀ top, unit.storages[0]? = some top →
    top.values run.machine.outermost.memory =
      top.locals.toList.map fun name => (name, state.store name)

/-- How a run with a number of steps ends reproduces an evaluation with some fuel. -/
def Reproduces (unit : Code.Unit) (run : Nat → Ending × Run) (fuel : Nat) :
    EStateM.Result Halt State Flow → Prop
  | .ok _ state => ∃ (enough : Nat) (ended : Run),
    (∀ steps, enough < steps → run steps = (.finished, ended)) ∧
      ended.machine.stack.toList = state.results ∧ Agrees unit state ended
  | .error .exhausted _ => ∀ steps < fuel, (run steps).1 = .outOfSteps
  | .error halt state => ∃ (enough : Nat) (ended : Run),
    (∀ steps, enough < steps → run steps = (halt.ending, ended)) ∧ Agrees unit state ended

namespace Execution

variable {e : Execution} {state : State} {run : Run}

/-- The activation of the top level. -/
def topActivation (e : Execution) : Activation where
  text := Code.topText e.program
  scope := e.top

theorem serves_top : e.Serves (Code.topText e.program) e.top :=
  ⟨List.mem_cons_self, e.compiled.topServes⟩

/-- The run of a fresh unit starts at the top level. -/
theorem at_start {limits : Limits} {memory : Array Value} (host : Host)
    (depth : limits.callDepth = e.callDepth) (fresh : e.unit.freshMemory? = some memory) :
    e.At e.topActivation 0 [] { host } { machine := Machine.start limits memory host } where
  offset := rfl
  operands := Stack.values_ofSize limits.stackSize
  base := rfl
  memory := by
    rw [Code.Unit.freshMemory?, e.compiled.storage_top, Option.map_some] at fresh
    rw [← Option.some.inj fresh]
    exact remembers_fresh serves_top
  returnTo := rfl
  used := rfl
  callers := rfl
  callDepth := depth
  host := rfl
  faults := rfl

theorem holds_start {limits : Limits} {memory : Array Value} {host : Host}
    (fresh : e.unit.freshMemory? = some memory)
    (sound : host.heap.Sound (· ∈ e.unit.functions)) :
    e.Holds { machine := Machine.start limits memory host } := by
  have unitSound := e.compiled.sound e.shaped
  rw [Code.Unit.freshMemory?] at fresh
  rcases Option.map_eq_some_iff.1 fresh with ⟨storage, found, rfl⟩
  exact Machine.within_start limits
    (Machine.within_freshMemory unitSound (Array.mem_of_getElem? found)) sound

/-- What a run that ended in the top level, or in calls from there, agrees on. -/
theorem Ended.agrees (ended : e.Ended e.topActivation state run) : Agrees e.unit state run where
  host := ended.host
  faults := ended.faults
  results := by
    rcases ended.operands with ⟨front, values⟩
    refine ⟨front.reverse, ?_⟩
    rw [Machine.stack, Stack.toList_live, ← values]
    simp [topActivation]
  memory := by
    intro top found
    rw [e.compiled.storage_top] at found
    rcases ended.frames with ⟨frame, deeper, frames, remembers⟩
    have outermost : run.machine.outermost = frame := by
      have first := congrArg List.head? frames
      rw [List.head?_append] at first
      rw [Machine.outermost, ← Array.getElem?_toList, ← List.head?_eq_getElem?]
      cases callers : run.machine.callers.toList.head? with
      | none =>
          rw [callers] at first
          exact Option.some.inj first
      | some caller =>
          rw [callers] at first
          exact Option.some.inj first
    rw [← Option.some.inj found, outermost]
    exact values_of_remembers serves_top remembers

/-- The code of the program does what the evaluator does with the program, and then the run is
behind the last instruction. -/
theorem follows_program (fuel : Nat) {host : Host}
    (at_ : e.At e.topActivation 0 [] { host } run) :
    e.Follows fuel (fun _ => e.At e.topActivation e.unit.opcodes.size [])
      (e.Ended e.topActivation) run (evaluate e.setting fuel host) := by
  have surrounds : e.Surrounds e.topActivation e.topPlace := ⟨serves_top, rfl, rfl⟩
  have invokes : e.InvokeFollows fuel e.topActivation.depth (Meaning.invoke e.setting fuel 1) :=
    invokeFollows_invoke fuel 1
  have follows := follows_statements e.shaped (fun item member => meets_body member)
    (fun item member => follows_statement surrounds invokes (e.shaped item member))
    (stands_program fun _ => 0) at_
  have size : 0 + Node.statementsSize e.topPlace.drops e.program.items = e.unit.opcodes.size := by
    rw [e.compiled.size, Nat.zero_add]
    rfl
  rw [size] at follows
  refine .onward follows ?_
  intro flow state run lands
  cases flow with
  | normal => exact .pure lands
  | breaks | continues | returns => cases lands.1

/-- The runs of a unit reproduce the evaluations of its program. -/
theorem reproduces {limits : Limits} {memory : Array Value} {host : Host} (fuel : Nat)
    (depth : limits.callDepth = e.callDepth) (fresh : e.unit.freshMemory? = some memory)
    (sound : host.heap.Sound (· ∈ e.unit.functions)) :
    Reproduces e.unit
      (fun steps => e.unit.run { registry := e.registry, limits, policy := e.policy, steps } memory
        host)
      fuel (evaluate e.setting fuel host) := by
  have come := follows_program fuel (at_start host depth fresh) (holds_start fresh sound)
  generalize evaluate e.setting fuel host = result at come
  cases come with
  | @goesOn flow state count later reaches at_ =>
      have ends : e.next later = .inr (.finished, later) := by
        rw [Execution.next, Run.next, if_neg (by rw [at_.offset]; exact Nat.lt_irrefl _)]
      refine ⟨count, later, fun steps enough => reaches.advance_of_ends ends enough, ?_,
        at_.ended.agrees⟩
      rw [Machine.stack, Stack.toList_live, at_.operands]
      simp [topActivation]
  | @ends halt state count later ended reaches ends left =>
      have stops : ∀ steps, count < steps → Run.advance e.unit e.registry e.policy steps
        { machine := Machine.start limits memory host } = (halt.ending, ended) :=
        fun steps enough => reaches.advance_of_ends ends enough
      cases halt with
      | stopped | crashed => exact ⟨count, ended, stops, left.agrees⟩
      | exhausted =>
          have advances := Run.advances_next e.unit e.registry e.policy later
          rw [← Execution.next, ends] at advances
          cases advances
  | @lasts state count later reaches enough =>
      intro steps fewer
      rcases reaches.advance_of_lt (fewer.trans_le enough) with ⟨between, advances, _⟩
      exact congrArg Prod.fst advances

/-- Without definitions there are no functions. -/
theorem functions_eq_nil (empty : Code.definitions e.program = []) : e.unit.functions = [] :=
  e.compiled.functions_eq_nil e.shaped empty

/-- Whatever a run reproduces, its variables are those of the evaluation. -/
theorem store_eq {limits : Limits} {memory : Array Value} {host : Host} {fuel more : Nat}
    {flow otherFlow : Flow} {other : State} {name : String}
    (depth : limits.callDepth = e.callDepth) (fresh : e.unit.freshMemory? = some memory)
    (sound : host.heap.Sound (· ∈ e.unit.functions))
    (evaluates : evaluate e.setting fuel host = .ok flow state)
    (again : Reproduces e.unit
      (fun steps => e.unit.run { registry := e.registry, limits, policy := e.policy, steps } memory
        host) more (.ok otherFlow other))
    (bound : (Code.topText e.program).binds name = true) :
    state.store name = other.store name := by
  have first := reproduces fuel depth fresh sound
  rw [evaluates] at first
  rcases first with ⟨enough, ended, ends, _, agrees⟩
  rcases again with ⟨otherEnough, otherEnded, otherEnds, _, otherAgrees⟩
  have same := (ends (enough + otherEnough + 1) (by omega)).symm.trans
    (otherEnds (enough + otherEnough + 1) (by omega))
  have values := otherAgrees.memory _ e.compiled.storage_top
  rw [← (Prod.mk.inj same).2, agrees.memory _ e.compiled.storage_top, List.map_inj_left] at values
  have declared : name ∈ e.top.locals.toList :=
    (e.compiled.topServes.holdsVariables.mem_iff name).2 (List.contains_iff_mem.1 bound)
  exact (Prod.mk.inj (values name (by simpa [Code.storageOf] using declared))).2

end Execution

section Programs

open Code (ScopeText bothZeros nestedFunctions scopeTexts)

variable {source : String} {program : Program} {natives : Code.Resolver} {unit : Code.Unit}
  {memory : Array Value}

/-- A compiled program in an honest setting can be followed. -/
theorem exists_execution (read : Program.ofSource source = .ok program)
    (compiles : Code.compile natives program = .ok unit)
    (number : ScopeText → Float → Float)
    (pooled : ∀ text ∈ scopeTexts program, ∀ value ∈ Node.numbers text.nodes,
      number text value = text.pooled value)
    {registry : Option Registry} (honest : Registry.AllHonest registry) (policy : Policy)
    (callDepth : Nat) : ∃ e : Execution, e.unit = unit ∧ e.registry = registry ∧
      e.policy = policy ∧ e.callDepth = callDepth ∧
      e.setting =
        { program, number, natives, registry, policy, callDepth, functions := unit.functions } := by
  have shaped := Program.isShaped_ofSource read
  have spec := Code.compile_spec natives shaped
  rw [compiles] at spec
  rcases spec with ⟨functions, top, rest, compiled⟩
  let e : Execution :=
    { natives, number, program, functions, top, rest, unit, registry, policy, callDepth, shaped,
      compiled, pooled, honest }
  exact ⟨e, rfl, rfl, rfl, rfl, rfl⟩

/--
A compiled program computes what it means. The run of its code, whatever the registry, the
limits and the policy are, reproduces the evaluation of its tree with any fuel. Numbers mean
themselves, except that all zeros of a scope mean the one that stands first in it.
-/
theorem compiled_reproduces (read : Program.ofSource source = .ok program)
    (compiles : Code.compile natives program = .ok unit)
    (fresh : unit.freshMemory? = some memory) (number : ScopeText → Float → Float)
    (pooled : ∀ text ∈ scopeTexts program, ∀ value ∈ Node.numbers text.nodes,
      number text value = text.pooled value)
    {registry : Option Registry} (honest : Registry.AllHonest registry) (policy : Policy)
    (limits : Limits) (input : List Char) (fuel : Nat) :
    Reproduces unit (fun steps => unit.run { registry, limits, policy, steps } memory { input })
      fuel (evaluate
        { program, number, natives, registry, policy, callDepth := limits.callDepth,
          functions := unit.functions } fuel { input }) := by
  rcases exists_execution read compiles number pooled honest policy limits.callDepth with
    ⟨e, rfl, rfl, rfl, depth, setting⟩
  rw [← setting]
  exact e.reproduces fuel depth.symm fresh fun cell member => by simp at member

/-- The setting of a program that is run with the standard natives and stopped at a fault. -/
def standardSetting (program : Program) (number : ScopeText → Float → Float)
    (functions : List FunctionRef) : Setting where
  program := program
  number := number
  natives := Natives.standard.resolve
  registry := some Natives.standard
  policy := .first
  callDepth := 1024
  functions := functions

/-- A source with nested functions and a loop, in which all numbers mean themselves. -/
theorem reproduces_nestedFunctions :
    ∃ program unit memory, Program.ofSource nestedFunctions = .ok program ∧
      Code.compile Natives.standard.resolve program = .ok unit ∧
      unit.freshMemory? = some memory ∧ Registry.AllHonest (some Natives.standard) ∧
      (∀ text ∈ scopeTexts program, ∀ value ∈ Node.numbers text.nodes, value = text.pooled value) ∧
      Reproduces unit
        (fun steps => unit.run { registry := some Natives.standard, steps } memory {}) 100
        (evaluate (standardSetting program (fun _ value => value) unit.functions) 100 {}) := by
  rcases Program.exists_ofSource nestedFunctions (fun program =>
      Code.WellScoped Natives.standard.resolve program ∧
        ∀ text ∈ scopeTexts program, ∀ value ∈ Node.numbers text.nodes,
          value.toBits = (text.pooled value).toBits)
    (by decide +kernel) with ⟨program, read, wellScoped, bits⟩
  have itself : ∀ text ∈ scopeTexts program, ∀ value ∈ Node.numbers text.nodes,
      value = text.pooled value :=
    fun text member value written => Float.toBits_inj.1 (bits text member value written)
  rcases Code.exists_unit (Program.isShaped_ofSource read) wellScoped with ⟨unit, compiles⟩
  rcases Code.exists_freshMemory read compiles with ⟨memory, fresh⟩
  have honest := Natives.allHonest_standard
  exact ⟨program, unit, memory, read, compiles, fresh, honest, itself,
    compiled_reproduces read compiles fresh (fun _ value => value) itself honest .first {} [] 100⟩

/-- The bits of a value that is a number. -/
def numberBits? : Value → Option UInt64
  | .number value => some value.toBits
  | _ => none

/-- The bits of the number that a variable is when an evaluation has an outcome. -/
def storedBits? (name : String) : EStateM.Result Halt State Flow → Option UInt64
  | .ok _ state => numberBits? (state.store name)
  | .error .. => none

theorem exists_of_storedBits? {name : String} {result : EStateM.Result Halt State Flow}
    {bits : UInt64} (found : storedBits? name result = some bits) :
    ∃ flow state, result = .ok flow state ∧ numberBits? (state.store name) = some bits := by
  cases result with
  | ok flow state => exact ⟨flow, state, rfl, found⟩
  | error => cases found

/-- If all numbers meant themselves, the run of a source in which a negative zero stands behind a
zero would not compute what the source means. -/
theorem not_reproduces_bothZeros :
    ∃ program unit memory, Program.ofSource bothZeros = .ok program ∧
      Code.compile Natives.standard.resolve program = .ok unit ∧
      unit.freshMemory? = some memory ∧ Registry.AllHonest (some Natives.standard) ∧
      ¬Reproduces unit
        (fun steps => unit.run { registry := some Natives.standard, steps } memory {}) 1
        (evaluate (standardSetting program (fun _ value => value) unit.functions) 1 {}) := by
  rcases Program.exists_ofSource bothZeros (fun program =>
      Code.WellScoped Natives.standard.resolve program ∧
        (Code.definitions program).length = 0 ∧ (Code.topText program).binds "y" = true ∧
        storedBits? "y" (evaluate (standardSetting program (fun _ value => value) []) 1 {}) =
          some (-0 : Float).toBits ∧
        storedBits? "y" (evaluate (standardSetting program ScopeText.pooled []) 1 {}) =
          some (0 : Float).toBits)
    (by decide +kernel) with ⟨program, read, wellScoped, none, bound, itself, pooled⟩
  rcases Code.exists_unit (Program.isShaped_ofSource read) wellScoped with ⟨unit, compiles⟩
  rcases Code.exists_freshMemory read compiles with ⟨memory, fresh⟩
  have honest := Natives.allHonest_standard
  refine ⟨program, unit, memory, read, compiles, fresh, honest, fun reproduces => ?_⟩
  rcases exists_execution read compiles ScopeText.pooled (fun _ _ _ _ => rfl) honest .first
    1024 with ⟨e, rfl, registry, policy, depth, setting⟩
  have programEq : e.program = program := congrArg Setting.program setting
  have settingEq : e.setting = standardSetting program ScopeText.pooled e.unit.functions :=
    setting
  have functionless : e.unit.functions = [] :=
    e.functions_eq_nil (by rw [programEq]; exact List.length_eq_zero_iff.1 none)
  rw [functionless] at reproduces settingEq
  rcases exists_of_storedBits? itself with ⟨flow, state, evaluates, written⟩
  rcases exists_of_storedBits? pooled with ⟨otherFlow, other, otherEvaluates, stored⟩
  rw [← settingEq] at otherEvaluates
  rw [evaluates, ← registry, ← policy] at reproduces
  have limits : ({} : Limits).callDepth = e.callDepth := depth.symm
  have same := e.store_eq limits fresh (fun cell member => by simp at member) otherEvaluates
    reproduces (by rw [programEq]; exact bound)
  rw [same, written] at stored
  exact absurd stored (by decide +kernel)

end Programs

end Lehce.Meaning
