import Lehce.Proofs.Meaning.Calls

/-!
# Activations of functions

What a reference to a function of the program stands for: a definition, the scope of its
storage, and the code of its body. A call with as many arguments as the function has
parameters enters an activation of that scope, whose variables are empty but for the
parameters. A return goes back behind the call, and nothing of the activation is left but
its value and what is shared.
-/

namespace Lehce.Meaning

open Code (Body Instruction Scope ScopeText Stands programBodies)

namespace Execution

/-- What surrounds the top level of the program. -/
def topPlace (e : Execution) : Code.Surroundings := Code.topPlace e.natives e.top e.rest

/-- A reference stands for the function with a body, whose scope is known. -/
structure Denotes (e : Execution) (ref : FunctionRef) (body : Body) (scope : Scope) : Prop where
  listed : body ∈ programBodies e.program
  defined : (Code.definitions e.program).find? (·.name == ref.name) = some body.definition
  scopeEq : (Code.innerPlace e.functions e.topPlace body.definition.name).scope = scope
  serves : e.Serves body.definition.text scope
  shaped : body.definition.IsShaped Number.IsNumber
  own : ref.native = false
  arity : ref.arity = body.definition.params.length
  positive : 0 < ref.storage
  storage : ∃ index name arity, e.unit.storages[ref.storage.toNat]? =
    some (Code.storageOf e.linked index name arity scope)
  entry : ref.entry = body.entry
  inside : body.entry < e.unit.opcodes.size

variable {e : Execution} {a : Activation} {offset least : Nat} {operands args : List Value}
  {state : State} {run : Run} {slot : UInt16} {count : UInt8} {used : Bool}
  {rest : List Instruction} {ref : FunctionRef} {body : Body} {scope : Scope}

/-- The definitions of the program have different names. -/
theorem find?_definitions {number : Nat} {definition : Code.Definition}
    (listed : (Code.definitions e.program)[number]? = some definition) :
    (Code.definitions e.program).find? (·.name == definition.name) = some definition := by
  have distinct := e.compiled.lists.indexes.nodup
  have member := List.mem_of_getElem? listed
  obtain ⟨other, found⟩ : ∃ other,
      (Code.definitions e.program).find? (·.name == definition.name) = some other := by
    rw [← Option.isSome_iff_exists, List.find?_isSome]
    exact ⟨definition, member, by simp⟩
  have same : other.name = definition.name := by simpa using List.find?_some found
  rw [found, List.inj_on_of_nodup_map distinct (List.mem_of_find?_eq_some found) member same]

/-- Every reference of the program stands for a function. -/
theorem exists_denotes (member : ref ∈ e.unit.functions) :
    ∃ body scope, e.Denotes ref body scope := by
  rcases e.compiled.metered e.shaped with ⟨listing, metered⟩
  rcases metered.entries ref member with ⟨mark, marked, entry, _⟩
  have inside := metered.inside marked
  have room := mark.instruction.size_pos
  rcases (e.compiled.mem_functions_iff e.shaped).1 member with ⟨number, body, found, rfl⟩
  have listed := Code.definition_of_body e.shaped found
  have defined := List.mem_of_getElem? listed
  rcases Code.innerPlace_serves e.top e.compiled.lists e.compiled.serves listed with
    ⟨scope, scopeFound, scopeEq, serves⟩
  have index : (body.ref number).storage.toNat = number + 1 := by
    simp only [Body.ref, Code.definitionRef]
    omega
  exact ⟨body, scope, {
    listed := List.mem_of_getElem? found
    defined := find?_definitions listed
    scopeEq
    serves := ⟨Code.mem_scopeTexts defined, serves⟩
    shaped := Code.shaped_definitions e.shaped _ defined
    own := rfl
    arity := rfl
    positive := by simp only [Body.ref, Code.definitionRef]; omega
    storage := ⟨_, _, _, by rw [index]; exact e.compiled.storage_inner listed scopeFound⟩
    entry := rfl
    inside := by
      have same : (body.ref number).entry = body.entry := rfl
      omega }⟩

/-- The memory with which a function is entered remembers the arguments. -/
theorem remembers_boundMemory (denotes : e.Denotes ref body scope) (values : Array Value)
    (count : values.size = body.definition.params.length) (index number : Nat) (name : String) :
    e.Remembers scope (boundStore body.definition.params values.toList)
      (Machine.boundMemory (Code.storageOf e.linked index name number scope) values) := by
  have size : (Code.storageOf e.linked index name number scope).constants.size =
    scope.constants.size := by simp [Code.storageOf]
  simp only [Machine.boundMemory, size]
  exact remembers_call denotes.serves denotes.shaped.distinct count rfl

end Execution

/-- The activation of a function that is called in another one. -/
def Activation.calling (a : Activation) (frame : Frame) (returnTo : Nat) (used : Bool)
    (below : List Value) (body : Body) (scope : Scope) : Activation where
  text := body.definition.text
  scope
  returnTo
  used
  below
  callers := a.callers.push frame

/-- The state in which the body of a function starts. -/
def State.entered (state : State) (store : String → Value) : State :=
  { state with store, results := [] }

/-- The state in which a caller goes on. -/
def State.resumed (state inner : State) : State :=
  { state with host := inner.host, faults := inner.faults }

namespace Execution

variable {e : Execution} {a : Activation} {offset least : Nat} {operands args : List Value}
  {state inner : State} {run later : Run} {slot : UInt16} {count : UInt8} {used : Bool}
  {rest : List Instruction} {ref : FunctionRef} {body : Body} {scope : Scope} {value : Value}

namespace At

/-- A call that is not refused enters the function. -/
theorem enters (at_ : e.At a offset (args.reverse ++ operands) state run)
    (stands : Stands e.unit.opcodes offset (.call slot count used :: rest))
    (length : args.length = count.toNat)
    (held : run.machine.frame.memory[slot.toNat]? = some (.function ref))
    (denotes : e.Denotes ref body scope) (arity : ref.arity = args.length)
    (shallow : a.depth < e.callDepth) :
    ∃ later, e.next run = .inl later ∧
      e.At (a.calling run.machine.frame (offset + 5) used
        (operands ++ (state.results.reverse ++ a.below)) body scope) body.entry []
          (state.entered (boundStore body.definition.params args)) later := by
  rcases denotes.storage with ⟨index, name, number, found⟩
  have inside := denotes.inside
  have entry := denotes.entry
  have params := denotes.arity
  have passed := at_.passed (.call slot count used)
  have dropped := at_.withoutArgs slot used length
  have executes := at_.execute_call used length held
  have taken : ((run.machine.passed (.call slot count used)).top count.toNat).toList = args :=
    passed.top length
  have size : ((run.machine.passed (.call slot count used)).top count.toNat).size =
      count.toNat := by
    rw [← Array.length_toList, taken, length]
  have room : ¬(Code.storageOf e.linked index name number scope).size <
      (Code.storageOf e.linked index name number scope).constants.size + count.toNat := by
    have fewer := (denotes.serves.serves.paramsFirst denotes.shaped.distinct).length_le
    rw [Array.length_toList] at fewer
    have same : body.definition.text.params = body.definition.params := rfl
    rw [same] at fewer
    simp only [Code.Storage.size, Code.storageOf, Array.size_map]
    omega
  have frames : ¬(run.machine.passed (.call slot count used)).callDepth ≤
      (run.machine.passed (.call slot count used)).frameCount := by
    rw [passed.callDepth, Machine.frameCount, passed.callers]
    exact Nat.not_le_of_lt shallow
  rw [if_neg (by rw [denotes.own]; exact Bool.false_ne_true), Machine.callFunction,
    if_neg (by rw [← length]; exact not_not.2 arity), if_pos denotes.positive, found] at executes
  simp only at executes
  rw [if_neg (by omega), if_neg frames, if_neg room] at executes
  refine ⟨_, at_.next_done stands executes, ?_⟩
  have remembers := remembers_boundMemory denotes
    ((run.machine.passed (.call slot count used)).top count.toNat) (by omega) index number name
  rw [taken] at remembers
  exact {
    offset := by rw [entry]; rfl
    operands := dropped.operands
    base := by
      have values := congrArg List.length dropped.operands
      rw [Stack.length_values] at values
      exact values
    memory := by
      rw [Machine.boundMemory, size] at remembers
      exact remembers
    returnTo := congrArg Int.ofNat passed.offset
    used := rfl
    callers := congrArg (·.push run.machine.frame) at_.callers
    callDepth := at_.callDepth
    host := at_.host
    faults := at_.faults }

/-- A return goes back behind the call. -/
theorem returns (at_ : e.At a offset operands state run) {place next : Nat} {left : List Value}
    (within : e.At (a.calling run.machine.frame next used
      (left ++ (state.results.reverse ++ a.below)) body scope) place [value] inner later)
    (stands : Stands e.unit.opcodes place (.return_ :: rest)) :
    ∃ last, e.next later = .inl last ∧
      e.Called a next used left value (state.resumed inner) last := by
  have passed := within.passed .return_
  have back : (later.machine.passed .return_).callers.back? = some run.machine.frame := by
    rw [passed.callers, Activation.calling, Array.back?_push]
  have executes : Machine.execute e.unit e.registry (later.machine.passed .return_) place
      .return_ = .done (Machine.leave (later.machine.passed .return_) run.machine.frame value) := by
    rw [Machine.execute, Machine.return_, passed.withOperands (by simp),
      passed.peek value rfl]
    simp only [back]
  refine ⟨_, within.next_done stands executes, ?_⟩
  have base : (later.machine.passed .return_).frame.base =
      (left ++ (state.results.reverse ++ a.below)).length := passed.base
  have height := passed.height
  rw [base] at height
  have surplus : (later.machine.passed .return_).operands.height -
      (left ++ (state.results.reverse ++ a.below)).length =
        (value :: inner.results.reverse).length := by
    simp only [List.length_cons, List.length_reverse, List.length_nil] at height ⊢
    omega
  have values := passed.operands
  rw [← List.append_assoc] at values
  have resumed : e.At a next left (state.resumed inner) { later with
      machine := { (later.machine.passed .return_) with
        ip := next
        operands := (later.machine.passed .return_).operands.truncate
          (later.machine.passed .return_).frame.base
        frame := run.machine.frame
        callers := (later.machine.passed .return_).callers.pop } } := {
    offset := rfl
    operands := by
      rw [Stack.values_truncate, base, surplus, values]
      exact List.drop_left
    base := at_.base
    memory := at_.memory
    returnTo := at_.returnTo
    used := at_.used
    callers := by
      have callers := congrArg Array.pop passed.callers
      rwa [Activation.calling, Array.pop_push] at callers
    callDepth := passed.callDepth
    host := passed.host
    faults := passed.faults }
  have target : (later.machine.passed .return_).frame.returnTo.toNat = next := by
    rw [passed.returnTo]
    rfl
  have usedSame : (later.machine.passed .return_).frame.used = used := passed.used
  rw [Machine.leave, target, usedSame]
  exact resumed.called used value

end At

end Execution

end Lehce.Meaning
