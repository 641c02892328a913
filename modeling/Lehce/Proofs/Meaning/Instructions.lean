import Lehce.Proofs.Code.Decoding
import Lehce.Proofs.Machine.Effects
import Lehce.Proofs.Meaning.Memory

/-!
# Instructions and evaluations

A run stands at an offset of an activation when its machine has the memory, the operands
and the callers that the activation and the state of an evaluation say. Each instruction
is followed by what the evaluator does in its place. No rule here is about trees.
-/

namespace Lehce.Meaning

open Code (BinaryOp Instruction Scope ScopeText Stands UnaryOp)

/-- An activation of a scope: which scope it is, and who waits for it with which operands. -/
structure Activation where
  text : ScopeText
  scope : Scope
  returnTo : Int := -1
  used : Bool := false
  below : List Value := []
  callers : Array Frame := #[]

section Evaluation

variable {α : Type} {policy : Policy} {state : State} {operation : Heap → Except Fault Value}

theorem get_bind (following : State → Eval α) (state : State) :
    (get >>= following) state = following state state := rfl

theorem yield_of_ok {value : Value} (result : operation state.host.heap = .ok value) :
    yield policy operation state = .ok value state := by
  rw [yield, get_bind, result]
  rfl

theorem yield_of_error {fault : Fault} (result : operation state.host.heap = .error fault) :
    yield policy operation state = fail policy fault state := by
  rw [yield, get_bind, result]

theorem operate_of_value {op : BinaryOp} {left right value : Value}
    (result : Machine.applyBinary op state.host.heap left right = .value value) :
    operate policy op left right state = .ok value state := by
  rw [operate, get_bind, result]
  rfl

theorem operate_of_items {op : BinaryOp} {left right : Value} {items : Array Value}
    (result : Machine.applyBinary op state.host.heap left right = .items items) :
    operate policy op left right state = allocate (·.newList items) state := by
  rw [operate, get_bind, result]

theorem operate_of_fault {op : BinaryOp} {left right : Value} {fault : Fault}
    (result : Machine.applyBinary op state.host.heap left right = .fault fault) :
    operate policy op left right state = fail policy fault state := by
  rw [operate, get_bind, result]

theorem operate_of_crash {op : BinaryOp} {left right : Value} {crash : Crash}
    (result : Machine.applyBinary op state.host.heap left right = .crash crash) :
    operate policy op left right state = .error (.crashed crash) state := by
  rw [operate, get_bind, result]
  rfl

/-- The state after what is shared has changed. -/
def State.withHost (state : State) (host : Host) : State := { state with host }

/-- The state after the heap has changed. -/
def State.withHeap (state : State) (heap : Heap) : State :=
  state.withHost { state.host with heap }

theorem writeItem_of_ok {container index value : Value} {change : Heap → Heap}
    (result : Machine.setItem state.host.heap container index value = .ok change) :
    writeItem policy container index value state =
      .ok ⟨⟩ (state.withHeap (change state.host.heap)) := by
  rw [writeItem, get_bind, result]
  rfl

theorem writeItem_of_error {container index value : Value} {fault : Fault}
    (result : Machine.setItem state.host.heap container index value = .error fault) :
    writeItem policy container index value state = report policy fault state := by
  rw [writeItem, get_bind, result]

theorem allocate_eq (new : Heap → Value × Heap) (state : State) : allocate new state =
    .ok (new state.host.heap).1 (state.withHeap (new state.host.heap).2) := rfl

end Evaluation

/-- The operands of a dictionary literal: each key, then its value. -/
def entryOperands (entries : List (String × Value)) : List Value :=
  entries.flatMap fun entry => [.text entry.1, entry.2]

theorem length_entryOperands (entries : List (String × Value)) :
    (entryOperands entries).length = 2 * entries.length := by
  induction entries with
  | nil => rfl
  | cons entry rest ih =>
      simp only [entryOperands, List.flatMap_cons, List.length_append, List.length_cons,
        List.length_nil] at ih ⊢
      omega

theorem pairEntries_entryOperands (entries : List (String × Value)) :
    Machine.pairEntries (entryOperands entries) = entries := by
  induction entries with
  | nil => rfl
  | cons entry rest ih =>
      simp only [entryOperands, List.flatMap_cons, List.cons_append, List.nil_append] at ih ⊢
      rw [Machine.pairEntries, ih]

theorem lastKeyFault_entryOperands (entries : List (String × Value)) (fault : Option Fault) :
    Machine.lastKeyFault (entryOperands entries) fault = fault := by
  induction entries with
  | nil => rfl
  | cons entry rest ih =>
      simp only [entryOperands, List.flatMap_cons, List.cons_append, List.nil_append] at ih ⊢
      rw [Machine.lastKeyFault, ih]

namespace Execution

/-- A run stands at an offset of an activation with some operands above the kept results. -/
structure At (e : Execution) (a : Activation) (offset : Nat) (operands : List Value)
    (state : State) (run : Run) : Prop where
  offset : run.machine.ip = offset
  operands : run.machine.operands.values = operands ++ (state.results.reverse ++ a.below)
  base : run.machine.frame.base = a.below.length
  memory : e.Remembers a.scope state.store run.machine.frame.memory
  returnTo : run.machine.frame.returnTo = a.returnTo
  used : run.machine.frame.used = a.used
  callers : run.machine.callers = a.callers
  callDepth : run.machine.callDepth = e.callDepth
  host : run.machine.host = state.host
  faults : run.faults = state.faults

/-- A run ended inside an activation, or in a call that it made: the kept results are there,
the variables are as they were, and what is shared is as it became. -/
structure Ended (e : Execution) (a : Activation) (state : State) (run : Run) : Prop where
  operands : state.results.reverse ++ a.below <:+ run.machine.operands.values
  frames : ∃ (frame : Frame) (deeper : List Frame),
    run.machine.callers.toList ++ [run.machine.frame] = a.callers.toList ++ frame :: deeper ∧
      e.Remembers a.scope state.store frame.memory
  host : run.machine.host = state.host
  faults : run.faults = state.faults

/-- Where an evaluation with a value comes to: the value is on top of the operands. -/
def Leaves (e : Execution) (a : Activation) (offset : Nat) (operands : List Value) (value : Value) :
    State → Run → Prop := e.At a offset (value :: operands)

variable {e : Execution} {a : Activation} {offset next least : Nat} {operands : List Value}
  {state : State} {run : Run} {machine : Machine} {instruction : Instruction}
  {rest : List Instruction} {value : Value}

namespace At

theorem height (at_ : e.At a offset operands state run) :
    run.machine.operands.height =
      run.machine.frame.base + (operands.length + state.results.length) := by
  rw [← Stack.length_values, at_.operands, at_.base]
  simp only [List.length_append, List.length_reverse]
  omega

theorem ended (at_ : e.At a offset operands state run) : e.Ended a state run where
  operands := at_.operands ▸ List.suffix_append _ _
  frames := ⟨run.machine.frame, [], by rw [at_.callers], at_.memory⟩
  host := at_.host
  faults := at_.faults

/-- Another machine of the same activation with other operands. -/
theorem moved (at_ : e.At a offset operands state run) {left : List Value}
    (ip : machine.ip = next)
    (values : machine.operands.values = left ++ (state.results.reverse ++ a.below))
    (frame : machine.frame = run.machine.frame) (callers : machine.callers = run.machine.callers)
    (callDepth : machine.callDepth = run.machine.callDepth)
    (host : machine.host = run.machine.host) :
    e.At a next left state { run with machine } where
  offset := ip
  operands := values
  base := by rw [frame]; exact at_.base
  memory := by rw [frame]; exact at_.memory
  returnTo := by rw [frame]; exact at_.returnTo
  used := by rw [frame]; exact at_.used
  callers := callers.trans at_.callers
  callDepth := callDepth.trans at_.callDepth
  host := host.trans at_.host
  faults := at_.faults

theorem pushed (at_ : e.At a offset operands state { run with machine }) (value : Value) :
    e.At a offset (value :: operands) state { run with machine := machine.push value } :=
  at_.moved at_.offset (by rw [Machine.push_operands, Stack.values_push, at_.operands]; rfl)
    rfl rfl rfl rfl

theorem dropped (front : List Value)
    (at_ : e.At a offset (front ++ operands) state { run with machine }) {count : Nat}
    (length : front.length = count) :
    e.At a offset operands state { run with machine := machine.drop count } := by
  refine at_.moved at_.offset ?_ rfl rfl rfl rfl
  rw [Machine.drop_operands, Stack.values_drop, at_.operands, List.append_assoc, ← length,
    List.drop_left]

theorem peek (at_ : e.At a offset operands state run) (value : Value) {depth : Nat}
    (found : operands[depth]? = some value) : run.machine.peek depth = value := by
  have inside := (List.getElem?_eq_some_iff.1 found).1
  rw [Machine.peek, Stack.peek_eq, at_.operands, List.getElem?_append_left inside, found]
  rfl

/-- The topmost operands, from the lowest to the topmost one. -/
theorem top {front : List Value} (at_ : e.At a offset (front.reverse ++ operands) state run)
    {count : Nat} (length : front.length = count) :
    (run.machine.top count).toList = front := by
  rw [Machine.top, Stack.toList_top, at_.operands, List.append_assoc, ← length,
    ← List.length_reverse, List.take_left, List.reverse_reverse]

theorem faulted (at_ : e.At a offset operands state { run with machine }) (fault : Fault) :
    e.At a offset operands (state.faulted fault) (run.faulted machine fault) where
  offset := at_.offset
  operands := at_.operands
  base := at_.base
  memory := at_.memory
  returnTo := at_.returnTo
  used := at_.used
  callers := at_.callers
  callDepth := at_.callDepth
  host := at_.host
  faults := congrArg (fault :: ·) at_.faults

theorem need (at_ : e.At a offset operands state run) {count : Nat}
    (enough : count ≤ operands.length) : run.machine.need count = none := by
  rw [Machine.need_eq_none_iff, at_.height]
  omega

/-- Running an instruction that has its operands does not fail for want of them. -/
theorem withOperands (at_ : e.At a offset operands state run) {count : Nat}
    (enough : count ≤ operands.length) (following : Machine → Machine.Step) :
    Machine.withOperands run.machine count following = following run.machine := by
  rw [Machine.withOperands, at_.need enough]

theorem inside (at_ : e.At a offset operands state run)
    (stands : Stands e.unit.opcodes offset (instruction :: rest)) :
    run.machine.ip < e.unit.opcodes.size := by
  have size := stands.size_le
  have positive := instruction.size_pos
  rw [Code.codeSize_cons] at size
  rw [at_.offset]
  omega

/-- The instruction that stands where a run is has been passed. -/
theorem passed (at_ : e.At a offset operands state run) (instruction : Instruction) :
    e.At a (offset + instruction.size) operands state
      { run with machine := run.machine.passed instruction } :=
  at_.moved (congrArg (· + instruction.size) at_.offset) at_.operands rfl rfl rfl rfl

theorem step_eq (at_ : e.At a offset operands state run)
    (stands : Stands e.unit.opcodes offset (instruction :: rest)) :
    Machine.step e.unit e.registry run.machine =
      Machine.execute e.unit e.registry (run.machine.passed instruction) offset instruction := by
  have reads := (Code.Stands.cons_iff.1 stands).1.read
  rw [Machine.step_eq_decode, at_.offset, reads]
  simp only [Machine.passed, at_.offset]

/-- A run goes on as the instruction that stands there says. -/
theorem next_done (at_ : e.At a offset operands state run)
    (stands : Stands e.unit.opcodes offset (instruction :: rest))
    (executes : Machine.execute e.unit e.registry (run.machine.passed instruction) offset
      instruction = .done machine) : e.next run = .inl { run with machine } := by
  rw [Execution.next, Run.next, if_pos (at_.inside stands), at_.step_eq stands, executes]

section Moves

variable {slot : UInt16} {target : Nat}

theorem load (at_ : e.At a offset operands state run)
    (stands : Stands e.unit.opcodes offset (.load slot :: rest))
    (held : run.machine.frame.memory[slot.toNat]? = some value) :
    ∃ later, e.next run = .inl later ∧ e.At a (offset + 3) (value :: operands) state later := by
  have executes : Machine.execute e.unit e.registry (run.machine.passed (.load slot)) offset
      (.load slot) = .done ((run.machine.passed (.load slot)).push value) := by
    simp only [Machine.execute, Machine.passed, held]
  exact ⟨_, at_.next_done stands executes, (at_.passed (.load slot)).pushed value⟩

theorem dup (at_ : e.At a offset (value :: operands) state run)
    (stands : Stands e.unit.opcodes offset (.dup :: rest)) :
    ∃ later, e.next run = .inl later ∧
      e.At a (offset + 1) (value :: value :: operands) state later := by
  have passed := at_.passed .dup
  have executes : Machine.execute e.unit e.registry (run.machine.passed .dup) offset .dup =
      .done ((run.machine.passed .dup).push value) := by
    rw [Machine.execute, passed.withOperands (by simp), passed.peek value rfl]
  exact ⟨_, at_.next_done stands executes, passed.pushed value⟩

theorem dup2 {upper lower : Value} (at_ : e.At a offset (upper :: lower :: operands) state run)
    (stands : Stands e.unit.opcodes offset (.dup2 :: rest)) :
    ∃ later, e.next run = .inl later ∧
      e.At a (offset + 1) (upper :: lower :: upper :: lower :: operands) state later := by
  have passed := at_.passed .dup2
  have executes : Machine.execute e.unit e.registry (run.machine.passed .dup2) offset .dup2 =
      .done (((run.machine.passed .dup2).push lower).push upper) := by
    rw [Machine.execute, passed.withOperands (by simp), passed.peek lower rfl,
      passed.peek upper rfl]
  exact ⟨_, at_.next_done stands executes, (passed.pushed lower).pushed upper⟩

theorem pop (at_ : e.At a offset (value :: operands) state run)
    (stands : Stands e.unit.opcodes offset (.pop :: rest)) :
    ∃ later, e.next run = .inl later ∧ e.At a (offset + 1) operands state later := by
  have passed := at_.passed .pop
  have executes : Machine.execute e.unit e.registry (run.machine.passed .pop) offset .pop =
      .done ((run.machine.passed .pop).drop 1) := by
    rw [Machine.execute, passed.withOperands (by simp)]
  refine ⟨_, at_.next_done stands executes, At.dropped [value] passed rfl⟩

theorem jump (at_ : e.At a offset operands state run)
    (stands : Stands e.unit.opcodes offset (.jump target.toUInt16 :: rest))
    (small : target ≤ e.unit.opcodes.size) (fits : e.unit.opcodes.size ≤ Code.maxOperand) :
    ∃ later, e.next run = .inl later ∧ e.At a target operands state later := by
  have word : target.toUInt16.toNat = target := Code.toNat_toUInt16 (by omega)
  have executes : Machine.execute e.unit e.registry
      (run.machine.passed (.jump target.toUInt16)) offset (.jump target.toUInt16) =
        .done { run.machine.passed (.jump target.toUInt16) with ip := target } := by
    rw [Machine.execute, word, if_neg (by omega)]
  exact ⟨_, at_.next_done stands executes, at_.moved rfl at_.operands rfl rfl rfl rfl⟩

/-- A comparison goes on behind itself when the value is true, and to its target when not. -/
theorem compare (at_ : e.At a offset (value :: operands) state run)
    (stands : Stands e.unit.opcodes offset (.compare target.toUInt16 :: rest))
    (small : target ≤ e.unit.opcodes.size) (fits : e.unit.opcodes.size ≤ Code.maxOperand) :
    ∃ later, e.next run = .inl later ∧
      e.At a (if state.host.heap.truthy value then offset + 3 else target) operands state
        later := by
  have word : target.toUInt16.toNat = target := Code.toNat_toUInt16 (by omega)
  have passed := at_.passed (.compare target.toUInt16)
  have dropped := At.dropped [value] passed rfl
  have holds : (run.machine.passed (.compare target.toUInt16)).host.heap.truthy
      ((run.machine.passed (.compare target.toUInt16)).peek 0) =
        state.host.heap.truthy value := by
    rw [passed.peek value rfl]
    exact congrArg (fun host : Host => host.heap.truthy value) at_.host
  cases truth : state.host.heap.truthy value with
  | true =>
      refine ⟨_, at_.next_done stands ?_, dropped⟩
      rw [Machine.execute, word, if_neg (by omega), passed.withOperands (by simp), holds, truth]
      rfl
  | false =>
      have jumped : e.At a target operands state { run with
          machine := { (run.machine.passed (.compare target.toUInt16)).drop 1 with
            ip := target } } := dropped.moved rfl dropped.operands rfl rfl rfl rfl
      refine ⟨_, at_.next_done stands ?_, jumped⟩
      rw [Machine.execute, word, if_neg (by omega), passed.withOperands (by simp), holds, truth]
      rfl

end Moves

section Stores

variable {slot : UInt16} {name : String}

/-- The memory has room for a variable of the scope. -/
theorem slot_lt (at_ : e.At a offset operands state run) (serves : e.Serves a.text a.scope)
    (declared : ∃ slot, a.scope.variableSlot? name = some slot) :
    ¬run.machine.frame.memory.size ≤ (Code.variableAddress a.scope name).toNat := by
  have held := at_.memory.slot_variable serves declared
  exact Nat.not_le_of_lt (Array.getElem?_eq_some_iff.1 held).1

/-- The machine after a variable of the scope got a value. -/
theorem stored (at_ : e.At a offset operands state { run with machine })
    (serves : e.Serves a.text a.scope)
    (declared : ∃ slot, a.scope.variableSlot? name = some slot) (value : Value) :
    e.At a offset operands
      { state with store := fun other => if other = name then value else state.store other }
      { run with machine := { machine with frame := { machine.frame with
          memory := machine.frame.memory.setIfInBounds
            (Code.variableAddress a.scope name).toNat value } } } where
  offset := at_.offset
  operands := at_.operands
  base := at_.base
  memory := at_.memory.assign serves declared value
  returnTo := at_.returnTo
  used := at_.used
  callers := at_.callers
  callDepth := at_.callDepth
  host := at_.host
  faults := at_.faults

theorem store (at_ : e.At a offset (value :: operands) state run)
    (serves : e.Serves a.text a.scope)
    (declared : ∃ slot, a.scope.variableSlot? name = some slot)
    (stands : Stands e.unit.opcodes offset
      (.store (Code.variableAddress a.scope name) :: rest)) :
    ∃ later, e.next run = .inl later ∧ e.At a (offset + 3) operands
      { state with store := fun other => if other = name then value else state.store other }
      later := by
  have passed := at_.passed (.store (Code.variableAddress a.scope name))
  have dropped := At.dropped [value] passed rfl
  refine ⟨_, at_.next_done stands ?_, dropped.stored serves declared value⟩
  rw [Machine.execute, if_neg (passed.slot_lt serves declared), passed.withOperands (by simp),
    passed.peek value rfl]
  rfl

theorem fastStore (at_ : e.At a offset (value :: operands) state run)
    (serves : e.Serves a.text a.scope)
    (declared : ∃ slot, a.scope.variableSlot? name = some slot)
    (stands : Stands e.unit.opcodes offset
      (.fastStore (Code.variableAddress a.scope name) :: rest)) :
    ∃ later, e.next run = .inl later ∧ e.At a (offset + 3) (value :: operands)
      { state with store := fun other => if other = name then value else state.store other }
      later := by
  have passed := at_.passed (.fastStore (Code.variableAddress a.scope name))
  refine ⟨_, at_.next_done stands ?_, passed.stored serves declared value⟩
  rw [Machine.execute, if_neg (passed.slot_lt serves declared), passed.withOperands (by simp),
    passed.peek value rfl]

end Stores

section Operations

/-- A reported fault is followed by a step with it, behind which the run stands ready. -/
theorem reports (at_ : e.At a offset operands state run)
    (stands : Stands e.unit.opcodes offset (instruction :: rest)) {fault : Fault}
    {left : List Value} {after : State}
    (executes : Machine.execute e.unit e.registry (run.machine.passed instruction) offset
      instruction = .fault machine fault)
    (ready : e.At a next left after { run with machine }) :
    e.Follows least (fun _ => e.At a next left) (e.Ended a) run (report e.policy fault after) :=
  .report (at_.inside stands) ((at_.step_eq stands).trans executes) ready.faults
    (ready.faulted fault).ended fun _ => ready.faulted fault

/-- A fault in place of a value is followed by a step that leaves the empty value. -/
theorem fails (at_ : e.At a offset operands state run)
    (stands : Stands e.unit.opcodes offset (instruction :: rest)) {fault : Fault}
    {left : List Value}
    (executes : Machine.execute e.unit e.registry (run.machine.passed instruction) offset
      instruction = .fault machine fault)
    (ready : e.At a next (.empty :: left) state { run with machine }) :
    e.Follows least (e.Leaves a next left) (e.Ended a) run (fail e.policy fault state) :=
  .bind (at_.reports stands executes ready) fun _ _ _ stopped => .pure stopped

theorem done (at_ : e.At a offset operands state run)
    (stands : Stands e.unit.opcodes offset (instruction :: rest)) {left : List Value}
    (executes : Machine.execute e.unit e.registry (run.machine.passed instruction) offset
      instruction = .done machine)
    {after : State} (ready : e.At a next (value :: left) after { run with machine }) :
    e.Follows least (e.Leaves a next left) (e.Ended a) run (.ok value after) :=
  .step (at_.next_done stands executes) (.pure ready)

/-- An operation with a value or a fault is followed by the instruction that pushes it. -/
theorem yields (at_ : e.At a offset operands state run)
    (stands : Stands e.unit.opcodes offset (instruction :: rest))
    {operation : Heap → Except Fault Value} {left : List Value}
    (executes : Machine.execute e.unit e.registry (run.machine.passed instruction) offset
      instruction = Machine.pushResult machine (operation state.host.heap))
    (ready : e.At a next left state { run with machine }) :
    e.Follows least (e.Leaves a next left) (e.Ended a) run (yield e.policy operation state) := by
  cases result : operation state.host.heap with
  | ok value =>
      rw [result] at executes
      rw [yield_of_ok result]
      exact at_.done stands executes (ready.pushed value)
  | error fault =>
      rw [result] at executes
      rw [yield_of_error result]
      exact at_.fails stands executes (ready.pushed .empty)

/-- What is shared has changed, for the machine as for the evaluation. -/
theorem withHost (at_ : e.At a offset operands state { run with machine }) (host : Host)
    {kept : Host} (same : host = kept) :
    e.At a offset operands (state.withHost kept)
      { run with machine := { machine with host } } where
  offset := at_.offset
  operands := at_.operands
  base := at_.base
  memory := at_.memory
  returnTo := at_.returnTo
  used := at_.used
  callers := at_.callers
  callDepth := at_.callDepth
  host := same
  faults := at_.faults

theorem withHeap (at_ : e.At a offset operands state { run with machine }) (heap : Heap) :
    e.At a offset operands (state.withHeap heap)
      { run with machine := { machine with host := { machine.host with heap } } } :=
  at_.withHost _ (congrArg (fun host : Host => { host with heap }) at_.host)

theorem heap_eq (at_ : e.At a offset operands state { run with machine }) :
    machine.host.heap = state.host.heap := congrArg Host.heap at_.host

/-- A new list or dictionary is followed by the instruction that makes and pushes it. -/
theorem allocates (at_ : e.At a offset operands state run)
    (stands : Stands e.unit.opcodes offset (instruction :: rest)) {new : Heap → Value × Heap}
    {left : List Value}
    (executes : Machine.execute e.unit e.registry (run.machine.passed instruction) offset
      instruction = .done (Machine.pushNew new machine))
    (ready : e.At a next left state { run with machine }) :
    e.Follows least (e.Leaves a next left) (e.Ended a) run (allocate new state) := by
  rw [Machine.pushNew_eq, ready.heap_eq] at executes
  rw [allocate_eq]
  exact at_.done stands executes ((ready.pushed _).withHeap _)

theorem unary {op : UnaryOp} {operand : Value}
    (at_ : e.At a offset (operand :: operands) state run)
    (stands : Stands e.unit.opcodes offset (.unary op :: rest)) :
    e.Follows least (e.Leaves a (offset + 1) operands) (e.Ended a) run
      (yield e.policy (fun heap => Machine.applyUnary op heap operand) state) := by
  have passed := at_.passed (.unary op)
  have ready := At.dropped [operand] passed rfl
  refine at_.yields stands ?_ ready
  rw [Machine.execute, passed.withOperands (by simp), passed.peek operand rfl]
  exact congrArg (fun heap => Machine.pushResult _ (Machine.applyUnary op heap operand))
    ready.heap_eq

theorem getItem {container index : Value}
    (at_ : e.At a offset (index :: container :: operands) state run)
    (stands : Stands e.unit.opcodes offset (.getItem :: rest)) :
    e.Follows least (e.Leaves a (offset + 1) operands) (e.Ended a) run
      (yield e.policy (fun heap => Machine.getItem heap container index) state) := by
  have passed := at_.passed .getItem
  have ready := At.dropped [index, container] passed rfl
  refine at_.yields stands ?_ ready
  rw [Machine.execute, passed.withOperands (by simp), passed.peek index rfl,
    passed.peek container rfl]
  exact congrArg (fun heap => Machine.pushResult _ (Machine.getItem heap container index))
    ready.heap_eq

/-- An operation on two values is followed by its instruction. -/
theorem binary {op : BinaryOp} {left right : Value}
    (at_ : e.At a offset (right :: left :: operands) state run)
    (stands : Stands e.unit.opcodes offset (.binary op :: rest)) :
    e.Follows least (e.Leaves a (offset + 1) operands) (e.Ended a) run
      (operate e.policy op left right state) := by
  have passed := at_.passed (.binary op)
  have ready := At.dropped [right, left] passed rfl
  have heap : ((run.machine.passed (.binary op)).drop 2).host.heap = state.host.heap :=
    ready.heap_eq
  cases result : Machine.applyBinary op state.host.heap left right with
  | value value =>
      rw [operate_of_value result]
      refine at_.done stands ?_ (ready.pushed value)
      rw [Machine.execute, passed.withOperands (by simp), passed.peek right rfl,
        passed.peek left rfl]
      simp only [heap, result]
      rfl
  | items items =>
      rw [operate_of_items result]
      refine at_.allocates stands ?_ ready
      rw [Machine.execute, passed.withOperands (by simp), passed.peek right rfl,
        passed.peek left rfl]
      simp only [heap, result]
      rfl
  | fault fault =>
      rw [operate_of_fault result]
      refine at_.fails stands ?_ (ready.pushed .empty)
      rw [Machine.execute, passed.withOperands (by simp), passed.peek right rfl,
        passed.peek left rfl]
      simp only [heap, result]
      rfl
  | crash crash =>
      rw [operate_of_crash result]
      refine .crash (at_.inside stands) ((at_.step_eq stands).trans ?_) ready.ended
      rw [Machine.execute, passed.withOperands (by simp), passed.peek right rfl,
        passed.peek left rfl]
      simp only [heap, result]
      rfl

theorem setItem {container index : Value}
    (at_ : e.At a offset (value :: index :: container :: operands) state run)
    (stands : Stands e.unit.opcodes offset (.setItem :: rest)) :
    e.Follows least (fun _ => e.At a (offset + 1) operands) (e.Ended a) run
      (writeItem e.policy container index value state) := by
  have passed := at_.passed .setItem
  have ready := At.dropped [value, index, container] passed rfl
  have heap : ((run.machine.passed .setItem).drop 3).host.heap = state.host.heap :=
    ready.heap_eq
  cases result : Machine.setItem state.host.heap container index value with
  | ok change =>
      rw [writeItem_of_ok result]
      refine .step (at_.next_done stands ?_) (.pure (ready.withHeap (change state.host.heap)))
      rw [Machine.execute, passed.withOperands (by simp), passed.peek value rfl,
        passed.peek index rfl, passed.peek container rfl]
      simp only [heap, result]
      rw [Machine.changeHeap, heap]
      rfl
  | error fault =>
      rw [writeItem_of_error result]
      refine at_.reports stands ?_ ready
      rw [Machine.execute, passed.withOperands (by simp), passed.peek value rfl,
        passed.peek index rfl, passed.peek container rfl]
      simp only [heap, result]
      rfl

theorem initList {values : List Value} {count : UInt16}
    (at_ : e.At a offset (values.reverse ++ operands) state run)
    (stands : Stands e.unit.opcodes offset (.initList count :: rest))
    (length : values.length = count.toNat) :
    e.Follows least (e.Leaves a (offset + 3) operands) (e.Ended a) run
      (allocate (·.newList values.toArray) state) := by
  have passed := at_.passed (.initList count)
  have ready := At.dropped values.reverse passed (by rw [List.length_reverse, length])
  have items : (run.machine.passed (.initList count)).top count.toNat = values.toArray := by
    rw [← passed.top length, Array.toArray_toList]
  refine at_.allocates stands ?_ ready
  rw [Machine.execute, Machine.makeList, passed.withOperands (by simp [length]), items]

theorem initDict {entries : List (String × Value)} {count : UInt16}
    (at_ : e.At a offset ((entryOperands entries).reverse ++ operands) state run)
    (stands : Stands e.unit.opcodes offset (.initDict count :: rest))
    (length : entries.length = count.toNat) :
    e.Follows least (e.Leaves a (offset + 3) operands) (e.Ended a) run
      (allocate (·.newDict (Dict.ofList entries)) state) := by
  have passed := at_.passed (.initDict count)
  have height : (entryOperands entries).length = 2 * count.toNat := by
    rw [length_entryOperands, length]
  have ready := At.dropped (entryOperands entries).reverse passed
    (by rw [List.length_reverse, height])
  refine at_.allocates stands ?_ ready
  rw [Machine.execute, Machine.makeDict, passed.withOperands (by simp [height])]
  simp only [passed.top height, pairEntries_entryOperands, lastKeyFault_entryOperands]

end Operations

end At

end Execution

end Lehce.Meaning
