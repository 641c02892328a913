import Lehce.Proofs.Meaning.Instructions

/-!
# Calls and evaluations

A call instruction is followed by what the evaluator does with the value that is called.
A native function is called on the spot. For a function of the program the run enters an
activation of its own; that this is followed as well is what `InvokeFollows` says, for the
evaluator's way to invoke functions below a number of calls.
-/

namespace Lehce.Meaning

open Code (Instruction Stands)

section Evaluation

variable {setting : Setting} {name : String} {args : List Value} {state : State}

theorem callNative_of_unregistered (without : setting.registry = none) :
    setting.callNative name args state = .error (.crashed .missing) state := by
  rw [Setting.callNative, without]
  rfl

variable {natives : Registry}

theorem callNative_of_missing (given : setting.registry = some natives)
    (missing : natives.find? name = none) :
    setting.callNative name args state =
      fail setting.policy
        (.runtime .notCallable ("native function " ++ name ++ " not registered")) state := by
  simp only [Setting.callNative, given, missing]

/-- How a failure of a native function is reported, unless it is a crash. -/
def nativeFault? (name : String) : NativeFailure → Option Fault
  | .fault fault => some fault
  | .other message => some (.runtime .typeMismatch (name ++ ": " ++ message))
  | .crash _ => none

theorem callNative_of_value {native : Native} (given : setting.registry = some natives)
    (found : natives.find? name = some native)
    (works : (native.call args state.host).failure = none) :
    setting.callNative name args state =
      .ok (native.call args state.host).value.orEmpty
        (state.withHost (native.call args state.host).host) := by
  simp only [Setting.callNative, given, found, get_bind, works]
  rfl

theorem callNative_of_failure {native : Native} {failure : NativeFailure} {fault : Fault}
    (given : setting.registry = some natives) (found : natives.find? name = some native)
    (fails : (native.call args state.host).failure = some failure)
    (told : nativeFault? name failure = some fault) :
    setting.callNative name args state =
      (report setting.policy fault >>= fun _ =>
        pure (native.call args state.host).value.orEmpty)
          (state.withHost (native.call args state.host).host) := by
  simp only [Setting.callNative, given, found, get_bind, fails]
  cases failure with
  | crash => cases told
  | fault | other =>
      cases told
      rfl

theorem callNative_of_crash {native : Native} {crash : Crash}
    (given : setting.registry = some natives) (found : natives.find? name = some native)
    (fails : (native.call args state.host).failure = some (.crash crash)) :
    setting.callNative name args state =
      .error (.crashed crash) (state.withHost (native.call args state.host).host) := by
  simp only [Setting.callNative, given, found, get_bind, fails]
  rfl

end Evaluation

/-- How many calls are in progress in an activation, its own included. -/
def Activation.depth (a : Activation) : Nat := a.callers.size + 1

namespace Execution

/-- Where an evaluation of a call comes to: there is a value only if it is used. -/
def Called (e : Execution) (a : Activation) (offset : Nat) (used : Bool) (operands : List Value)
    (value : Value) : State → Run → Prop :=
  e.At a offset ((if used then [value] else []) ++ operands)

variable {e : Execution} {a : Activation} {offset least : Nat} {operands args : List Value}
  {state : State} {run : Run} {machine : Machine} {slot : UInt16} {count : UInt8} {used : Bool}
  {rest : List Instruction} {callee : Value} {ref : FunctionRef}

namespace At

/-- The value of a call has been pushed, if it is used. -/
theorem called (at_ : e.At a offset operands state { run with machine }) (used : Bool)
    (value : Value) :
    e.At a offset ((if used then [value] else []) ++ operands) state
      { run with machine := if used then machine.push value else machine } := by
  cases used with
  | true => exact at_.pushed value
  | false => exact at_

/-- A run that has passed a call has its arguments on top of the operands. -/
theorem withoutArgs (at_ : e.At a offset (args.reverse ++ operands) state run) (slot : UInt16)
    (used : Bool) (length : args.length = count.toNat) :
    e.At a (offset + 5) operands state
      { run with machine := (run.machine.passed (.call slot count used)).drop count.toNat } :=
  At.dropped args.reverse (at_.passed (.call slot count used)) (by rw [List.length_reverse, length])

theorem failsCall (at_ : e.At a offset (args.reverse ++ operands) state run)
    (stands : Stands e.unit.opcodes offset (.call slot count used :: rest))
    (length : args.length = count.toNat) {fault : Fault}
    (executes : Machine.execute e.unit e.registry
      (run.machine.passed (.call slot count used)) offset (.call slot count used) =
        Machine.failCall (run.machine.passed (.call slot count used)) count.toNat used fault) :
    e.Follows least (e.Called a (offset + 5) used operands) (e.Ended a) run
      (fail e.policy fault state) :=
  .bind (at_.reports stands executes ((at_.withoutArgs slot used length).called used .empty))
    fun _ _ _ stopped => .pure stopped

theorem execute_call (at_ : e.At a offset (args.reverse ++ operands) state run) (used : Bool)
    (length : args.length = count.toNat)
    (held : run.machine.frame.memory[slot.toNat]? = some (.function ref)) :
    Machine.execute e.unit e.registry (run.machine.passed (.call slot count used)) offset
        (.call slot count used) =
      if ref.native then
        Machine.callNative e.registry (run.machine.passed (.call slot count used)) ref.name
          count.toNat used
      else
        Machine.callFunction e.unit (run.machine.passed (.call slot count used)) ref
          count.toNat used := by
  have passed := at_.passed (.call slot count used)
  have same : (run.machine.passed (.call slot count used)).frame.memory[slot.toNat]? =
    some (.function ref) := held
  simp only [Machine.execute, Machine.call, same]
  rw [passed.withOperands (by simp [length])]

/-- The call of a native function that is registered is followed by its instruction. -/
theorem callRegistered (at_ : e.At a offset (args.reverse ++ operands) state run)
    (stands : Stands e.unit.opcodes offset (.call slot count used :: rest))
    (length : args.length = count.toNat)
    (executes : Machine.execute e.unit e.registry
      (run.machine.passed (.call slot count used)) offset (.call slot count used) =
        Machine.callNative e.registry (run.machine.passed (.call slot count used)) ref.name
          count.toNat used) {natives : Registry} {native : Native}
    (given : e.registry = some natives) (found : natives.find? ref.name = some native) :
    e.Follows least (e.Called a (offset + 5) used operands) (e.Ended a) run
      (e.setting.callNative ref.name args state) := by
  have top := (at_.passed (.call slot count used)).top length
  have host : (run.machine.passed (.call slot count used)).host = state.host := at_.host
  have dropped := at_.withoutArgs slot used length
  have ready := (dropped.withHost (native.call args state.host).host rfl).called used
    (native.call args state.host).value.orEmpty
  cases failed : (native.call args state.host).failure with
  | none =>
      rw [callNative_of_value given found failed]
      refine .step (at_.next_done stands (executes.trans ?_)) (.pure ready)
      simp only [Machine.callNative, given, found, top, host, failed]
  | some failure =>
      cases told : nativeFault? ref.name failure with
      | some fault =>
          rw [callNative_of_failure given found failed told]
          refine .bind (at_.reports stands (executes.trans ?_) ready)
            fun _ _ _ stopped => .pure stopped
          cases failure with
          | crash => cases told
          | fault | other =>
              cases told
              simp only [Machine.callNative, given, found, top, host, failed]
      | none =>
          cases failure with
          | fault | other => cases told
          | crash crash =>
              rw [callNative_of_crash given found failed]
              refine .crash (at_.inside stands)
                ((at_.step_eq stands).trans (executes.trans ?_)) ready.ended
              simp only [Machine.callNative, given, found, top, host, failed]

/-- The call of a native function is followed by its instruction. -/
theorem callNative (at_ : e.At a offset (args.reverse ++ operands) state run)
    (stands : Stands e.unit.opcodes offset (.call slot count used :: rest))
    (length : args.length = count.toNat)
    (held : run.machine.frame.memory[slot.toNat]? = some (.function ref))
    (native : ref.native = true) :
    e.Follows least (e.Called a (offset + 5) used operands) (e.Ended a) run
      (e.setting.callNative ref.name args state) := by
  have executes := at_.execute_call used length held
  rw [if_pos native] at executes
  cases given : e.registry with
  | none =>
      rw [callNative_of_unregistered given]
      refine .crash (at_.inside stands) ((at_.step_eq stands).trans (executes.trans ?_))
        (at_.withoutArgs slot used length).ended
      simp only [Machine.callNative, given]
  | some natives =>
      cases found : natives.find? ref.name with
      | none =>
          rw [callNative_of_missing given found]
          refine at_.failsCall stands length (executes.trans ?_)
          simp only [Machine.callNative, given, found]
      | some native => exact at_.callRegistered stands length executes given found

end At

/-- Invoking functions of the program below a number of calls is followed from the instruction
that calls them. -/
def InvokeFollows (e : Execution) (least depth : Nat) (invoke : Invoke) : Prop :=
  ∀ (a : Activation) (offset : Nat) (operands args : List Value) (state : State) (run : Run)
    (slot : UInt16) (count : UInt8) (used : Bool) (rest : List Instruction) (ref : FunctionRef),
    a.depth = depth → e.At a offset (args.reverse ++ operands) state run →
    Stands e.unit.opcodes offset (.call slot count used :: rest) → args.length = count.toNat →
    run.machine.frame.memory[slot.toNat]? = some (.function ref) → ref ∈ e.unit.functions →
    ref.arity = args.length → depth < e.callDepth →
    e.Follows least (e.Called a (offset + 5) used operands) (e.Ended a) run
      (invoke ref args state)

namespace At

/-- A call that is refused for its arguments is followed by its instruction. -/
theorem refusesArity (at_ : e.At a offset (args.reverse ++ operands) state run)
    (stands : Stands e.unit.opcodes offset (.call slot count used :: rest))
    (length : args.length = count.toNat)
    (held : run.machine.frame.memory[slot.toNat]? = some (.function ref))
    (own : ref.native = false) (arity : ref.arity ≠ args.length) :
    e.Follows least (e.Called a (offset + 5) used operands) (e.Ended a) run
      (fail e.policy (.runtime .argumentCountMismatch
        (ref.name ++ " takes " ++ toString ref.arity ++ " arguments, got " ++
          toString args.length)) state) := by
  have executes := at_.execute_call used length held
  rw [if_neg (by rw [own]; exact Bool.false_ne_true)] at executes
  refine at_.failsCall stands length (executes.trans ?_)
  rw [Machine.callFunction, if_pos (by rw [← length]; exact arity), length]

/-- A call that is refused for the number of calls stops both the run and the evaluation. -/
theorem refusesDepth (at_ : e.At a offset (args.reverse ++ operands) state run)
    (stands : Stands e.unit.opcodes offset (.call slot count used :: rest))
    (length : args.length = count.toNat)
    (held : run.machine.frame.memory[slot.toNat]? = some (.function ref))
    (member : ref ∈ e.unit.functions) (arity : ref.arity = args.length)
    (deep : e.callDepth ≤ a.depth) :
    e.Follows least (e.Called a (offset + 5) used operands) (e.Ended a) run
      (fail e.policy (.runtime .stackOverflow
        ("call depth " ++ toString e.callDepth ++ " exceeded in " ++ ref.name)) state) := by
  rcases e.compiled.metered e.shaped with ⟨listing, metered⟩
  rcases metered.callees ref member with ⟨own, positive, storage, found, _⟩
  rcases metered.entries ref member with ⟨mark, marked, entry, _⟩
  have inside := metered.inside marked
  have room := mark.instruction.size_pos
  have passed := at_.passed (.call slot count used)
  have executes := at_.execute_call used length held
  have frames : (run.machine.passed (.call slot count used)).callDepth ≤
      (run.machine.passed (.call slot count used)).frameCount := by
    rw [passed.callDepth, Machine.frameCount, passed.callers]
    exact deep
  rw [if_neg (by rw [own]; exact Bool.false_ne_true), Machine.callFunction,
    if_neg (by rw [← length]; exact not_not.2 arity), if_pos positive, found] at executes
  simp only at executes
  rw [if_neg (by omega), if_pos frames, passed.callDepth] at executes
  refine .bind (.report (at_.inside stands) ((at_.step_eq stands).trans executes) at_.faults
    (passed.faulted _).ended ?_) fun _ _ _ stopped => .pure stopped
  intro mild
  cases mild

/-- The call of a value is followed by its instruction. -/
theorem call {invoke : Invoke} (at_ : e.At a offset (args.reverse ++ operands) state run)
    (stands : Stands e.unit.opcodes offset (.call slot count used :: rest))
    (length : args.length = count.toNat)
    (held : run.machine.frame.memory[slot.toNat]? = some callee)
    (invokes : e.InvokeFollows least a.depth invoke) :
    e.Follows least (e.Called a (offset + 5) used operands) (e.Ended a) run
      (e.setting.call a.depth invoke callee args state) := by
  cases callee with
  | function ref =>
      cases native : ref.native with
      | true =>
          rw [Setting.call, if_pos native]
          exact at_.callNative stands length held native
      | false =>
          intro holds
          have member : ref ∈ e.unit.functions :=
            holds.memory run.machine.frame (by simp [Machine.frames])
              _ (Array.mem_of_getElem? held) native
          rw [Setting.call, if_neg (by rw [native]; exact Bool.false_ne_true),
            Setting.callFunction]
          by_cases arity : ref.arity ≠ args.length
          · rw [if_pos arity]
            exact at_.refusesArity stands length held native arity holds
          · rw [if_neg arity]
            by_cases deep : e.setting.callDepth ≤ a.depth
            · rw [if_pos deep]
              exact at_.refusesDepth stands length held member (not_not.1 arity) deep holds
            · rw [if_neg deep]
              exact invokes a offset operands args state run slot count used rest ref rfl at_
                stands length held member (not_not.1 arity) (Nat.lt_of_not_le deep) holds
  | _ =>
      refine at_.failsCall stands length ?_
      have passed := at_.passed (.call slot count used)
      rw [Machine.execute, Machine.call]
      simp only [Machine.passed] at passed ⊢
      simp only [held]
      exact passed.withOperands (by simp [length]) _

end At

end Execution

end Lehce.Meaning
