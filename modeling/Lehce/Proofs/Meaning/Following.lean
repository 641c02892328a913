import Lehce.Proofs.Code.Metered
import Lehce.Proofs.Code.Pooling
import Lehce.Proofs.Machine.Steps
import Lehce.Proofs.Meaning.Evaluator

/-!
# Runs that follow evaluations

A run of the code of a program follows the evaluation of a part of it. Where the
evaluation has an outcome the run comes to a place that fits it, and where the evaluation
is stopped the run is stopped as well. Where the fuel of the evaluation is exhausted the
run goes on for at least a number of steps, so that a program without an end is not
mistaken for one that has one.

The rules of this module put runs together as evaluations are put together. None of them
is about a particular instruction.
-/

namespace Lehce.Meaning

/-- A compiled program with what its runs need. Numbers are given the meaning that they have in
the pools of the scopes. -/
structure Execution where
  natives : Code.Resolver
  number : Code.ScopeText → Float → Float
  program : Program
  functions : Code.Functions
  top : Code.Scope
  rest : List Code.Scope
  unit : Code.Unit
  registry : Option Registry
  policy : Policy
  callDepth : Nat
  shaped : program.IsShaped Number.IsNumber
  compiled : Code.Compiled natives program functions top rest unit
  pooled : ∀ text ∈ Code.scopeTexts program, ∀ value ∈ Node.numbers text.nodes,
    number text value = text.pooled value
  honest : Registry.AllHonest registry

/-- How a run ends when an evaluation halts. -/
def Halt.ending : Halt → Ending
  | stopped => .stopped
  | crashed crash => .crashed crash
  | exhausted => .outOfSteps

/-- The state in which one more fault has been reported. -/
def State.faulted (state : State) (fault : Fault) : State :=
  { state with faults := fault :: state.faults }

namespace Execution

variable (e : Execution) {α β : Type}

/-- The setting in which the program is evaluated. -/
def setting : Setting where
  program := e.program
  number := e.number
  natives := e.natives
  registry := e.registry
  policy := e.policy
  callDepth := e.callDepth
  functions := e.unit.functions

/-- One step of a run, or how it ends. -/
def next : Run → Run ⊕ (Ending × Run) := Run.next e.unit e.registry e.policy

/-- A run reaches another one in a number of steps. -/
abbrev Reaches : Nat → Run → Run → Prop := Run.Reaches e.unit e.registry e.policy

/-- A run holds no functions but those of the program. -/
def Holds (run : Run) : Prop := run.machine.Sound (· ∈ e.unit.functions)

/-- What a run comes to while something with a result is evaluated. -/
inductive Comes (least : Nat) (after : α → State → Run → Prop) (left : State → Run → Prop)
    (run : Run) : EStateM.Result Halt State α → Prop where
  | goesOn {value : α} {state : State} {count : Nat} {later : Run}
      (reaches : e.Reaches count run later) (fits : after value state later) :
      Comes least after left run (.ok value state)
  | ends {halt : Halt} {state : State} {count : Nat} {later ended : Run}
      (reaches : e.Reaches count run later)
      (ends : e.next later = .inr (halt.ending, ended)) (fits : left state ended) :
      Comes least after left run (.error halt state)
  | lasts {state : State} {count : Nat} {later : Run} (reaches : e.Reaches count run later)
      (enough : least ≤ count) : Comes least after left run (.error .exhausted state)

/-- A run that holds no other functions follows an evaluation with a result. -/
def Follows (least : Nat) (after : α → State → Run → Prop) (left : State → Run → Prop)
    (run : Run) (result : EStateM.Result Halt State α) : Prop :=
  e.Holds run → e.Comes least after left run result

variable {e}

theorem holds_next {run later : Run} (moves : e.next run = .inl later) (holds : e.Holds run) :
    e.Holds later := by
  have advances := Run.advances_next e.unit e.registry e.policy run
  rw [← Execution.next, moves] at advances
  have unitSound := e.compiled.sound e.shaped
  cases advances with
  | done inside steps | goesOn inside steps =>
      exact (Machine.moves_of_step inside steps).sound holds e.honest unitSound

theorem holds_of_reaches {count : Nat} {run later : Run} (reaches : e.Reaches count run later)
    (holds : e.Holds run) : e.Holds later := by
  induction reaches with
  | refl => exact holds
  | step moves _ ih => exact ih (holds_next moves holds)

namespace Follows

variable {least : Nat} {after : α → State → Run → Prop} {left : State → Run → Prop}
  {run later : Run}

theorem pure {value : α} {state : State} (fits : after value state run) :
    e.Follows least after left run (.ok value state) :=
  fun _ => .goesOn (.refl run) fits

/-- A run lasts for no step at least. -/
theorem exhausted {state : State} : e.Follows 0 after left run (.error .exhausted state) :=
  fun _ => .lasts (.refl run) (Nat.zero_le _)

/-- A run that steps to another one follows what the other follows, for some steps longer. -/
theorem reaches {count : Nat} {result : EStateM.Result Halt State α}
    (early : e.Reaches count run later) (late : e.Follows least after left later result) :
    e.Follows (least + count) after left run result := by
  intro holds
  cases late (holds_of_reaches early holds) with
  | goesOn reaches fits => exact .goesOn (early.trans reaches) fits
  | ends reaches ends fits => exact .ends (early.trans reaches) ends fits
  | lasts reaches enough => exact .lasts (early.trans reaches) (by omega)

theorem fewer {less : Nat} {result : EStateM.Result Halt State α}
    (follows : e.Follows least after left run result) (fewer : less ≤ least) :
    e.Follows less after left run result := by
  intro holds
  cases follows holds with
  | goesOn reaches fits => exact .goesOn reaches fits
  | ends reaches ends fits => exact .ends reaches ends fits
  | lasts reaches enough => exact .lasts reaches (fewer.trans enough)

/-- A step makes a run last longer. -/
theorem longer {result : EStateM.Result Halt State α} (moves : e.next run = .inl later)
    (late : e.Follows least after left later result) :
    e.Follows (least + 1) after left run result :=
  late.reaches (.single moves)

theorem step {result : EStateM.Result Halt State α} (moves : e.next run = .inl later)
    (late : e.Follows least after left later result) :
    e.Follows least after left run result :=
  (late.longer moves).fewer (Nat.le_add_right _ _)

/-- Where an evaluation has been followed, the run may go on to a place that fits it better. -/
theorem onward {result : EStateM.Result Halt State α} {between after : α → State → Run → Prop}
    (early : e.Follows least between left run result)
    (late : ∀ value state later, between value state later →
      e.Follows least after left later (.ok value state)) :
    e.Follows least after left run result := by
  intro holds
  cases early holds with
  | goesOn reaches fits =>
      exact ((late _ _ _ fits).reaches reaches).fewer (Nat.le_add_right _ _) holds
  | ends reaches ends fits => exact .ends reaches ends fits
  | lasts reaches enough => exact .lasts reaches enough

/-- What is evaluated in sequence is followed in sequence. -/
theorem bind {first : Eval α} {following : α → Eval β} {between : α → State → Run → Prop}
    {after : β → State → Run → Prop} {state : State}
    (early : e.Follows least between left run (first state))
    (late : ∀ value state later, between value state later →
      e.Follows least after left later (following value state)) :
    e.Follows least after left run ((first >>= following) state) := by
  intro holds
  have come := early holds
  simp only [Bind.bind, EStateM.bind]
  generalize first state = result at come
  cases come with
  | @goesOn value middle count later reaches fits =>
      exact ((late value middle later fits).reaches reaches).fewer (Nat.le_add_right _ _) holds
  | ends reaches ends fits => exact .ends reaches ends fits
  | lasts reaches enough => exact .lasts reaches enough

/-- A step with a fault is followed by what a report of it makes of the run. -/
theorem report {machine : Machine} {fault : Fault} {state : State}
    {after : PUnit → State → Run → Prop} (inside : run.machine.ip < e.unit.opcodes.size)
    (steps : Machine.step e.unit e.registry run.machine = .fault machine fault)
    (faults : run.faults = state.faults)
    (stopped : left (state.faulted fault) (run.faulted machine fault))
    (mild : fault.kind.fatal = false →
      after ⟨⟩ (state.faulted fault) (run.faulted machine fault)) :
    e.Follows least after left run (Meaning.report e.policy fault state) := by
  have moves : e.next run =
      if fault.kind.fatal || !e.policy (fault :: run.faults) then
        .inr (.stopped, run.faulted machine fault)
      else .inl (run.faulted machine fault) := by
    rw [Execution.next, Run.next, if_pos inside, steps]
  rw [faults] at moves
  unfold Meaning.report
  simp only
  split
  · rename_i refused
    rw [if_pos refused] at moves
    exact fun _ => .ends (.refl run) moves stopped
  · rename_i allowed
    rw [if_neg allowed] at moves
    refine step moves (pure (mild ?_))
    simp only [Bool.or_eq_true, not_or, Bool.not_eq_true] at allowed
    exact allowed.1

/-- A step that crashes ends the run as the evaluation is ended. -/
theorem crash {machine : Machine} {crash : Crash} {state : State}
    (inside : run.machine.ip < e.unit.opcodes.size)
    (steps : Machine.step e.unit e.registry run.machine = .crash machine crash)
    (crashed : left state { run with machine }) :
    e.Follows least after left run (.error (.crashed crash) state) := by
  have moves : e.next run = .inr (.crashed crash, { run with machine }) := by
    rw [Execution.next, Run.next, if_pos inside, steps]
  exact fun _ => .ends (.refl run) moves crashed

end Follows

end Execution

end Lehce.Meaning
