import Lehce.Machine.Run

/-!
# Runs step by step

`Run.next` is what one step of a run comes to: the run goes on, or it ends. A run that
reaches another one behaves from there on as the other does, and its faults stay: those
of a later run extend those of an earlier one.
-/

namespace Lehce.Run

variable {unit : Code.Unit} {registry : Option Registry} {policy : Policy}

/-- A run after a fault. -/
def faulted (run : Run) (machine : Machine) (fault : Fault) : Run where
  machine := machine
  faults := fault :: run.faults
  log := ⟨fault, run.machine.ip, fault.kind.fatal⟩ :: run.log

/-- One step of a run, or how it ends. -/
def next (unit : Code.Unit) (registry : Option Registry) (policy : Policy) (run : Run) :
    Run ⊕ (Ending × Run) :=
  if run.machine.ip < unit.opcodes.size then
    match Machine.step unit registry run.machine with
    | .done machine => .inl { run with machine }
    | .unreadable machine fault =>
      .inr (.stopped, { run with machine, faults := fault :: run.faults })
    | .fault machine fault =>
      if fault.kind.fatal || !policy (fault :: run.faults) then
        .inr (.stopped, run.faulted machine fault)
      else .inl (run.faulted machine fault)
    | .crash machine crash => .inr (.crashed crash, { run with machine })
  else .inr (.finished, run)

/-- What one step of a run can come to. -/
inductive Advances (unit : Code.Unit) (registry : Option Registry) (policy : Policy) (run : Run) :
    Run ⊕ (Ending × Run) → Prop where
  | done {machine : Machine} (inside : run.machine.ip < unit.opcodes.size)
      (steps : Machine.step unit registry run.machine = .done machine) :
      Advances unit registry policy run (.inl { run with machine })
  | goesOn {machine : Machine} {fault : Fault} (inside : run.machine.ip < unit.opcodes.size)
      (steps : Machine.step unit registry run.machine = .fault machine fault)
      (mild : fault.kind.fatal = false) (allowed : policy (fault :: run.faults) = true) :
      Advances unit registry policy run (.inl (run.faulted machine fault))
  | stops {machine : Machine} {fault : Fault} (inside : run.machine.ip < unit.opcodes.size)
      (steps : Machine.step unit registry run.machine = .fault machine fault)
      (refused : fault.kind.fatal = true ∨ policy (fault :: run.faults) = false) :
      Advances unit registry policy run (.inr (.stopped, run.faulted machine fault))
  | unreadable {machine : Machine} {fault : Fault} (inside : run.machine.ip < unit.opcodes.size)
      (steps : Machine.step unit registry run.machine = .unreadable machine fault) :
      Advances unit registry policy run
        (.inr (.stopped, { run with machine, faults := fault :: run.faults }))
  | crashes {machine : Machine} {crash : Crash} (inside : run.machine.ip < unit.opcodes.size)
      (steps : Machine.step unit registry run.machine = .crash machine crash) :
      Advances unit registry policy run (.inr (.crashed crash, { run with machine }))
  | finishes (outside : ¬run.machine.ip < unit.opcodes.size) :
      Advances unit registry policy run (.inr (.finished, run))

/-- A run reaches another one in a number of steps. -/
inductive Reaches (unit : Code.Unit) (registry : Option Registry) (policy : Policy) :
    Nat → Run → Run → Prop where
  | refl (run : Run) : Reaches unit registry policy 0 run run
  | step {count : Nat} {first middle last : Run}
      (moves : first.next unit registry policy = .inl middle)
      (later : Reaches unit registry policy count middle last) :
      Reaches unit registry policy (count + 1) first last

theorem advance_succ (steps : Nat) (run : Run) :
    advance unit registry policy (steps + 1) run =
      match run.next unit registry policy with
      | .inl later => advance unit registry policy steps later
      | .inr ended => ended := by
  rw [advance, next]
  by_cases inside : run.machine.ip < unit.opcodes.size
  · simp only [inside, if_true]
    cases Machine.step unit registry run.machine with
    | done machine | unreadable machine fault | crash machine crash => rfl
    | fault machine fault =>
        simp only [faulted]
        split <;> rfl
  · simp only [inside, if_false]

theorem advance_of_ends {run : Run} {ended : Ending × Run} (steps : Nat)
    (ends : run.next unit registry policy = .inr ended) :
    advance unit registry policy (steps + 1) run = ended := by
  rw [advance_succ, ends]

/-- A run that is over stays as it is, however many steps it is given. -/
theorem advance_of_le {run : Run} {steps more : Nat}
    (known : (advance unit registry policy steps run).1 ≠ .outOfSteps) (fewer : steps ≤ more) :
    advance unit registry policy more run = advance unit registry policy steps run := by
  induction steps generalizing run more with
  | zero =>
      have outside : ¬run.machine.ip < unit.opcodes.size := fun inside =>
        known (by rw [advance, if_pos inside])
      have ends : run.next unit registry policy = .inr (.finished, run) := by
        rw [next, if_neg outside]
      rw [advance, if_neg outside]
      cases more with
      | zero => rw [advance, if_neg outside]
      | succ more => exact advance_of_ends more ends
  | succ steps ih =>
      obtain ⟨more, rfl⟩ : ∃ others, more = others + 1 := ⟨more - 1, by omega⟩
      rw [advance_succ] at known ⊢
      rw [advance_succ]
      cases moves : run.next unit registry policy with
      | inr ended => rfl
      | inl later =>
          rw [moves] at known
          exact ih known (Nat.le_of_succ_le_succ fewer)

theorem advances_next (unit : Code.Unit) (registry : Option Registry) (policy : Policy)
    (run : Run) : Advances unit registry policy run (run.next unit registry policy) := by
  rw [next]
  split
  · rename_i inside
    split
    · rename_i machine steps
      exact .done inside steps
    · rename_i machine fault steps
      exact .unreadable inside steps
    · rename_i machine fault steps
      split
      · rename_i refused
        simp only [Bool.or_eq_true, Bool.not_eq_true'] at refused
        exact .stops inside steps refused
      · rename_i allowed
        simp only [Bool.or_eq_true, not_or, Bool.not_eq_true, Bool.not_eq_false'] at allowed
        exact .goesOn inside steps allowed.1 allowed.2
    · rename_i machine steps
      exact .crashes inside steps
  · rename_i outside
    exact .finishes outside

/-- A run that goes on has its instruction pointer inside the code. -/
theorem ip_lt_of_next {run later : Run} (moves : run.next unit registry policy = .inl later) :
    run.machine.ip < unit.opcodes.size := by
  have advances := advances_next unit registry policy run
  rw [moves] at advances
  cases advances <;> assumption

theorem faults_of_next {run later : Run} (moves : run.next unit registry policy = .inl later) :
    run.faults <:+ later.faults := by
  have advances := advances_next unit registry policy run
  rw [moves] at advances
  cases advances with
  | done => exact List.suffix_refl _
  | goesOn => exact List.suffix_cons _ _

theorem faults_of_ends {run : Run} {ended : Ending × Run}
    (ends : run.next unit registry policy = .inr ended) : run.faults <:+ ended.2.faults := by
  have advances := advances_next unit registry policy run
  rw [ends] at advances
  cases advances with
  | stops | unreadable => exact List.suffix_cons _ _
  | crashes | finishes => exact List.suffix_refl _

/-- A run that was stopped has a fault. -/
theorem faults_of_stopped {run later : Run} {steps : Nat}
    (stopped : advance unit registry policy steps run = (.stopped, later)) : later.faults ≠ [] := by
  induction steps generalizing run with
  | zero =>
      rw [advance] at stopped
      split at stopped <;> cases stopped
  | succ steps ih =>
      rw [advance_succ] at stopped
      have advances := advances_next unit registry policy run
      cases moves : run.next unit registry policy with
      | inl middle =>
          rw [moves] at stopped
          exact ih stopped
      | inr ended =>
          rw [moves] at stopped advances
          simp only at stopped
          subst stopped
          cases advances <;> exact List.cons_ne_nil _ _

namespace Reaches

variable {count more : Nat} {first middle last : Run}

theorem single (moves : first.next unit registry policy = .inl last) :
    Reaches unit registry policy 1 first last := .step moves (.refl last)

theorem trans (early : Reaches unit registry policy count first middle)
    (late : Reaches unit registry policy more middle last) :
    Reaches unit registry policy (count + more) first last := by
  induction early with
  | refl =>
      rw [Nat.zero_add]
      exact late
  | step moves later ih =>
      rw [Nat.add_right_comm]
      exact .step moves (ih late)

theorem faults (reaches : Reaches unit registry policy count first last) :
    first.faults <:+ last.faults := by
  induction reaches with
  | refl => exact List.suffix_refl _
  | step moves later ih => exact (faults_of_next moves).trans ih

/-- From the run that is reached on, everything is as it is there. -/
theorem advance_add (reaches : Reaches unit registry policy count first last) (steps : Nat) :
    advance unit registry policy (count + steps) first =
      advance unit registry policy steps last := by
  induction reaches with
  | refl => rw [Nat.zero_add]
  | step moves later ih =>
      rw [Nat.add_right_comm, advance_succ, moves]
      exact ih

/-- With fewer steps the run is somewhere in between. -/
theorem advance_of_lt (reaches : Reaches unit registry policy count first last) {steps : Nat}
    (fewer : steps < count) :
    ∃ between, advance unit registry policy steps first = (.outOfSteps, between) ∧
      between.faults <:+ last.faults := by
  induction reaches generalizing steps with
  | refl => omega
  | @step count first middle last moves later ih =>
      cases steps with
      | zero =>
          refine ⟨first, ?_, (faults_of_next moves).trans later.faults⟩
          simp [advance, ip_lt_of_next moves]
      | succ steps =>
          rw [advance_succ, moves]
          exact ih (by omega)

/-- A run that ends does so for any number of steps that is large enough. -/
theorem advance_of_ends (reaches : Reaches unit registry policy count first last)
    {ended : Ending × Run} (ends : last.next unit registry policy = .inr ended) {steps : Nat}
    (enough : count < steps) : advance unit registry policy steps first = ended := by
  obtain ⟨rest, rfl⟩ : ∃ rest, steps = count + (rest + 1) := ⟨steps - count - 1, by omega⟩
  rw [reaches.advance_add, Run.advance_of_ends _ ends]

end Reaches

end Lehce.Run
