import Lehce.Proofs.Machine.Output
import Lehce.Proofs.Machine.Resemblance

/-!
# What the bounds of a run can change

The room that a stack starts with changes nothing: runs that differ in nothing else are alike
after every number of steps. The bound on calls can change one thing. With a higher bound a
run is alike as well, or the run with the lower bound stops at a call for its depth, at a
point that the other run passes.
-/

namespace Lehce

namespace Run

/-- Runs with alike machines and the same faults. -/
structure Alike (run other : Run) : Prop where
  machine : run.machine.Alike other.machine
  faults : other.faults = run.faults
  log : other.log = run.log

/-- Runs that are alike, of which the second one allows some more calls. -/
structure Shadows (more : Nat) (run other : Run) : Prop where
  machine : run.machine.Shadows more other.machine
  faults : other.faults = run.faults
  log : other.log = run.log

/-- Runs ended in the same way, or went on for the same number of steps, and are alike. -/
def EndAlike (ended other : Ending × Run) : Prop :=
  other.1 = ended.1 ∧ ended.2.Alike other.2

/-- A run is stopped with one more fault, otherwise as it was when it passed an instruction. -/
structure StopsAt (run : Run) (fault : Fault) (ended : Ending × Run) : Prop where
  ending : ended.1 = .stopped
  faults : ended.2.faults = fault :: run.faults
  machine : ({ ended.2.machine with ip := run.machine.ip } : Machine).Alike run.machine

/-- What one step makes of runs that are alike. -/
inductive Matches (more : Nat) (run : Run) :
    Run ⊕ (Ending × Run) → Run ⊕ (Ending × Run) → Prop where
  | goesOn {later other : Run} (shadows : later.Shadows more other) :
      Matches more run (.inl later) (.inl other)
  | ends {later other : Run} (ending : Ending) (shadows : later.Shadows more other) :
      Matches more run (.inr (ending, later)) (.inr (ending, other))
  | overflows {fault : Fault} {ended : Ending × Run} (other : Run ⊕ (Ending × Run))
      (short : 0 < more) (kind : fault.kind = .stackOverflow) (stops : run.StopsAt fault ended) :
      Matches more run (.inr ended) other

variable {unit : Code.Unit} {registry : Option Registry} {policy : Policy} {more : Nat}
  {run other : Run}

theorem Shadows.alike (shadows : run.Shadows more other) : run.Alike other :=
  ⟨shadows.machine.toAlike, shadows.faults, shadows.log⟩

theorem Shadows.faulted (shadows : run.Shadows more other) {machine otherMachine : Machine}
    (machines : machine.Shadows more otherMachine) (fault : Fault) :
    (run.faulted machine fault).Shadows more (other.faulted otherMachine fault) where
  machine := machines
  faults := by simp only [Run.faulted, shadows.faults]
  log := by simp only [Run.faulted, shadows.log, shadows.machine.ip]

theorem stopsAt_faulted (run : Run) (ip : Nat) (fault : Fault) :
    run.StopsAt fault (.stopped, run.faulted { run.machine with ip } fault) :=
  ⟨rfl, rfl, ⟨rfl, rfl, rfl, rfl, rfl⟩⟩

theorem next_matches (unit : Code.Unit) (registry : Option Registry) (policy : Policy)
    (shadows : run.Shadows more other) :
    Matches more run (run.next unit registry policy) (other.next unit registry policy) := by
  rcases Machine.step_matches unit registry shadows.machine with ⟨ip, steps⟩
  simp only [next, shadows.machine.ip, shadows.faults]
  split
  · generalize Machine.step unit registry run.machine = step at steps
    generalize Machine.step unit registry other.machine = otherStep at steps
    cases steps with
    | done machines => exact .goesOn ⟨machines, rfl, shadows.log⟩
    | unreadable machines fault =>
        exact .ends .stopped ⟨machines, rfl, shadows.log⟩
    | crash machines crash => exact .ends (.crashed crash) ⟨machines, rfl, shadows.log⟩
    | fault machines fault =>
        simp only
        split
        · exact .ends .stopped (shadows.faulted machines fault)
        · exact .goesOn (shadows.faulted machines fault)
    | @overflows fault otherStep short kind =>
        -- Too many calls are fatal, so the consumer is not asked whether to go on.
        have fatal : fault.kind.fatal = true := by
          rw [kind]
          rfl
        simp only [fatal, Bool.true_or, if_true]
        exact .overflows _ short kind (stopsAt_faulted run ip fault)
  · exact .ends .finished shadows

/-- After a number of steps in which both runs went on, the first one is refused a call. -/
structure Overflows (unit : Code.Unit) (registry : Option Registry) (policy : Policy)
    (first other : Run) (count : Nat) (fault : Fault) (reached : Run) : Prop where
  reaches : Reaches unit registry policy count other reached
  kind : fault.kind = .stackOverflow
  before : ∀ steps ≤ count, EndAlike (advance unit registry policy steps first)
    (advance unit registry policy steps other)
  stops : ∀ steps, count < steps →
    reached.StopsAt fault (advance unit registry policy steps first)

theorem endAlike_zero (shadows : run.Shadows more other) :
    EndAlike (advance unit registry policy 0 run) (advance unit registry policy 0 other) := by
  simp only [EndAlike, advance, shadows.machine.ip]
  exact ⟨trivial, shadows.alike⟩

/-- Where the other run is alike, a run that stops at the one stops at the other. -/
theorem StopsAt.of_alike {fault : Fault} {ended : Ending × Run} (stops : run.StopsAt fault ended)
    (alike : run.Alike other) : other.StopsAt fault ended where
  ending := stops.ending
  faults := by rw [stops.faults, alike.faults]
  machine := by
    have machine := stops.machine
    have same := alike.machine
    exact ⟨rfl, same.operands.trans machine.operands, same.frame.trans machine.frame,
      same.callers.trans machine.callers, same.host.trans machine.host⟩

/-- Two runs that are alike stay so for some steps, or the first one is refused a call. -/
theorem advance_matches (unit : Code.Unit) (registry : Option Registry) (policy : Policy)
    (steps : Nat) (shadows : run.Shadows more other) :
    EndAlike (advance unit registry policy steps run) (advance unit registry policy steps other) ∨
      (0 < more ∧ ∃ count fault reached,
        Overflows unit registry policy run other count fault reached) := by
  induction steps generalizing run other with
  | zero => exact .inl (endAlike_zero shadows)
  | succ steps ih =>
      have matching := next_matches unit registry policy shadows
      rw [advance_succ, advance_succ]
      generalize moves : run.next unit registry policy = outcome at matching
      generalize otherMoves : other.next unit registry policy = otherOutcome at matching
      cases matching with
      | ends ending ended => exact .inl ⟨rfl, ended.alike⟩
      | @goesOn later otherLater machines =>
          refine (ih machines).imp_right ?_
          rintro ⟨short, count, fault, reached, overflows⟩
          refine ⟨short, count + 1, fault, reached, .step otherMoves overflows.reaches,
            overflows.kind, ?_, ?_⟩
          · intro fewer within
            cases fewer with
            | zero => exact endAlike_zero shadows
            | succ fewer =>
                rw [advance_succ, advance_succ, moves, otherMoves]
                exact overflows.before fewer (by omega)
          · intro longer behind
            obtain ⟨rest, rfl⟩ : ∃ rest, longer = rest + 1 := ⟨longer - 1, by omega⟩
            rw [advance_succ, moves]
            exact overflows.stops rest (by omega)
      | @overflows fault ended _ short kind stops =>
          refine .inr ⟨short, 0, fault, other, .refl other, kind, ?_, ?_⟩
          · intro fewer within
            rw [Nat.le_zero.1 within]
            exact endAlike_zero shadows
          · intro longer behind
            obtain ⟨rest, rfl⟩ : ∃ rest, longer = rest + 1 := ⟨longer - 1, by omega⟩
            rw [advance_of_ends rest moves]
            exact stops.of_alike shadows.alike

/-- The faults of a run stay, however long it goes on. -/
theorem faults_advance (steps : Nat) (run : Run) :
    run.faults <:+ (advance unit registry policy steps run).2.faults := by
  induction steps generalizing run with
  | zero => exact List.suffix_refl _
  | succ steps ih =>
      rw [advance_succ]
      cases moves : run.next unit registry policy with
      | inl later => exact (faults_of_next moves).trans (ih later)
      | inr ended => exact faults_of_ends moves

end Run

open Run (EndAlike Overflows)

/-- Where a run with some limits is after a number of steps, or how it ended before. -/
def Code.Unit.runWithin (unit : Code.Unit) (setup : Setup) (memory : Array Value) (host : Host)
    (limits : Limits) (steps : Nat) : Ending × Run :=
  unit.run { setup with limits, steps } memory host

/-- The start of a run with some limits. -/
def Run.start (limits : Limits) (memory : Array Value) (host : Host) : Run where
  machine := Machine.start limits memory host

theorem Run.shadows_start (depth more size otherSize : Nat) (memory : Array Value) (host : Host) :
    (Run.start ⟨depth, size⟩ memory host).Shadows more
      (Run.start ⟨depth + more, otherSize⟩ memory host) :=
  ⟨⟨⟨rfl, rfl, rfl, rfl, rfl⟩, rfl⟩, rfl, rfl⟩

/--
The bounds of a run show in nothing but the fault of too many calls, whatever the code.
Runs that differ in the room on their stacks are alike after every number of steps. A run with
a higher bound on calls is alike as well; or the run with the lower bound is refused a call, and
all that it did before, with its faults and its output, is the beginning of the other run.
-/
theorem Code.Unit.run_bounds (unit : Code.Unit) (setup : Setup) (memory : Array Value)
    (host : Host) (depth : Nat) :
    (∀ size otherSize steps, EndAlike
      (unit.runWithin setup memory host ⟨depth, size⟩ steps)
      (unit.runWithin setup memory host ⟨depth, otherSize⟩ steps)) ∧
    ∀ size higher, depth ≤ higher →
      (∀ steps, EndAlike
        (unit.runWithin setup memory host ⟨depth, size⟩ steps)
        (unit.runWithin setup memory host ⟨higher, size⟩ steps)) ∨
      ∃ count fault reached,
        Overflows unit setup.registry setup.policy (Run.start ⟨depth, size⟩ memory host)
          (Run.start ⟨higher, size⟩ memory host) count fault reached ∧
        ∀ steps, count ≤ steps →
          reached.faults <:+ (unit.runWithin setup memory host ⟨higher, size⟩ steps).2.faults ∧
          (Registry.AllAppend setup.registry → reached.machine.host.Writes
            (unit.runWithin setup memory host ⟨higher, size⟩ steps).2.machine.host) := by
  constructor
  · intro size otherSize steps
    rcases Run.advance_matches unit setup.registry setup.policy steps
      (Run.shadows_start depth 0 size otherSize memory host) with alike | ⟨short, _⟩
    · exact alike
    · exact absurd short (Nat.lt_irrefl 0)
  · intro size higher deeper
    obtain ⟨more, rfl⟩ : ∃ more, higher = depth + more := ⟨higher - depth, by omega⟩
    have shadows := Run.shadows_start depth more size size memory host
    by_cases overflow : ∃ count fault reached,
        Overflows unit setup.registry setup.policy (Run.start ⟨depth, size⟩ memory host)
          (Run.start ⟨depth + more, size⟩ memory host) count fault reached
    · rcases overflow with ⟨count, fault, reached, overflows⟩
      refine .inr ⟨count, fault, reached, overflows, fun steps later => ?_⟩
      obtain ⟨rest, rfl⟩ : ∃ rest, steps = count + rest := ⟨steps - count, by omega⟩
      have goesOn := overflows.reaches.advance_add rest
      simp only [Code.Unit.runWithin, Code.Unit.run]
      change reached.faults <:+ (Run.advance _ _ _ (count + rest) (Run.start _ memory host)).2.faults ∧
        (_ → Host.Writes _
          (Run.advance _ _ _ (count + rest) (Run.start _ memory host)).2.machine.host)
      rw [goesOn]
      exact ⟨Run.faults_advance rest reached, fun appends => Run.writes_advance appends rest reached⟩
    · refine .inl fun steps => ?_
      rcases Run.advance_matches unit setup.registry setup.policy steps shadows with alike | ⟨_, overflows⟩
      · exact alike
      · exact absurd overflows overflow

/-- A call beside an operand, for which one call in progress leaves no room and two do. -/
theorem Run.overflows_nestedCall :
    let setup : Setup := { registry := none, policy := .upTo 2 }
    let memory := Machine.freshMemory Machine.nestedCall.storages[0]
    1 ≤ 2 ∧
      (Machine.nestedCall.runWithin setup memory {} ⟨2, 1⟩ 20).1 = .finished ∧
      ∃ count fault reached, Overflows Machine.nestedCall none (.upTo 2)
        (Run.start ⟨1, 1⟩ memory {}) (Run.start ⟨2, 1⟩ memory {}) count fault reached := by
  intro setup memory
  have finished : (Machine.nestedCall.runWithin setup memory {} ⟨2, 1⟩ 20).1 = .finished := by
    decide +kernel
  have stopped : (Machine.nestedCall.runWithin setup memory {} ⟨1, 1⟩ 20).1 = .stopped := by
    decide +kernel
  refine ⟨by decide, finished, ?_⟩
  rcases (Machine.nestedCall.run_bounds setup memory {} 1).2 1 2 (by decide) with
    alike | ⟨count, fault, reached, overflows, _⟩
  · have same := (alike 20).1
    rw [finished, stopped] at same
    cases same
  · exact ⟨count, fault, reached, overflows⟩

end Lehce
