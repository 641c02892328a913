import Lehce.Proofs.Machine.Balance
import Lehce.Proofs.Machine.Reports

/-!
# Runs of compiled programs

The code of a compiled program never asks for what is not there: no operand is missing, no slot
lies outside the memory and no jump outside the code, whatever is read and however often the run
goes on after a fault. A run that is not stopped ends behind the code, in the top level.

The same holds of later runs, whose top level starts with the memory of an earlier one.
-/

namespace Lehce

/--
The memory with which the top level of a unit may start, and the lists and dictionaries that
there are: a fresh memory without any, or what an earlier run has left behind.
-/
inductive Code.Unit.Starts (unit : Code.Unit) : Array Value → Heap → Prop where
  | fresh {memory : Array Value} (fresh : unit.freshMemory? = some memory) :
      Starts unit memory {}
  | again {memory : Array Value} {heap : Heap} (earlier : Starts unit memory heap) (setup : Setup)
      (honest : Registry.AllHonest setup.registry) (input : List Char) :
      Starts unit (unit.run setup memory { heap, input }).2.machine.outermost.memory
        (unit.run setup memory { heap, input }).2.machine.host.heap

namespace Machine

open Code (Instruction Mark)

variable {unit : Code.Unit} {registry : Option Registry} {listing : List (Nat × Instruction)}
  {marks : List Mark} {m after : Machine}

theorem outermost_eq (m : Machine) : m.frames.head? = some m.outermost := by
  rw [frames, outermost, List.head?_append, List.head?_eq_getElem?, Array.getElem?_toList]
  cases m.callers[0]? <;> rfl

/-- An instruction does not change the size of the memory of the top level. -/
theorem Effect.memory_outermost {instruction : Instruction} {outcome : Step}
    (effect : Effect unit registry m instruction outcome) :
    outcome.machine.outermost.memory.size = m.outermost.memory.size := by
  have same : ∀ {after : Machine}, after.callers = m.callers →
      after.frame.memory.size = m.frame.memory.size →
      after.outermost.memory.size = m.outermost.memory.size := by
    intro after callers memory
    rw [outermost, outermost, callers]
    cases m.callers[0]? with
    | none => exact memory
    | some frame => rfl
  cases effect with
  | works works | faults works => exact same works.callers works.memory
  | crashesNative _ _ _ works => exact same works.callers works.memory
  | refuses | ends | crashesBinary | crashesCall => exact same rfl rfl
  | @enters slot count used ref storage callable =>
      have heads : (m.entered ref storage count.toNat used).frames.head? = m.frames.head? := by
        simp [frames, entered]
      rw [outermost_eq, outermost_eq] at heads
      exact congrArg (·.memory.size) (Option.some.inj heads)
  | @returns caller inner =>
      have heads : (leave m caller (m.peek 0)).frames.head? = m.frames.head? := by
        rw [(leave_fields caller (m.peek 0)).2.1, ← callers_of_back inner, frames,
          callers_of_back inner]
        simp
      rw [outermost_eq, outermost_eq] at heads
      exact congrArg (·.memory.size) (Option.some.inj heads)

theorem Moves.memory_outermost (moves : Moves unit registry m after)
    (grounded : m.frame.base ≤ m.operands.height) :
    after.outermost.memory.size = m.outermost.memory.size := by
  rcases moves with ⟨inside⟩
  have effect := step_effect registry grounded inside
  generalize step unit registry m = outcome at effect
  cases effect with
  | executes reads effect => exact effect.memory_outermost
  | unreadable | unknown => rfl

/-- Whatever a run of a compiled program may start with. -/
theorem balanced_start (metered : unit.Metered listing marks) {storage : Code.Storage}
    (top : unit.storages[0]? = some storage) {memory : Array Value}
    (size : memory.size = storage.size) (limits : Limits) (host : Host) :
    Balanced unit listing marks 0 none (start limits memory host) where
  calls := .top top (by simpa [start] using size) rfl
  belongs := by
    intro ref member
    rcases metered.exists_region member with ⟨skip, _, _, _, _, _, _, _, covers⟩
    have positive := skip.instruction.size_pos
    rw [covers]
    simp only [start]
    omega
  height := ⟨0, metered.starts, rfl⟩

end Machine

/-- If a fault is fatal, then for too many calls. -/
def Fault.IsTolerable (fault : Fault) : Prop :=
  fault.kind.fatal = true → fault.kind = .stackOverflow

namespace Run

open Code (Instruction Mark)
open Machine (Balanced Reachable Moves)

variable {unit : Code.Unit} {registry : Option Registry} {policy : Policy}
  {listing : List (Nat × Instruction)} {marks : List Mark} {first : Machine} {run : Run}

/-- What is left of a run, however it ended. -/
structure Remains (unit : Code.Unit) (registry : Option Registry) (first : Machine) (run : Run) :
    Prop where
  reached : Reachable unit registry first run.machine
  memory : run.machine.outermost.memory.size = first.outermost.memory.size
  tolerable : ∀ fault ∈ run.faults, fault.IsTolerable

/-- A run of a compiled program that goes on. -/
structure IsSafe (unit : Code.Unit) (registry : Option Registry)
    (listing : List (Nat × Instruction)) (marks : List Mark) (first : Machine) (run : Run) : Prop
    extends Remains unit registry first run where
  balanced : ∃ results owner, Balanced unit listing marks results owner run.machine

/-- A run of a compiled program that is over. -/
structure EndsWell (unit : Code.Unit) (registry : Option Registry) (first : Machine)
    (ending : Ending) (run : Run) : Prop extends Remains unit registry first run where
  finished : ending = .finished →
    run.machine.ip = unit.opcodes.size ∧ run.machine.frames.length = 1
  crashed : ∀ crash, ending = .crashed crash → ∃ m instruction, Reachable unit registry first m ∧
    Code.decode unit.opcodes m.ip = .ok instruction ∧ m.BreaksBy registry instruction crash

/-- A balanced machine whose pointer is not inside the code is at its end, in the top level. -/
theorem ended_of_balanced (metered : unit.Metered listing marks) {results : Nat}
    {owner : Option FunctionRef} {m : Machine}
    (balanced : Balanced unit listing marks results owner m)
    (outside : ¬m.ip < unit.opcodes.size) :
    m.ip = unit.opcodes.size ∧ m.frames.length = 1 := by
  have atEnd : m.ip = unit.opcodes.size := by
    rcases balanced.height with ⟨height, ⟨mark, member, offset, _⟩ | ⟨atEnd, _⟩, _⟩
    · have inside := metered.inside member
      have positive := mark.instruction.size_pos
      omega
    · exact atEnd
  have belongs := balanced.belongs
  rw [atEnd, metered.belongs_end_iff] at belongs
  have alone := balanced.calls.owner_eq_none_iff.1 belongs
  refine ⟨atEnd, ?_⟩
  rw [List.reverse_eq_nil_iff] at alone
  simp [Machine.frames, alone]

/-- A run of a compiled program goes on, or it ends well. -/
def Proceeds (unit : Code.Unit) (registry : Option Registry) (listing : List (Nat × Instruction))
    (marks : List Mark) (first : Machine) : Run ⊕ (Ending × Run) → Prop
  | .inl later => later.IsSafe unit registry listing marks first
  | .inr ended => ended.2.EndsWell unit registry first ended.1

theorem IsSafe.proceeds (safe : run.IsSafe unit registry listing marks first)
    (policy : Policy) (metered : unit.Metered listing marks)
    (sound : first.Sound (· ∈ unit.functions)) (honest : Registry.AllHonest registry) :
    Proceeds unit registry listing marks first (run.next unit registry policy) := by
  rcases safe.balanced with ⟨results, owner, balanced⟩
  -- What is known of a step before it is known how it ends.
  have taken : ∀ {outcome : Machine.Step}, run.machine.ip < unit.opcodes.size →
      Machine.step unit registry run.machine = outcome →
      (∃ mark ∈ marks, mark.offset = run.machine.ip ∧
        outcome.IsSafe unit registry listing marks results mark run.machine) ∧
      Reachable unit registry first outcome.machine ∧
      outcome.machine.outermost.memory.size = first.outermost.memory.size := by
    rintro _ inside rfl
    have moves := Machine.moves_of_step inside (rfl : Machine.step unit registry run.machine = _)
    exact ⟨balanced.step_isSafe metered (safe.reached.sound sound honest metered.sound) honest
      inside, safe.reached.tail moves, (moves.memory_outermost balanced.grounded).trans safe.memory⟩
  have advances := advances_next unit registry policy run
  generalize run.next unit registry policy = outcome at advances
  cases advances with
  | done inside steps =>
      rcases taken inside steps with ⟨⟨_, _, _, more, owner, rebalanced, _⟩, reached, memory⟩
      exact ⟨⟨reached, memory, safe.tolerable⟩, more, owner, rebalanced⟩
  | goesOn inside steps mild =>
      rcases taken inside steps with ⟨⟨_, _, _, overflow | ⟨_, more, owner, rebalanced, _⟩⟩,
        reached, memory⟩
      · rw [overflow] at mild
        cases mild
      · refine ⟨⟨reached, memory, List.forall_mem_cons.2 ⟨fun fatal => ?_, safe.tolerable⟩⟩, more,
          owner, rebalanced⟩
        rw [mild] at fatal
        cases fatal
  | stops inside steps =>
      rcases taken inside steps with ⟨⟨_, _, _, safeStep⟩, reached, memory⟩
      refine ⟨⟨reached, memory, List.forall_mem_cons.2 ⟨fun fatal => ?_, safe.tolerable⟩⟩, nofun,
        nofun⟩
      rcases safeStep with overflow | ⟨mild, _⟩
      · exact overflow
      · rw [mild] at fatal
        cases fatal
  | unreadable inside steps =>
      rcases taken inside steps with ⟨⟨_, _, _, never⟩, _⟩
      exact never.elim
  | crashes inside steps =>
      rcases taken inside steps with ⟨⟨mark, marked, offset, breaks⟩, reached, memory⟩
      have reads := metered.reads mark marked
      rw [offset] at reads
      refine ⟨⟨reached, memory, safe.tolerable⟩, nofun, ?_⟩
      rintro crash ⟨⟩
      exact ⟨run.machine, mark.instruction, safe.reached, reads, breaks⟩
  | finishes outside =>
      exact ⟨safe.toRemains, fun _ => ended_of_balanced metered balanced outside, nofun⟩

/-- A run of a compiled program ends well, for any number of steps. -/
theorem IsSafe.advance (safe : run.IsSafe unit registry listing marks first)
    (metered : unit.Metered listing marks) (sound : first.Sound (· ∈ unit.functions))
    (honest : Registry.AllHonest registry) (steps : Nat) :
    (Run.advance unit registry policy steps run).2.EndsWell unit registry first
      (Run.advance unit registry policy steps run).1 := by
  induction steps generalizing run with
  | zero =>
      rw [Run.advance]
      by_cases inside : run.machine.ip < unit.opcodes.size
      · rw [if_pos inside]
        refine ⟨safe.toRemains, ?_, ?_⟩ <;>
        · intros
          contradiction
      · rw [if_neg inside]
        rcases safe.balanced with ⟨results, owner, balanced⟩
        refine ⟨safe.toRemains, fun _ => ended_of_balanced metered balanced inside, ?_⟩
        intros
        contradiction
  | succ steps ih =>
      have proceeds := safe.proceeds policy metered sound honest
      rw [advance_succ]
      cases moves : run.next unit registry policy with
      | inl later =>
          rw [moves] at proceeds
          exact ih proceeds
      | inr ended =>
          rw [moves] at proceeds
          exact proceeds

end Run

open Code (Instruction Mark)

variable {unit : Code.Unit} {listing : List (Nat × Instruction)} {marks : List Mark}
  {memory : Array Value} {heap : Heap}

/-- A run that starts with a memory of the right size and sound values ends well. -/
theorem Code.Unit.run_endsWell (metered : unit.Metered listing marks) {storage : Code.Storage}
    (top : unit.storages[0]? = some storage) (size : memory.size = storage.size)
    (memorySound : ∀ value ∈ memory, value.Sound (· ∈ unit.functions))
    (heapSound : heap.Sound (· ∈ unit.functions)) (setup : Setup)
    (honest : Registry.AllHonest setup.registry) (input : List Char) :
    (unit.run setup memory { heap, input }).2.EndsWell unit setup.registry
      (Machine.start setup.limits memory { heap, input })
      (unit.run setup memory { heap, input }).1 := by
  have safe : Run.IsSafe unit setup.registry listing marks
      (Machine.start setup.limits memory { heap, input })
      { machine := Machine.start setup.limits memory { heap, input } } :=
    ⟨⟨.refl, rfl, by simp⟩, 0, none, Machine.balanced_start metered top size _ _⟩
  exact safe.advance metered (Machine.within_start _ memorySound heapSound) honest _

/-- What a top level starts with has the right size and sound values. -/
theorem Code.Unit.Starts.sound (starts : unit.Starts memory heap)
    (metered : unit.Metered listing marks) {storage : Code.Storage}
    (top : unit.storages[0]? = some storage) :
    memory.size = storage.size ∧ (∀ value ∈ memory, value.Sound (· ∈ unit.functions)) ∧
      heap.Sound (· ∈ unit.functions) := by
  induction starts with
  | fresh fresh =>
      rw [Code.Unit.freshMemory?, top] at fresh
      cases fresh
      refine ⟨by simp [Machine.freshMemory, Code.Storage.initialMemory, Code.Storage.size], ?_,
        Heap.within_empty⟩
      exact Machine.within_freshMemory metered.sound (Array.mem_of_getElem? top)
  | @again memory heap earlier setup honest input ih =>
      rcases ih with ⟨size, memorySound, heapSound⟩
      have ended := Code.Unit.run_endsWell metered top size memorySound heapSound setup honest input
      have sound := ended.reached.sound
        (Machine.within_start setup.limits memorySound heapSound) honest metered.sound
      refine ⟨?_, ?_, sound.heap⟩
      · rw [ended.memory]
        simpa [Machine.outermost, Machine.start] using size
      · refine sound.memory _ (List.mem_of_mem_head? ?_)
        rw [Machine.outermost_eq]
        rfl

/--
A run of a compiled program, the first one or a later one, never lacks an operand, a slot or a
place to jump to, whatever its registry, input, limits and policy. Its only fatal fault is that
of too many calls. When it finishes, it is behind the code and in the top level. It crashes only
by an operation that crashes on its operands, or by a native function that crashes itself or that
there is no registry for.
-/
theorem Code.compiled_run_endsWell {source : String} {program : Program} {natives : Code.Resolver}
    (read : Program.ofSource source = .ok program)
    (compiles : Code.compile natives program = .ok unit) (starts : unit.Starts memory heap)
    (setup : Setup) (honest : Registry.AllHonest setup.registry) (input : List Char) :
    let (ending, run) := unit.run setup memory { heap, input }
    (∀ fault ∈ run.faults,
      fault.kind ≠ .stackUnderflow ∧ fault.kind ≠ .invalidJumpTarget ∧
        fault.kind ≠ .invalidSlot ∧ (fault.kind.fatal = true → fault.kind = .stackOverflow)) ∧
    (ending = .finished →
      run.machine.ip = unit.opcodes.size ∧ run.machine.frames.length = 1) ∧
    (∀ crash, ending = .crashed crash → ∃ m instruction,
      Machine.Reachable unit setup.registry
        (Machine.start setup.limits memory { heap, input }) m ∧
      Code.decode unit.opcodes m.ip = .ok instruction ∧
      m.BreaksBy setup.registry instruction crash) := by
  rcases Code.exists_metered read compiles with ⟨listing, marks, metered, _⟩
  rcases metered.top with ⟨storage, topFound⟩
  rcases starts.sound metered topFound with ⟨size, memorySound, heapSound⟩
  have ended := Code.Unit.run_endsWell metered topFound size memorySound heapSound setup honest
    input
  refine ⟨fun fault member => ?_, ended.finished, ended.crashed⟩
  have tolerable := ended.tolerable fault member
  refine ⟨?_, ?_, ?_, tolerable⟩
  all_goals
    intro kind
    rw [Fault.IsTolerable, kind] at tolerable
    cases tolerable rfl

/-- The top level of a compiled program has a fresh memory. -/
theorem Code.exists_freshMemory {source : String} {program : Program} {natives : Code.Resolver}
    (read : Program.ofSource source = .ok program)
    (compiles : Code.compile natives program = .ok unit) :
    ∃ memory, unit.freshMemory? = some memory := by
  rcases Code.exists_metered read compiles with ⟨_, _, metered, _⟩
  rcases metered.top with ⟨storage, top⟩
  exact ⟨_, by rw [Code.Unit.freshMemory?, top]; rfl⟩

/-- A second run of a source with functions and loops, from what the first one left behind. -/
theorem Code.endsWell_nestedFunctions :
    ∃ program unit memory,
      Program.ofSource Code.nestedFunctions = .ok program ∧
      Code.compile Natives.standard.resolve program = .ok unit ∧
      unit.freshMemory? = some memory ∧ Registry.AllHonest (some Natives.standard) ∧
      let first := (unit.run { registry := some Natives.standard } memory {}).2.machine
      let second := unit.run { registry := some Natives.standard } first.outermost.memory
        { heap := first.host.heap }
      second.1 = .finished →
        second.2.machine.ip = unit.opcodes.size ∧ second.2.machine.frames.length = 1 := by
  rcases Program.exists_ofSource Code.nestedFunctions
    (Code.WellScoped Natives.standard.resolve) (by decide +kernel) with ⟨program, read, wellScoped⟩
  rcases Code.exists_unit (Program.isShaped_ofSource read) wellScoped with ⟨unit, compiles⟩
  rcases Code.exists_freshMemory read compiles with ⟨memory, fresh⟩
  have honest := Natives.allHonest_standard
  have starts := Code.Unit.Starts.again (.fresh fresh) { registry := some Natives.standard } honest []
  exact ⟨program, unit, memory, read, compiles, fresh, honest, (Code.compiled_run_endsWell read compiles
    starts { registry := some Natives.standard } honest []).2.1⟩

end Lehce
