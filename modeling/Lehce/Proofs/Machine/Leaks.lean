import Lehce.Proofs.Machine.Safety

/-!
# No operand is left behind

Where a statement of a function starts, its activation has no operands. Where a statement in a
loop or the condition of the loop starts, there are as many operands as when the loop was
entered. And a call that is over has replaced its arguments by its result, if that is used.
-/

namespace Lehce

namespace Machine

open Code (Instruction Mark Range Site)

variable {unit : Code.Unit} {registry : Option Registry} {listing : List (Nat × Instruction)}
  {marks : List Mark} {results : Nat} {owner : Option FunctionRef} {m after : Machine}

/-- A step with which a run goes on, if not without a fault then after one that is not fatal. -/
inductive Goes (unit : Code.Unit) (registry : Option Registry) (m after : Machine) : Prop where
  | done (inside : m.ip < unit.opcodes.size) (steps : step unit registry m = .done after)
  | fault (inside : m.ip < unit.opcodes.size) {fault : Fault} (mild : fault.kind.fatal = false)
      (steps : step unit registry m = .fault after fault)

/-- The machines through which runs may go. -/
abbrev Comes (unit : Code.Unit) (registry : Option Registry) : Machine → Machine → Prop :=
  Relation.ReflTransGen (Goes unit registry)

/-- An activation of a loop goes on: when its frame is the innermost, it is inside the loop. -/
def Loops (unit : Code.Unit) (registry : Option Registry) (range : Range) (count : Nat) :
    Machine → Machine → Prop :=
  Relation.ReflTransGen fun before next => Goes unit registry before next ∧
    count ≤ next.frames.length ∧ (next.frames.length = count → range.Covers next.ip)

/-- A call is over when there are as many frames as before, after there have been more or at once. -/
def Completes (unit : Code.Unit) (registry : Option Registry) (m after : Machine) : Prop :=
  ∃ last, Relation.ReflTransGen (fun before next => Goes unit registry before next ∧
      m.frames.length < next.frames.length) m last ∧
    Goes unit registry last after ∧ after.frames.length = m.frames.length

theorem Goes.inside (goes : Goes unit registry m after) : m.ip < unit.opcodes.size := by
  cases goes <;> assumption

theorem Goes.moves (goes : Goes unit registry m after) : Moves unit registry m after := by
  cases goes with
  | done inside steps | fault inside _ steps => exact moves_of_step inside steps

theorem Comes.reachable (comes : Comes unit registry m after) : Reachable unit registry m after :=
  Relation.ReflTransGen.mono (fun _ _ goes => goes.moves) _ _ comes

/-- A step with which a run goes on keeps the machine balanced. -/
theorem Goes.rebalances (goes : Goes unit registry m after) (metered : unit.Metered listing marks)
    (balanced : Balanced unit listing marks results owner m)
    (sound : m.Sound (· ∈ unit.functions)) (honest : Registry.AllHonest registry) :
    ∃ mark ∈ marks, mark.offset = m.ip ∧
      Rebalances unit listing marks results mark m after := by
  rcases balanced.step_isSafe metered sound honest goes.inside with ⟨mark, marked, offset, safe⟩
  refine ⟨mark, marked, offset, ?_⟩
  cases goes with
  | done _ steps =>
      rw [steps] at safe
      exact safe
  | fault _ mild steps =>
      rw [steps] at safe
      rcases safe with overflow | ⟨_, rebalances⟩
      · rw [overflow] at mild
        cases mild
      · exact rebalances

theorem Comes.balanced (comes : Comes unit registry m after)
    (metered : unit.Metered listing marks)
    (balanced : ∃ results owner, Balanced unit listing marks results owner m)
    (sound : m.Sound (· ∈ unit.functions)) (honest : Registry.AllHonest registry) :
    ∃ results owner, Balanced unit listing marks results owner after := by
  induction comes with
  | refl => exact balanced
  | tail comes goes ih =>
      rcases ih with ⟨results, owner, middle⟩
      have middleSound := (Comes.reachable comes).sound sound honest metered.sound
      rcases goes.rebalances metered middle middleSound honest with
        ⟨_, _, _, more, owner, rebalanced, _⟩
      exact ⟨more, owner, rebalanced⟩

/-- A machine at a place without operands of its own has only its results. -/
theorem Balanced.height_eq (balanced : Balanced unit listing marks results owner m)
    (metered : unit.Metered listing marks) {offset : Nat} (place : m.ip = offset)
    (mark : ∃ mark ∈ marks, mark.offset = offset ∧ mark.height = 0) :
    m.operands.height = m.frame.base + kept results owner := by
  rcases mark with ⟨mark, marked, rfl, without⟩
  rcases balanced.height with ⟨height, known, operands⟩
  rw [place] at known
  rw [operands, metered.height_unique marked known, without]
  rfl

/-- In a function, what starts without operands has none above the base. -/
theorem Balanced.height_eq_base (balanced : Balanced unit listing marks results owner m)
    (metered : unit.Metered listing marks) {site : Site} (charts : unit.Charts listing marks site)
    (inFunction : site.inFunction = true) (place : m.ip = site.offset) :
    m.operands.height = m.frame.base := by
  rw [balanced.height_eq metered place charts.mark]
  cases owner with
  | some ref => rfl
  | none =>
      rcases charts.function inFunction with ⟨ref, member, covers⟩
      have belongs := balanced.belongs
      rw [place] at belongs
      exact (belongs ref member covers).elim

theorem Loops.within {range : Range} {count : Nat} (loops : Loops unit registry range count m after) :
    ReachableWithin unit registry count m after :=
  Relation.ReflTransGen.mono (fun _ _ step => ⟨step.1.moves, step.2.1⟩) _ _ loops

/-- Inside a loop of the top level the results of earlier statements stay as they are. -/
theorem Loops.balanced {range : Range}
    (loops : Loops unit registry range m.frames.length m after)
    (metered : unit.Metered listing marks)
    (tight : Code.IsTight marks range) (inCode : range.stop ≤ unit.opcodes.size)
    (balanced : Balanced unit listing marks results owner m) (starts : m.ip = range.start)
    (sound : m.Sound (· ∈ unit.functions)) (honest : Registry.AllHonest registry) :
    ∃ more owner, Balanced unit listing marks more owner after ∧
      (m.frames.length = 1 → more = results) := by
  suffices kept : (after.frames.length = m.frames.length → range.Covers after.ip) ∧
      after.Sound (· ∈ unit.functions) ∧
      ∃ more owner, Balanced unit listing marks more owner after ∧
        (m.frames.length = 1 → more = results) from kept.2.2
  induction loops with
  | refl =>
      exact ⟨fun _ => ⟨Nat.le_of_eq starts.symm, starts ▸ tight.nonempty⟩, sound, results, owner,
        balanced, fun _ => rfl⟩
  | @tail middle last _ step ih =>
      rcases ih with ⟨covers, middleSound, before, middleOwner, middleBalanced, same⟩
      rcases step with ⟨goes, _, lastCovers⟩
      rcases goes.rebalances metered middleBalanced middleSound honest with
        ⟨mark, marked, offset, more, lastOwner, lastBalanced, keeps⟩
      refine ⟨lastCovers, goes.moves.sound middleSound honest metered.sound, more, lastOwner,
        lastBalanced, fun top => ?_⟩
      rcases keeps with unchanged | ⟨alone, keeps | atEnd⟩
      · exact unchanged.trans (same top)
      · -- In a loop of the top level all values are dropped.
        have inLoop := covers (by rw [top, length_frames, frameCount, alone]; rfl)
        rw [← offset] at inLoop
        rw [tight.drops mark marked inLoop] at keeps
        cases keeps
      · -- The end of the code lies outside the loop.
        have ended := Run.ended_of_balanced metered lastBalanced (by omega)
        have inLoop := lastCovers (ended.2.trans top.symm)
        have before := inLoop.2
        omega

/-- In a loop there are as many operands as when it was entered. -/
theorem Loops.height_eq {limit : Nat} {range : Range} {site : Site}
    (loops : Loops unit registry range m.frames.length m after)
    (metered : unit.Metered listing marks) (charts : unit.Charts listing marks site)
    (member : range ∈ site.loops) (balanced : Balanced unit listing marks results owner m)
    (starts : m.ip = range.start) (orderly : Orderly unit limit m)
    (sound : m.Sound (· ∈ unit.functions)) (honest : Registry.AllHonest registry)
    (active : after.frames.length = m.frames.length) (place : after.ip = site.offset) :
    after.operands.height = m.operands.height := by
  rcases charts.loops range member with ⟨tight, inCode⟩
  rcases loops.balanced metered tight inCode balanced starts sound honest with
    ⟨more, afterOwner, afterBalanced, same⟩
  have continues := ((loops.within.isolates orderly).active (Nat.le_of_eq active.symm)).continues
    (by rw [active, frames, List.length_append]; rfl)
  rw [afterBalanced.height_eq metered place charts.mark,
    balanced.height_eq metered starts tight.starts, continues.base]
  have count : ∀ {x : Machine} {results : Nat} {owner : Option FunctionRef},
      Balanced unit listing marks results owner x → (owner = none ↔ x.frames.length = 1) := by
    intro x results owner balanced
    rw [balanced.calls.owner_eq_none_iff, length_frames, frameCount, List.reverse_eq_nil_iff]
    simp
  have owners : afterOwner = none ↔ owner = none := by
    rw [count afterBalanced, count balanced, active]
  cases owner with
  | none =>
      cases owners.2 rfl
      simp only [kept, same ((count balanced).1 rfl)]
  | some ref =>
      cases afterOwner with
      | none => cases owners.1 rfl
      | some other => rfl

/-- What a step can do with which a run goes on. -/
theorem Goes.effect (goes : Goes unit registry m after)
    (grounded : m.frame.base ≤ m.operands.height) :
    ∃ instruction outcome, Code.decode unit.opcodes m.ip = .ok instruction ∧
      Effect unit registry (m.passed instruction) instruction outcome ∧
      (outcome = .done after ∨ ∃ fault, fault.kind.fatal = false ∧ outcome = .fault after fault) := by
  have effect := step_effect registry grounded goes.inside
  have outcomes : step unit registry m = .done after ∨
      ∃ fault, fault.kind.fatal = false ∧ step unit registry m = .fault after fault := by
    cases goes with
    | done _ steps => exact .inl steps
    | fault _ mild steps => exact .inr ⟨_, mild, steps⟩
  generalize step unit registry m = outcome at effect outcomes
  cases effect with
  | executes reads effect => exact ⟨_, _, reads, effect, outcomes⟩
  | unreadable => simp at outcomes
  | unknown _ kind =>
      rcases outcomes with never | ⟨fault, mild, same⟩
      · cases never
      · cases same
        rw [kind] at mild
        cases mild

theorem Refused.fatal {instruction : Instruction} {kind : Fault.Kind}
    (refused : Refused unit m instruction kind) : kind.fatal = true := by
  cases refused <;> rfl

/-- A call is over at once, or its function is entered. -/
theorem Goes.call (goes : Goes unit registry m after)
    (grounded : m.frame.base ≤ m.operands.height) {slot : UInt16} {count : UInt8} {used : Bool}
    (reads : Code.decode unit.opcodes m.ip = .ok (.call slot count used)) :
    Works (.call slot count used) (m.passed (.call slot count used)) after ∨
      ∃ ref storage, Callable unit (m.passed (.call slot count used)) slot count ref storage ∧
        after = (m.passed (.call slot count used)).entered ref storage count.toNat used := by
  rcases goes.effect grounded with ⟨instruction, outcome, decoded, effect, outcomes⟩
  cases reads.symm.trans decoded
  rcases outcomes with rfl | ⟨fault, mild, rfl⟩
  · cases effect with
    | works works => exact .inl works
    | enters callable => exact .inr ⟨_, _, callable, rfl⟩
  · cases effect with
    | faults works => exact .inl works
    | refuses refused =>
        rw [refused.fatal] at mild
        cases mild

/-- When there are fewer frames than before, the innermost one has been left. -/
theorem Goes.leaves (goes : Goes unit registry m after)
    (grounded : m.frame.base ≤ m.operands.height)
    (fewer : after.frames.length < m.frames.length) :
    after.frames = m.callers.toList ∧
      after.operands.height = m.frame.base + (if m.frame.used then 1 else 0) := by
  have differs : after.callers ≠ m.callers := by
    intro callers
    rw [length_frames, length_frames, frameCount, frameCount, callers] at fewer
    omega
  rcases goes.effect grounded with ⟨instruction, outcome, _, effect, outcomes⟩
  rcases outcomes with rfl | ⟨fault, mild, rfl⟩
  · cases effect with
    | works works => exact (differs works.callers).elim
    | enters =>
        simp [length_frames, frameCount, entered, passed] at fewer
    | ends => exact (differs rfl).elim
    | @returns caller inner =>
        refine ⟨?_, ?_⟩
        · rw [(leave_fields caller _).2.1, ← callers_of_back inner]
          rfl
        · exact height_leave (m := m.passed .return_) grounded caller _
  · cases effect with
    | faults works => exact (differs works.callers).elim
    | refuses => exact (differs rfl).elim

/-- An activation is left with its base and its result, if that is used. -/
theorem Goes.height_left {limit : Nat} {first last : Machine} (goes : Goes unit registry last after)
    (orderly : Orderly unit limit first)
    (within : ReachableWithin unit registry first.frames.length first last)
    (fewer : after.frames.length + 1 = first.frames.length) :
    after.operands.height = first.frame.base + (if first.frame.used then 1 else 0) := by
  have reachable : Reachable unit registry first last :=
    Relation.ReflTransGen.mono (fun _ _ step => step.1) _ _ within
  have deep : first.frames.length ≤ last.frames.length := by
    rcases Relation.ReflTransGen.cases_tail within with rfl | ⟨_, _, step⟩
    · exact Nat.le_refl _
    · exact step.2
  rcases goes.leaves (reachable.orderly orderly).grounded_frame (by omega) with ⟨left, height⟩
  have innermost : last.frames.length = first.callers.toList.length + 1 := by
    rw [left] at fewer
    simp only [frames, List.length_append, List.length_singleton] at fewer ⊢
    omega
  have continues := ((within.isolates orderly).active deep).continues innermost
  rw [height, continues.base, continues.used]

/-- A call that is over has taken its arguments, and left its result if that is used. -/
theorem Completes.height_eq {limit : Nat} (completes : Completes unit registry m after)
    (orderly : Orderly unit limit m) {slot : UInt16} {count : UInt8} {used : Bool}
    (reads : Code.decode unit.opcodes m.ip = .ok (.call slot count used)) :
    after.operands.height + count.toNat = m.operands.height + (if used then 1 else 0) := by
  rcases completes with ⟨last, inner, ends, same⟩
  rcases Relation.ReflTransGen.cases_head inner with rfl | ⟨first, ⟨goes, more⟩, inner⟩
  · rcases ends.call orderly.grounded_frame reads with works | ⟨ref, storage, _, rfl⟩
    · exact works.height
    · simp [length_frames, frameCount, entered, passed] at same
  · have firstOrderly := (goes.moves.keeps orderly).1
    rcases goes.call orderly.grounded_frame reads with works | ⟨ref, storage, callable, entersEq⟩
    · rw [length_frames, length_frames, frameCount, frameCount, works.callers] at more
      exact (Nat.lt_irrefl _ more).elim
    · have depth : first.frames.length = m.frames.length + 1 := by
        simp [entersEq, length_frames, frameCount, entered, passed]
      have within : ReachableWithin unit registry first.frames.length first last :=
        Relation.ReflTransGen.mono (fun _ _ step => ⟨step.1.moves, by rw [depth]; exact step.2⟩)
          _ _ inner
      have left := ends.height_left firstOrderly within (by rw [same, depth])
      have enough := callable.enough
      simp only [entersEq, entered, passed] at left enough
      omega

/-- A run that has not been stopped has come to its machine. -/
theorem comes_advance (policy : Policy) (steps : Nat) (run : Run)
    (going : (Run.advance unit registry policy steps run).1 = .outOfSteps ∨
      (Run.advance unit registry policy steps run).1 = .finished) :
    Comes unit registry run.machine
      (Run.advance unit registry policy steps run).2.machine := by
  induction steps generalizing run with
  | zero => exact .refl
  | succ steps ih =>
      rw [Run.advance_succ] at going ⊢
      have advances := Run.advances_next unit registry policy run
      generalize run.next unit registry policy = outcome at advances going
      cases advances with
      | done inside steps => exact .head (.done inside steps) (ih _ going)
      | goesOn inside steps mild => exact .head (.fault inside mild steps) (ih _ going)
      | stops | unreadable | crashes => simp at going
      | finishes => exact .refl

end Machine

open Code (programSites)
open Machine (Comes Loops Completes)

/--
No run of a compiled program leaves operands behind, the first one or a later one. Every run
that is not stopped goes from machine to machine as told here.
-/
theorem Code.compiled_run_balanced {source : String} {program : Program} {natives : Code.Resolver}
    {unit : Code.Unit} {memory : Array Value} {heap : Heap} {registry : Option Registry}
    (read : Program.ofSource source = .ok program)
    (compiles : Code.compile natives program = .ok unit) (starts : unit.Starts memory heap)
    (honest : Registry.AllHonest registry) (callDepth stackSize : Int) (input : List Char) :
    let limits := Limits.ofInts callDepth stackSize
    let first := Machine.start limits memory { heap, input }
    (∀ policy steps,
      let (ending, run) := unit.run { registry, limits, policy, steps } memory { heap, input }
      ending = .outOfSteps ∨ ending = .finished → Comes unit registry first run.machine) ∧
    ∀ m, Comes unit registry first m →
      (∀ site ∈ programSites program, site.inFunction = true → m.ip = site.offset →
        m.operands.height = m.frame.base) ∧
      (∀ site ∈ programSites program, ∀ loop ∈ site.loops, m.ip = loop.start →
        ∀ after, Loops unit registry loop m.frames.length m after →
          after.frames.length = m.frames.length → after.ip = site.offset →
          after.operands.height = m.operands.height) ∧
      (∀ slot count used, Code.decode unit.opcodes m.ip = .ok (.call slot count used) →
        ∀ after, Completes unit registry m after →
          after.operands.height + count.toNat =
            m.operands.height + (if used then 1 else 0)) := by
  rcases Code.exists_metered read compiles with ⟨listing, marks, metered, charts⟩
  rcases metered.top with ⟨storage, top⟩
  rcases starts.sound metered top with ⟨size, memorySound, heapSound⟩
  refine ⟨fun policy steps going => Machine.comes_advance policy steps _ going, fun m comes => ?_⟩
  have startSound : (Machine.start (.ofInts callDepth stackSize) memory { heap, input }).Sound
      (· ∈ unit.functions) := Machine.within_start _ memorySound heapSound
  have sound := comes.reachable.sound startSound honest metered.sound
  have orderly := comes.reachable.orderly
    (Machine.orderly_start unit callDepth stackSize memory { heap, input })
  rcases comes.balanced metered ⟨0, none, Machine.balanced_start metered top size _ _⟩ startSound
    honest with ⟨results, owner, balanced⟩
  refine ⟨?_, ?_, ?_⟩
  · intro site member inFunction place
    exact balanced.height_eq_base metered (charts site member) inFunction place
  · intro site member loop inLoop enters after loops active place
    exact loops.height_eq metered (charts site member) inLoop balanced enters orderly sound honest
      active place
  · intro slot count used reads after completes
    exact completes.height_eq orderly reads

/-- Whether a step was done without a fault. -/
def Machine.Step.isDone : Machine.Step → Bool
  | .done _ => true
  | _ => false

theorem Machine.Step.eq_done_of_isDone {outcome : Machine.Step} (done : outcome.isDone = true) :
    outcome = .done outcome.machine := by
  cases outcome with
  | done m => rfl
  | _ => cases done

namespace Code

open Machine (Goes)

/-- A source with a loop in a function. -/
def loopingFunction : String := "fonk f(a):\n    döngü:\n        a\n        kır\nf(f)\n"

/-- What the source is compiled to. -/
def loopingUnit : Unit where
  opcodes := #[4, 17, 0, 1, 1, 0, 27, 4, 13, 0, 4, 3, 0, 1, 0, 0, 7, 1, 0, 0, 6, 0, 0, 1, 0]
  storages := #[⟨0, "", 0, #[.function ⟨"f", false, 3, 1, 1⟩], #[]⟩,
    ⟨1, "f", 1, #[.empty], #["a"]⟩]
  functions := [⟨"f", false, 3, 1, 1⟩]
  locations := #[⟨17, true, #[1]⟩, ⟨13, true, #[]⟩, ⟨13, true, #[8]⟩]

/-- The part of the code that is its loop. -/
def loopingRange : Range := ⟨3, 13⟩

/-- The memory of its top level. -/
def loopingMemory : Array Value := #[.function ⟨"f", false, 3, 1, 1⟩]

/-- The machine that runs it, after some steps. -/
def loopingMachine : Nat → Machine
  | 0 => .start (.ofInts 0 0) loopingMemory {}
  | steps + 1 => (Machine.step loopingUnit (some Natives.standard) (loopingMachine steps)).machine

theorem compileSource_loopingFunction :
    compileSource Natives.standard.resolve loopingFunction = .ok loopingUnit := by
  cbv

theorem goes_loopingMachine {steps : Nat} (few : steps < 8) :
    Goes loopingUnit (some Natives.standard) (loopingMachine steps)
      (loopingMachine (steps + 1)) := by
  have goesOn : ∀ steps < 8, (loopingMachine steps).ip < loopingUnit.opcodes.size ∧
      (Machine.step loopingUnit (some Natives.standard) (loopingMachine steps)).isDone = true := by
    decide +kernel
  rcases goesOn steps few with ⟨inside, done⟩
  exact .done inside (Machine.Step.eq_done_of_isDone done)

/-- What holds of each of some steps, they make a row of. -/
theorem row_loopingMachine {r : Machine → Machine → Prop} {first last : Nat} (le : first ≤ last)
    (each : ∀ steps, first ≤ steps → steps < last →
      r (loopingMachine steps) (loopingMachine (steps + 1))) :
    Relation.ReflTransGen r (loopingMachine first) (loopingMachine last) := by
  induction le with
  | refl => exact .refl
  | step le ih =>
      have before := ih fun steps behind inside => each steps behind (Nat.lt_succ_of_lt inside)
      exact before.tail (each _ le (Nat.lt_succ_self _))

theorem comes_loopingMachine {steps : Nat} (few : steps ≤ 8) :
    Comes loopingUnit (some Natives.standard) (loopingMachine 0) (loopingMachine steps) :=
  row_loopingMachine steps.zero_le fun _ _ inside => goes_loopingMachine (inside.trans_le few)

/-- The loop goes on from its start to its second statement. -/
theorem loops_loopingMachine : Loops loopingUnit (some Natives.standard) loopingRange
    (loopingMachine 3).frames.length (loopingMachine 3) (loopingMachine 5) := by
  have covered : ∀ steps < 5, 3 ≤ steps →
      (loopingMachine 3).frames.length ≤ (loopingMachine (steps + 1)).frames.length ∧
        loopingRange.start ≤ (loopingMachine (steps + 1)).ip ∧
        (loopingMachine (steps + 1)).ip < loopingRange.stop := by
    decide +kernel
  refine row_loopingMachine (by decide) fun steps behind inside => ?_
  rcases covered steps inside behind with ⟨deep, covers⟩
  exact ⟨goes_loopingMachine (by omega), deep, fun _ => covers⟩

/-- The call of the function is over when the source is. -/
theorem completes_loopingMachine : Completes loopingUnit (some Natives.standard)
    (loopingMachine 2) (loopingMachine 8) := by
  have deeper : ∀ steps < 7, 2 ≤ steps →
      (loopingMachine 2).frames.length < (loopingMachine (steps + 1)).frames.length := by
    decide +kernel
  refine ⟨loopingMachine 7, row_loopingMachine (by decide) fun steps behind inside => ?_,
    goes_loopingMachine (by decide), by decide +kernel⟩
  exact ⟨goes_loopingMachine (by omega), deeper steps inside behind⟩

/-- A statement of the function, the same one in its loop, and the call leave nothing behind. -/
theorem balanced_loopingFunction :
    ∃ program, Program.ofSource loopingFunction = .ok program ∧
      compile Natives.standard.resolve program = .ok loopingUnit ∧
      loopingUnit.Starts loopingMemory {} ∧ Registry.AllHonest (some Natives.standard) ∧
      (∃ site ∈ programSites program, site.inFunction = true ∧ loopingRange ∈ site.loops ∧
        (loopingMachine 5).ip = site.offset) ∧
      (loopingMachine 5).operands.height = (loopingMachine 5).frame.base ∧
      (loopingMachine 3).ip = loopingRange.start ∧
      Loops loopingUnit (some Natives.standard) loopingRange (loopingMachine 3).frames.length
        (loopingMachine 3) (loopingMachine 5) ∧
      (loopingMachine 5).operands.height = (loopingMachine 3).operands.height ∧
      decode loopingUnit.opcodes (loopingMachine 2).ip = .ok (.call 0 1 false) ∧
      Completes loopingUnit (some Natives.standard) (loopingMachine 2) (loopingMachine 8) ∧
      (loopingMachine 8).operands.height + 1 = (loopingMachine 2).operands.height := by
  have sites : (Program.ofSource loopingFunction).toOption.any (fun program =>
      decide (∃ site ∈ programSites program, site.inFunction = true ∧ loopingRange ∈ site.loops ∧
        (loopingMachine 5).ip = site.offset)) = true := by decide +kernel
  rcases exists_of_compileSource compileSource_loopingFunction with ⟨program, read, compiles⟩
  rw [read] at sites
  have exists_site := of_decide_eq_true sites
  rcases exists_site with ⟨site, member, inFunction, around, place⟩
  have starts : loopingUnit.Starts loopingMemory {} := .fresh (by cbv)
  have honest := Natives.allHonest_standard
  have balanced := (compiled_run_balanced read compiles starts honest 0 0 []).2
  have entered : (loopingMachine 3).ip = loopingRange.start := by decide +kernel
  have active : (loopingMachine 5).frames.length = (loopingMachine 3).frames.length := by
    decide +kernel
  have calls : decode loopingUnit.opcodes (loopingMachine 2).ip = .ok (.call 0 1 false) := by
    decide +kernel
  have statement := (balanced _ (comes_loopingMachine (by decide))).1 site member inFunction place
  have loop := (balanced _ (comes_loopingMachine (by decide))).2.1 site member _ around entered _
    loops_loopingMachine active place
  have call := (balanced _ (comes_loopingMachine (by decide))).2.2 0 1 false calls _
    completes_loopingMachine
  exact ⟨program, read, compiles, starts, honest, of_decide_eq_true sites, statement, entered,
    loops_loopingMachine, loop, calls, completes_loopingMachine, call⟩

end Code

end Lehce
