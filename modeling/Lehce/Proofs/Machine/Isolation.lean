import Mathlib.Logic.Relation
import Lehce.Proofs.Machine.Effects
import Lehce.Proofs.Machine.Steps

/-!
# Order and isolation of frames

What holds of every machine that runs any code at all. `Orderly` is the invariant: the
frames are not too many, their bases do not decrease and lie within the operands, all
cells above the operands are unused, and the instruction pointer is within the code.

A frame is isolated from the activations inside it. Whatever these do, it keeps its
memory, and the operands below the base of the innermost frame keep theirs, until that
frame is left. Contents of shared lists and dictionaries are no part of a frame.
-/

namespace Lehce

theorem Stack.values_reverse (stack : Stack) :
    stack.values.reverse = stack.cells.toList.take stack.height := by
  rw [values, List.reverse_reverse]

/-- Stacks that agree below some operands have the same cells there. -/
theorem Stack.cells_eq_of_drop {stack other : Stack} (taken left : Nat)
    (below : other.values.drop left = stack.values.drop taken)
    (heights : other.height + taken = stack.height + left) {floor : Nat}
    (enough : floor + taken ≤ stack.height) :
    ∀ place < floor, other.cells[place]? = stack.cells[place]? := by
  intro place low
  have lists := congrArg (fun values => values.reverse[place]?) below
  simp only [List.reverse_drop, Stack.values_reverse, Stack.length_values] at lists
  rwa [List.getElem?_take_of_lt (by omega), List.getElem?_take_of_lt (by omega),
    List.getElem?_take_of_lt (by omega), List.getElem?_take_of_lt (by omega),
    Array.getElem?_toList, Array.getElem?_toList] at lists

/-- Two frames are of one activation: they differ in nothing but their memory. -/
structure Frame.Continues (frame later : Frame) : Prop where
  base : later.base = frame.base
  returnTo : later.returnTo = frame.returnTo
  used : later.used = frame.used

theorem Frame.Continues.refl (frame : Frame) : frame.Continues frame := ⟨rfl, rfl, rfl⟩

theorem Frame.Continues.trans {frame later last : Frame} (first : frame.Continues later)
    (second : later.Continues last) : frame.Continues last :=
  ⟨second.base.trans first.base, second.returnTo.trans first.returnTo,
    second.used.trans first.used⟩

namespace Machine

open Code (Instruction)

/-- The machine that a step leaves behind, however it ended. -/
def Step.machine : Step → Machine
  | .done m | .fault m _ | .unreadable m _ | .crash m _ => m

/-- The frames of all calls in progress, the outermost first. -/
def frames (m : Machine) : List Frame := m.callers.toList ++ [m.frame]

/-- One machine is left behind by a step of another one. -/
inductive Moves (unit : Code.Unit) (registry : Option Registry) (m : Machine) : Machine → Prop where
  | moves (inside : m.ip < unit.opcodes.size) :
      Moves unit registry m (step unit registry m).machine

/-- What holds of every machine that runs some code. -/
structure Orderly (unit : Code.Unit) (limit : Nat) (m : Machine) : Prop where
  callDepth : m.callDepth = limit
  nonempty : 1 ≤ m.frames.length
  shallow : m.frames.length ≤ limit
  bases : (m.frames.map (·.base)).Pairwise (· ≤ ·)
  grounded : ∀ frame ∈ m.frames, frame.base ≤ m.operands.height
  height : m.operands.height ≤ m.operands.cells.size
  clean : m.operands.Clean
  ip : m.ip ≤ unit.opcodes.size
  returns : ∀ frame ∈ m.frames.tail, 0 ≤ frame.returnTo ∧ frame.returnTo ≤ unit.opcodes.size

/-- An activation with some callers is one of those in progress. -/
def IsActive (callers : List Frame) (frame : Frame) (m : Machine) : Prop :=
  ∃ later, frame.Continues later ∧ callers ++ [later] <+: m.frames

/--
From one machine to another, what does not belong to the innermost frame is left alone;
and that frame keeps its base and where it returns to, unless it is left.
-/
structure Isolates (m after : Machine) : Prop where
  frames : m.callers.toList <+: after.frames
  cells : ∀ place < m.frame.base, after.operands.cells[place]? = m.operands.cells[place]?
  active : m.frames.length ≤ after.frames.length →
    IsActive m.callers.toList m.frame after

variable {unit : Code.Unit} {registry : Option Registry} {limit : Nat} {m after : Machine}

theorem length_frames (m : Machine) : m.frames.length = m.frameCount := by
  simp [frames, frameCount]

theorem Orderly.grounded_frame (orderly : Orderly unit limit m) :
    m.frame.base ≤ m.operands.height :=
  orderly.grounded m.frame (by simp [frames])

theorem Orderly.base_le_frame (orderly : Orderly unit limit m) {frame : Frame}
    (member : frame ∈ m.callers.toList) : frame.base ≤ m.frame.base := by
  have bases := orderly.bases
  rw [frames, List.map_append, List.pairwise_append] at bases
  exact bases.2.2 _ (List.mem_map_of_mem member) _ (by simp)

theorem mem_tail_append {front : List Frame} {frame last : Frame}
    (member : frame ∈ (front ++ [last]).tail) : frame ∈ front.tail ∨ (frame = last ∧ front ≠ []) := by
  cases front with
  | nil => simp at member
  | cons first rest =>
      rw [List.cons_append, List.tail_cons, List.mem_append, List.mem_singleton] at member
      rcases member with inFront | last
      · exact .inl inFront
      · exact .inr ⟨last, by simp⟩

/-- The innermost of some frames is replaced by one with the same base and return offset. -/
theorem Orderly.replace (orderly : Orderly unit limit m) (callers : after.callers = m.callers)
    (callDepth : after.callDepth = m.callDepth) (base : after.frame.base = m.frame.base)
    (returnTo : after.frame.returnTo = m.frame.returnTo)
    (grounded : m.frame.base ≤ after.operands.height) (clean : after.operands.Clean)
    (ip : after.ip ≤ unit.opcodes.size) : Orderly unit limit after where
  callDepth := callDepth.trans orderly.callDepth
  nonempty := by simp [frames]
  shallow := by
    have shallow := orderly.shallow
    rw [length_frames, frameCount] at shallow
    rwa [length_frames, frameCount, callers]
  bases := by
    have bases := orderly.bases
    rw [frames] at bases ⊢
    simpa [callers, base] using bases
  grounded := by
    intro frame member
    rw [frames, callers] at member
    rcases List.mem_append.1 member with outer | inner
    · exact Nat.le_trans (orderly.base_le_frame outer) grounded
    · rw [List.mem_singleton.1 inner, base]
      exact grounded
  height := after.operands.bounded
  clean := clean
  ip := ip
  returns := by
    intro frame member
    have returns := orderly.returns
    rw [frames, callers] at member
    rw [frames] at returns
    rcases mem_tail_append member with outer | ⟨rfl, inner⟩
    · exact returns frame (by rw [List.tail_append_of_ne_nil (by rintro same; simp [same] at outer)]
                              exact List.mem_append_left _ outer)
    · rw [returnTo]
      exact returns m.frame (by rw [List.tail_append_of_ne_nil inner]; simp)

theorem isActive_of_same (callers : after.callers = m.callers)
    (continues : m.frame.Continues after.frame) :
    IsActive m.callers.toList m.frame after :=
  ⟨after.frame, continues, by simp only [frames, callers, List.prefix_rfl]⟩

/-- When there are no frames inside that of an activation, it is the innermost. -/
theorem IsActive.continues {callers : List Frame} {frame : Frame}
    (active : IsActive callers frame m) (innermost : m.frames.length = callers.length + 1) :
    frame.Continues m.frame := by
  rcases active with ⟨later, continues, isPrefix⟩
  have whole := isPrefix.eq_of_length (by simp [innermost])
  rw [frames] at whole
  rw [← List.singleton_inj.1 (List.append_inj' whole rfl).2]
  exact continues

theorem Works.orderly {instruction : Instruction} (works : Works instruction m after)
    (orderly : Orderly unit limit m) (ip : after.ip ≤ unit.opcodes.size) :
    Orderly unit limit after := by
  have enough := works.enough
  have height := works.height
  exact orderly.replace works.callers works.callDepth works.base works.returnTo (by omega)
    (works.clean orderly.clean) ip

theorem Works.continues {instruction : Instruction} (works : Works instruction m after) :
    m.frame.Continues after.frame := ⟨works.base, works.returnTo, works.used⟩

theorem Works.isolates {instruction : Instruction} (works : Works instruction m after) :
    Isolates m after where
  frames := by
    rw [frames, works.callers]
    exact List.prefix_append _ _
  cells := Stack.cells_eq_of_drop _ _ works.below works.height works.enough
  active _ := isActive_of_same works.callers works.continues

/-- A function is entered with a frame of its own on top of the others. -/
theorem Orderly.entered (orderly : Orderly unit limit m) {ref : FunctionRef}
    {storage : Code.Storage} {slot : UInt16} {count : UInt8} {used : Bool}
    (callable : Callable unit m slot count ref storage) :
    Orderly unit limit (m.entered ref storage count.toNat used) := by
  have enough := callable.enough
  have entry := callable.entry
  have height : (m.entered ref storage count.toNat used).operands.height =
      m.operands.height - count.toNat := by
    simp [Machine.entered, Stack.height_drop]
  have framesEq : (m.entered ref storage count.toNat used).frames =
      m.frames ++ [(m.entered ref storage count.toNat used).frame] := by
    simp [frames, Machine.entered]
  have below : ∀ frame ∈ m.frames, frame.base ≤ m.operands.height - count.toNat := by
    intro frame member
    rw [frames] at member
    rcases List.mem_append.1 member with outer | inner
    · have lower := orderly.base_le_frame outer
      omega
    · rw [List.mem_singleton.1 inner]
      omega
  refine ⟨orderly.callDepth, ?_, ?_, ?_, ?_, Stack.bounded _, ?_, ?_, ?_⟩
  · simp [frames]
  · have depth := callable.depth
    rw [orderly.callDepth] at depth
    rw [framesEq, List.length_append, length_frames]
    exact depth
  · rw [framesEq, List.map_append, List.pairwise_append]
    refine ⟨orderly.bases, by simp, ?_⟩
    intro base member other otherMember
    rcases List.mem_map.1 member with ⟨frame, frameMember, rfl⟩
    rw [List.map_singleton, List.mem_singleton] at otherMember
    rw [otherMember]
    exact below frame frameMember
  · intro frame member
    rw [framesEq] at member
    rw [height]
    rcases List.mem_append.1 member with outer | inner
    · exact below frame outer
    · rw [List.mem_singleton.1 inner]
      exact Nat.le_refl _
  · exact orderly.clean.drop _
  · simp only [Machine.entered]
    omega
  · intro frame member
    rw [framesEq] at member
    rcases mem_tail_append member with outer | ⟨rfl, _⟩
    · exact orderly.returns frame outer
    · have ip := orderly.ip
      exact ⟨Int.natCast_nonneg _, Int.ofNat_le.2 ip⟩

theorem isolates_entered {ref : FunctionRef} {storage : Code.Storage} {slot : UInt16}
    {count : UInt8} {used : Bool} (callable : Callable unit m slot count ref storage) :
    Isolates m (m.entered ref storage count.toNat used) where
  frames := by
    rw [frames, Machine.entered, Array.toList_push, List.append_assoc]
    exact List.prefix_append _ _
  cells := by
    have enough := callable.enough
    refine Stack.cells_eq_of_drop count.toNat 0 (Stack.values_drop ..) ?_ enough
    rw [Stack.height_drop]
    omega
  active _ := by
    refine ⟨m.frame, .refl _, ?_⟩
    rw [frames, Machine.entered, Array.toList_push]
    exact List.prefix_append _ _

theorem callers_of_back {caller : Frame} (inner : m.callers.back? = some caller) :
    m.callers.toList = m.callers.pop.toList ++ [caller] := by
  rw [Array.toList_pop, ← Array.getLast?_toList] at *
  exact (List.dropLast_append_getLast? caller inner).symm

/-- The operands of a machine that goes back to a caller. -/
theorem values_leave (caller : Frame) (result : Value) :
    (leave m caller result).operands.values =
      (if m.frame.used then [result] else []) ++
        m.operands.values.drop (m.operands.height - m.frame.base) := by
  unfold leave
  simp only
  split
  · simp
  · simp

theorem height_leave (grounded : m.frame.base ≤ m.operands.height) (caller : Frame)
    (result : Value) : (leave m caller result).operands.height =
      m.frame.base + (if m.frame.used then 1 else 0) := by
  rw [← Stack.length_values, values_leave, List.length_append, List.length_drop,
    Stack.length_values]
  split <;> simp <;> omega

theorem leave_fields (caller : Frame) (result : Value) :
    (leave m caller result).ip = m.frame.returnTo.toNat ∧
      (leave m caller result).frames = m.callers.pop.toList ++ [caller] ∧
      (leave m caller result).callDepth = m.callDepth := by
  unfold leave
  simp only [frames]
  split <;> exact ⟨rfl, rfl, rfl⟩

theorem clean_leave (clean : m.operands.Clean) (caller : Frame) (result : Value) :
    (leave m caller result).operands.Clean := by
  unfold leave
  simp only
  split
  · exact (clean.truncate _).push _
  · exact clean.truncate _

/-- A frame is left for the one around it. -/
theorem Orderly.leave (orderly : Orderly unit limit m) {caller : Frame} (result : Value)
    (inner : m.callers.back? = some caller) :
    Orderly unit limit (leave m caller result) := by
  rcases leave_fields (m := m) caller result with ⟨ip, framesEq, callDepth⟩
  rw [← callers_of_back inner] at framesEq
  have grounded := orderly.grounded_frame
  have height : m.frame.base ≤ (Machine.leave m caller result).operands.height := by
    rw [height_leave grounded]
    omega
  have nonempty : m.callers.toList ≠ [] := by
    rw [callers_of_back inner]
    simp
  have bases := orderly.bases
  rw [frames, List.map_append, List.pairwise_append] at bases
  refine ⟨callDepth.trans orderly.callDepth, ?_, ?_, ?_, ?_, Stack.bounded _,
    clean_leave orderly.clean _ _, ?_, ?_⟩
  · rw [framesEq]
    exact List.length_pos_of_ne_nil nonempty
  · have shallow := orderly.shallow
    rw [frames, List.length_append] at shallow
    rw [framesEq]
    omega
  · rw [framesEq]
    exact bases.1
  · intro frame member
    rw [framesEq] at member
    exact Nat.le_trans (orderly.base_le_frame member) height
  · have returns := orderly.returns m.frame (by
      rw [frames, List.tail_append_of_ne_nil nonempty]
      simp)
    rw [ip]
    omega
  · intro frame member
    rw [framesEq] at member
    refine orderly.returns frame ?_
    rw [frames, List.tail_append_of_ne_nil nonempty]
    exact List.mem_append_left _ member

theorem isolates_leave {caller : Frame} (result : Value) (inner : m.callers.back? = some caller)
    (grounded : m.frame.base ≤ m.operands.height) :
    Isolates m (Machine.leave m caller result) where
  frames := by
    simp only [(leave_fields caller result).2.1, ← callers_of_back inner, List.prefix_rfl]
  cells := by
    have values := values_leave (m := m) caller result
    have heights := congrArg List.length values
    rw [Stack.length_values, List.length_append, List.length_drop, Stack.length_values] at heights
    refine Stack.cells_eq_of_drop (m.operands.height - m.frame.base)
      (if m.frame.used then [result] else []).length ?_ (by omega) (by omega)
    rw [values, List.drop_left]
  active longer := by
    rw [(leave_fields caller result).2.1, ← callers_of_back inner, frames, List.length_append] at longer
    simp only [List.length_singleton] at longer
    omega

theorem isolates_of_same (operands : after.operands = m.operands)
    (callers : after.callers = m.callers) (frame : after.frame = m.frame) :
    Isolates m after where
  frames := by
    rw [frames, callers]
    exact List.prefix_append _ _
  cells := by
    rw [operands]
    exact fun _ _ => rfl
  active _ := isActive_of_same callers (by rw [frame]; exact .refl _)

/-- An instruction that is read lies within the code. -/
theorem size_le_of_decode {code : Array UInt8} {offset : Nat} {instruction : Instruction}
    (reads : Code.decode code offset = .ok instruction) :
    offset + instruction.size ≤ code.size := by
  rcases Code.decode_eq_ok_iff.1 reads with ⟨op, _, room, rfl⟩
  rw [Code.size_instruction]
  exact room

theorem Orderly.passed (orderly : Orderly unit limit m) {instruction : Instruction}
    (reads : Code.decode unit.opcodes m.ip = .ok instruction) :
    Orderly unit limit (m.passed instruction) :=
  orderly.replace rfl rfl rfl rfl orderly.grounded_frame orderly.clean (size_le_of_decode reads)

/-- What an instruction keeps. -/
theorem Effect.keeps {instruction : Instruction} {outcome : Step}
    (effect : Effect unit registry m instruction outcome) (orderly : Orderly unit limit m) :
    Orderly unit limit outcome.machine ∧ Isolates m outcome.machine := by
  have ip := orderly.ip
  have refused : Orderly unit limit m ∧ Isolates m m := ⟨orderly, isolates_of_same rfl rfl rfl⟩
  cases effect with
  | works works goes =>
      refine ⟨works.orderly orderly ?_, works.isolates⟩
      rcases goes with ⟨_, next⟩ | ⟨_, inside⟩
      · rw [next]
        exact ip
      · exact inside
  | faults works goes =>
      refine ⟨works.orderly orderly ?_, works.isolates⟩
      rw [goes.2]
      exact ip
  | refuses => exact refused
  | enters callable => exact ⟨orderly.entered callable, isolates_entered callable⟩
  | returns inner =>
      exact ⟨orderly.leave _ inner, isolates_leave _ inner orderly.grounded_frame⟩
  | ends =>
      exact ⟨orderly.replace rfl rfl rfl rfl orderly.grounded_frame orderly.clean (Nat.le_refl _),
        isolates_of_same rfl rfl rfl⟩
  | @crashesBinary op _ enough =>
      have height : (m.drop 2).operands.height + 2 = m.operands.height := by
        rw [drop_operands, Stack.height_drop]
        omega
      have grounded : m.frame.base ≤ (m.drop 2).operands.height := by omega
      refine ⟨orderly.replace rfl rfl rfl rfl grounded (orderly.clean.drop 2) ip,
        List.prefix_append _ _, ?_, fun _ => isActive_of_same rfl (.refl _)⟩
      exact Stack.cells_eq_of_drop 2 0 (Stack.values_drop ..) height enough
  | crashesNative _ _ _ works _ stays =>
      exact ⟨works.orderly orderly (stays ▸ ip), works.isolates⟩
  | crashesCall => exact refused

/-- What a step keeps. -/
theorem Moves.keeps (moves : Moves unit registry m after) (orderly : Orderly unit limit m) :
    Orderly unit limit after ∧ Isolates m after := by
  rcases moves with ⟨inside⟩
  have effect := step_effect registry orderly.grounded_frame inside
  generalize step unit registry m = outcome at effect
  cases effect with
  | executes reads effect =>
      rcases effect.keeps (orderly.passed reads) with ⟨kept, frames, cells, active⟩
      exact ⟨kept, frames, cells, active⟩
  | unreadable => exact ⟨orderly, isolates_of_same rfl rfl rfl⟩
  | unknown =>
      exact ⟨orderly.replace rfl rfl rfl rfl orderly.grounded_frame orderly.clean inside,
        isolates_of_same rfl rfl rfl⟩

theorem moves_of_step {outcome : Step} (inside : m.ip < unit.opcodes.size)
    (steps : step unit registry m = outcome) : Moves unit registry m outcome.machine := by
  rw [← steps]
  exact ⟨inside⟩

/-- The machines that steps lead to. -/
abbrev Reachable (unit : Code.Unit) (registry : Option Registry) : Machine → Machine → Prop :=
  Relation.ReflTransGen (Moves unit registry)

/-- The machines that steps lead to while there are always at least `count` frames. -/
abbrev ReachableWithin (unit : Code.Unit) (registry : Option Registry) (count : Nat) :
    Machine → Machine → Prop :=
  Relation.ReflTransGen fun before after =>
    Moves unit registry before after ∧ count ≤ after.frames.length

theorem Reachable.orderly (reachable : Reachable unit registry m after)
    (orderly : Orderly unit limit m) : Orderly unit limit after := by
  induction reachable with
  | refl => exact orderly
  | tail _ moves ih => exact (moves.keeps ih).1

theorem orderly_start (unit : Code.Unit) (callDepth stackSize : Int) (memory : Array Value)
    (host : Host) : Orderly unit (Limits.ofInts callDepth stackSize).callDepth
      (start (.ofInts callDepth stackSize) memory host) where
  callDepth := rfl
  nonempty := by simp [frames]
  shallow := by
    simp only [frames, start, Limits.ofInts, List.length_append]
    split
    · simp
      omega
    · simp
  bases := by simp [frames, start]
  grounded := by
    intro frame member
    simp [frames, start] at member
    simp [member]
  height := Stack.bounded _
  clean := Stack.clean_ofSize _
  ip := Nat.zero_le _
  returns := by simp [frames, start]

/-- As long as it is not left, an activation is isolated from those inside it. -/
theorem ReachableWithin.isolates
    (reachable : ReachableWithin unit registry m.frames.length m after)
    (orderly : Orderly unit limit m) : Isolates m after := by
  suffices kept : Orderly unit limit after ∧ IsActive m.callers.toList m.frame after ∧
      ∀ place < m.frame.base, after.operands.cells[place]? = m.operands.cells[place]? by
    rcases kept with ⟨_, ⟨frame, continues, active⟩, cells⟩
    exact ⟨(List.prefix_append _ _).trans active, cells, fun _ => ⟨frame, continues, active⟩⟩
  induction reachable with
  | refl => exact ⟨orderly, isActive_of_same rfl (.refl _), fun _ _ => rfl⟩
  | @tail middle last _ moves ih =>
      rcases ih with ⟨middleOrderly, ⟨frame, continues, active⟩, cells⟩
      rcases moves.1.keeps middleOrderly with ⟨lastOrderly, isolates⟩
      have below : m.frame.base ≤ middle.frame.base := by
        rw [← continues.base]
        have member := active.subset (List.mem_append_right _ List.mem_cons_self)
        rw [frames] at member
        rcases List.mem_append.1 member with outer | inner
        · exact middleOrderly.base_le_frame outer
        · exact Nat.le_of_eq (by rw [List.mem_singleton.1 inner])
      refine ⟨lastOrderly, ?_, fun place low => ?_⟩
      · rw [frames] at active
        rcases List.prefix_concat_iff.1 active with whole | inside
        · rcases List.append_inj' whole.symm rfl with ⟨callers, sameFrame⟩
          cases sameFrame
          rw [← callers]
          rcases isolates.active (by rw [frames, callers]; simpa [frames] using moves.2) with
            ⟨later, further, stillActive⟩
          exact ⟨later, continues.trans further, stillActive⟩
        · exact ⟨frame, continues, inside.trans isolates.frames⟩
      · rw [isolates.cells place (by omega), cells place low]

/-- A run goes from machine to machine by steps. -/
theorem reachable_advance (unit : Code.Unit) (registry : Option Registry) (policy : Policy)
    (steps : Nat) (run : Run) :
    Reachable unit registry run.machine
      (Run.advance unit registry policy steps run).2.machine := by
  induction steps generalizing run with
  | zero => exact .refl
  | succ steps ih =>
      rw [Run.advance_succ]
      have advances := Run.advances_next unit registry policy run
      generalize run.next unit registry policy = outcome at advances
      cases advances with
      | done inside steps =>
          exact .head (moves_of_step inside steps) (ih { run with machine := _ })
      | goesOn inside steps =>
          exact .head (moves_of_step inside steps) (ih (run.faulted _ _))
      | stops inside steps | unreadable inside steps | crashes inside steps =>
          exact .single (moves_of_step inside steps)
      | finishes => exact .refl

/--
Every machine of a run is in order, and isolates the frames around the innermost one: in a
step, and until the innermost frame is left. The code may be any bytes, and the run may go
on after any fault.
-/
theorem run_orderly (unit : Code.Unit) (registry : Option Registry) (callDepth stackSize : Int)
    (memory : Array Value) (host : Host) :
    (∀ policy steps, Reachable unit registry (start (.ofInts callDepth stackSize) memory host)
      (unit.run { registry, limits := .ofInts callDepth stackSize, policy, steps } memory
        host).2.machine) ∧
    ∀ m, Reachable unit registry (start (.ofInts callDepth stackSize) memory host) m →
      Orderly unit (Limits.ofInts callDepth stackSize).callDepth m ∧
      (∀ after, Moves unit registry m after → Isolates m after) ∧
      ∀ after, ReachableWithin unit registry m.frames.length m after → Isolates m after := by
  refine ⟨fun policy steps => reachable_advance unit registry policy steps
    { machine := start (.ofInts callDepth stackSize) memory host }, ?_⟩
  intro m reachable
  have orderly := reachable.orderly (orderly_start unit callDepth stackSize memory host)
  exact ⟨orderly, fun after moves => (moves.keeps orderly).2,
    fun after within => within.isolates orderly⟩

/-- Code that calls a function on top of an operand. -/
def nestedCall : Code.Unit where
  opcodes := #[1, 1, 0, 1, 1, 0, 6, 0, 0, 1, 1, 10, 1, 0, 0, 7]
  storages := #[
    ⟨0, "", 0, #[.function { name := "f", entry := 12, storage := 1, arity := 1 }, .bool true], #[]⟩,
    ⟨1, "f", 1, #[], #["a"]⟩]

/-- The machine that runs the body of the function. -/
def nestedCallMachine : Machine :=
  (nestedCall.run { registry := none, limits := .ofInts 0 1, policy := .first, steps := 3 }
    (freshMemory nestedCall.storages[0]) {}).2.machine

theorem orderly_nestedCall :
    nestedCallMachine.frames.length = 2 ∧ nestedCallMachine.frame.base = 1 ∧
      Orderly nestedCall 1024 nestedCallMachine ∧
      ∃ after, Moves nestedCall none nestedCallMachine after ∧ Isolates nestedCallMachine after := by
  have isolated := run_orderly nestedCall none 0 1 (freshMemory nestedCall.storages[0]) {}
  have reached := isolated.2 nestedCallMachine (isolated.1 .first 3)
  have moves : Moves nestedCall none nestedCallMachine
    (step nestedCall none nestedCallMachine).machine := ⟨by decide +kernel⟩
  exact ⟨by decide +kernel, by decide +kernel, reached.1, _, moves, reached.2.1 _ moves⟩

end Machine

end Lehce
