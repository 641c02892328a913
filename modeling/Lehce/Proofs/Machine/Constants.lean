import Lehce.Proofs.Code.StorageLayout
import Lehce.Proofs.Machine.Leaks

/-!
# Constants and fresh variables

Every frame has the memory of a storage: that of the top level, or that of the function which
was called. Stores of a compiled program go behind the constants of that memory, so that the
constants stay what they are, in all frames and in the memory with which a later run starts.
A call puts its arguments into the parameters and leaves the other variables empty.
-/

namespace Lehce

/-- The values that a memory of a storage has in front. -/
def Code.Storage.constantValues (storage : Code.Storage) : List Value :=
  storage.constants.toList.map fun datum => (Value.ofScalar datum).orEmpty

/-- A memory has a slot for each constant and each variable, and holds the constants. -/
structure Code.Storage.KeptIn (storage : Code.Storage) (memory : Array Value) : Prop where
  size : memory.size = storage.constants.size + storage.locals.size
  constants : memory.toList.take storage.constants.size = storage.constantValues

/-- A memory of the same size that agrees on the constants holds them as well. -/
theorem Code.Storage.KeptIn.of_agrees {storage : Code.Storage} {memory other : Array Value}
    (kept : storage.KeptIn memory) (size : other.size = memory.size)
    (agrees : ∀ slot < storage.constants.size, other[slot]? = memory[slot]?) :
    storage.KeptIn other where
  size := size.trans kept.size
  constants := by
    rw [← kept.constants]
    refine List.ext_getElem? fun slot => ?_
    rw [List.getElem?_take, List.getElem?_take, Array.getElem?_toList, Array.getElem?_toList]
    split
    · rename_i constant
      exact agrees slot constant
    · rfl

/-- A fresh memory holds the constants and the empty value for each variable. -/
theorem Code.Storage.toList_freshMemory (storage : Code.Storage) :
    (Machine.freshMemory storage).toList =
      storage.constantValues ++ List.replicate storage.locals.size Value.empty := by
  simp [Machine.freshMemory, initialMemory, constantValues, Value.ofScalar, Value.orEmpty]

theorem Code.Storage.keptIn_freshMemory (storage : Code.Storage) :
    storage.KeptIn (Machine.freshMemory storage) where
  size := Meaning.size_freshMemory storage
  constants := by
    rw [toList_freshMemory]
    exact List.take_left' (by simp [constantValues])

/-- The memory of a call has the arguments in front of the variables that are empty. -/
theorem Machine.toList_boundMemory (storage : Code.Storage) (args : Array Value) :
    (boundMemory storage args).toList = storage.constantValues ++ args.toList ++
      List.replicate (storage.locals.size - args.size) Value.empty := by
  have length : storage.constantValues.length = storage.constants.size := by
    simp [Code.Storage.constantValues]
  have front : (freshMemory storage).toList.extract 0 storage.constants.size =
      storage.constantValues := by
    rw [storage.toList_freshMemory, List.extract_eq_take_drop, List.drop_zero, ← length,
      Nat.sub_zero, List.take_left]
  have back : (freshMemory storage).toList.extract (storage.constants.size + args.size)
      (freshMemory storage).size = List.replicate (storage.locals.size - args.size) .empty := by
    rw [storage.toList_freshMemory, List.extract_eq_take_drop, ← length, ← List.drop_drop,
      List.drop_left, List.drop_replicate, List.take_replicate, Meaning.size_freshMemory,
      Code.Storage.size, ← length]
    congr 1
    omega
  rw [boundMemory, Array.toList_append, Array.toList_append, Array.toList_extract,
    Array.toList_extract, front, back]

namespace Machine

open Code (Instruction Mark)

variable {unit : Code.Unit} {registry : Option Registry} {listing : List (Nat × Instruction)}
  {marks : List Mark} {results : Nat} {owner : Option FunctionRef} {m after first : Machine}

/-- A machine stands at a call of a function with a number of arguments. -/
def Awaits (unit : Code.Unit) (m : Machine) (ref : FunctionRef) (count : Nat) : Prop :=
  ∃ (slot : UInt16) (args : UInt8) (used : Bool),
    Code.decode unit.opcodes m.ip = .ok (.call slot args used) ∧ args.toNat = count ∧
      m.frame.memory[slot.toNat]? = some (.function ref)

/--
A run has come to a machine whose frames are those of some storages, the innermost first. A
call puts the storage of the function on top, and a return takes it away.
-/
inductive Activates (unit : Code.Unit) (registry : Option Registry) (first : Machine) :
    Machine → List Code.Storage → Prop where
  | start {top : Code.Storage} (found : unit.storages[0]? = some top) :
      Activates unit registry first first [top]
  | stays {m after : Machine} {storages : List Code.Storage}
      (activates : Activates unit registry first m storages) (moves : Moves unit registry m after)
      (same : after.frames.length = m.frames.length) :
      Activates unit registry first after storages
  | enters {m after : Machine} {storages : List Code.Storage} {storage : Code.Storage}
      {ref : FunctionRef} {count : Nat} (activates : Activates unit registry first m storages)
      (moves : Moves unit registry m after) (awaits : Awaits unit m ref count)
      (found : unit.storages[ref.storage.toNat]? = some storage)
      (more : after.frames.length = m.frames.length + 1) :
      Activates unit registry first after (storage :: storages)
  | leaves {m after : Machine} {storages : List Code.Storage} {storage : Code.Storage}
      (activates : Activates unit registry first m (storage :: storages))
      (moves : Moves unit registry m after) (fewer : after.frames.length + 1 = m.frames.length) :
      Activates unit registry first after storages

/--
The frames of activations, the innermost first, keep the constants of their storages, and each
activation goes on in the code of the function, or of the top level, that the storage is for.
-/
inductive Houses (unit : Code.Unit) (listing : List (Nat × Instruction)) :
    Nat → List Frame → List Code.Storage → Prop where
  | top {next : Nat} {frame : Frame} {storage : Code.Storage}
      (belongs : unit.Belongs listing none next) (found : unit.storageOf? none = some storage)
      (kept : storage.KeptIn frame.memory) : Houses unit listing next [frame] [storage]
  | call {next after : Nat} {frame : Frame} {callers : List Frame} {ref : FunctionRef}
      {storage : Code.Storage} {storages : List Code.Storage}
      (outer : Houses unit listing after callers storages) (returnTo : frame.returnTo = after)
      (belongs : unit.Belongs listing (some ref) next)
      (found : unit.storageOf? (some ref) = some storage) (kept : storage.KeptIn frame.memory) :
      Houses unit listing next (frame :: callers) (storage :: storages)

section Memory

/-- Unless a step enters or leaves a frame, it keeps what a slot of the frame holds. -/
def Step.Retains (m : Machine) (slot : Nat) (outcome : Step) : Prop :=
  outcome.machine.callers.size = m.callers.size →
    outcome.machine.frame.memory[slot]? = m.frame.memory[slot]?

variable {slot : Nat}

theorem retains_of_frame {outcome : Step} (frame : outcome.machine.frame = m.frame) :
    outcome.Retains m slot := fun _ => by rw [frame]

theorem retains_withOperands {count : Nat} {next : Machine → Step}
    (goesOn : (next m).Retains m slot) : (withOperands m count next).Retains m slot := by
  unfold withOperands
  split
  · exact retains_of_frame rfl
  · exact goesOn

theorem retains_failCall (count : Nat) (used : Bool) (fault : Fault) :
    (failCall m count used fault).Retains m slot := by
  cases used <;> exact retains_of_frame (by simp [failCall, Step.machine])

theorem retains_callNative (name : String) (count : Nat) (used : Bool) :
    (callNative registry m name count used).Retains m slot := by
  unfold callNative
  split
  · exact retains_of_frame (drop_frame m count)
  split
  · exact retains_failCall count used _
  · simp only
    split <;> cases used <;> exact retains_of_frame (by simp [Step.machine])

theorem retains_callFunction (ref : FunctionRef) (count : Nat) (used : Bool) :
    (callFunction unit m ref count used).Retains m slot := by
  unfold callFunction
  split
  · exact retains_failCall count used _
  · split
    · exact retains_of_frame rfl
    · split
      · exact retains_of_frame rfl
      · split
        · exact retains_of_frame rfl
        · split
          · exact retains_of_frame rfl
          · intro same
            simp [Step.machine] at same

theorem retains_call (callee count : Nat) (used : Bool) :
    (call unit registry m callee count used).Retains m slot := by
  unfold call
  split
  · exact retains_of_frame rfl
  · refine retains_withOperands ?_
    split
    · split
      · exact retains_callNative _ count used
      · exact retains_callFunction _ count used
    · exact retains_failCall count used _

theorem retains_return : (return_ unit m).Retains m slot := by
  refine retains_withOperands ?_
  split
  · exact retains_of_frame rfl
  · rename_i caller inner
    intro same
    have callers : (leave m caller (m.peek 0)).callers = m.callers.pop := by
      unfold leave
      simp only
      split <;> rfl
    have nonempty : m.callers.size ≠ 0 := by
      intro empty
      rw [Array.size_eq_zero_iff.1 empty] at inner
      cases inner
    rw [Step.machine, callers, Array.size_pop] at same
    omega

theorem retains_pushResult {before : Machine} (frame : m.frame = before.frame)
    (result : Except Fault Value) : (m.pushResult result).Retains before slot := by
  cases result <;> exact retains_of_frame frame

/-- The constants in front of a frame stay what they are. -/
theorem retains_execute (at_ : Nat) {instruction : Instruction} {constants size : Nat}
    (keepsTo : instruction.KeepsTo constants size) (constant : slot < constants) :
    (execute unit registry m at_ instruction).Retains m slot := by
  cases instruction with
  | store target =>
      have apart : target.toNat ≠ slot := by
        have behind := keepsTo.1
        omega
      rw [execute]
      split
      · exact retains_of_frame rfl
      · exact retains_withOperands fun _ => Array.getElem?_setIfInBounds_ne apart
  | fastStore target =>
      have apart : target.toNat ≠ slot := by
        have behind := keepsTo.1
        omega
      rw [execute]
      split
      · exact retains_of_frame rfl
      · exact retains_withOperands fun _ => Array.getElem?_setIfInBounds_ne apart
  | call => exact retains_call _ _ _
  | return_ => exact retains_return
  | load | jump =>
      rw [execute]
      split <;> exact retains_of_frame (by simp [Step.machine])
  | compare =>
      rw [execute]
      split
      · exact retains_of_frame rfl
      · refine retains_withOperands ?_
        simp only
        split <;> exact retains_of_frame (by simp [Step.machine])
  | initList | dup | dup2 | pop =>
      rw [execute]
      exact retains_withOperands (retains_of_frame (by simp [Step.machine]))
  | initDict =>
      rw [execute]
      refine retains_withOperands ?_
      simp only
      split <;> exact retains_of_frame (by simp [Step.machine])
  | binary =>
      rw [execute]
      refine retains_withOperands ?_
      simp only
      split <;> exact retains_of_frame (by simp [Step.machine])
  | unary | getItem =>
      rw [execute]
      exact retains_withOperands (retains_pushResult rfl _)
  | setItem =>
      rw [execute]
      refine retains_withOperands ?_
      simp only
      split <;> exact retains_of_frame (by simp [Step.machine])

end Memory

section Frames

variable {next : Nat} {frame : Frame} {callers frames : List Frame} {storage : Code.Storage}
  {storages : List Code.Storage} {mark : Mark}

theorem keptIn_boundMemory {args : Array Value} (fits : args.size ≤ storage.locals.size) :
    storage.KeptIn (boundMemory storage args) where
  size := size_boundMemory fits
  constants := by
    rw [toList_boundMemory, List.append_assoc]
    exact List.take_left' (by simp [Code.Storage.constantValues])

theorem reverse_frames (m : Machine) : m.frames.reverse = m.frame :: m.callers.toList.reverse := by
  simp [frames]

/-- The frames of activations keep the constants of their storages. -/
theorem Houses.keptIn (houses : Houses unit listing next frames storages) :
    List.Forall₂ Code.Storage.KeptIn storages (frames.map (·.memory)) := by
  induction houses with
  | top _ _ kept => exact .cons kept .nil
  | call _ _ _ _ kept ih => exact .cons kept ih

/-- The innermost activation goes on in the same function with the same constants. -/
theorem Houses.continues {after : Nat} {later : Frame}
    (houses : Houses unit listing next (frame :: callers) storages)
    (returnTo : later.returnTo = frame.returnTo)
    (goesOn : ∀ owner, unit.Belongs listing owner next → unit.Belongs listing owner after ∧
      ∀ storage, unit.storageOf? owner = some storage → storage.KeptIn frame.memory →
        storage.KeptIn later.memory) :
    Houses unit listing after (later :: callers) storages := by
  cases houses with
  | top belongs found kept =>
      rcases goesOn _ belongs with ⟨belongs, keeps⟩
      exact .top belongs found (keeps _ found kept)
  | call outer returns belongs found kept =>
      rcases goesOn _ belongs with ⟨belongs, keeps⟩
      exact .call outer (returnTo.trans returns) belongs found (keeps _ found kept)

/-- An instruction that works in its activation leaves the constants alone. -/
theorem Works.houses (metered : unit.Metered listing marks) (marked : mark ∈ marks)
    (place : mark.offset = m.ip)
    (works : Works mark.instruction (m.passed mark.instruction) after)
    (retains : ∀ constants size slot, mark.instruction.KeepsTo constants size →
      slot < constants → after.frame.memory[slot]? = m.frame.memory[slot]?)
    (goes : (mark.instruction.falls = true ∧ after.ip = (m.passed mark.instruction).ip) ∨
      mark.instruction.target? = some after.ip)
    (houses : Houses unit listing m.ip m.frames.reverse storages) :
    Houses unit listing after.ip after.frames.reverse storages := by
  have callers : after.callers = m.callers := works.callers
  rw [reverse_frames] at houses ⊢
  rw [callers]
  refine houses.continues works.returnTo fun owner belongs => ?_
  rw [← place] at belongs
  constructor
  · rcases goes with ⟨falls, next⟩ | target
    · rw [next, passed, ← place]
      exact metered.belongs_next marked falls belongs
    · exact metered.belongs_target marked belongs target
  · intro storage found kept
    have standing := (metered.listed _ _).2 ⟨mark, marked, rfl, rfl⟩
    rcases (metered.wellFormed.kept owner _ _ standing belongs).slots with
      ⟨other, otherFound, keepsTo⟩
    cases found.symm.trans otherFound
    exact kept.of_agrees works.memory fun slot constant => retains _ _ slot keepsTo constant

/-- A function is entered with a memory of its own, and its caller goes on behind the call. -/
theorem Callable.houses (metered : unit.Metered listing marks) (marked : mark ∈ marks)
    (place : mark.offset = m.ip) (sound : m.Sound (· ∈ unit.functions)) {slot : UInt16}
    {count : UInt8} {used : Bool} {ref : FunctionRef}
    (instruction : mark.instruction = .call slot count used)
    (callable : Callable unit (m.passed (.call slot count used)) slot count ref storage)
    (fits : count.toNat ≤ storage.locals.size)
    (houses : Houses unit listing m.ip m.frames.reverse storages) :
    Houses unit listing ref.entry.toNat
      ((m.passed (.call slot count used)).entered ref storage count.toNat used).frames.reverse
      (storage :: storages) := by
  have listed : ref ∈ unit.functions :=
    sound.frame _ (Array.mem_of_getElem? callable.callee) callable.compiled
  have enough := callable.enough
  have falls : mark.instruction.falls = true := by rw [instruction]; rfl
  have outer : Houses unit listing (mark.offset + mark.instruction.size) m.frames.reverse
      storages := by
    rw [reverse_frames] at houses ⊢
    refine houses.continues rfl fun owner belongs => ⟨?_, fun _ _ kept => kept⟩
    rw [← place] at belongs
    exact metered.belongs_next marked falls belongs
  rw [reverse_frames]
  simp only [entered, Array.toList_push, List.reverse_append, List.reverse_singleton,
    List.singleton_append]
  rw [reverse_frames] at outer
  refine .call outer ?_ (metered.belongs_entry listed) callable.storage (keptIn_boundMemory ?_)
  · simp [passed, place, instruction]
  · rw [size_top (by omega)]
    exact fits

/-- A function is left, and its caller goes on where it has waited. -/
theorem houses_leave {caller : Frame} (inner : m.callers.back? = some caller) (result : Value)
    (houses : Houses unit listing next m.frames.reverse storages) :
    ∃ storage others, storages = storage :: others ∧
      Houses unit listing (leave m caller result).ip (leave m caller result).frames.reverse
        others := by
  rcases leave_fields (m := m) caller result with ⟨ip, framesEq, _⟩
  rw [reverse_frames, callers_of_back inner, List.reverse_append, List.reverse_singleton,
    List.singleton_append] at houses
  rw [framesEq, ip, List.reverse_append, List.reverse_singleton, List.singleton_append]
  cases houses with
  | call outer returnTo =>
      rw [returnTo]
      exact ⟨_, _, rfl, outer⟩

/-- A step after which no run goes on. -/
def Step.Ends : Step → Prop
  | .done _ => False
  | .fault _ problem => problem.kind.fatal = true
  | .unreadable _ _ | .crash _ _ => True

/-- What a step makes of the frames. -/
theorem Effect.houses (metered : unit.Metered listing marks) (marked : mark ∈ marks)
    (place : mark.offset = m.ip) (sound : m.Sound (· ∈ unit.functions)) {outcome : Step}
    (effect : Effect unit registry (m.passed mark.instruction) mark.instruction outcome)
    (retains : ∀ constants size slot, mark.instruction.KeepsTo constants size →
      slot < constants → outcome.Retains (m.passed mark.instruction) slot)
    (decoded : Code.decode unit.opcodes m.ip = .ok mark.instruction)
    (moves : Moves unit registry m outcome.machine)
    (activates : Activates unit registry first m storages)
    (houses : Houses unit listing m.ip m.frames.reverse storages) :
    ∃ more, Activates unit registry first outcome.machine more ∧
      (Houses unit listing outcome.machine.ip outcome.machine.frames.reverse more ∨
        outcome.Ends ∧ outcome.machine.frames = m.frames ∧ more = storages) := by
  have same : outcome.machine.callers = m.callers →
      Activates unit registry first outcome.machine storages := fun callers =>
    activates.stays moves (by rw [length_frames, length_frames, frameCount, frameCount, callers])
  generalize instructionEq : mark.instruction = instruction at effect
  cases effect with
  | works works goes =>
      subst instructionEq
      exact ⟨storages, same works.callers, .inl (works.houses metered marked place
        (fun _ _ slot keepsTo constant => retains _ _ slot keepsTo constant
          (congrArg Array.size works.callers)) (goes.imp_right (·.1)) houses)⟩
  | faults works goes =>
      subst instructionEq
      exact ⟨storages, same works.callers, .inl (works.houses metered marked place
        (fun _ _ slot keepsTo constant => retains _ _ slot keepsTo constant
          (congrArg Array.size works.callers)) (.inl goes) houses)⟩
  | refuses refused => exact ⟨storages, same rfl, .inr ⟨refused.fatal, rfl, rfl⟩⟩
  | @enters slot count used ref storage callable fits =>
      rw [instructionEq] at decoded
      refine ⟨storage :: storages, activates.enters moves ⟨slot, count, used, decoded, rfl,
        callable.callee⟩ callable.storage ?_, .inl ?_⟩
      · simp [length_frames, frameCount, Step.machine, entered, passed]
      · exact callable.houses metered marked place sound instructionEq fits houses
  | @returns caller inner =>
      rcases houses_leave inner ((m.passed .return_).peek 0) houses with
        ⟨storage, others, rfl, left⟩
      have fewer : (leave (m.passed .return_) caller ((m.passed .return_).peek 0)).frames.length + 1 =
          m.frames.length := by
        rw [(leave_fields caller _).2.1, ← callers_of_back inner]
        simp [frames, passed]
      exact ⟨others, activates.leaves moves fewer, .inl left⟩
  | ends outer =>
      have alone : m.callers = #[] := Array.size_eq_zero_iff.1 outer
      refine ⟨storages, same rfl, .inl ?_⟩
      rw [reverse_frames, alone] at houses
      simp only [Step.machine, reverse_frames, passed, alone]
      cases houses with
      | top belongs found kept => exact .top ((metered.belongs_end_iff none).2 rfl) found kept
      | call outer => cases outer
  | crashesBinary => exact ⟨storages, same rfl, .inr ⟨trivial, rfl, rfl⟩⟩
  | crashesNative _ _ _ works frame =>
      refine ⟨storages, same works.callers, .inr ⟨trivial, ?_, rfl⟩⟩
      rw [frames, frames, Step.machine, works.callers, frame]
      rfl
  | crashesCall => exact ⟨storages, same rfl, .inr ⟨trivial, rfl, rfl⟩⟩

/-- A step of a run keeps the constants of all frames, also when the run ends with it. -/
theorem Moves.houses (moves : Moves unit registry m after) (metered : unit.Metered listing marks)
    (balanced : Balanced unit listing marks results owner m)
    (sound : m.Sound (· ∈ unit.functions)) (activates : Activates unit registry first m storages)
    (houses : Houses unit listing m.ip m.frames.reverse storages) :
    ∃ more, Activates unit registry first after more ∧
      List.Forall₂ Code.Storage.KeptIn more (after.frames.reverse.map (·.memory)) ∧
      (Goes unit registry m after → Houses unit listing after.ip after.frames.reverse more) := by
  have stepped := moves
  rcases moves with ⟨inside⟩
  rcases balanced.mark inside with ⟨mark, marked, place, _⟩
  have decoded := metered.reads mark marked
  rw [place] at decoded
  have executes : step unit registry m =
      execute unit registry (m.passed mark.instruction) m.ip mark.instruction := by
    rw [step_eq_decode, decoded]
    rfl
  have effect := execute_effect unit registry (m := m.passed mark.instruction) balanced.grounded
    m.ip mark.instruction
  rw [← executes] at effect
  have retains : ∀ constants size slot, mark.instruction.KeepsTo constants size →
      slot < constants → (step unit registry m).Retains (m.passed mark.instruction) slot := by
    intro constants size slot keepsTo constant
    rw [executes]
    exact retains_execute m.ip keepsTo constant
  rcases effect.houses metered marked place sound retains decoded stepped activates houses with
    ⟨more, activated, housed | ⟨ends, frames, rfl⟩⟩
  · exact ⟨more, activated, housed.keptIn, fun _ => housed⟩
  · refine ⟨more, activated, by rw [frames]; exact houses.keptIn, fun goes => ?_⟩
    cases goes with
    | done _ steps =>
        rw [steps] at ends
        exact ends.elim
    | fault _ mild steps =>
        rw [steps] at ends
        rw [Step.Ends, mild] at ends
        cases ends

/-- All machines of a run keep the constants of their frames. -/
theorem Comes.houses (comes : Comes unit registry first m)
    (metered : unit.Metered listing marks)
    (balanced : ∃ results owner, Balanced unit listing marks results owner first)
    (sound : first.Sound (· ∈ unit.functions)) (honest : Registry.AllHonest registry)
    (start : ∃ storages, Activates unit registry first first storages ∧
      Houses unit listing first.ip first.frames.reverse storages) :
    ∃ storages, Activates unit registry first m storages ∧
      Houses unit listing m.ip m.frames.reverse storages := by
  induction comes with
  | refl => exact start
  | tail comes goes ih =>
      rcases ih with ⟨storages, activates, houses⟩
      rcases Comes.balanced comes metered balanced sound honest with ⟨results, owner, middle⟩
      have middleSound := (Comes.reachable comes).sound sound honest metered.sound
      rcases goes.moves.houses metered middle middleSound activates houses with
        ⟨more, activated, _, housed⟩
      exact ⟨more, activated, housed goes⟩

/-- There are as many storages as frames, and the outermost one is that of the top level. -/
theorem Activates.getLast? (activates : Activates unit registry first m storages)
    (found : unit.storages[0]? = some storage) (alone : first.frames.length = 1) :
    storages.length = m.frames.length ∧ storages.getLast? = some storage := by
  induction activates with
  | start topFound =>
      cases found.symm.trans topFound
      exact ⟨alone.symm, rfl⟩
  | stays _ _ same ih => exact ⟨ih.1.trans same.symm, ih.2⟩
  | enters _ _ _ _ more ih =>
      refine ⟨by rw [List.length_cons, ih.1, more], ?_⟩
      rw [List.getLast?_cons, ih.2]
      rfl
  | @leaves before after storages inner _ _ fewer ih =>
      rcases ih with ⟨length, last⟩
      rw [List.length_cons] at length
      have nonempty : 0 < after.frames.length := by simp [frames]
      refine ⟨by omega, ?_⟩
      cases storages with
      | nil =>
          rw [List.length_nil] at length
          omega
      | cons => rwa [List.getLast?_cons_cons] at last

/-- The top level keeps its constants. -/
theorem Activates.keptIn_outermost (activates : Activates unit registry first m storages)
    (found : unit.storages[0]? = some storage) (alone : first.frames.length = 1)
    (kept : List.Forall₂ Code.Storage.KeptIn storages (m.frames.reverse.map (·.memory))) :
    storage.KeptIn m.outermost.memory := by
  rw [List.map_reverse, ← List.forall₂_reverse_iff, List.reverse_reverse] at kept
  have innermost := (activates.getLast? found alone).2
  have outer := outermost_eq m
  rw [← List.head?_reverse] at innermost
  rcases List.head?_eq_some_iff.1 innermost with ⟨others, storagesEq⟩
  rcases List.head?_eq_some_iff.1 outer with ⟨inner, framesEq⟩
  rw [storagesEq, framesEq, List.map_cons] at kept
  cases kept with
  | cons first _ => exact first

/-- A frame is added by a call, with a memory that holds the arguments of the call. -/
theorem Moves.enters (moves : Moves unit registry m after)
    (grounded : m.frame.base ≤ m.operands.height)
    (more : m.frames.length < after.frames.length) :
    ∃ ref storage count, Awaits unit m ref count ∧ ref.native = false ∧ ref.arity = count ∧
      unit.storages[ref.storage.toNat]? = some storage ∧ 0 < ref.storage ∧
      (m.top count).size = count ∧ after.frame.memory = boundMemory storage (m.top count) := by
  rcases moves with ⟨inside⟩
  have grows : (step unit registry m).machine.callers ≠ m.callers := by
    intro callers
    rw [length_frames, length_frames, frameCount, frameCount, callers] at more
    omega
  have effect := step_effect registry grounded inside
  generalize step unit registry m = outcome at effect more grows
  cases effect with
  | executes reads effect =>
      cases effect with
      | works works | faults works | crashesNative _ _ _ works => exact (grows works.callers).elim
      | refuses | ends | crashesBinary | crashesCall => exact (grows rfl).elim
      | @returns caller inner _ =>
          simp only [Step.machine, (leave_fields caller _).2.1, ← callers_of_back inner] at more
          simp [frames, passed] at more
      | enters callable =>
          have enough : _ ≤ m.operands.height := Nat.le_of_add_left_le callable.enough
          exact ⟨_, _, _, ⟨_, _, _, reads, rfl, callable.callee⟩, callable.compiled,
            callable.arity, callable.storage, callable.number, size_top enough, rfl⟩
  | unreadable | unknown => exact (grows rfl).elim

end Frames

end Machine

namespace Run

open Machine (Comes Moves)

variable {unit : Code.Unit} {registry : Option Registry}

/-- With one step more a run is where it was, or it has made one step more. -/
theorem machine_advance_succ (policy : Policy) (steps : Nat) (run : Run) :
    (advance unit registry policy (steps + 1) run).2.machine =
        (advance unit registry policy steps run).2.machine ∨
      Comes unit registry run.machine (advance unit registry policy steps run).2.machine ∧
        Moves unit registry (advance unit registry policy steps run).2.machine
          (advance unit registry policy (steps + 1) run).2.machine := by
  induction steps generalizing run with
  | zero =>
      rw [advance_succ]
      have advances := advances_next unit registry policy run
      generalize run.next unit registry policy = outcome at advances
      cases advances with
      | done inside steps | goesOn inside steps | stops inside steps | unreadable inside steps
      | crashes inside steps => exact .inr ⟨.refl, Machine.moves_of_step inside steps⟩
      | finishes => exact .inl rfl
  | succ steps ih =>
      rw [advance_succ, advance_succ]
      have advances := advances_next unit registry policy run
      generalize run.next unit registry policy = outcome at advances
      cases advances with
      | done inside steps =>
          refine (ih _).imp_right fun ⟨comes, moves⟩ => ⟨?_, moves⟩
          exact .head (.done inside steps) comes
      | goesOn inside steps mild =>
          refine (ih _).imp_right fun ⟨comes, moves⟩ => ⟨?_, moves⟩
          exact .head (.fault inside mild steps) comes
      | stops | unreadable | crashes | finishes => exact .inl rfl

variable {listing : List (Nat × Code.Instruction)} {marks : List Code.Mark} {first : Machine}

/-- After any number of steps of a run all frames keep their constants. -/
theorem activates_advance (metered : unit.Metered listing marks)
    (balanced : ∃ results owner, Machine.Balanced unit listing marks results owner first)
    (sound : first.Sound (· ∈ unit.functions)) (honest : Registry.AllHonest registry)
    (start : ∃ storages, Machine.Activates unit registry first first storages ∧
      Machine.Houses unit listing first.ip first.frames.reverse storages)
    (policy : Policy) (steps : Nat) :
    ∃ storages, Machine.Activates unit registry first
        (advance unit registry policy steps { machine := first }).2.machine storages ∧
      List.Forall₂ Code.Storage.KeptIn storages
        ((advance unit registry policy steps { machine := first }).2.machine.frames.reverse.map
          (·.memory)) := by
  induction steps with
  | zero =>
      rcases start with ⟨storages, activates, houses⟩
      exact ⟨storages, activates, houses.keptIn⟩
  | succ steps ih =>
      rcases machine_advance_succ policy steps { machine := first } with same | ⟨comes, moves⟩
      · rw [same]
        exact ih
      · rcases comes.houses metered balanced sound honest start with
          ⟨storages, activates, houses⟩
        rcases comes.balanced metered balanced sound honest with ⟨results, owner, middle⟩
        have middleSound := comes.reachable.sound sound honest metered.sound
        rcases moves.houses metered middle middleSound activates houses with
          ⟨more, activated, kept, _⟩
        exact ⟨more, activated, kept⟩

end Run

section Runs

open Code (Instruction Mark)

variable {unit : Code.Unit} {listing : List (Nat × Instruction)} {marks : List Mark}
  {memory : Array Value} {heap : Heap} {storage : Code.Storage}

/-- No value of a memory is absent when a run starts. -/
theorem Code.Storage.KeptIn.map_orEmpty (kept : storage.KeptIn memory) :
    storage.KeptIn (memory.map Value.orEmpty) where
  size := by rw [Array.size_map, kept.size]
  constants := by
    rw [Array.toList_map, ← List.map_take, kept.constants, constantValues, List.map_map]
    exact List.map_congr_left fun datum _ => Meaning.orEmpty_orEmpty _

/-- A run that starts with the constants of the top level. -/
theorem Machine.activates_start (metered : unit.Metered listing marks)
    (top : unit.storages[0]? = some storage) (kept : storage.KeptIn memory)
    (registry : Option Registry) (limits : Limits) (host : Host) :
    ∃ storages, Activates unit registry (start limits memory host) (start limits memory host)
        storages ∧
      Houses unit listing (start limits memory host).ip (start limits memory host).frames.reverse
        storages := by
  have belongs : unit.Belongs listing none 0 :=
    (balanced_start metered top kept.size limits host).belongs
  exact ⟨_, .start top, .top belongs top kept.map_orEmpty⟩

/-- A run keeps the constants of all frames after any number of steps. -/
theorem Code.Unit.run_activates (metered : unit.Metered listing marks)
    (top : unit.storages[0]? = some storage) (kept : storage.KeptIn memory)
    (memorySound : ∀ value ∈ memory, value.Sound (· ∈ unit.functions))
    (heapSound : heap.Sound (· ∈ unit.functions)) (setup : Setup)
    (honest : Registry.AllHonest setup.registry) (input : List Char) :
    ∃ storages, Machine.Activates unit setup.registry
        (Machine.start setup.limits memory { heap, input })
        (unit.run setup memory { heap, input }).2.machine storages ∧
      List.Forall₂ Code.Storage.KeptIn storages
        ((unit.run setup memory { heap, input }).2.machine.frames.reverse.map (·.memory)) :=
  Run.activates_advance metered ⟨0, none, Machine.balanced_start metered top kept.size _ _⟩
    (Machine.within_start _ memorySound heapSound) honest
    (Machine.activates_start metered top kept setup.registry _ _) setup.policy setup.steps

/-- What a top level starts with has its constants. -/
theorem Code.Unit.Starts.keptIn (starts : unit.Starts memory heap)
    (metered : unit.Metered listing marks) (top : unit.storages[0]? = some storage) :
    storage.KeptIn memory := by
  induction starts with
  | fresh fresh =>
      rw [Code.Unit.freshMemory?, top] at fresh
      cases fresh
      exact storage.keptIn_freshMemory
  | again earlier setup honest input ih =>
      rcases earlier.sound metered top with ⟨_, memorySound, heapSound⟩
      rcases Code.Unit.run_activates metered top ih memorySound heapSound setup honest input with
        ⟨storages, activates, kept⟩
      exact activates.keptIn_outermost top rfl kept

end Runs

end Lehce
