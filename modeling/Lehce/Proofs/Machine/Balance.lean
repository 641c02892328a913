import Lehce.Proofs.Code.Metered

/-!
# Operands of running machines

A machine that runs a compiled program is balanced: its innermost activation stands where its
function does and has just the operands that the code says; so has every caller, once the call
that it waits for is over. At the top level the values of earlier statements come on top of
these. A step keeps a machine balanced, unless it ends with a fault that is fatal, and the only
fatal fault is that of too many calls.
-/

namespace Lehce.Machine

open Code (Instruction Mark)

/-- How many values of earlier statements an activation has: only the top level keeps any. -/
def kept (results : Nat) : Option FunctionRef → Nat
  | none => results
  | some _ => 0

/--
The activation of a function, or of the top level, and those around it, the innermost one
first. A caller is known by where it goes on and by its operands there.
-/
inductive Calls (unit : Code.Unit) (listing : List (Nat × Instruction)) (marks : List Mark)
    (results : Nat) : Option FunctionRef → Frame → List Frame → Prop where
  | top {frame : Frame} {storage : Code.Storage} (found : unit.storageOf? none = some storage)
      (memory : frame.memory.size = storage.size) (base : frame.base = 0) :
      Calls unit listing marks results none frame []
  | call {owner : Option FunctionRef} {ref : FunctionRef} {frame caller : Frame}
      {callers : List Frame} {storage : Code.Storage} {next left : Nat}
      (outer : Calls unit listing marks results owner caller callers)
      (found : unit.storageOf? (some ref) = some storage)
      (memory : frame.memory.size = storage.size) (returnTo : frame.returnTo = next)
      (belongs : unit.Belongs listing owner next) (height : unit.HeightAt marks next left)
      (base : frame.base + (if frame.used then 1 else 0) =
        caller.base + kept results owner + left) :
      Calls unit listing marks results (some ref) frame (caller :: callers)

/-- A machine has the operands that its code says, on top of some results of its top level. -/
structure Balanced (unit : Code.Unit) (listing : List (Nat × Instruction)) (marks : List Mark)
    (results : Nat) (owner : Option FunctionRef) (m : Machine) : Prop where
  calls : Calls unit listing marks results owner m.frame m.callers.toList.reverse
  belongs : unit.Belongs listing owner m.ip
  height : ∃ height, unit.HeightAt marks m.ip height ∧
    m.operands.height = m.frame.base + kept results owner + height

section Frames

variable {unit : Code.Unit} {listing : List (Nat × Instruction)} {marks : List Mark}
  {results : Nat} {owner : Option FunctionRef} {frame : Frame} {callers : List Frame}

theorem Calls.storage (calls : Calls unit listing marks results owner frame callers) :
    ∃ storage, unit.storageOf? owner = some storage ∧ frame.memory.size = storage.size := by
  cases calls with
  | top found memory => exact ⟨_, found, memory⟩
  | call _ found memory => exact ⟨_, found, memory⟩

theorem Calls.owner_eq_none_iff (calls : Calls unit listing marks results owner frame callers) :
    owner = none ↔ callers = [] := by
  cases calls with
  | top => simp
  | call => simp

/-- An activation goes on. -/
theorem Calls.continues (calls : Calls unit listing marks results owner frame callers)
    {later : Frame} (continues : frame.Continues later)
    (memory : later.memory.size = frame.memory.size) :
    Calls unit listing marks results owner later callers := by
  cases calls with
  | top found size base => exact .top found (memory.trans size) (continues.base.trans base)
  | call outer found size returnTo belongs height base =>
      refine .call outer found (memory.trans size) (continues.returnTo.trans returnTo) belongs
        height ?_
      rw [continues.base, continues.used]
      exact base

/-- While the top level is the innermost activation, it may keep more values. -/
theorem Calls.keep (calls : Calls unit listing marks results owner frame callers) {more : Nat}
    (same : more = results ∨ owner = none) :
    Calls unit listing marks more owner frame callers := by
  cases calls with
  | top found memory base => exact .top found memory base
  | call outer found memory returnTo belongs height base =>
      rcases same with rfl | never
      · exact .call outer found memory returnTo belongs height base
      · cases never

/--
Where an instruction leads to, the operands are as the code says. At the top level the values
that a statement leaves become results.
-/
theorem settle (metered : unit.Metered listing marks) {mark : Mark} (marked : mark ∈ marks)
    (belongs : unit.Belongs listing owner mark.offset) {next total base : Nat}
    (leads : Code.Leads (unit.HeightAt marks) mark.drops next mark.after)
    (operands : total = base + kept results owner + mark.after) :
    ∃ more left, unit.HeightAt marks next left ∧ total = base + kept more owner + left ∧
      (more = results ∨ (owner = none ∧ mark.drops = false)) := by
  rcases leads with ⟨left, fewer, height, dropped⟩
  cases owner with
  | some ref =>
      have drops := metered.drops_of_belongs marked belongs
      exact ⟨results, left, height, by rw [operands, dropped drops], .inl rfl⟩
  | none =>
      simp only [kept] at operands ⊢
      cases drops : mark.drops with
      | true => exact ⟨results, left, height, by rw [operands, dropped drops], .inl rfl⟩
      | false =>
          exact ⟨results + (mark.after - left), left, height, by omega, .inr (by simp)⟩

end Frames

section Steps

variable {unit : Code.Unit} {registry : Option Registry} {listing : List (Nat × Instruction)}
  {marks : List Mark} {results : Nat} {owner : Option FunctionRef} {m after : Machine}

theorem Balanced.grounded (balanced : Balanced unit listing marks results owner m) :
    m.frame.base ≤ m.operands.height := by
  rcases balanced.height with ⟨height, _, operands⟩
  omega

/-- A balanced machine inside the code stands at a mark. -/
theorem Balanced.mark (balanced : Balanced unit listing marks results owner m)
    (inside : m.ip < unit.opcodes.size) :
    ∃ mark ∈ marks, mark.offset = m.ip ∧
      m.operands.height = m.frame.base + kept results owner + mark.height := by
  rcases balanced.height with ⟨height, ⟨mark, member, offset, rfl⟩ | ⟨atEnd, _⟩, operands⟩
  · exact ⟨mark, member, offset, operands⟩
  · omega

/-- A machine has passed the instruction of a mark. -/
structure AtMark (unit : Code.Unit) (listing : List (Nat × Instruction)) (marks : List Mark)
    (results : Nat) (owner : Option FunctionRef) (mark : Mark) (m : Machine) : Prop where
  calls : Calls unit listing marks results owner m.frame m.callers.toList.reverse
  marked : mark ∈ marks
  belongs : unit.Belongs listing owner mark.offset
  operands : m.operands.height = m.frame.base + kept results owner + mark.height
  passed : m.ip = mark.offset + mark.instruction.size

/--
A machine is balanced again. It has other results only if it was at a place of the top level
that keeps its values, or if it is at the end.
-/
def Rebalances (unit : Code.Unit) (listing : List (Nat × Instruction)) (marks : List Mark)
    (results : Nat) (mark : Mark) (m after : Machine) : Prop :=
  ∃ more owner, Balanced unit listing marks more owner after ∧
    (more = results ∨
      (m.callers = #[] ∧ (mark.drops = false ∨ after.ip = unit.opcodes.size)))

variable {mark : Mark}

theorem AtMark.callers_eq (at_ : AtMark unit listing marks results owner mark m) {more : Nat}
    (settled : more = results ∨ (owner = none ∧ mark.drops = false)) :
    more = results ∨
      (m.callers = #[] ∧ (mark.drops = false ∨ after.ip = unit.opcodes.size)) := by
  refine settled.imp_right fun ⟨top, keeps⟩ => ⟨?_, .inl keeps⟩
  simpa using at_.calls.owner_eq_none_iff.1 top

/-- An instruction that works leads to a mark with the operands that it leaves. -/
theorem Works.rebalances (metered : unit.Metered listing marks)
    (at_ : AtMark unit listing marks results owner mark m)
    (works : Works mark.instruction m after)
    (goes : (mark.instruction.falls = true ∧ after.ip = m.ip) ∨
      mark.instruction.target? = some after.ip) :
    Rebalances unit listing marks results mark m after := by
  have closed := metered.closed mark at_.marked
  have leads : unit.Belongs listing owner after.ip ∧
      Code.Leads (unit.HeightAt marks) mark.drops after.ip mark.after := by
    rcases goes with ⟨falls, next⟩ | target
    · rw [next, at_.passed]
      exact ⟨metered.belongs_next at_.marked falls at_.belongs, closed.next falls⟩
    · exact ⟨metered.belongs_target at_.marked at_.belongs target, closed.target _ target⟩
  have operands : after.operands.height = after.frame.base + kept results owner + mark.after := by
    have enough := closed.enough
    have height := works.height
    have before := at_.operands
    rw [works.base, Mark.after]
    omega
  rcases settle metered at_.marked at_.belongs leads.2 operands with
    ⟨more, left, height, total, settled⟩
  refine ⟨more, owner, ⟨?_, leads.1, left, height, total⟩, at_.callers_eq settled⟩
  rw [works.callers]
  exact (at_.calls.continues works.continues works.memory).keep (settled.imp_right (·.1))

theorem size_boundMemory {storage : Code.Storage} {args : Array Value}
    (fits : args.size ≤ storage.locals.size) :
    (boundMemory storage args).size = storage.size := by
  have fresh : (freshMemory storage).size = storage.size := by
    simp [freshMemory, Code.Storage.initialMemory, Code.Storage.size]
  have size : storage.size = storage.constants.size + storage.locals.size := rfl
  simp only [boundMemory, Array.size_append, Array.size_extract, fresh]
  omega

/-- A function of the unit is entered without operands, and its caller waits. -/
theorem Callable.rebalances (metered : unit.Metered listing marks)
    (at_ : AtMark unit listing marks results owner mark m)
    (sound : m.Sound (· ∈ unit.functions)) {slot : UInt16} {count : UInt8} {used : Bool}
    {ref : FunctionRef} {storage : Code.Storage} (callable : Callable unit m slot count ref storage)
    (fits : count.toNat ≤ storage.locals.size)
    (instruction : mark.instruction = .call slot count used) :
    Rebalances unit listing marks results mark m (m.entered ref storage count.toNat used) := by
  have listed : ref ∈ unit.functions :=
    sound.frame _ (Array.mem_of_getElem? callable.callee) callable.compiled
  have closed := metered.closed mark at_.marked
  have falls : mark.instruction.falls = true := by rw [instruction]; rfl
  have enough := callable.enough
  have before := at_.operands
  have takes : mark.instruction.takes = count.toNat := by rw [instruction]; rfl
  have leaves : mark.instruction.leaves = if used then 1 else 0 := by rw [instruction]; rfl
  have taken := closed.enough
  have operands : m.operands.height - count.toNat + (if used then 1 else 0) =
      m.frame.base + kept results owner + mark.after := by
    rw [Mark.after, takes, leaves]
    omega
  rcases settle metered at_.marked at_.belongs (closed.next falls) operands with
    ⟨more, left, height, total, settled⟩
  rcases metered.entries ref listed with ⟨first, firstMember, entry, without⟩
  refine ⟨more, some ref, ⟨?_, metered.belongs_entry listed, 0, ?_, ?_⟩, at_.callers_eq settled⟩
  · simp only [entered, Array.toList_push, List.reverse_append, List.reverse_singleton,
      List.singleton_append]
    refine .call (at_.calls.keep (settled.imp_right (·.1))) callable.storage
      (size_boundMemory ?_) rfl ?_ ?_ total
    · rw [size_top (by omega)]
      exact fits
    · rw [at_.passed]
      exact metered.belongs_next at_.marked falls at_.belongs
    · rw [at_.passed]
      exact height
  · exact .inl ⟨first, firstMember, by simp only [entered]; omega, without⟩
  · simp only [entered, Stack.height_drop, kept]
    rfl

/-- A function is left, and its caller has the operands with which it goes on. -/
theorem rebalances_leave (at_ : AtMark unit listing marks results owner mark m) {caller : Frame}
    (inner : m.callers.back? = some caller) (result : Value) :
    Rebalances unit listing marks results mark m (leave m caller result) := by
  have calls := at_.calls
  have order := callers_of_back inner
  rw [order, List.reverse_append, List.reverse_singleton, List.singleton_append] at calls
  have grounded := at_.operands
  rcases leave_fields (m := m) caller result with ⟨ip, framesEq, _⟩
  rcases List.append_inj' framesEq rfl with ⟨callersEq, frameEq⟩
  rw [List.cons.injEq] at frameEq
  cases calls with
  | @call outerOwner ref _ _ _ storage next left outer found memory returnTo belongs height base =>
      have position : (leave m caller result).ip = next := by
        rw [ip, returnTo]
        rfl
      refine ⟨results, outerOwner, ⟨?_, by rw [position]; exact belongs, left,
        by rw [position]; exact height, ?_⟩, .inl rfl⟩
      · rw [callersEq, frameEq.1]
        exact outer
      · rw [frameEq.1, ← base, height_leave (by omega)]

/-- The run ends at the top level with whatever is on the stack. -/
theorem rebalances_end (metered : unit.Metered listing marks)
    (at_ : AtMark unit listing marks results owner mark m) (outer : m.callers.size = 0) :
    Rebalances unit listing marks results mark m { m with ip := unit.opcodes.size } := by
  have alone : m.callers = #[] := Array.size_eq_zero_iff.1 outer
  have top := at_.calls.owner_eq_none_iff.2 (by rw [alone]; rfl)
  subst top
  refine ⟨results + mark.height, none, ⟨at_.calls.keep (.inr rfl),
    (metered.belongs_end_iff none).2 rfl, 0, .inr ⟨rfl, rfl⟩, ?_⟩, .inr ⟨alone, .inr rfl⟩⟩
  simpa [kept, Nat.add_assoc] using at_.operands

/-- An instruction of a compiled program is refused only for the number of calls. -/
theorem Refused.kind_eq (metered : unit.Metered listing marks)
    (at_ : AtMark unit listing marks results owner mark m)
    (sound : m.Sound (· ∈ unit.functions)) {kind : Fault.Kind}
    (refused : Refused unit m mark.instruction kind) : kind = .stackOverflow := by
  have standing := (metered.listed _ _).2 ⟨mark, at_.marked, rfl, rfl⟩
  have keeps := metered.wellFormed.kept owner _ _ standing at_.belongs
  have known : ∀ {slot : UInt16} {ref : FunctionRef},
      m.frame.memory[slot.toNat]? = some (.function ref) → ref.native = false →
        ref ∈ unit.functions := fun callee compiled =>
    sound.frame _ (Array.mem_of_getElem? callee) compiled
  generalize instructionEq : mark.instruction = instruction at refused keeps standing
  cases refused with
  | operands few =>
      have enough := (metered.closed mark at_.marked).enough
      have operands := at_.operands
      rw [instructionEq] at enough
      omega
  | slot uses outside =>
      rcases keeps.slots with ⟨storage, found, keepsTo⟩
      rcases at_.calls.storage with ⟨other, otherFound, memory⟩
      cases found.symm.trans otherFound
      cases instruction with
      | load | store | fastStore | call =>
          cases uses
          simp only [Instruction.KeepsTo] at keepsTo
          omega
      | _ => cases uses
  | target leads outside =>
      rcases metered.wellFormed.targets _ _ _ standing leads with place | atEnd
      · rcases List.mem_map.1 place with ⟨⟨offset, next⟩, member, rfl⟩
        rcases (metered.listed _ _).1 member with ⟨other, otherMember, rfl, _⟩
        have inside := metered.inside otherMember
        simp only at outside
        omega
      · omega
  | storage callee compiled missing =>
      rcases metered.callees _ (known callee compiled) with ⟨_, positive, storage, found, _⟩
      rcases missing with negative | absent
      · exact (negative positive).elim
      · rw [found] at absent
        cases absent
  | entry callee compiled outside =>
      rcases metered.entries _ (known callee compiled) with ⟨first, member, entry, _⟩
      have inside := metered.inside member
      have positive := first.instruction.size_pos
      omega
  | depth => rfl

/-- What a step of a compiled program comes to. -/
def Step.IsSafe (unit : Code.Unit) (registry : Option Registry)
    (listing : List (Nat × Instruction)) (marks : List Mark) (results : Nat) (mark : Mark)
    (m : Machine) : Step → Prop
  | .done after => Rebalances unit listing marks results mark m after
  | .fault after problem => problem.kind = .stackOverflow ∨
      (problem.kind.fatal = false ∧ Rebalances unit listing marks results mark m after)
  | .unreadable _ _ => False
  | .crash _ reason => m.BreaksBy registry mark.instruction reason

theorem Mild.not_fatal {fault : Fault} (mild : Mild registry fault)
    (honest : Registry.AllHonest registry) : fault.kind.fatal = false := by
  cases fatal : fault.kind.fatal with
  | false => rfl
  | true =>
      rcases mild fatal with ⟨natives, name, native, args, host, rfl, found, fails⟩
      have result : (native.call args host).Honest fun _ => True :=
        (((honest natives rfl).keeps fun _ => True).find? found).call
          (fun arg _ => arg.within_of_forall fun _ _ => trivial)
          (host.heap.within_of_forall fun _ _ => trivial)
      rw [result.mild fault fails] at fatal
      cases fatal

theorem Effect.isSafe (metered : unit.Metered listing marks)
    (at_ : AtMark unit listing marks results owner mark m)
    (sound : m.Sound (· ∈ unit.functions)) (honest : Registry.AllHonest registry) {outcome : Step}
    (effect : Effect unit registry m mark.instruction outcome) :
    outcome.IsSafe unit registry listing marks results mark m := by
  generalize instructionEq : mark.instruction = instruction at effect
  cases effect with
  | works works goes =>
      subst instructionEq
      exact works.rebalances metered at_ (goes.imp_right (·.1))
  | faults works goes mild =>
      subst instructionEq
      exact .inr ⟨mild.not_fatal honest, works.rebalances metered at_ (.inl goes)⟩
  | refuses refused =>
      subst instructionEq
      exact .inl (refused.kind_eq metered at_ sound)
  | enters callable fits => exact callable.rebalances metered at_ sound fits instructionEq
  | returns inner => exact rebalances_leave at_ inner _
  | ends outer => exact rebalances_end metered at_ outer
  | crashesBinary _ breaks =>
      rw [Step.IsSafe, instructionEq]
      exact .operation breaks
  | crashesNative callee isNative breaks =>
      rw [Step.IsSafe, instructionEq]
      exact .native callee isNative breaks
  | crashesCall callable short =>
      have listed := sound.frame _ (Array.mem_of_getElem? callable.callee) callable.compiled
      rcases metered.callees _ listed with ⟨_, _, storage, found, fits⟩
      cases callable.storage.symm.trans found
      have arity := callable.arity
      omega

/-- A step of a balanced machine is safe. -/
theorem Balanced.step_isSafe (metered : unit.Metered listing marks)
    (balanced : Balanced unit listing marks results owner m)
    (sound : m.Sound (· ∈ unit.functions)) (honest : Registry.AllHonest registry)
    (inside : m.ip < unit.opcodes.size) :
    ∃ mark ∈ marks, mark.offset = m.ip ∧
      (step unit registry m).IsSafe unit registry listing marks results mark m := by
  rcases balanced.mark inside with ⟨mark, marked, offset, operands⟩
  refine ⟨mark, marked, offset, ?_⟩
  have reads := metered.reads mark marked
  have effect := step_effect registry balanced.grounded inside
  have belongs := balanced.belongs
  rw [← offset] at belongs
  generalize step unit registry m = outcome at effect
  cases effect with
  | @executes instruction _ decoded effect =>
      rw [offset, decoded] at reads
      cases reads
      have at_ : AtMark unit listing marks results owner mark (m.passed mark.instruction) :=
        ⟨balanced.calls, marked, belongs, operands, by rw [offset]; rfl⟩
      have safe := effect.isSafe metered at_ ⟨sound.operands, sound.memory, sound.heap⟩ honest
      cases outcome with
      | crash after crash => exact BreaksBy.of_passed safe
      | done | fault | unreadable => exact safe
  | unreadable decoded | unknown decoded =>
      rw [offset, decoded] at reads
      cases reads

end Steps

end Lehce.Machine
