import Lehce.Proofs.Machine.Isolation
import Lehce.Proofs.Value.Soundness

/-!
# Functions in a running machine

A machine only holds functions that its unit has as constants, or that it was given at its
start: no instruction makes up a function, and native functions that pass on nothing but what
is allowed make up none either. For functions of the program that is what honest ones do.
-/

namespace Lehce

/-- All constants of a unit are within the allowed ones. -/
def Code.Unit.Within (allowed : FunctionRef → Prop) (unit : Code.Unit) : Prop :=
  ∀ storage ∈ unit.storages, ∀ datum ∈ storage.constants, (Value.ofScalar datum).Within allowed

/-- All constants of a unit are sound. -/
abbrev Code.Unit.Sound (known : FunctionRef → Prop) (unit : Code.Unit) : Prop :=
  unit.Within fun ref => ref.native = false → known ref

/-- The native functions that a machine can call are honest. -/
def Registry.AllHonest (registry : Option Registry) : Prop :=
  ∀ natives, registry = some natives → natives.Honest

/-- The native functions that a machine can call pass on nothing but allowed functions. -/
def Registry.AllKeep (allowed : FunctionRef → Prop) (registry : Option Registry) : Prop :=
  ∀ natives, registry = some natives → natives.Keeps allowed

theorem Registry.AllHonest.allKeep {registry : Option Registry}
    (honest : AllHonest registry) (known : FunctionRef → Prop) :
    AllKeep (fun ref => ref.native = false → known ref) registry :=
  fun natives found => (honest natives found).keeps known

theorem Natives.allHonest_standard : Registry.AllHonest (some standard) := by
  rintro natives ⟨⟩
  exact honest_standard

namespace Machine

open Code (Instruction)

/-- All values that a machine holds are within the allowed ones. -/
structure Within (allowed : FunctionRef → Prop) (m : Machine) : Prop where
  operands : ∀ value ∈ m.operands.values, value.Within allowed
  memory : ∀ frame ∈ m.frames, ∀ value ∈ frame.memory, value.Within allowed
  heap : m.host.heap.Within allowed

/-- All values that a machine holds are sound. -/
abbrev Sound (known : FunctionRef → Prop) (m : Machine) : Prop :=
  m.Within fun ref => ref.native = false → known ref

variable {allowed : FunctionRef → Prop} {unit : Code.Unit} {registry : Option Registry}
  {m after : Machine}

theorem Within.push (within : m.Within allowed) {value : Value}
    (valueWithin : value.Within allowed) : (m.push value).Within allowed := by
  refine ⟨?_, within.memory, within.heap⟩
  rw [push_operands, Stack.values_push]
  exact List.forall_mem_cons.2 ⟨valueWithin, within.operands⟩

theorem Within.drop (within : m.Within allowed) (count : Nat) : (m.drop count).Within allowed := by
  refine ⟨?_, within.memory, within.heap⟩
  intro value member
  rw [drop_operands, Stack.values_drop] at member
  exact within.operands value (List.mem_of_mem_drop member)

theorem Within.peek (within : m.Within allowed) (depth : Nat) : (m.peek depth).Within allowed := by
  rw [Machine.peek, Stack.peek_eq]
  cases found : m.operands.values[depth]? with
  | none => trivial
  | some value => exact within.operands value (List.mem_of_getElem? found)

theorem Within.top (within : m.Within allowed) (count : Nat) :
    ∀ value ∈ (m.top count).toList, value.Within allowed := by
  intro value member
  rw [Machine.top, Stack.toList_top, List.mem_reverse] at member
  exact within.operands value (List.mem_of_mem_take member)

theorem Within.ofHeap (within : m.Within allowed) {host : Host}
    (heapWithin : host.heap.Within allowed) : ({ m with host } : Machine).Within allowed :=
  ⟨within.operands, within.memory, heapWithin⟩

theorem Within.frame (within : m.Within allowed) : ∀ value ∈ m.frame.memory, value.Within allowed :=
  within.memory m.frame (by simp [frames])

/-- The memory of the innermost frame is changed. -/
theorem Within.withMemory (within : m.Within allowed) {memory : Array Value}
    (memoryWithin : ∀ value ∈ memory, value.Within allowed) :
    ({ m with frame := { m.frame with memory } } : Machine).Within allowed := by
  refine ⟨within.operands, ?_, within.heap⟩
  intro frame member
  rcases List.mem_append.1 member with outer | inner
  · exact within.memory frame (List.mem_append_left _ outer)
  · rw [List.mem_singleton.1 inner]
    exact memoryWithin

theorem Within.pushNew (within : m.Within allowed) (new : Heap → Value × Heap)
    (valueWithin : (new m.host.heap).1.Within allowed)
    (heapWithin : (new m.host.heap).2.Within allowed) : (pushNew new m).Within allowed := by
  rw [pushNew_eq]
  exact (within.push valueWithin).ofHeap heapWithin

theorem within_pushResult (within : m.Within allowed) {result : Except Fault Value}
    (resultWithin : ∀ value, result = .ok value → value.Within allowed) :
    (pushResult m result).machine.Within allowed := by
  cases result with
  | ok value => exact within.push (resultWithin value rfl)
  | error fault => exact within.push trivial

theorem within_withOperands (within : m.Within allowed) (count : Nat) {next : Machine → Step}
    (nextWithin : (next m).machine.Within allowed) :
    (withOperands m count next).machine.Within allowed := by
  unfold withOperands
  split
  · exact within
  · exact nextWithin

theorem within_failCall (within : m.Within allowed) (count : Nat) (used : Bool) (fault : Fault) :
    (failCall m count used fault).machine.Within allowed := by
  unfold failCall
  cases used with
  | true => exact (within.drop count).push trivial
  | false => exact within.drop count

theorem within_callNative (within : m.Within allowed) (keep : Registry.AllKeep allowed registry)
    (name : String) (count : Nat) (used : Bool) :
    (callNative registry m name count used).machine.Within allowed := by
  unfold callNative
  split
  · exact within.drop count
  rename_i natives
  split
  · exact within_failCall within count used _
  · rename_i native listed
    have result := ((keep natives rfl).find? listed).call (within.top count) within.heap
    have kept : ∀ value : Value, value.Within allowed →
        (if used then
          ({ m.drop count with host := (native.call (m.top count).toList m.host).host } :
            Machine).push value
        else { m.drop count with
          host := (native.call (m.top count).toList m.host).host }).Within allowed := by
      intro value valueWithin
      have dropped := (within.drop count).ofHeap result.heap
      cases used with
      | true => exact dropped.push valueWithin
      | false => exact dropped
    simp only
    split <;> exact kept _ result.value.orEmpty

theorem within_freshMemory (unitWithin : unit.Within allowed) {storage : Code.Storage}
    (member : storage ∈ unit.storages) : ∀ value ∈ freshMemory storage, value.Within allowed := by
  intro value valueMember
  rw [freshMemory, Code.Storage.initialMemory] at valueMember
  rcases Array.mem_map.1 valueMember with ⟨datum, datumMember, rfl⟩
  rcases Array.mem_append.1 datumMember with constant | variable_
  · exact (unitWithin storage member datum constant).orEmpty
  · rw [(Array.mem_replicate.1 variable_).2]
    trivial

theorem mem_of_mem_extract {values : Array Value} {first last : Nat} {value : Value}
    (member : value ∈ values.extract first last) : value ∈ values := by
  rw [Array.mem_def, Array.toList_extract, List.extract_eq_take_drop] at member
  exact Array.mem_def.2 (List.mem_of_mem_drop (List.mem_of_mem_take member))

theorem within_callFunction (within : m.Within allowed) (unitWithin : unit.Within allowed)
    (ref : FunctionRef) (count : Nat) (used : Bool) :
    (callFunction unit m ref count used).machine.Within allowed := by
  unfold callFunction
  split
  · exact within_failCall within count used _
  · split
    · exact within
    · rename_i storage found
      split
      · exact within
      · split
        · exact within
        · split
          · exact within
          · have member : storage ∈ unit.storages := by
              split at found
              · exact Array.mem_of_getElem? found
              · cases found
            refine ⟨(within.drop count).operands, ?_, within.heap⟩
            intro frame frameMember
            simp only [Step.machine, frames, drop_callers, Array.toList_push] at frameMember
            rcases List.mem_append.1 frameMember with outer | inner
            · exact within.memory frame outer
            · rw [List.mem_singleton.1 inner]
              intro value valueMember
              have fresh := within_freshMemory unitWithin member
              simp only [Array.mem_append] at valueMember
              rcases valueMember with (constant | arg) | other
              · exact fresh value (mem_of_mem_extract constant)
              · exact within.top count value (Array.mem_def.1 arg)
              · exact fresh value (mem_of_mem_extract other)

theorem within_call (within : m.Within allowed) (keep : Registry.AllKeep allowed registry)
    (unitWithin : unit.Within allowed) (slot count : Nat) (used : Bool) :
    (call unit registry m slot count used).machine.Within allowed := by
  unfold call
  split
  · exact within
  · refine within_withOperands within count ?_
    split
    · split
      · exact within_callNative within keep _ count used
      · exact within_callFunction within unitWithin _ count used
    · exact within_failCall within count used _

theorem Within.leave (within : m.Within allowed) {caller : Frame}
    (inner : m.callers.back? = some caller) {result : Value}
    (resultWithin : result.Within allowed) : (leave m caller result).Within allowed := by
  refine ⟨?_, ?_, ?_⟩
  · rw [values_leave]
    intro value member
    rcases List.mem_append.1 member with top | rest
    · split at top
      · rw [List.mem_singleton.1 top]
        exact resultWithin
      · cases top
    · exact within.operands value (List.mem_of_mem_drop rest)
  · intro frame member
    rw [(leave_fields caller result).2.1, ← callers_of_back inner] at member
    exact within.memory frame (List.mem_append_left _ member)
  · have host : (Machine.leave m caller result).host = m.host := by
      unfold Machine.leave
      simp only
      split <;> rfl
    rw [host]
    exact within.heap

theorem within_return (within : m.Within allowed) : (return_ unit m).machine.Within allowed := by
  refine within_withOperands within 1 ?_
  split
  · exact ⟨within.operands, within.memory, within.heap⟩
  · rename_i caller inner
    exact within.leave inner (within.peek 0)

theorem within_pairEntries {operands : List Value}
    (operandsWithin : ∀ value ∈ operands, value.Within allowed) :
    ∀ entry ∈ pairEntries operands, entry.2.Within allowed := by
  fun_induction pairEntries operands with
  | case1 key value rest ih =>
      simp only [List.forall_mem_cons] at operandsWithin ⊢
      exact ⟨operandsWithin.2.1, ih operandsWithin.2.2⟩
  | case2 key value rest different ih =>
      simp only [List.forall_mem_cons] at operandsWithin
      exact ih operandsWithin.2.2
  | case3 => simp

theorem within_makeDict (within : m.Within allowed) (pairs : Nat) :
    (makeDict m pairs).machine.Within allowed := by
  refine within_withOperands within (2 * pairs) ?_
  have pushed : (pushNew (·.newDict (Dict.ofList (pairEntries (m.top (2 * pairs)).toList)))
      (m.drop (2 * pairs))).Within allowed := by
    refine (within.drop _).pushNew _ trivial (within.heap.newDict ?_)
    intro entry member
    exact within_pairEntries (within.top _) entry (Dict.mem_of_mem_ofList member)
  simp only
  split
  · exact pushed
  · exact pushed

theorem within_makeList (within : m.Within allowed) (count : Nat) :
    (makeList m count).machine.Within allowed := by
  refine within_withOperands within count ?_
  exact (within.drop count).pushNew (·.newList (m.top count)) trivial
    (within.heap.newList fun item member => within.top count item (Array.mem_def.1 member))

theorem within_store (within : m.Within allowed) (slot : Nat) {value : Value}
    (valueWithin : value.Within allowed) :
    ({ m with frame := { m.frame with memory := m.frame.memory.setIfInBounds slot value } } :
      Machine).Within allowed := by
  refine within.withMemory ?_
  intro other member
  rcases Array.mem_or_eq_of_mem_setIfInBounds member with old | rfl
  · exact within.frame other old
  · exact valueWithin

/-- No instruction makes up a function. -/
theorem execute_within (within : m.Within allowed) (keep : Registry.AllKeep allowed registry)
    (unitWithin : unit.Within allowed) (at_ : Nat) (instruction : Instruction) :
    (execute unit registry m at_ instruction).machine.Within allowed := by
  have moved : ∀ target, ({ m with ip := target } : Machine).Within allowed :=
    fun target => ⟨within.operands, within.memory, within.heap⟩
  cases instruction with
  | load slot =>
      rw [execute]
      split
      · exact within
      · rename_i value found
        exact within.push (within.frame value (Array.mem_of_getElem? found))
  | store slot =>
      rw [execute]
      split
      · exact within
      · exact within_withOperands within 1 (within_store (within.drop 1) slot.toNat (within.peek 0))
  | fastStore slot =>
      rw [execute]
      split
      · exact within
      · exact within_withOperands within 1 (within_store within slot.toNat (within.peek 0))
  | jump target =>
      rw [execute]
      split
      · exact within
      · exact moved _
  | compare target =>
      rw [execute]
      split
      · exact within
      · refine within_withOperands within 1 ?_
        simp only
        split
        · exact within.drop 1
        · exact ⟨(within.drop 1).operands, (within.drop 1).memory, (within.drop 1).heap⟩
  | call slot count used => exact within_call within keep unitWithin _ _ _
  | return_ => exact within_return within
  | initList count => exact within_makeList within _
  | initDict count => exact within_makeDict within _
  | binary op =>
      rw [execute]
      refine within_withOperands within 2 ?_
      have result := applyBinary_within (within.drop 2).heap op (m.peek 1) (m.peek 0)
      simp only
      split
      · rename_i value yields
        rw [yields] at result
        exact (within.drop 2).push result
      · rename_i items yields
        rw [yields] at result
        exact (within.drop 2).pushNew (·.newList items) trivial (within.heap.newList result)
      · exact (within.drop 2).push trivial
      · exact within.drop 2
  | unary op =>
      rw [execute]
      refine within_withOperands within 1 ?_
      exact within_pushResult (within.drop 1) fun value yields => applyUnary_within yields
  | dup =>
      rw [execute]
      exact within_withOperands within 1 (within.push (within.peek 0))
  | dup2 =>
      rw [execute]
      exact within_withOperands within 2 ((within.push (within.peek 1)).push (within.peek 0))
  | pop =>
      rw [execute]
      exact within_withOperands within 1 (within.drop 1)
  | getItem =>
      rw [execute]
      refine within_withOperands within 2 ?_
      exact within_pushResult (within.drop 2) fun value yields => getItem_within within.heap yields
  | setItem =>
      rw [execute]
      refine within_withOperands within 3 ?_
      simp only
      split
      · rename_i change yields
        exact (within.drop 3).ofHeap (setItem_within yields (within.peek 0) within.heap)
      · exact within.drop 3

/-- No step makes up a function. -/
theorem Moves.within (moves : Moves unit registry m after) (within : m.Within allowed)
    (keep : Registry.AllKeep allowed registry) (unitWithin : unit.Within allowed) :
    after.Within allowed := by
  rcases moves with ⟨inside⟩
  have moved : ∀ target, ({ m with ip := target } : Machine).Within allowed :=
    fun target => ⟨within.operands, within.memory, within.heap⟩
  rw [Machine.step_eq_decode]
  split
  · exact execute_within (moved _) keep unitWithin _ _
  · simp only
    split
    · exact within
    · exact moved _
  · exact within
  · exact within

theorem Reachable.within (reachable : Reachable unit registry m after) (within : m.Within allowed)
    (keep : Registry.AllKeep allowed registry) (unitWithin : unit.Within allowed) :
    after.Within allowed := by
  induction reachable with
  | refl => exact within
  | tail _ moves ih => exact moves.within ih keep unitWithin

/-- No step with honest native functions makes up a function of the program. -/
theorem Moves.sound {known : FunctionRef → Prop} (moves : Moves unit registry m after)
    (sound : m.Sound known) (honest : Registry.AllHonest registry)
    (unitSound : unit.Sound known) : after.Sound known :=
  moves.within sound (honest.allKeep known) unitSound

theorem Reachable.sound {known : FunctionRef → Prop} (reachable : Reachable unit registry m after)
    (sound : m.Sound known) (honest : Registry.AllHonest registry)
    (unitSound : unit.Sound known) : after.Sound known :=
  reachable.within sound (honest.allKeep known) unitSound

theorem within_start {memory : Array Value} {host : Host} (limits : Limits)
    (memoryWithin : ∀ value ∈ memory, value.Within allowed)
    (heapWithin : host.heap.Within allowed) : (start limits memory host).Within allowed := by
  refine ⟨by simp [start, Stack.values_ofSize], ?_, heapWithin⟩
  intro frame member
  simp only [frames, start, List.nil_append, List.mem_singleton] at member
  rw [member]
  intro value valueMember
  rcases Array.mem_map.1 valueMember with ⟨earlier, earlierMember, rfl⟩
  exact (memoryWithin earlier earlierMember).orEmpty

end Machine

end Lehce
