import Lehce.Proofs.Code.Layout
import Lehce.Proofs.Machine.Fetch

/-!
# What a step can do

Everything that one instruction does to a machine, said once for all code. Either the
activation works on its own operands and its own memory, or it is refused and nothing has
changed, or it enters a function, or it is left, or the run ends, or the machine crashes.
`execute_effect` is the only place where the instructions are taken apart; laws of runs
are derived from it.
-/

namespace Lehce

/-- Something is used that is not there: a place outside its range, or nothing at all. -/
def Crash.IsAbsence : Crash → Prop
  | .noRoom .. | .missing | .noStorage => True
  | _ => False

namespace Machine

open Code (Instruction)

variable {unit : Code.Unit} {registry : Option Registry} {m : Machine}

/-- A machine goes on inside an activation, with some operands taken and others left instead. -/
structure Works (instruction : Instruction) (m after : Machine) : Prop where
  callers : after.callers = m.callers
  base : after.frame.base = m.frame.base
  returnTo : after.frame.returnTo = m.frame.returnTo
  used : after.frame.used = m.frame.used
  memory : after.frame.memory.size = m.frame.memory.size
  callDepth : after.callDepth = m.callDepth
  enough : m.frame.base + instruction.takes ≤ m.operands.height
  height : after.operands.height + instruction.takes = m.operands.height + instruction.leaves
  below : after.operands.values.drop instruction.leaves =
    m.operands.values.drop instruction.takes
  clean : m.operands.Clean → after.operands.Clean

/-- Why an instruction is refused. -/
inductive Refused (unit : Code.Unit) (m : Machine) : Instruction → Fault.Kind → Prop where
  | operands {instruction : Instruction}
      (few : m.operands.height < m.frame.base + instruction.takes) :
      Refused unit m instruction .stackUnderflow
  | slot {instruction : Instruction} {slot : Nat} (uses : instruction.slot? = some slot)
      (outside : m.frame.memory.size ≤ slot) : Refused unit m instruction .invalidSlot
  | target {instruction : Instruction} {target : Nat} (leads : instruction.target? = some target)
      (outside : unit.opcodes.size < target) : Refused unit m instruction .invalidJumpTarget
  | storage {slot : UInt16} {count : UInt8} {used : Bool} {ref : FunctionRef}
      (callee : m.frame.memory[slot.toNat]? = some (.function ref)) (compiled : ref.native = false)
      (missing : ¬0 < ref.storage ∨ unit.storages[ref.storage.toNat]? = none) :
      Refused unit m (.call slot count used) .invalidSlot
  | entry {slot : UInt16} {count : UInt8} {used : Bool} {ref : FunctionRef}
      (callee : m.frame.memory[slot.toNat]? = some (.function ref)) (compiled : ref.native = false)
      (outside : ref.entry < 0 ∨ (unit.opcodes.size : Int) ≤ ref.entry) :
      Refused unit m (.call slot count used) .invalidJumpTarget
  | depth {slot : UInt16} {count : UInt8} {used : Bool} {ref : FunctionRef}
      (callee : m.frame.memory[slot.toNat]? = some (.function ref)) (compiled : ref.native = false)
      (deep : m.callDepth ≤ m.frameCount) : Refused unit m (.call slot count used) .stackOverflow

/-- A call of a function of the unit that passes all checks. -/
structure Callable (unit : Code.Unit) (m : Machine) (slot : UInt16) (count : UInt8)
    (ref : FunctionRef) (storage : Code.Storage) : Prop where
  callee : m.frame.memory[slot.toNat]? = some (.function ref)
  compiled : ref.native = false
  arity : ref.arity = count.toNat
  number : 0 < ref.storage
  storage : unit.storages[ref.storage.toNat]? = some storage
  entry : 0 ≤ ref.entry ∧ ref.entry < unit.opcodes.size
  depth : m.frameCount < m.callDepth
  enough : m.frame.base + count.toNat ≤ m.operands.height

/-- The memory of an activation of a function. -/
def boundMemory (storage : Code.Storage) (args : Array Value) : Array Value :=
  let fresh := freshMemory storage
  let first := storage.constants.size
  fresh.extract 0 first ++ args ++ fresh.extract (first + args.size) fresh.size

/-- A machine after it has entered a function. -/
def entered (m : Machine) (ref : FunctionRef) (storage : Code.Storage) (count : Nat)
    (used : Bool) : Machine where
  ip := ref.entry.toNat
  operands := m.operands.drop count
  frame := {
    memory := boundMemory storage (m.top count)
    returnTo := m.ip
    base := m.operands.height - count
    used }
  callers := m.callers.push m.frame
  callDepth := m.callDepth
  host := m.host

/-- A fault that goes back to the program, or to a native function that reported it as fatal. -/
def Mild (registry : Option Registry) (fault : Fault) : Prop :=
  fault.kind.fatal = true → ∃ (natives : Registry) (name : String) (native : Native)
    (args : List Value) (host : Host), registry = some natives ∧
      natives.find? name = some native ∧ (native.call args host).failure = some (.fault fault)

/-- An operation crashes on the two topmost operands. -/
def Breaks (m : Machine) (op : Code.BinaryOp) (crash : Crash) : Prop :=
  applyBinary op m.host.heap (m.peek 1) (m.peek 0) = .crash crash

/-- A native function crashes when it is called with the topmost operands, or there is none. -/
inductive NativeBreaks (registry : Option Registry) (m : Machine) (name : String) (count : Nat) :
    Crash → Prop where
  | missing (without : registry = none) : NativeBreaks registry m name count .missing
  | fails {natives : Registry} {native : Native} {crash : Crash}
      (given : registry = some natives) (found : natives.find? name = some native)
      (failed : (native.call (m.top count).toList m.host).failure = some (.crash crash)) :
      NativeBreaks registry m name count crash

/-- What a machine crashes by, and not for want of memory: an operation or a native function. -/
inductive BreaksBy (registry : Option Registry) (m : Machine) : Instruction → Crash → Prop where
  | operation {op : Code.BinaryOp} {crash : Crash} (breaks : m.Breaks op crash) :
      BreaksBy registry m (.binary op) crash
  | native {slot : UInt16} {count : UInt8} {used : Bool} {ref : FunctionRef} {crash : Crash}
      (callee : m.frame.memory[slot.toNat]? = some (.function ref)) (isNative : ref.native = true)
      (breaks : NativeBreaks registry m ref.name count.toNat crash) :
      BreaksBy registry m (.call slot count used) crash

/-- What an instruction does to a machine that has passed it. -/
inductive Effect (unit : Code.Unit) (registry : Option Registry) (m : Machine) :
    Instruction → Step → Prop where
  | works {instruction : Instruction} {after : Machine} (works : Works instruction m after)
      (goes : (instruction.falls = true ∧ after.ip = m.ip) ∨
        (instruction.target? = some after.ip ∧ after.ip ≤ unit.opcodes.size)) :
      Effect unit registry m instruction (.done after)
  | faults {instruction : Instruction} {after : Machine} {fault : Fault}
      (works : Works instruction m after) (goes : instruction.falls = true ∧ after.ip = m.ip)
      (mild : Mild registry fault) :
      Effect unit registry m instruction (.fault after fault)
  | refuses {instruction : Instruction} {fault : Fault}
      (refused : Refused unit m instruction fault.kind) :
      Effect unit registry m instruction (.fault m fault)
  | enters {slot : UInt16} {count : UInt8} {used : Bool} {ref : FunctionRef}
      {storage : Code.Storage} (callable : Callable unit m slot count ref storage)
      (fits : count.toNat ≤ storage.locals.size) :
      Effect unit registry m (.call slot count used)
        (.done (m.entered ref storage count.toNat used))
  | returns {caller : Frame} (inner : m.callers.back? = some caller)
      (enough : m.frame.base + 1 ≤ m.operands.height) :
      Effect unit registry m .return_ (.done (leave m caller (m.peek 0)))
  | ends (outer : m.callers.size = 0) (enough : m.frame.base + 1 ≤ m.operands.height) :
      Effect unit registry m .return_ (.done { m with ip := unit.opcodes.size })
  | crashesBinary {op : Code.BinaryOp} {crash : Crash}
      (enough : m.frame.base + 2 ≤ m.operands.height) (breaks : m.Breaks op crash) :
      Effect unit registry m (.binary op) (.crash (m.drop 2) crash)
  | crashesNative {slot : UInt16} {count : UInt8} {used answered : Bool} {ref : FunctionRef}
      {after : Machine} {crash : Crash}
      (callee : m.frame.memory[slot.toNat]? = some (.function ref)) (isNative : ref.native = true)
      (breaks : NativeBreaks registry m ref.name count.toNat crash)
      (works : Works (.call slot count answered) m after) (frame : after.frame = m.frame)
      (stays : after.ip = m.ip) :
      Effect unit registry m (.call slot count used) (.crash after crash)
  | crashesCall {slot : UInt16} {count : UInt8} {used : Bool} {ref : FunctionRef}
      {storage : Code.Storage} (callable : Callable unit m slot count ref storage)
      (short : storage.locals.size < count.toNat) :
      Effect unit registry m (.call slot count used)
        (.crash m (.noRoom (storage.constants.size + count.toNat) storage.size))

section Operations

variable (m : Machine) (value : Value) (count : Nat)

@[simp]
theorem push_ip : (m.push value).ip = m.ip := rfl

@[simp]
theorem push_operands : (m.push value).operands = m.operands.push value := rfl

@[simp]
theorem push_frame : (m.push value).frame = m.frame := rfl

@[simp]
theorem push_callers : (m.push value).callers = m.callers := rfl

@[simp]
theorem push_callDepth : (m.push value).callDepth = m.callDepth := rfl

@[simp]
theorem push_host : (m.push value).host = m.host := rfl

@[simp]
theorem drop_ip : (m.drop count).ip = m.ip := rfl

@[simp]
theorem drop_operands : (m.drop count).operands = m.operands.drop count := rfl

@[simp]
theorem drop_frame : (m.drop count).frame = m.frame := rfl

@[simp]
theorem drop_callers : (m.drop count).callers = m.callers := rfl

@[simp]
theorem drop_callDepth : (m.drop count).callDepth = m.callDepth := rfl

@[simp]
theorem drop_host : (m.drop count).host = m.host := rfl

@[simp]
theorem changeHeap_frame (change : Heap → Heap) : (m.changeHeap change).frame = m.frame := rfl

theorem pushNew_eq (new : Heap → Value × Heap) : pushNew new m =
    { m.push (new m.host.heap).1 with host := { m.host with heap := (new m.host.heap).2 } } := rfl

@[simp]
theorem pushNew_ip (new : Heap → Value × Heap) : (pushNew new m).ip = m.ip := by
  rw [pushNew_eq, push_ip]

@[simp]
theorem pushNew_frame (new : Heap → Value × Heap) : (pushNew new m).frame = m.frame := by
  rw [pushNew_eq, push_frame]

end Operations

/-- A machine remains in its activation: only its pointer, its operands, its host and what stands
in its memory may have changed. -/
structure Remains (m after : Machine) : Prop where
  callers : after.callers = m.callers
  callDepth : after.callDepth = m.callDepth
  base : after.frame.base = m.frame.base
  returnTo : after.frame.returnTo = m.frame.returnTo
  used : after.frame.used = m.frame.used
  memory : after.frame.memory.size = m.frame.memory.size

namespace Remains

variable {after : Machine}

theorem refl (m : Machine) : Remains m m := ⟨rfl, rfl, rfl, rfl, rfl, rfl⟩

/-- The pointer and the host do not matter. -/
theorem moved (remains : Remains m after) (ip : Nat) (host : Host) :
    Remains m { after with ip, host } :=
  ⟨remains.callers, remains.callDepth, remains.base, remains.returnTo, remains.used,
    remains.memory⟩

theorem stored (remains : Remains m after) (slot : Nat) (value : Value) :
    Remains m { after with frame :=
      { after.frame with memory := after.frame.memory.setIfInBounds slot value } } :=
  ⟨remains.callers, remains.callDepth, remains.base, remains.returnTo, remains.used,
    Array.size_setIfInBounds.trans remains.memory⟩

theorem push (remains : Remains m after) (value : Value) : Remains m (after.push value) := by
  rcases remains with ⟨callers, callDepth, base, returnTo, used, memory⟩
  constructor
  · rwa [push_callers]
  · rwa [push_callDepth]
  all_goals rwa [push_frame]

theorem drop (remains : Remains m after) (count : Nat) : Remains m (after.drop count) := by
  rcases remains with ⟨callers, callDepth, base, returnTo, used, memory⟩
  constructor
  · rwa [drop_callers]
  · rwa [drop_callDepth]
  all_goals rwa [drop_frame]

theorem pushNew (remains : Remains m after) (new : Heap → Value × Heap) :
    Remains m (Machine.pushNew new after) := by
  rw [pushNew_eq]
  exact (remains.push _).moved _ _

end Remains

theorem size_top {count : Nat} (enough : count ≤ m.operands.height) :
    (m.top count).size = count := by
  have taken := congrArg List.length (m.operands.toList_top count)
  rw [Array.length_toList, List.length_reverse, List.length_take, Stack.length_values] at taken
  exact taken.trans (Nat.min_eq_left enough)

theorem need_eq_none_iff {count : Nat} :
    m.need count = none ↔ m.frame.base + count ≤ m.operands.height := by
  unfold need
  split
  · simp
    omega
  · simp
    omega

theorem kind_of_need {count : Nat} {fault : Fault} (needs : m.need count = some fault) :
    m.operands.height < m.frame.base + count ∧ fault.kind = .stackUnderflow := by
  unfold need at needs
  split at needs
  · cases needs
    exact ⟨by assumption, rfl⟩
  · cases needs

/-- An activation either lacks operands, and is refused, or goes on. -/
theorem effect_withOperands (instruction : Instruction) {next : Machine → Step}
    (goesOn : m.frame.base + instruction.takes ≤ m.operands.height →
      Effect unit registry m instruction (next m)) :
    Effect unit registry m instruction (withOperands m instruction.takes next) := by
  unfold withOperands
  split
  · rename_i fault needs
    rcases kind_of_need needs with ⟨few, kind⟩
    exact .refuses (by rw [kind]; exact .operands few)
  · rename_i enough
    exact goesOn (need_eq_none_iff.1 enough)

/-- Some operands are dropped and others pushed instead. -/
theorem works_of_operands {instruction : Instruction} {after : Machine} (left : List Value)
    (enough : m.frame.base + instruction.takes ≤ m.operands.height)
    (length : left.length = instruction.leaves)
    (operands : after.operands.values = left ++ m.operands.values.drop instruction.takes)
    (clean : m.operands.Clean → after.operands.Clean) (remains : Remains m after) :
    Works instruction m after where
  callers := remains.callers
  base := remains.base
  returnTo := remains.returnTo
  used := remains.used
  memory := remains.memory
  callDepth := remains.callDepth
  enough := enough
  height := by
    have same := congrArg List.length operands
    rw [Stack.length_values, List.length_append, List.length_drop, Stack.length_values,
      length] at same
    omega
  below := by rw [operands, ← length, List.drop_left]
  clean := clean

theorem mild_of_not_fatal {fault : Fault} (mild : fault.kind.fatal = false) :
    Mild registry fault := by
  intro fatal
  rw [mild] at fatal
  cases fatal

theorem works_push {instruction : Instruction} {after : Machine} (value : Value)
    (enough : m.frame.base + instruction.takes ≤ m.operands.height)
    (leaves : instruction.leaves = 1)
    (operands : after.operands = (m.operands.drop instruction.takes).push value)
    (remains : Remains m after) : Works instruction m after := by
  refine works_of_operands [value] enough leaves.symm ?_ ?_ remains
  · rw [operands, Stack.values_push, Stack.values_drop, List.singleton_append]
  · intro clean
    rw [operands]
    exact (clean.drop _).push _

theorem works_drop {instruction : Instruction} {after : Machine}
    (enough : m.frame.base + instruction.takes ≤ m.operands.height)
    (leaves : instruction.leaves = 0)
    (operands : after.operands = m.operands.drop instruction.takes)
    (remains : Remains m after) : Works instruction m after := by
  refine works_of_operands [] enough leaves.symm ?_ ?_ remains
  · rw [operands, Stack.values_drop, List.nil_append]
  · intro clean
    rw [operands]
    exact clean.drop _

theorem works_pushed {instruction : Instruction} (value : Value)
    (enough : m.frame.base + instruction.takes ≤ m.operands.height)
    (leaves : instruction.leaves = 1) :
    Works instruction m ((m.drop instruction.takes).push value) := by
  refine works_push value enough leaves ?_ (((Remains.refl m).drop _).push value)
  rw [push_operands, drop_operands]

theorem works_dropped {instruction : Instruction}
    (enough : m.frame.base + instruction.takes ≤ m.operands.height)
    (leaves : instruction.leaves = 0) : Works instruction m (m.drop instruction.takes) :=
  works_drop enough leaves (drop_operands _ _) ((Remains.refl m).drop _)

/-- A call that is answered takes its arguments and leaves a value, if it is used. -/
theorem works_answered {slot : UInt16} {count : UInt8} {used : Bool} {dropped : Machine}
    (value : Value) (enough : m.frame.base + count.toNat ≤ m.operands.height)
    (operands : dropped.operands = m.operands.drop count.toNat) (remains : Remains m dropped) :
    Works (.call slot count used) m (if used then dropped.push value else dropped) := by
  cases used with
  | true =>
      refine works_push value enough rfl ?_ (remains.push value)
      rw [if_pos rfl, push_operands, operands]
      rfl
  | false => exact works_drop enough rfl operands remains

theorem ip_answered (used : Bool) (dropped : Machine) (value : Value) :
    (if used then dropped.push value else dropped).ip = dropped.ip := by
  cases used with
  | true => exact push_ip dropped value
  | false => rfl

theorem frame_answered (used : Bool) (dropped : Machine) (value : Value) :
    (if used then dropped.push value else dropped).frame = dropped.frame := by
  cases used with
  | true => exact push_frame dropped value
  | false => rfl

theorem effect_failCall {slot : UInt16} {count : UInt8} {used : Bool} {fault : Fault}
    (enough : m.frame.base + count.toNat ≤ m.operands.height)
    (mild : fault.kind.fatal = false) :
    Effect unit registry m (.call slot count used) (failCall m count.toNat used fault) := by
  refine .faults (works_answered .empty enough (drop_operands _ _) ((Remains.refl m).drop _))
    ⟨rfl, ?_⟩ (mild_of_not_fatal mild)
  rw [ip_answered, drop_ip]

theorem effect_callNative {slot : UInt16} {count : UInt8} {used : Bool} {ref : FunctionRef}
    (callee : m.frame.memory[slot.toNat]? = some (.function ref)) (isNative : ref.native = true)
    (enough : m.frame.base + count.toNat ≤ m.operands.height) :
    Effect unit registry m (.call slot count used)
      (callNative registry m ref.name count.toNat used) := by
  unfold callNative
  split
  · have unanswered : Works (.call slot count false) m (m.drop count.toNat) :=
      works_dropped enough rfl
    exact .crashesNative callee isNative (.missing rfl) unanswered (drop_frame _ _) (drop_ip _ _)
  rename_i natives
  split
  · exact effect_failCall enough rfl
  · rename_i native listed
    have works : ∀ (host : Host) (value : Value), Works (.call slot count used) m
        (if used then
          ({ m.drop count.toNat with host } : Machine).push value
        else { m.drop count.toNat with host }) := fun host value =>
      works_answered value enough (drop_operands m count.toNat)
        (((Remains.refl m).drop count.toNat).moved (m.drop count.toNat).ip host)
    simp only
    split
    · refine .works (works _ _) (.inl ⟨rfl, ?_⟩)
      rw [ip_answered, drop_ip]
    · rename_i fault failed
      refine .faults (works _ _) ⟨rfl, ?_⟩
        fun _ => ⟨natives, ref.name, native, _, _, rfl, listed, failed⟩
      rw [ip_answered, drop_ip]
    · refine .faults (works _ _) ⟨rfl, ?_⟩ (mild_of_not_fatal rfl)
      rw [ip_answered, drop_ip]
    · rename_i crash failed
      refine .crashesNative callee isNative (.fails rfl listed failed) (works _ _) ?_ ?_
      · rw [frame_answered, drop_frame]
      · rw [ip_answered, drop_ip]

theorem effect_callFunction {slot : UInt16} {count : UInt8} {used : Bool} {ref : FunctionRef}
    (callee : m.frame.memory[slot.toNat]? = some (.function ref)) (compiled : ref.native = false)
    (enough : m.frame.base + count.toNat ≤ m.operands.height) :
    Effect unit registry m (.call slot count used)
      (callFunction unit m ref count.toNat used) := by
  unfold callFunction
  split
  · exact effect_failCall enough rfl
  · rename_i arity
    split
    · rename_i missing
      refine .refuses (.storage callee compiled ?_)
      by_cases positive : 0 < ref.storage
      · rw [if_pos positive] at missing
        exact .inr missing
      · exact .inl positive
    · rename_i storage found
      have positive : 0 < ref.storage := by
        by_contra outside
        rw [if_neg outside] at found
        cases found
      rw [if_pos positive] at found
      split
      · rename_i outside
        exact .refuses (.entry callee compiled outside)
      · rename_i inside
        split
        · rename_i deep
          exact .refuses (.depth callee compiled deep)
        · rename_i shallow
          have callable : Callable unit m slot count ref storage :=
            ⟨callee, compiled, not_not.1 arity, positive, found, by omega, by omega, enough⟩
          split
          · rename_i short
            exact .crashesCall callable (by rw [Code.Storage.size] at short; omega)
          · rename_i fits
            have same : Effect unit registry m (.call slot count used) _ :=
              .enters callable (by rw [Code.Storage.size] at fits; omega)
            rw [entered, boundMemory, size_top (by omega)] at same
            simpa [drop, Stack.height_drop] using same

theorem effect_call {slot : UInt16} {count : UInt8} {used : Bool} :
    Effect unit registry m (.call slot count used)
      (call unit registry m slot.toNat count.toNat used) := by
  unfold call
  split
  · rename_i missing
    exact .refuses (.slot rfl (Array.getElem?_eq_none_iff.1 missing))
  · rename_i callee found
    refine effect_withOperands (.call slot count used) fun enough => ?_
    split
    · rename_i ref
      by_cases native : ref.native
      · rw [if_pos native]
        exact effect_callNative found native enough
      · rw [if_neg native]
        exact effect_callFunction found (by simpa using native) enough
    · exact effect_failCall enough rfl

theorem effect_return : Effect unit registry m .return_ (return_ unit m) := by
  refine effect_withOperands .return_ fun enough => ?_
  split
  · rename_i outer
    exact .ends (by simpa using outer) enough
  · rename_i caller inner
    exact .returns inner enough

/-- A new list or dictionary takes the place of some operands. -/
theorem works_pushNew {instruction : Instruction} (new : Heap → Value × Heap)
    (enough : m.frame.base + instruction.takes ≤ m.operands.height)
    (leaves : instruction.leaves = 1) :
    Works instruction m (pushNew new (m.drop instruction.takes)) := by
  refine works_push (new (m.drop instruction.takes).host.heap).1 enough leaves ?_
    (((Remains.refl m).drop _).pushNew new)
  rw [pushNew_eq, push_operands, drop_operands]

theorem effect_makeList {count : UInt16} :
    Effect unit registry m (.initList count) (makeList m count.toNat) :=
  effect_withOperands (.initList count) fun enough =>
    .works (works_pushNew _ enough rfl) (.inl ⟨rfl, by simp⟩)

theorem lastKeyFault_mild (operands : List Value) {before fault : Option Fault}
    (mild : ∀ found, before = some found → found.kind.fatal = false)
    (last : lastKeyFault operands before = fault) :
    ∀ found, fault = some found → found.kind.fatal = false := by
  fun_induction lastKeyFault operands before with
  | case1 key value rest before ih => exact ih mild last
  | case2 key value rest before different ih =>
      refine ih ?_ last
      rintro found ⟨⟩
      rfl
  | case3 =>
      rw [← last]
      exact mild

theorem effect_makeDict {pairs : UInt16} :
    Effect unit registry m (.initDict pairs) (makeDict m pairs.toNat) := by
  refine effect_withOperands (.initDict pairs) fun enough => ?_
  simp only
  split
  · exact .works (works_pushNew _ enough rfl) (.inl ⟨rfl, by simp⟩)
  · rename_i fault found
    exact .faults (works_pushNew _ enough rfl) ⟨rfl, by simp⟩ (mild_of_not_fatal
      (lastKeyFault_mild _ (by simp) found fault rfl))

section Faults

variable {heap : Heap} {fault : Fault}

/-- If an operation fails, then with a fault that is not fatal, or not for want of anything. -/
def Outcome.Mild : Outcome → Prop
  | .fault fault => fault.kind.fatal = false
  | .crash reason => ¬reason.IsAbsence
  | _ => True

theorem ofEnding_mild {α : Type} (result : α → Value) (answer : Option α) :
    (Outcome.ofEnding result answer).Mild := by
  cases answer with
  | none => exact not_false
  | some answer => trivial

theorem addValues_mild (left right : Value) : (addValues heap left right).Mild := by
  unfold addValues
  split
  · trivial
  · exact ofEnding_mild ..
  · exact ofEnding_mild ..
  · trivial
  · rfl

theorem repeatText_mild (text : String) (count : Float) : (repeatText text count).Mild := by
  unfold repeatText
  split
  · trivial
  · simp only
    repeat' split
    all_goals first | exact not_false | trivial

theorem applyBinary_mild (heap : Heap) (op : Code.BinaryOp) (left right : Value) :
    (applyBinary op heap left right).Mild := by
  unfold applyBinary
  split
  · exact ofEnding_mild ..
  · exact ofEnding_mild ..
  any_goals
    split <;> trivial
  all_goals
    split
    · trivial
    · split
      · exact addValues_mild ..
      · exact repeatText_mild ..
      · exact repeatText_mild ..
      · trivial

theorem applyUnary_mild {op : Code.UnaryOp} {operand : Value}
    (fails : applyUnary op heap operand = .error fault) : fault.kind.fatal = false := by
  unfold applyUnary at fails
  split at fails
  all_goals cases fails
  rfl

theorem listPlace_mild {items : Array Value} {index : Value}
    (fails : listPlace items index = .error fault) : fault.kind.fatal = false := by
  unfold listPlace at fails
  split at fails
  · cases fails
    rfl
  · split at fails
    · cases fails
      rfl
    · cases fails

theorem getItem_mild {container index : Value}
    (fails : getItem heap container index = .error fault) : fault.kind.fatal = false := by
  cases container with
  | list place =>
      simp only [getItem, bind, Except.bind] at fails
      split at fails
      · rename_i found
        cases fails
        exact listPlace_mild found
      · cases fails
  | dict place =>
      cases index with
      | text key => cases fails
      | _ =>
          cases fails
          rfl
  | text content =>
      simp only [getItem, textItem] at fails
      split at fails
      · cases fails
        rfl
      · split at fails
        · cases fails
        · cases fails
          rfl
  | _ =>
      cases fails
      rfl

theorem setItem_mild {container index value : Value}
    (fails : setItem heap container index value = .error fault) : fault.kind.fatal = false := by
  cases container with
  | list place =>
      simp only [setItem, bind, Except.bind] at fails
      split at fails
      · rename_i found
        cases fails
        exact listPlace_mild found
      · cases fails
  | dict place =>
      cases index with
      | text key => cases fails
      | _ =>
          cases fails
          rfl
  | _ =>
      cases fails
      rfl

end Faults

/-- An operation that crashes does not do so for want of anything. -/
theorem Breaks.not_isAbsence {op : Code.BinaryOp} {crash : Crash} (breaks : m.Breaks op crash) :
    ¬crash.IsAbsence := by
  have mild := applyBinary_mild m.host.heap op (m.peek 1) (m.peek 0)
  rwa [breaks] at mild

theorem effect_pushResult {instruction : Instruction} {result : Except Fault Value}
    (enough : m.frame.base + instruction.takes ≤ m.operands.height)
    (leaves : instruction.leaves = 1) (falls : instruction.falls = true)
    (mild : ∀ fault, result = .error fault → fault.kind.fatal = false) :
    Effect unit registry m instruction (pushResult (m.drop instruction.takes) result) := by
  cases result with
  | ok value => exact .works (works_pushed value enough leaves) (.inl ⟨falls, by simp⟩)
  | error fault =>
      exact .faults (works_pushed .empty enough leaves) ⟨falls, by simp⟩
        (mild_of_not_fatal (mild fault rfl))

theorem effect_binary {op : Code.BinaryOp} (at_ : Nat) :
    Effect unit registry m (.binary op) (execute unit registry m at_ (.binary op)) := by
  rw [execute]
  refine effect_withOperands (.binary op) fun enough => ?_
  simp only
  split
  · exact .works (works_pushed _ enough rfl) (.inl ⟨rfl, by simp⟩)
  · exact .works (works_pushNew _ enough rfl) (.inl ⟨rfl, by simp⟩)
  · rename_i fault fails
    exact .faults (works_pushed .empty enough rfl) ⟨rfl, by simp⟩
      (mild_of_not_fatal (by
        have mild := applyBinary_mild (m.drop 2).host.heap op (m.peek 1) (m.peek 0)
        rwa [fails] at mild))
  · rename_i crashes
    exact .crashesBinary enough crashes

theorem effect_unary {op : Code.UnaryOp} (at_ : Nat) :
    Effect unit registry m (.unary op) (execute unit registry m at_ (.unary op)) := by
  rw [execute]
  refine effect_withOperands (.unary op) fun enough => ?_
  exact effect_pushResult enough rfl rfl fun fault fails => applyUnary_mild fails

theorem effect_pop (at_ : Nat) :
    Effect unit registry m .pop (execute unit registry m at_ .pop) := by
  rw [execute]
  refine effect_withOperands .pop fun enough => ?_
  exact .works (works_dropped enough rfl) (.inl ⟨rfl, drop_ip _ _⟩)

theorem effect_getItem (at_ : Nat) :
    Effect unit registry m .getItem (execute unit registry m at_ .getItem) := by
  rw [execute]
  refine effect_withOperands .getItem fun enough => ?_
  exact effect_pushResult enough rfl rfl fun fault fails => getItem_mild fails

/-- The topmost operands are copied. -/
theorem take_values {count : Nat} (enough : m.frame.base + count ≤ m.operands.height) :
    ∃ top : List Value, top.length = count ∧
      m.operands.values = top ++ m.operands.values.drop count := by
  refine ⟨m.operands.values.take count, ?_, (List.take_append_drop _ _).symm⟩
  rw [List.length_take, Stack.length_values]
  omega

theorem effect_dup (at_ : Nat) :
    Effect unit registry m .dup (execute unit registry m at_ .dup) := by
  rw [execute]
  refine effect_withOperands .dup fun enough => ?_
  rcases take_values enough with ⟨top, length, same⟩
  rcases List.length_eq_one_iff.1 length with ⟨value, rfl⟩
  refine .works (works_of_operands [m.peek 0, value] enough rfl ?_
    (fun clean => clean.push _) ((Remains.refl m).push _)) (.inl ⟨rfl, push_ip _ _⟩)
  rw [push_operands, Stack.values_push, List.cons_append, ← same]

theorem effect_dup2 (at_ : Nat) :
    Effect unit registry m .dup2 (execute unit registry m at_ .dup2) := by
  rw [execute]
  refine effect_withOperands .dup2 fun enough => ?_
  rcases take_values enough with ⟨top, length, same⟩
  rcases List.length_eq_two.1 length with ⟨upper, lower, rfl⟩
  refine .works (works_of_operands [m.peek 0, m.peek 1, upper, lower] enough rfl ?_
    (fun clean => (clean.push _).push _) (((Remains.refl m).push _).push _)) (.inl ⟨rfl, ?_⟩)
  · rw [push_operands, push_operands, Stack.values_push, Stack.values_push]
    exact congrArg (fun rest => m.peek 0 :: m.peek 1 :: rest) same
  · rw [push_ip, push_ip]

theorem effect_setItem (at_ : Nat) :
    Effect unit registry m .setItem (execute unit registry m at_ .setItem) := by
  rw [execute]
  refine effect_withOperands .setItem fun enough => ?_
  simp only
  split
  · exact .works (works_drop enough rfl (drop_operands m 3) (((Remains.refl m).drop 3).moved _ _))
      (.inl ⟨rfl, drop_ip m 3⟩)
  · rename_i fault fails
    exact .faults (works_dropped enough rfl) ⟨rfl, drop_ip _ _⟩
      (mild_of_not_fatal (setItem_mild fails))

theorem effect_store {slot : UInt16} (at_ : Nat) :
    Effect unit registry m (.store slot) (execute unit registry m at_ (.store slot)) := by
  rw [execute]
  split
  · rename_i outside
    exact .refuses (.slot rfl outside)
  · refine effect_withOperands (.store slot) fun enough => ?_
    exact .works (works_drop enough rfl (drop_operands m 1) (((Remains.refl m).drop 1).stored _ _))
      (.inl ⟨rfl, drop_ip m 1⟩)

theorem effect_fastStore {slot : UInt16} (at_ : Nat) :
    Effect unit registry m (.fastStore slot) (execute unit registry m at_ (.fastStore slot)) := by
  rw [execute]
  split
  · rename_i outside
    exact .refuses (.slot rfl outside)
  · refine effect_withOperands (.fastStore slot) fun enough => ?_
    rcases take_values enough with ⟨top, length, same⟩
    exact .works (works_of_operands top enough length same (fun clean => clean)
      ((Remains.refl m).stored _ _)) (.inl ⟨rfl, rfl⟩)

theorem effect_compare {target : UInt16} (at_ : Nat) :
    Effect unit registry m (.compare target) (execute unit registry m at_ (.compare target)) := by
  rw [execute]
  split
  · rename_i outside
    exact .refuses (.target rfl outside)
  · rename_i inside
    refine effect_withOperands (.compare target) fun enough => ?_
    simp only
    split
    · exact .works (works_dropped enough rfl) (.inl ⟨rfl, drop_ip _ _⟩)
    · exact .works (works_drop enough rfl (drop_operands m 1)
        (((Remains.refl m).drop 1).moved _ _)) (.inr ⟨rfl, Nat.le_of_not_lt inside⟩)

/-- What an instruction does, for any code and any machine with its operands above its base. -/
theorem execute_effect (unit : Code.Unit) (registry : Option Registry)
    (grounded : m.frame.base ≤ m.operands.height) (at_ : Nat)
    (instruction : Instruction) :
    Effect unit registry m instruction (execute unit registry m at_ instruction) := by
  cases instruction with
  | load slot =>
      rw [execute]
      split
      · rename_i missing
        exact .refuses (.slot rfl (Array.getElem?_eq_none_iff.1 missing))
      · rename_i value found
        refine .works (works_of_operands [value] grounded rfl ?_
          (fun clean => clean.push _) ((Remains.refl m).push value)) (.inl ⟨rfl, push_ip _ _⟩)
        rw [push_operands, Stack.values_push]
        rfl
  | store slot => exact effect_store at_
  | fastStore slot => exact effect_fastStore at_
  | jump target =>
      rw [execute]
      split
      · rename_i outside
        exact .refuses (.target rfl outside)
      · rename_i inside
        exact .works (works_of_operands [] grounded rfl rfl (fun clean => clean)
          ((Remains.refl m).moved _ _)) (.inr ⟨rfl, Nat.le_of_not_lt inside⟩)
  | compare target => exact effect_compare at_
  | call slot count used => exact effect_call
  | return_ => exact effect_return
  | initList count => exact effect_makeList
  | initDict count => exact effect_makeDict
  | binary op => exact effect_binary at_
  | unary op => exact effect_unary at_
  | dup => exact effect_dup at_
  | dup2 => exact effect_dup2 at_
  | pop => exact effect_pop at_
  | getItem => exact effect_getItem at_
  | setItem => exact effect_setItem at_

/-- A machine that has passed the instruction at its pointer. -/
def passed (m : Machine) (instruction : Instruction) : Machine :=
  { m with ip := m.ip + instruction.size }

/-- What a machine crashes by does not depend on its pointer. -/
theorem BreaksBy.of_passed {instruction other : Instruction} {crash : Crash}
    (breaks : (m.passed other).BreaksBy registry instruction crash) :
    m.BreaksBy registry instruction crash := by
  cases breaks with
  | operation breaks => exact .operation breaks
  | native callee isNative breaks =>
      refine .native callee isNative ?_
      cases breaks with
      | missing without => exact .missing without
      | fails given found failed => exact .fails given found failed

/-- What a step does. -/
inductive StepEffect (unit : Code.Unit) (registry : Option Registry) (m : Machine) : Step → Prop where
  | executes {instruction : Instruction} {outcome : Step}
      (reads : Code.decode unit.opcodes m.ip = .ok instruction)
      (effect : Effect unit registry (m.passed instruction) instruction outcome) :
      StepEffect unit registry m outcome
  | unreadable {fault : Fault} {error : Code.DecodeError}
      (reads : Code.decode unit.opcodes m.ip = .error error)
      (kind : fault.kind = .invalidJumpTarget) :
      StepEffect unit registry m (.unreadable m fault)
  | unknown {fault : Fault} {error : Code.DecodeError}
      (reads : Code.decode unit.opcodes m.ip = .error error)
      (kind : fault.kind = .invalidJumpTarget) :
      StepEffect unit registry m (.fault { m with ip := m.ip + 1 } fault)

theorem step_effect (registry : Option Registry) (grounded : m.frame.base ≤ m.operands.height)
    (inside : m.ip < unit.opcodes.size) : StepEffect unit registry m (step unit registry m) := by
  rw [step_eq_decode]
  split
  · rename_i instruction reads
    exact .executes reads
      (execute_effect unit registry (m := m.passed instruction) grounded m.ip instruction)
  · rename_i reads
    simp only
    split
    · exact .unreadable reads rfl
    · exact .unknown reads rfl
  · rename_i reads
    exact .unreadable reads rfl
  · rename_i reads
    cases (Code.decode_eq_error_iff inside).1 reads

end Machine

end Lehce
