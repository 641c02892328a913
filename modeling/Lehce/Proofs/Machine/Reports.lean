import Lehce.Evaluation
import Lehce.Image.Layout
import Lehce.Proofs.Image.Loading

/-!
# What a machine reports

Whatever is wrong with code that was loaded, a machine reports it as a fault: bytes that
are no instruction, and instructions with too few operands, a slot outside the memory, a
target outside the code, or a callee that cannot be called.

One thing is not checked. A call copies its arguments into the variables of the storage of
the function, also when the function has more parameters than its storage has variables;
then the machine crashes. `Unit.Accommodates` rules this out, and with it every crash but
those of operations and of native functions. None of them is a use of what is not there, if
the native functions are there and use no such thing either, as all standard ones do.
-/

namespace Lehce

/-- The storages of all functions have room for the arguments. -/
def Code.Unit.Accommodates (unit : Code.Unit) : Prop :=
  ∀ ref ∈ unit.functions, ∀ storage, 0 < ref.storage →
    unit.storages[ref.storage.toNat]? = some storage → ref.arity ≤ storage.locals.size

/-- There are native functions, and none uses anything that is not there. -/
def Registry.IsPresent (registry : Option Registry) : Prop :=
  ∃ natives, registry = some natives ∧ ∀ native ∈ natives.natives, ∀ args host crash,
    (native.run args host).failure = some (.crash crash) → ¬crash.IsAbsence

namespace Machine

open Code (Instruction)

/-- What can be wrong with an instruction for a machine. -/
inductive Misuse (unit : Code.Unit) (m : Machine) : Instruction → Prop where
  | refused {instruction : Instruction} {kind : Fault.Kind}
      (refused : Refused unit m instruction kind) : Misuse unit m instruction
  | arity {slot : UInt16} {count : UInt8} {used : Bool} {ref : FunctionRef}
      (callee : m.frame.memory[slot.toNat]? = some (.function ref)) (compiled : ref.native = false)
      (differs : ref.arity ≠ count.toNat) : Misuse unit m (.call slot count used)
  | callee {slot : UInt16} {count : UInt8} {used : Bool} {value : Value}
      (callee : m.frame.memory[slot.toNat]? = some value)
      (other : ∀ ref, value ≠ .function ref) : Misuse unit m (.call slot count used)

variable {unit : Code.Unit} {registry : Option Registry} {m after : Machine} {crash : Crash}

/-- A step reports a fault. -/
def Step.Reports : Step → Prop
  | .fault _ _ | .unreadable _ _ => True
  | _ => False

theorem reports_of_few {instruction : Instruction} (grounded : m.frame.base ≤ m.operands.height)
    (few : m.operands.height < m.frame.base + instruction.takes) (at_ : Nat) :
    (execute unit registry m at_ instruction).Reports := by
  have effect := execute_effect unit registry grounded at_ instruction
  generalize execute unit registry m at_ instruction = outcome at effect
  cases effect with
  | works works => exact absurd works.enough (by omega)
  | faults | refuses => trivial
  | crashesNative _ _ _ works => exact absurd works.enough (by simpa [Instruction.takes] using few)
  | enters callable | crashesCall callable =>
      have enough := callable.enough
      simp only [Instruction.takes] at few
      omega
  | returns _ enough | ends _ enough | crashesBinary enough =>
      simp only [Instruction.takes] at few
      omega

theorem reports_of_slot {instruction : Instruction} {slot : Nat}
    (uses : instruction.slot? = some slot) (outside : m.frame.memory.size ≤ slot) (at_ : Nat) :
    (execute unit registry m at_ instruction).Reports := by
  cases instruction with
  | load place =>
      cases uses
      rw [execute, Array.getElem?_eq_none outside]
      trivial
  | store place | fastStore place =>
      cases uses
      rw [execute, if_pos outside]
      trivial
  | call place count used =>
      cases uses
      rw [execute, call, Array.getElem?_eq_none outside]
      trivial
  | _ => cases uses

theorem reports_of_target {instruction : Instruction} {target : Nat}
    (leads : instruction.target? = some target) (outside : unit.opcodes.size < target)
    (at_ : Nat) : (execute unit registry m at_ instruction).Reports := by
  cases instruction with
  | jump place | compare place =>
      cases leads
      rw [execute, if_pos outside]
      trivial
  | _ => cases leads

theorem reports_failCall (count : Nat) (used : Bool) (fault : Fault) :
    (failCall m count used fault).Reports := trivial

/-- A function of the unit that does not pass all checks is not called. -/
theorem reports_callFunction {slot : UInt16} {count : UInt8} {used : Bool} {ref : FunctionRef}
    (callee : m.frame.memory[slot.toNat]? = some (.function ref)) (compiled : ref.native = false)
    (enough : m.frame.base + count.toNat ≤ m.operands.height)
    (misfit : ∀ storage, ¬Callable unit m slot count ref storage) :
    (callFunction unit m ref count.toNat used).Reports := by
  unfold callFunction
  split
  · exact reports_failCall ..
  · rename_i arity
    split
    · trivial
    · rename_i storage found
      split
      · trivial
      · rename_i inside
        split
        · trivial
        · rename_i shallow
          split at found
          · rename_i positive
            exact (misfit storage ⟨callee, compiled, not_not.1 arity, positive, found, by omega,
              by omega, enough⟩).elim
          · cases found

theorem reports_of_call {slot : UInt16} {count : UInt8} {used : Bool} {ref : FunctionRef}
    (callee : m.frame.memory[slot.toNat]? = some (.function ref)) (compiled : ref.native = false)
    (misfit : ∀ storage, ¬Callable unit m slot count ref storage) (at_ : Nat) :
    (execute unit registry m at_ (.call slot count used)).Reports := by
  simp only [execute, call, callee, withOperands]
  split
  · trivial
  · rename_i enough
    rw [if_neg (by simp [compiled])]
    exact reports_callFunction callee compiled (need_eq_none_iff.1 enough) misfit

/-- Whatever is wrong with an instruction is reported. -/
theorem Misuse.reports {instruction : Instruction} (misuse : Misuse unit m instruction)
    (grounded : m.frame.base ≤ m.operands.height) (at_ : Nat) :
    (execute unit registry m at_ instruction).Reports := by
  cases misuse with
  | refused refused =>
      cases refused with
      | operands few => exact reports_of_few grounded few at_
      | slot uses outside => exact reports_of_slot uses outside at_
      | target leads outside => exact reports_of_target leads outside at_
      | storage callee compiled missing =>
          refine reports_of_call callee compiled (fun storage callable => ?_) at_
          rcases missing with negative | absent
          · exact negative callable.number
          · rw [callable.storage] at absent
            cases absent
      | entry callee compiled outside =>
          refine reports_of_call callee compiled (fun storage callable => ?_) at_
          have entry := callable.entry
          omega
      | depth callee compiled deep =>
          refine reports_of_call callee compiled (fun storage callable => ?_) at_
          have depth := callable.depth
          omega
  | arity callee compiled differs =>
      exact reports_of_call callee compiled (fun storage callable => differs callable.arity) at_
  | @callee slot count used value callee other =>
      simp only [execute, call, callee, withOperands]
      split
      · trivial
      · cases value with
        | function ref => exact (other ref rfl).elim
        | _ => exact reports_failCall ..

/-- A step crashes by an operation or a native function, or calls into a storage without room. -/
inductive Crashes (unit : Code.Unit) (registry : Option Registry) (m : Machine) :
    Instruction → Crash → Prop where
  | breaks {instruction : Instruction} {crash : Crash}
      (breaks : m.BreaksBy registry instruction crash) : Crashes unit registry m instruction crash
  | room {slot : UInt16} {count : UInt8} {used : Bool} {ref : FunctionRef}
      {storage : Code.Storage} (callable : Callable unit m slot count ref storage)
      (short : storage.locals.size < count.toNat) :
      Crashes unit registry m (.call slot count used)
        (.noRoom (storage.constants.size + count.toNat) storage.size)

theorem crashes_of_step (grounded : m.frame.base ≤ m.operands.height)
    (crashes : step unit registry m = .crash after crash) :
    ∃ instruction, Code.decode unit.opcodes m.ip = .ok instruction ∧
      Crashes unit registry (m.passed instruction) instruction crash := by
  rw [step_eq_decode] at crashes
  split at crashes
  · rename_i instruction reads
    refine ⟨instruction, reads, ?_⟩
    have effect := execute_effect unit registry
      (m := m.passed instruction) grounded m.ip instruction
    rw [passed, crashes] at effect
    cases effect with
    | crashesBinary _ breaks => exact .breaks (.operation breaks)
    | crashesNative callee isNative breaks => exact .breaks (.native callee isNative breaks)
    | crashesCall callable short => exact .room callable short
  · simp only at crashes
    split at crashes <;> cases crashes
  · cases crashes
  · cases crashes

/-- In a unit with room for all arguments, calls of its functions do not crash. -/
theorem Crashes.breaksBy {instruction : Instruction}
    (crashes : Crashes unit registry m instruction crash)
    (sound : m.Sound (· ∈ unit.functions)) (accommodates : unit.Accommodates) :
    m.BreaksBy registry instruction crash := by
  cases crashes with
  | breaks breaks => exact breaks
  | room callable short =>
      have listed : _ ∈ unit.functions :=
        sound.frame _ (Array.mem_of_getElem? callable.callee) callable.compiled
      have fits := accommodates _ listed _ callable.number callable.storage
      have arity := callable.arity
      omega

/-- What is at hand for a machine is there, so that nothing else is used. -/
theorem BreaksBy.not_isAbsence {instruction : Instruction}
    (breaks : m.BreaksBy registry instruction crash) (present : Registry.IsPresent registry) :
    ¬crash.IsAbsence := by
  rcases present with ⟨natives, rfl, present⟩
  cases breaks with
  | operation breaks => exact breaks.not_isAbsence
  | native _ _ breaks =>
      cases breaks with
      | missing without => cases without
      | @fails _ native _ given found failed =>
          cases given
          rcases native.call_eq (m.top _).toList m.host with runs | ⟨detail, fails⟩
          · rw [runs] at failed
            exact present native (List.mem_of_find?_eq_some found) _ _ crash failed
          · rw [fails] at failed
            cases failed

/-- Bytes that are no instruction are reported. -/
theorem reports_of_unreadable (inside : m.ip < unit.opcodes.size) {error : Code.DecodeError}
    (reads : Code.decode unit.opcodes m.ip = .error error) :
    (step unit registry m).Reports := by
  rw [step_eq_decode, reads]
  cases error with
  | badOpcode byte offset =>
      simp only
      split <;> trivial
  | truncated op offset => trivial
  | outOfRange offset => cases (Code.decode_eq_error_iff inside).1 reads

/-- The steps of a machine report what is wrong with its code, and crash for known reasons. -/
structure Answers (unit : Code.Unit) (registry : Option Registry) (m : Machine) : Prop where
  unreadable : ∀ error, Code.decode unit.opcodes m.ip = .error error →
    (step unit registry m).Reports
  misuse : ∀ instruction, Code.decode unit.opcodes m.ip = .ok instruction →
    Misuse unit (m.passed instruction) instruction → (step unit registry m).Reports
  crashes : ∀ after crash, step unit registry m = .crash after crash →
    ∃ instruction, Code.decode unit.opcodes m.ip = .ok instruction ∧
      Crashes unit registry (m.passed instruction) instruction crash

theorem answers (grounded : m.frame.base ≤ m.operands.height)
    (inside : m.ip < unit.opcodes.size) : Answers unit registry m where
  unreadable _ reads := reports_of_unreadable inside reads
  misuse instruction reads misuse := by
    rw [step_eq_decode, reads]
    exact misuse.reports (m := m.passed instruction) grounded m.ip
  crashes _ _ crashes := crashes_of_step grounded crashes

/--
A machine crashes only by an operation or a native function; with native functions that use
nothing that is not there, it uses no such thing either.
-/
structure Withstands (unit : Code.Unit) (registry : Option Registry) (m : Machine) : Prop where
  breaks : ∀ after crash, step unit registry m = .crash after crash →
    ∃ instruction, Code.decode unit.opcodes m.ip = .ok instruction ∧
      m.BreaksBy registry instruction crash
  present : Registry.IsPresent registry → ∀ after crash,
    step unit registry m = .crash after crash → ¬crash.IsAbsence

theorem withstands (grounded : m.frame.base ≤ m.operands.height)
    (sound : m.Sound (· ∈ unit.functions)) (accommodates : unit.Accommodates) :
    Withstands unit registry m := by
  have breaks : ∀ after crash, step unit registry m = .crash after crash →
      ∃ instruction, Code.decode unit.opcodes m.ip = .ok instruction ∧
        m.BreaksBy registry instruction crash := by
    intro after crash crashes
    rcases crashes_of_step grounded crashes with ⟨instruction, reads, crashes⟩
    exact ⟨instruction, reads, .of_passed (crashes.breaksBy
      ⟨sound.operands, sound.memory, sound.heap⟩ accommodates)⟩
  refine ⟨breaks, fun present after crash crashes => ?_⟩
  rcases breaks after crash crashes with ⟨_, _, breaks⟩
  exact breaks.not_isAbsence present

/-- A run that crashed did so in a step. -/
theorem exists_of_crashed (policy : Policy) (steps : Nat) (run : Run)
    (crashed : (Run.advance unit registry policy steps run).1 = .crashed crash) :
    ∃ last, Reachable unit registry run.machine last ∧ last.ip < unit.opcodes.size ∧
      ∃ after, step unit registry last = .crash after crash := by
  induction steps generalizing run with
  | zero =>
      rw [Run.advance] at crashed
      split at crashed <;> cases crashed
  | succ steps ih =>
      rw [Run.advance_succ] at crashed
      have advances := Run.advances_next unit registry policy run
      generalize run.next unit registry policy = outcome at advances crashed
      cases advances with
      | done inside steps | goesOn inside steps =>
          rcases ih _ crashed with ⟨last, reachable, rest⟩
          exact ⟨last, .head (moves_of_step inside steps) reachable, rest⟩
      | stops | unreadable | finishes => cases crashed
      | crashes inside steps =>
          cases crashed
          exact ⟨run.machine, .refl, inside, _, steps⟩

/-- Why a step crashed, if it did. -/
def Step.crash? : Step → Option Crash
  | .crash _ crash => some crash
  | _ => none

theorem Step.exists_of_crash? {outcome : Step} {crash : Crash}
    (crashes : outcome.crash? = some crash) : ∃ after, outcome = .crash after crash := by
  cases outcome with
  | crash after reason =>
      cases crashes
      exact ⟨after, rfl⟩
  | _ => cases crashes

end Machine

theorem Registry.Honest.without {registry : Registry} (honest : registry.Honest)
    (names : List String) : (registry.without names).Honest := fun native member =>
  honest native (List.mem_filter.1 member).1

theorem Settings.allHonest_registry (settings : Settings) :
    Registry.AllHonest (some settings.registry) := by
  rintro natives ⟨⟩
  exact Natives.honest_standard.without _

/-- Standard native functions use nothing that is not there. -/
theorem Registry.isPresent_of_standard {registry : Registry}
    (standard : registry.natives ⊆ Natives.standard.natives) : IsPresent (some registry) := by
  refine ⟨registry, rfl, fun native member args host crash crashes => ?_⟩
  rw [Natives.endless_of_crash (standard member) args host crashes]
  exact not_false

theorem Settings.isPresent_registry (settings : Settings) :
    Registry.IsPresent (some settings.registry) :=
  Registry.isPresent_of_standard fun _ member => (List.mem_filter.1 member).1

namespace Image

open Machine (Reachable start)

variable {codec : Codec} {natives : Code.Resolver} {bytes : List UInt8} {unit : Code.Unit}
  {registry : Option Registry} {limits : Limits} {memory : Array Value} {m : Machine}

theorem sound_of_load (loads : load codec natives bytes = .ok unit)
    (honest : Registry.AllHonest registry) (fresh : unit.freshMemory? = some memory)
    {input : List Char} (reachable : Reachable unit registry (start limits memory { input }) m) :
    m.Sound (· ∈ unit.functions) := by
  rcases load_eq_ok_iff.1 loads with ⟨image, _, linked⟩
  have unitSound := toUnit_sound linked
  rcases Option.map_eq_some_iff.1 fresh with ⟨top, found, rfl⟩
  exact reachable.sound
    (Machine.within_start limits
      (Machine.within_freshMemory unitSound (Array.mem_of_getElem? found)) Heap.within_empty)
    honest unitSound

/--
Every machine in a run of a unit that any codec has loaded reports whatever is wrong with its
code. It crashes by an operation or a native function that crashes, or when it calls a function
whose storage has no room for the arguments; in a unit where all have room only the first is
left, and then it uses nothing that is not there. A module that runs the unit crashes for no
other reason either, but that there is no storage at all.
-/
theorem load_answers (loads : load codec natives bytes = .ok unit) :
    (∀ registry callDepth stackSize memory input m, unit.freshMemory? = some memory →
      Reachable unit registry (start (.ofInts callDepth stackSize) memory { input }) m →
      m.ip < unit.opcodes.size →
      m.Answers unit registry ∧
      (Registry.AllHonest registry → unit.Accommodates → m.Withstands unit registry)) ∧
    (unit.Accommodates → ∀ (settings : Settings) input crashed,
      settings.run unit input = .error crashed →
      (unit.storages.size = 0 ∧ crashed.crash = .noStorage) ∨
      (¬crashed.crash.IsAbsence ∧ ∃ memory m instruction, unit.freshMemory? = some memory ∧
        Reachable unit settings.registry (start settings.limits memory { input }) m ∧
        Code.decode unit.opcodes m.ip = .ok instruction ∧
        m.BreaksBy settings.registry instruction crashed.crash)) := by
  have grounded : ∀ {registry callDepth stackSize memory input m},
      Reachable unit registry (start (.ofInts callDepth stackSize) memory { input }) m →
      m.frame.base ≤ m.operands.height := fun reachable =>
    (reachable.orderly (Machine.orderly_start unit _ _ _ _)).grounded_frame
  constructor
  · intro registry callDepth stackSize memory input m fresh reachable inside
    exact ⟨Machine.answers (grounded reachable) inside, fun honest accommodates =>
      Machine.withstands (grounded reachable)
        (sound_of_load loads honest fresh reachable) accommodates⟩
  · intro accommodates settings input crashed fails
    unfold Settings.run at fails
    split at fails
    · rename_i memory _ fresh
      simp only at fails
      split at fails
      · rename_i crash ends
        cases fails
        rcases Machine.exists_of_crashed _ _ _ ends with ⟨last, reachable, inside, after, crashes⟩
        have sound := sound_of_load loads settings.allHonest_registry fresh reachable
        have withstands : last.Withstands unit settings.registry :=
          Machine.withstands (grounded reachable) sound accommodates
        rcases withstands.breaks after crash crashes with ⟨instruction, reads, breaks⟩
        exact .inr ⟨withstands.present settings.isPresent_registry after crash crashes, memory,
          last, instruction, fresh, reachable, reads, breaks⟩
      · cases fails
    · rename_i missing
      cases fails
      refine .inl ⟨Nat.eq_zero_of_not_pos fun positive => ?_, rfl⟩
      have top : unit.storages[0]? = some unit.storages[0] := Array.getElem?_eq_getElem positive
      exact missing unit.storages[0] (Machine.freshMemory unit.storages[0]) top
        (by rw [Code.Unit.freshMemory?, top]; rfl)

/-- An image whose code calls a function of one parameter, given the variables of its storage. -/
def callImage (locals : List UInt8) : List UInt8 := [
  0xa4, 1, 1, 2, 0x48, 1, 1, 0, 6, 0, 0, 1, 1,
  3, 0x82, 0xa1, 3, 0x82, 0xa2, 1, 7, 3, 0x61, 0x66, 0xa2, 1, 3, 3, 0x61, 0x61,
    0xa2, 1, 0x61, 0x66, 4] ++ locals ++ [
  4, 0x81, 0xa3, 1, 0x61, 0x66, 3, 1, 4, 1]

theorem exists_load_callImage :
    ∃ unit memory,
      load .cbor Natives.standard.resolve (callImage [0x81, 0x61, 0x78]) = .ok unit ∧
      unit.freshMemory? = some memory ∧ unit.Accommodates := by
  have loads : ((load .cbor Natives.standard.resolve
      (callImage [0x81, 0x61, 0x78])).toOption.any fun unit =>
        unit.freshMemory?.isSome && unit.functions.all fun ref =>
          unit.storages[ref.storage.toNat]?.all fun storage =>
            ref.arity ≤ storage.locals.size) = true := by decide +kernel
  cases loaded : load .cbor Natives.standard.resolve (callImage [0x81, 0x61, 0x78]) with
  | error problem =>
      rw [loaded] at loads
      cases loads
  | ok unit =>
      rw [loaded, Except.toOption, Option.any_some, Bool.and_eq_true] at loads
      rcases Option.isSome_iff_exists.1 loads.1 with ⟨memory, fresh⟩
      refine ⟨unit, memory, rfl, fresh, ?_⟩
      intro ref member storage _ found
      have fits := List.all_eq_true.1 loads.2 ref member
      rw [found] at fits
      simpa using fits

theorem answers_callImage :
    ∃ unit memory,
      load .cbor Natives.standard.resolve (callImage [0x81, 0x61, 0x78]) = .ok unit ∧
      unit.freshMemory? = some memory ∧ unit.Accommodates ∧
      Registry.AllHonest (some Natives.standard) ∧ Registry.IsPresent (some Natives.standard) ∧
      (∀ m, Reachable unit (some Natives.standard) (start (.ofInts 0 0) memory {}) m →
        m.ip < unit.opcodes.size →
        m.Answers unit (some Natives.standard) ∧ ∀ after crash,
          Machine.step unit (some Natives.standard) m = .crash after crash →
            ¬crash.IsAbsence) ∧
      ∀ crashed, Settings.run {} unit [] = .error crashed → ¬crashed.crash.IsAbsence := by
  rcases exists_load_callImage with ⟨unit, memory, loads, fresh, accommodates⟩
  have honest : Registry.AllHonest (some Natives.standard) := by
    rintro natives ⟨⟩
    exact Natives.honest_standard
  have present : Registry.IsPresent (some Natives.standard) :=
    Registry.isPresent_of_standard fun _ member => member
  refine ⟨unit, memory, loads, fresh, accommodates, honest, present,
    fun m reachable inside => ?_, fun crashed fails => ?_⟩
  · rcases (load_answers loads).1 (some Natives.standard) 0 0 memory [] m fresh reachable inside
      with ⟨answers, withstands⟩
    exact ⟨answers, (withstands honest accommodates).present present⟩
  · rcases (load_answers loads).2 accommodates {} [] crashed fails with ⟨empty, _⟩ | ⟨other, _⟩
    · rcases Option.map_eq_some_iff.1 fresh with ⟨top, found, _⟩
      rw [Array.getElem?_eq_none (by omega)] at found
      cases found
    · exact other

/-- The second machine of a run from a fresh memory. -/
def secondMachine (memory : Array Value) (unit : Code.Unit) : Machine :=
  (Machine.step unit (some Natives.standard) (start (.ofInts 0 0) memory {})).machine

/-- A call crashes when the storage has no variables, and so does a module without storages. -/
theorem crashes_callImage :
    (∃ unit, load .cbor Natives.standard.resolve (callImage [0xf6]) = .ok unit ∧
      ∃ memory m after, unit.freshMemory? = some memory ∧
        Reachable unit (some Natives.standard) (start (.ofInts 0 0) memory {}) m ∧
        Code.decode unit.opcodes m.ip = .ok (.call 0 1 true) ∧
        Machine.step unit (some Natives.standard) m = .crash after (.noRoom 1 0)) ∧
    ∃ unit, load .cbor Natives.standard.resolve [0xa1, 1, 1] = .ok unit ∧
      ∃ crashed, Settings.run {} unit [] = .error crashed ∧ crashed.crash = .noStorage := by
  constructor
  · have runs : ((load .cbor Natives.standard.resolve (callImage [0xf6])).toOption.any fun unit =>
        unit.freshMemory?.any fun memory =>
          0 < unit.opcodes.size ∧
          (Code.decode unit.opcodes (secondMachine memory unit).ip).toOption =
            some (.call 0 1 true) ∧
          (Machine.step unit (some Natives.standard) (secondMachine memory unit)).crash? =
            some (.noRoom 1 0)) = true := by
      decide +kernel
    cases loaded : load .cbor Natives.standard.resolve (callImage [0xf6]) with
    | error problem =>
        rw [loaded] at runs
        cases runs
    | ok unit =>
        rw [loaded, Except.toOption, Option.any_some, Option.any_eq_true] at runs
        rcases runs with ⟨memory, fresh, runs⟩
        rcases of_decide_eq_true runs with ⟨inside, reads, crashes⟩
        have reached : Reachable unit (some Natives.standard) (start (.ofInts 0 0) memory {})
          (secondMachine memory unit) := .single ⟨inside⟩
        rcases Machine.Step.exists_of_crash? crashes with ⟨after, outcome⟩
        refine ⟨unit, rfl, memory, _, after, fresh, reached, ?_, outcome⟩
        cases decoded : Code.decode unit.opcodes (secondMachine memory unit).ip with
        | error problem =>
            rw [decoded] at reads
            cases reads
        | ok instruction =>
            rw [decoded] at reads
            cases reads
            rfl
  · have loads : ((load .cbor Natives.standard.resolve [0xa1, 1, 1]).toOption.any fun unit =>
        unit.storages.size = 0) = true := by decide +kernel
    cases loaded : load .cbor Natives.standard.resolve [0xa1, 1, 1] with
    | error problem =>
        rw [loaded] at loads
        cases loads
    | ok unit =>
        rw [loaded, Except.toOption, Option.any_some, decide_eq_true_iff] at loads
        have missing : unit.storages[0]? = none := Array.getElem?_eq_none (by omega)
        exact ⟨unit, rfl, { crash := .noStorage }, by rw [Settings.run, missing], rfl⟩

end Image

end Lehce
