import Lehce.Proofs.Code.ListingText
import Lehce.Proofs.Machine.Effects
import Lehce.Proofs.Machine.Steps

/-!
# What is listed and what is executed

The machine takes instructions apart on its own, and a listing shows what `decode` finds.
Both find the same at every offset of any code. `Executes` is the machine's side: which
bytes a step takes for its instruction, what it does with it and where it goes on. It holds
exactly of what `decode` reads. Where `decode` fails, a run is stopped, whatever its
consumer says, and keeps all but its pointer.

An instruction that is executed may fail as well, and for a bad target of a jump. It is not
mistaken for bytes that are no instruction: those leave the pointer at most one byte
further, and an instruction of one byte has no target.
-/

namespace Lehce

namespace Machine

open Code (Instruction Opcode decode)

variable {unit : Code.Unit} {registry : Option Registry} {m : Machine} {instruction : Instruction}

/-- Where an instruction leads that sets the pointer. -/
inductive LeadsTo (unit : Code.Unit) (m : Machine) : Instruction → Nat → Prop where
  | jumps {target : UInt16} : LeadsTo unit m (.jump target) target.toNat
  | branches {target : UInt16} : LeadsTo unit m (.compare target) target.toNat
  | enters {slot : UInt16} {count : UInt8} {used : Bool} {ref : FunctionRef}
      (callee : m.frame.memory[slot.toNat]? = some (.function ref))
      (compiled : ref.native = false) :
      LeadsTo unit m (.call slot count used) ref.entry.toNat
  | returns {caller : Frame} (inner : m.callers.back? = some caller) :
      LeadsTo unit m .return_ m.frame.returnTo.toNat
  | ends (outer : m.callers.size = 0) : LeadsTo unit m .return_ unit.opcodes.size

/-- A machine that has passed an instruction stays behind it, or goes where it leads. -/
def Proceeds (unit : Code.Unit) (m : Machine) (instruction : Instruction) : Step → Prop
  | .done after => after.ip = m.ip ∨ LeadsTo unit m instruction after.ip
  | .fault after _ | .crash after _ => after.ip = m.ip
  | .unreadable _ _ => False

theorem leave_ip (caller : Frame) (result : Value) :
    (leave m caller result).ip = m.frame.returnTo.toNat := by
  unfold leave
  simp only
  split <;> rfl

theorem leadsTo_of_target {target : Nat} (leads : instruction.target? = some target) :
    LeadsTo unit m instruction target := by
  cases instruction with
  | jump =>
      cases leads
      exact .jumps
  | compare =>
      cases leads
      exact .branches
  | _ => cases leads

theorem Effect.proceeds {outcome : Step} (effect : Effect unit registry m instruction outcome) :
    Proceeds unit m instruction outcome := by
  cases effect with
  | works _ goes =>
      rcases goes with ⟨_, behind⟩ | ⟨leads, _⟩
      · exact .inl behind
      · exact .inr (leadsTo_of_target leads)
  | faults _ goes => exact goes.2
  | refuses => rfl
  | enters callable => exact .inr (.enters callable.callee callable.compiled)
  | returns inner =>
      rw [Proceeds, leave_ip]
      exact .inr (.returns inner)
  | ends outer => exact .inr (.ends outer)
  | crashesBinary => rfl
  | crashesNative _ _ _ _ _ stays => exact stays
  | crashesCall => rfl

theorem proceeds_execute (at_ : Nat) :
    Proceeds unit m instruction (execute unit registry m at_ instruction) := by
  cases instruction with
  -- An effect promises operands above the base of the frame, for which these two do not look.
  | load slot =>
      rw [execute]
      split
      · rfl
      · exact .inl rfl
  | jump target =>
      rw [execute]
      split
      · rfl
      · exact .inr .jumps
  | store slot => exact Effect.proceeds (effect_store at_)
  | fastStore slot => exact Effect.proceeds (effect_fastStore at_)
  | compare target => exact Effect.proceeds (effect_compare at_)
  | call slot count used => exact Effect.proceeds effect_call
  | return_ => exact (effect_return : Effect unit registry m _ _).proceeds
  | initList count => exact (effect_makeList : Effect unit registry m _ _).proceeds
  | initDict count => exact (effect_makeDict : Effect unit registry m _ _).proceeds
  | binary op => exact Effect.proceeds (effect_binary at_)
  | unary op => exact Effect.proceeds (effect_unary at_)
  | dup => exact Effect.proceeds (effect_dup at_)
  | dup2 => exact Effect.proceeds (effect_dup2 at_)
  | pop => exact Effect.proceeds (effect_pop at_)
  | getItem => exact Effect.proceeds (effect_getItem at_)
  | setItem => exact Effect.proceeds (effect_setItem at_)

section Kinds

variable {after : Machine} {fault : Fault}

theorem kind_of_withOperands {count : Nat} {next : Machine → Step}
    (fails : withOperands m count next = .fault after fault)
    (mild : next m = .fault after fault → fault.kind.fatal = false)
    (fatal : fault.kind.fatal = true) : fault.kind = .stackUnderflow := by
  unfold withOperands at fails
  split at fails
  · rename_i needs
    cases fails
    exact (kind_of_need needs).2
  · rw [mild fails] at fatal
    cases fatal

theorem mild_of_pushResult {result : Except Fault Value}
    (mild : ∀ fault, result = .error fault → fault.kind.fatal = false)
    (fails : pushResult m result = .fault after fault) : fault.kind.fatal = false := by
  cases result with
  | ok value => cases fails
  | error problem =>
      cases fails
      exact mild fault rfl

/-- An instruction of one byte only ends a run for want of operands. -/
theorem kind_of_bare {at_ : Nat} (bare : instruction.opcode.operandSize = 0)
    (fails : execute unit registry m at_ instruction = .fault after fault)
    (fatal : fault.kind.fatal = true) : fault.kind = .stackUnderflow := by
  cases instruction with
  | load | store | fastStore | jump | compare | call | initList | initDict => cases bare
  | return_ =>
      rw [execute, return_] at fails
      refine kind_of_withOperands fails (fun fails => ?_) fatal
      split at fails <;> cases fails
  | binary op =>
      rw [execute] at fails
      refine kind_of_withOperands fails (fun fails => ?_) fatal
      have mild := applyBinary_mild (m.drop 2).host.heap op (m.peek 1) (m.peek 0)
      simp only at fails
      split at fails
      · cases fails
      · cases fails
      · rename_i problem found
        cases fails
        rwa [found] at mild
      · cases fails
  | unary op =>
      rw [execute] at fails
      exact kind_of_withOperands fails (mild_of_pushResult fun _ => applyUnary_mild) fatal
  | dup | dup2 | pop =>
      rw [execute] at fails
      exact kind_of_withOperands fails (fun fails => by cases fails) fatal
  | getItem =>
      rw [execute] at fails
      exact kind_of_withOperands fails (mild_of_pushResult fun _ => getItem_mild) fatal
  | setItem =>
      rw [execute] at fails
      refine kind_of_withOperands fails (fun fails => ?_) fatal
      simp only at fails
      split at fails
      · cases fails
      · rename_i problem found
        cases fails
        exact setItem_mild found

end Kinds

/-- A step takes an instruction from the bytes at its pointer, and executes it behind them. -/
structure Executes (unit : Code.Unit) (registry : Option Registry) (m : Machine)
    (instruction : Instruction) : Prop where
  opcode : ∃ byte, unit.opcodes[m.ip]? = some byte ∧
    Opcode.ofByte? byte = some instruction.opcode
  room : m.ip + instruction.size ≤ unit.opcodes.size
  operands : fetch unit.opcodes m.ip
    (if 2 ≤ instruction.opcode.operandSize then wordAt unit.opcodes (m.ip + 1) else 0)
    instruction.opcode = instruction
  steps : step unit registry m = execute unit registry (m.passed instruction) m.ip instruction
  proceeds : Proceeds unit (m.passed instruction) instruction (step unit registry m)

theorem opcode_instruction (op : Opcode) (word : UInt16) (count flag : UInt8) :
    (op.instruction word count flag).opcode = op := by
  cases op <;> rfl

/-- What is executed is what is read at the pointer. -/
theorem executes_iff :
    Executes unit registry m instruction ↔ decode unit.opcodes m.ip = .ok instruction := by
  constructor
  · rintro ⟨⟨byte, holds, known⟩, room, operands, _, _⟩
    rw [fetch_eq] at operands
    rw [Code.ofByte?_eq_some_iff.1 known] at holds
    exact Code.decode_eq_ok_iff.2 ⟨instruction.opcode, holds, room, operands.symm⟩
  · intro reads
    have steps : step unit registry m =
        execute unit registry (m.passed instruction) m.ip instruction := by
      rw [step_eq_decode, reads]
      rfl
    refine ⟨?_, ?_, ?_, steps, steps ▸ proceeds_execute m.ip⟩
    all_goals rcases Code.decode_eq_ok_iff.1 reads with ⟨op, holds, room, rfl⟩
    · exact ⟨op.byte, holds, by rw [opcode_instruction, Code.ofByte?_byte]⟩
    · rwa [Code.size_instruction]
    · rw [fetch_eq, opcode_instruction]

end Machine

namespace Run

open Code (Opcode decode)

variable {unit : Code.Unit} {registry : Option Registry} {policy : Policy} {run later : Run}

/-- A run has one fault more, for bytes that are no instruction; else only its pointer moved. -/
structure Rejected (code : Array UInt8) (run later : Run) : Prop where
  fault : ∃ byte, code[run.machine.ip]? = some byte ∧ later.faults =
    Machine.badInstruction (Opcode.nameOfByte byte) run.machine.ip :: run.faults
  machine : later.machine = { run.machine with ip := later.machine.ip }
  ip : later.machine.ip = run.machine.ip ∨ later.machine.ip = run.machine.ip + 1

/-- The next step of a run stops it at bytes that are no instruction. -/
def Rejects (unit : Code.Unit) (registry : Option Registry) (policy : Policy) (run : Run) :
    Prop :=
  ∃ later, run.next unit registry policy = .inr (.stopped, later) ∧
    Rejected unit.opcodes run later

theorem rejects_of_refuses {error : Code.DecodeError}
    (refuses : Code.Refuses unit.opcodes run.machine.ip error) :
    Rejects unit registry policy run := by
  have reads := (Code.decode_eq_error_iff refuses.inside).2 refuses
  rw [Rejects, next, if_pos refuses.inside, Machine.step_eq_decode, reads]
  cases refuses with
  | zero holds => exact ⟨_, rfl, ⟨0, holds, rfl⟩, rfl, .inl rfl⟩
  | @unknown byte holds past =>
      have notZero : byte ≠ 0 := by
        rintro rfl
        cases past
      simp only [notZero, if_false]
      exact ⟨_, rfl, ⟨byte, holds, rfl⟩, rfl, .inr rfl⟩
  | @cutOff op holds short =>
      have name := Machine.nameOfByte_of_ofByte? (Code.ofByte?_byte op)
      exact ⟨_, rfl, ⟨op.byte, holds, by rw [name]⟩, rfl, .inl rfl⟩

/-- A run that executes an instruction is not stopped as if there were none. -/
theorem not_rejects_of_executes {instruction : Code.Instruction}
    (executes : Machine.Executes unit registry run.machine instruction) :
    ¬Rejects unit registry policy run := by
  rintro ⟨later, ends, ⟨byte, _, fault⟩, _, ip⟩
  have proceeds := executes.proceeds
  have advances := advances_next unit registry policy run
  rw [ends] at advances
  cases advances with
  | stops inside steps refused =>
      rw [steps] at proceeds
      have behind : _ = run.machine.ip + instruction.size := proceeds
      simp only [faulted] at fault ip
      rw [behind] at ip
      have bare : instruction.opcode.operandSize = 0 := by
        simp only [Code.Instruction.size, Opcode.size] at ip
        omega
      rw [executes.steps] at steps
      have kind := Machine.kind_of_bare bare steps
      rw [(List.cons.inj fault).1] at kind
      cases kind rfl
  | unreadable inside steps =>
      rw [steps] at proceeds
      exact proceeds

/-- A run is stopped at its pointer exactly where no instruction is read. -/
theorem rejects_iff (inside : run.machine.ip < unit.opcodes.size) :
    Rejects unit registry policy run ↔
      ∃ error, decode unit.opcodes run.machine.ip = .error error := by
  constructor
  · intro rejects
    cases reads : decode unit.opcodes run.machine.ip with
    | error error => exact ⟨error, rfl⟩
    | ok instruction =>
        exact absurd rejects (not_rejects_of_executes (Machine.executes_iff.2 reads))
  · rintro ⟨error, reads⟩
    exact rejects_of_refuses ((Code.decode_eq_error_iff inside).1 reads)

end Run

open Code (decode instructionLine)
open Machine (Executes)
open Run (Rejects)

/--
A run is stopped at its pointer exactly where `decode` fails, and else executes exactly what it
reads. The listing of a unit has a line for each offset that reading comes to, with the instruction
that every machine executes there; without a listing such an offset holds bytes at which every
run is stopped. A line tells its offset and its instruction.
-/
theorem executes_what_is_listed (unit : Code.Unit) :
    (∀ registry policy (run : Run), run.machine.ip < unit.opcodes.size →
        (Rejects unit registry policy run ↔
          ∃ error, decode unit.opcodes run.machine.ip = .error error)) ∧
      (∀ registry m instruction, decode unit.opcodes m.ip = .ok instruction ↔
        Executes unit registry m instruction) ∧
      (∀ text, unit.listing = .ok text → ∃ listing, unit.textOf listing = text ∧
        Code.Reads unit.opcodes 0 listing ∧ ∀ offset instruction, (offset, instruction) ∈ listing ↔
          Code.Reaches unit.opcodes 0 offset ∧
            ∀ registry (m : Machine), m.ip = offset → Executes unit registry m instruction) ∧
      (∀ error, unit.listing = .error error → ∃ offset, Code.Reaches unit.opcodes 0 offset ∧
        Code.Refuses unit.opcodes offset error ∧
          ∀ registry policy (run : Run), run.machine.ip = offset →
            Rejects unit registry policy run) ∧
      ∀ offset instruction place other, instructionLine offset instruction =
        instructionLine place other → offset = place ∧ instruction = other := by
  refine ⟨fun registry policy run inside => Run.rejects_iff inside,
    fun registry m instruction => Machine.executes_iff.symm, fun text listed => ?_,
    fun error fails => ?_, fun offset instruction place other => Code.instructionLine_inj⟩
  · rcases Code.listing_eq_ok_iff.1 listed with ⟨listing, reads, same⟩
    refine ⟨listing, same, reads, fun offset instruction => ?_⟩
    rw [reads.mem_iff]
    constructor
    · rintro ⟨reaches, known⟩
      refine ⟨reaches, ?_⟩
      rintro registry m rfl
      exact Machine.executes_iff.2 known
    · rintro ⟨reaches, executes⟩
      have there := executes none { (default : Machine) with ip := offset } rfl
      exact ⟨reaches, Machine.executes_iff.1 there⟩
  · rcases Code.listing_eq_error_iff.1 fails with ⟨offset, reaches, refuses⟩
    refine ⟨offset, reaches, refuses, ?_⟩
    rintro registry policy run rfl
    exact Run.rejects_of_refuses refuses

/-- The code of a load, a call and a pop. -/
def callingCode : Array UInt8 := #[1, 2, 0, 6, 1, 0, 3, 1, 27]

/-- A call is listed and executed with its operands, and a call that is cut off is neither. -/
theorem executes_what_is_listed_call :
    (∃ listing, ({ opcodes := callingCode } : Code.Unit).textOf listing =
          "0000 LOAD           2\n0003 CALL           1 3 true\n0008 POP            \n" ∧
        Code.Reads callingCode 0 listing ∧ ∀ offset instruction, (offset, instruction) ∈ listing ↔
          Code.Reaches callingCode 0 offset ∧ ∀ registry (m : Machine), m.ip = offset →
            Executes { opcodes := callingCode } registry m instruction) ∧
      (∀ registry (m : Machine), m.ip = 3 →
        Executes { opcodes := callingCode } registry m (.call 1 3 true)) ∧
      ∀ registry policy (run : Run), run.machine.ip = 3 →
        Rejects { opcodes := callingCode.pop.pop } registry policy run := by
  refine ⟨(executes_what_is_listed _).2.2.1 _ (by decide +kernel), fun registry m there => ?_,
    fun registry policy run there => ?_⟩
  · refine ((executes_what_is_listed _).2.1 registry m (.call 1 3 true)).1 ?_
    rw [there]
    decide +kernel
  · have inside : run.machine.ip < callingCode.pop.pop.size := by
      rw [there]
      decide
    refine ((executes_what_is_listed _).1 registry policy run inside).2 ⟨.truncated .call 3, ?_⟩
    rw [there]
    decide +kernel

end Lehce
