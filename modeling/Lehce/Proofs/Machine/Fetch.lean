import Lehce.Machine.Step
import Lehce.Proofs.Code.Decoding

/-!
# What a step reads

A step takes the bytes at the instruction pointer apart by itself. `step_eq_decode` says
that it finds there what `decode` finds: the same instruction, which it executes behind
it, or no instruction for the same reason.
-/

namespace Lehce.Machine

open Code (Opcode decode)

/-- Whichever operands an opcode has, they are fetched as they are decoded. -/
theorem fetch_eq (code : Array UInt8) (at_ : Nat) (op : Opcode) :
    fetch code at_ (if 2 ≤ op.operandSize then wordAt code (at_ + 1) else 0) op =
      op.instruction (Code.wordOfBytes (code[at_ + 1]?.getD 0) (code[at_ + 2]?.getD 0))
        (code[at_ + 3]?.getD 0) (code[at_ + 4]?.getD 0) := by
  cases op <;> rfl

section Bytes

variable {byte : UInt8} {op : Opcode}

theorem ne_zero_of_ofByte? (known : Opcode.ofByte? byte = some op) : byte ≠ 0 := by
  rintro rfl
  cases known

theorem nameOfByte_of_ofByte? (known : Opcode.ofByte? byte = some op) :
    Opcode.nameOfByte byte = op.name := by
  rw [Opcode.nameOfByte, if_neg (ne_zero_of_ofByte? known), known]

theorem operandSizeOfByte_of_ofByte? (known : Opcode.ofByte? byte = some op) :
    Opcode.operandSizeOfByte byte = op.operandSize := by
  rw [Opcode.operandSizeOfByte, known]

theorem operandSizeOfByte_of_unknown (unknown : Opcode.ofByte? byte = none) :
    Opcode.operandSizeOfByte byte = 0 := by
  rw [Opcode.operandSizeOfByte, unknown]

end Bytes

/-- A step executes what `decode` reads, and refuses what `decode` refuses. -/
theorem step_eq_decode (unit : Code.Unit) (registry : Option Registry) (m : Machine) :
    step unit registry m =
      match decode unit.opcodes m.ip with
      | .ok instruction =>
        execute unit registry { m with ip := m.ip + instruction.size } m.ip instruction
      | .error (.badOpcode byte offset) =>
        let fault := badInstruction (Opcode.nameOfByte byte) offset
        if byte = 0 then .unreadable m fault else .fault { m with ip := m.ip + 1 } fault
      | .error (.truncated op offset) => .unreadable m (badInstruction op.name offset)
      | .error (.outOfRange _) => .done m := by
  unfold step decode
  by_cases inside : m.ip < unit.opcodes.size
  · rw [dif_pos inside, dif_pos inside]
    cases known : Opcode.ofByte? unit.opcodes[m.ip] with
    | none =>
        simp only [operandSizeOfByte_of_unknown known]
        by_cases zero : unit.opcodes[m.ip] = 0
        · rw [if_pos (.inl zero), if_pos zero]
        · have room : ¬unit.opcodes.size < m.ip + 1 + 0 := by omega
          rw [if_neg (not_or.2 ⟨zero, room⟩), if_neg zero, known]
    | some op =>
        have size : m.ip + 1 + op.operandSize = m.ip + op.size := Nat.add_assoc ..
        simp only [operandSizeOfByte_of_ofByte? known, nameOfByte_of_ofByte? known, size]
        by_cases short : unit.opcodes.size < m.ip + op.size
        · rw [if_pos (.inr short), if_pos short]
        · rw [if_neg (not_or.2 ⟨ne_zero_of_ofByte? known, short⟩), if_neg short, known]
          simp only [fetch_eq, Code.size_instruction]
  · rw [dif_neg inside, dif_neg inside]

end Lehce.Machine
