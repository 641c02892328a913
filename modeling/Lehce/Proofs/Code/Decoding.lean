import Lehce.Proofs.Code.Assembly

/-!
# Reading code back

An instruction is read where the byte of an opcode stands with room for its operands, and
`Refuses` says what else can stand there. `Stands code offset instructions` says that the
bytes of some instructions stand at an offset of the code. Whatever stands there is what is
read there, and reading all of the code gives the instructions that it was put together
from, each with its offset.
-/

namespace Lehce.Code

theorem ofByte?_byte (op : Opcode) : Opcode.ofByte? op.byte = some op := by
  cases op with
  | binary op => cases op <;> rfl
  | unary op => cases op <;> rfl
  | _ => rfl

theorem wordOfBytes_toNat (word : UInt16) :
    wordOfBytes (word.toNat % 256).toUInt8 (word.toNat / 256).toUInt8 = word := by
  have bound : word.toNat < 65536 := word.toNat_lt
  apply UInt16.toNat_inj.1
  simp only [wordOfBytes, Nat.toUInt16, UInt16.toNat_ofNat', Nat.toUInt8, UInt8.toNat_ofNat']
  omega

theorem Instruction.size_pos (instruction : Instruction) : 0 < instruction.size := by
  simp only [Instruction.size, Opcode.size]
  omega

section Opcodes

variable {byte : UInt8} {op : Opcode}

theorem toNat_byte_all :
    Opcode.all.map (·.byte.toNat) = (List.range 29).map (· + 1) := by
  decide

/-- Each opcode has one byte. -/
theorem ofByte?_eq_some_iff : Opcode.ofByte? byte = some op ↔ byte = op.byte := by
  constructor
  · intro known
    unfold Opcode.ofByte? at known
    split at known
    · cases known
    · rename_i notZero
      have place := congrArg (·[byte.toNat - 1]?) toNat_byte_all
      simp only [List.getElem?_map, known, Option.map_some] at place
      have positive : byte.toNat ≠ 0 := fun zero => notZero (UInt8.toNat_inj.1 zero)
      rcases Option.map_eq_some_iff.1 place.symm with ⟨number, found, same⟩
      rcases List.getElem?_eq_some_iff.1 found with ⟨_, rfl⟩
      rw [List.getElem_range] at same
      exact UInt8.toNat_inj.1 (by omega)
  · rintro rfl
    exact ofByte?_byte op

/-- Zero and the bytes past the last opcode are the bytes of no opcode. -/
theorem ofByte?_eq_none_iff :
    Opcode.ofByte? byte = none ↔ byte = 0 ∨ Opcode.setItem.byte < byte := by
  have last : Opcode.setItem.byte.toNat = 29 := rfl
  have length : Opcode.all.length = 29 := rfl
  unfold Opcode.ofByte?
  split
  · rename_i zero
    simp [zero]
  · rename_i notZero
    have positive : byte.toNat ≠ 0 := fun zero => notZero (UInt8.toNat_inj.1 zero)
    rw [List.getElem?_eq_none_iff, length, UInt8.lt_iff_toNat_lt, last]
    constructor
    · exact fun large => .inr (by omega)
    · rintro (zero | large)
      · exact absurd zero notZero
      · omega

end Opcodes

/-- Why the bytes at an offset are no instruction. -/
inductive Refuses (code : Array UInt8) (offset : Nat) : DecodeError → Prop where
  | zero (holds : code[offset]? = some 0) : Refuses code offset (.badOpcode 0 offset)
  | unknown {byte : UInt8} (holds : code[offset]? = some byte)
      (past : Opcode.setItem.byte < byte) : Refuses code offset (.badOpcode byte offset)
  | cutOff {op : Opcode} (holds : code[offset]? = some op.byte)
      (short : code.size < offset + op.size) : Refuses code offset (.truncated op offset)

theorem size_instruction (op : Opcode) (word : UInt16) (count flag : UInt8) :
    (op.instruction word count flag).size = op.size := by
  cases op <;> rfl

section Decode

variable {code : Array UInt8} {offset : Nat} {instruction : Instruction} {error : DecodeError}

theorem Refuses.inside (refuses : Refuses code offset error) : offset < code.size := by
  cases refuses with
  | zero holds | unknown holds | cutOff holds => exact (Array.getElem?_eq_some_iff.1 holds).1

/-- An instruction is read from the byte of an opcode with room for its operands. -/
theorem decode_eq_ok_iff : decode code offset = .ok instruction ↔
    ∃ op : Opcode, code[offset]? = some op.byte ∧ offset + op.size ≤ code.size ∧
      instruction = op.instruction
        (wordOfBytes (code[offset + 1]?.getD 0) (code[offset + 2]?.getD 0))
        (code[offset + 3]?.getD 0) (code[offset + 4]?.getD 0) := by
  unfold decode
  split
  · rename_i inside
    rw [Array.getElem?_eq_getElem inside]
    split
    · rename_i unknown
      simp only [reduceCtorEq, false_iff, not_exists, not_and, Option.some.injEq]
      intro op holds
      rw [holds, ofByte?_byte] at unknown
      cases unknown
    · rename_i op known
      have byte := ofByte?_eq_some_iff.1 known
      simp only [Option.some.injEq]
      constructor
      · intro reads
        split at reads
        · cases reads
        · rename_i room
          cases reads
          exact ⟨op, byte, by omega, rfl⟩
      · rintro ⟨other, holds, room, rfl⟩
        rw [holds, ofByte?_byte] at known
        cases known
        rw [if_neg (by omega)]
  · rename_i outside
    simp only [reduceCtorEq, false_iff, not_exists, not_and]
    intro op holds
    exact absurd (Array.getElem?_eq_some_iff.1 holds).1 outside

/-- Reading an instruction fails on the bytes that are refused. -/
theorem decode_eq_error_iff (inside : offset < code.size) :
    decode code offset = .error error ↔ Refuses code offset error := by
  have first := Array.getElem?_eq_getElem inside
  unfold decode
  rw [dif_pos inside]
  split
  · rename_i unknown
    constructor
    · rintro ⟨⟩
      rcases ofByte?_eq_none_iff.1 unknown with zero | past
      · rw [zero] at first ⊢
        exact .zero first
      · exact .unknown first past
    · intro refuses
      cases refuses with
      | zero holds | unknown holds =>
          rw [first] at holds
          rw [Option.some.inj holds]
      | cutOff holds =>
          rw [first] at holds
          rw [Option.some.inj holds, ofByte?_byte] at unknown
          cases unknown
  · rename_i op known
    constructor
    · intro reads
      split at reads
      · rename_i short
        cases reads
        rw [ofByte?_eq_some_iff.1 known] at first
        exact .cutOff first short
      · cases reads
    · intro refuses
      cases refuses with
      | zero holds =>
          rw [first] at holds
          rw [Option.some.inj holds] at known
          cases known
      | unknown holds past =>
          rw [first] at holds
          cases holds
          rw [ofByte?_eq_none_iff.2 (.inr past)] at known
          cases known
      | cutOff holds short =>
          rw [first] at holds
          rw [Option.some.inj holds, ofByte?_byte] at known
          cases known
          rw [if_pos short]

end Decode

/-- The bytes of some instructions stand at an offset of the code. -/
def Stands (code : Array UInt8) (offset : Nat) (instructions : List Instruction) : Prop :=
  ∃ front back, code.toList = front ++ (instructions.flatMap Instruction.encode ++ back) ∧
    front.length = offset

/-- How many bytes some instructions take. -/
def codeSize (instructions : List Instruction) : Nat := piecesSize (plainPieces instructions)

/-- Instructions with the offsets at which they stand. -/
def located (start : Nat) : List Instruction → List (Nat × Instruction)
  | [] => []
  | instruction :: rest => (start, instruction) :: located (start + instruction.size) rest

@[simp]
theorem codeSize_nil : codeSize [] = 0 := rfl

@[simp]
theorem codeSize_cons (instruction : Instruction) (rest : List Instruction) :
    codeSize (instruction :: rest) = instruction.size + codeSize rest := rfl

@[simp]
theorem codeSize_append (front back : List Instruction) :
    codeSize (front ++ back) = codeSize front + codeSize back := by
  simp [codeSize]

theorem length_flatMap_encode (instructions : List Instruction) :
    (instructions.flatMap Instruction.encode).length = codeSize instructions := by
  induction instructions with
  | nil => rfl
  | cons instruction rest ih => simp [ih]

namespace Stands

variable {code : Array UInt8} {offset : Nat} {instruction : Instruction}
  {front back : List Instruction}

theorem append_iff : Stands code offset (front ++ back) ↔
    Stands code offset front ∧ Stands code (offset + codeSize front) back := by
  constructor
  · rintro ⟨before, after, standing, rfl⟩
    rw [List.flatMap_append, List.append_assoc] at standing
    refine ⟨⟨before, _, standing, rfl⟩, before ++ front.flatMap Instruction.encode, after, ?_, ?_⟩
    · rw [standing, List.append_assoc]
    · rw [List.length_append, length_flatMap_encode]
  · rintro ⟨⟨before, rest, standing, rfl⟩, middle, after, following, length⟩
    have same : middle = before ++ front.flatMap Instruction.encode := by
      have both := following.symm.trans (standing.trans (List.append_assoc ..).symm)
      refine (List.append_inj both ?_).1
      rw [length, List.length_append, length_flatMap_encode]
    refine ⟨before, after, ?_, rfl⟩
    rw [following, same, List.flatMap_append]
    simp only [List.append_assoc]

theorem cons_iff : Stands code offset (instruction :: back) ↔
    Stands code offset [instruction] ∧ Stands code (offset + instruction.size) back := by
  rw [← List.singleton_append, append_iff]
  rfl

theorem size_le {instructions : List Instruction} (stands : Stands code offset instructions) :
    offset + codeSize instructions ≤ code.size := by
  rcases stands with ⟨before, after, standing, rfl⟩
  rw [← Array.length_toList, standing, List.length_append, List.length_append,
    length_flatMap_encode]
  omega

theorem bytes (stands : Stands code offset [instruction]) {place : Nat}
    (inside : place < instruction.size) :
    code[offset + place]? = instruction.encode[place]? := by
  rcases stands with ⟨before, after, standing, rfl⟩
  rw [List.flatMap_singleton] at standing
  rw [← Array.getElem?_toList, standing, List.getElem?_append_right (by omega),
    Nat.add_sub_cancel_left, List.getElem?_append_left]
  rw [length_encode]
  exact inside

/-- What stands at an offset is read there. -/
theorem read (stands : Stands code offset [instruction]) :
    decode code offset = .ok instruction := by
  have size : offset + instruction.size ≤ code.size := stands.size_le
  have positive := instruction.size_pos
  have inside : offset < code.size := by omega
  have operand : ∀ place, place < instruction.size →
      code[offset + place]?.getD 0 = instruction.encode[place]?.getD 0 := by
    intro place within
    rw [stands.bytes within]
  have first : code[offset] = instruction.opcode.byte := by
    have byte := stands.bytes positive
    rw [Nat.add_zero, Array.getElem?_eq_getElem inside] at byte
    exact Option.some.inj byte
  simp only [Code.decode, inside, dite_true, first, ofByte?_byte]
  rw [if_neg (by simpa [Instruction.size] using size)]
  cases instruction with
  | call slot count used =>
      rw [operand 1 (Nat.lt_of_sub_eq_succ rfl), operand 2 (Nat.lt_of_sub_eq_succ rfl),
        operand 3 (Nat.lt_of_sub_eq_succ rfl), operand 4 (Nat.lt_of_sub_eq_succ rfl)]
      have word := wordOfBytes_toNat slot
      cases used <;>
        exact congrArg (fun address => Except.ok (Instruction.call address count _)) word
  | load word | store word | fastStore word | jump word | compare word | initList word
  | initDict word =>
      rw [operand 1 (Nat.lt_of_sub_eq_succ rfl), operand 2 (Nat.lt_of_sub_eq_succ rfl)]
      exact congrArg _ (congrArg _ (wordOfBytes_toNat word))
  | _ => rfl

end Stands

theorem Stands.of_located {code : Array UInt8} {start offset : Nat}
    {instructions : List Instruction} {instruction : Instruction}
    (stands : Stands code start instructions)
    (member : (offset, instruction) ∈ located start instructions) :
    Stands code offset [instruction] := by
  induction instructions generalizing start with
  | nil => cases member
  | cons first rest ih =>
      rcases Stands.cons_iff.1 stands with ⟨here, following⟩
      rcases List.mem_cons.1 member with same | later
      · cases same
        exact here
      · exact ih following later

theorem stands_of_bytes {code : Array UInt8} {instructions : List Instruction}
    (bytes : code.toList = instructions.flatMap Instruction.encode) :
    Stands code 0 instructions :=
  ⟨[], [], by simpa using bytes, rfl⟩

/-- Code that was put together from instructions is read back. -/
theorem decodeFrom_eq {code : Array UInt8} {offset steps : Nat} {instructions : List Instruction}
    {earlier : List (Nat × Instruction)} (stands : Stands code offset instructions)
    (whole : offset + codeSize instructions = code.size) (enough : codeSize instructions ≤ steps) :
    decodeFrom code steps offset earlier = .ok (earlier.reverse ++ located offset instructions) := by
  induction instructions generalizing offset steps earlier with
  | nil =>
      have ended : ¬offset < code.size := by
        simp only [codeSize_nil] at whole
        omega
      cases steps with
      | zero => simp [decodeFrom, located]
      | succ steps => simp [decodeFrom, ended, located]
  | cons instruction rest ih =>
      rcases Stands.cons_iff.1 stands with ⟨first, following⟩
      have positive := instruction.size_pos
      simp only [codeSize_cons] at whole enough
      cases steps with
      | zero => omega
      | succ steps =>
          have inside : offset < code.size := by omega
          simp only [decodeFrom, inside, if_true, first.read]
          rw [ih following (by omega) (by omega)]
          simp [located]

theorem decodeAll_eq {code : Array UInt8} {instructions : List Instruction}
    (bytes : code.toList = instructions.flatMap Instruction.encode) :
    decodeAll code = .ok (located 0 instructions) := by
  have size : codeSize instructions = code.size := by
    rw [← length_flatMap_encode, ← bytes, Array.length_toList]
  exact decodeFrom_eq (stands_of_bytes bytes) (by omega) (by omega)

end Lehce.Code
