import Lehce.Proofs.Code.Decoding

/-!
# Instructions and their bytes

Emission writes instructions as bytes, and `decodeAll` reads bytes as instructions. What
was written is read back, each instruction behind all before it. What was read is written
again as the same bytes, but for the flag of a call: every byte other than zero is read
as a used result, and a used result is written as one.

Reading goes from offset to offset. `Reaches` says to which offsets it comes and `Reads`
what it finds on its way to the end. It fails exactly where it comes to bytes that are
refused.
-/

namespace Lehce.Code

/-- Reading comes from one offset to another one. -/
inductive Reaches (code : Array UInt8) : Nat → Nat → Prop where
  | refl (offset : Nat) : Reaches code offset offset
  | step {offset last : Nat} {instruction : Instruction}
      (reads : decode code offset = .ok instruction)
      (later : Reaches code (offset + instruction.size) last) : Reaches code offset last

/-- What is read from an offset to the end of the code. -/
inductive Reads (code : Array UInt8) : Nat → List (Nat × Instruction) → Prop where
  | ends {offset : Nat} (outside : ¬offset < code.size) : Reads code offset []
  | next {offset : Nat} {instruction : Instruction} {rest : List (Nat × Instruction)}
      (inside : offset < code.size) (reads : decode code offset = .ok instruction)
      (later : Reads code (offset + instruction.size) rest) :
      Reads code offset ((offset, instruction) :: rest)

section DecodeAll

variable {code : Array UInt8} {offset steps : Nat} {listing earlier : List (Nat × Instruction)}
  {error : DecodeError}

theorem Reaches.le {last : Nat} (reaches : Reaches code offset last) : offset ≤ last := by
  induction reaches with
  | refl => exact Nat.le_refl _
  | step reads later ih => omega

/-- Behind the end there is nothing to refuse. -/
theorem not_refused_of_outside (outside : ¬offset < code.size) :
    ¬∃ last, Reaches code offset last ∧ Refuses code last error := by
  rintro ⟨last, reaches, refuses⟩
  have forward := reaches.le
  have inside := refuses.inside
  omega

/-- Reading succeeds with what stands on the way to the end. -/
theorem decodeFrom_eq_ok_iff (enough : code.size ≤ offset + steps) :
    decodeFrom code steps offset earlier = .ok listing ↔
      ∃ rest, listing = earlier.reverse ++ rest ∧ Reads code offset rest := by
  induction steps generalizing offset earlier with
  | zero =>
      rw [decodeFrom]
      constructor
      · rintro ⟨⟩
        exact ⟨[], by simp, .ends (by omega)⟩
      · rintro ⟨rest, rfl, reads⟩
        cases reads with
        | ends => simp
        | next inside => omega
  | succ steps ih =>
      rw [decodeFrom]
      by_cases inside : offset < code.size
      · rw [if_pos inside]
        cases found : decode code offset with
        | error problem =>
            simp only [reduceCtorEq, false_iff, not_exists, not_and]
            rintro rest - reads
            cases reads with
            | ends outside => exact outside inside
            | next _ known =>
                rw [found] at known
                cases known
        | ok instruction =>
            have positive := instruction.size_pos
            simp only
            rw [ih (by omega)]
            constructor
            · rintro ⟨rest, rfl, reads⟩
              exact ⟨(offset, instruction) :: rest, by simp, .next inside found reads⟩
            · rintro ⟨rest, rfl, reads⟩
              cases reads with
              | ends outside => exact absurd inside outside
              | next _ known later =>
                  rw [found] at known
                  cases known
                  exact ⟨_, by simp, later⟩
      · rw [if_neg inside]
        constructor
        · rintro ⟨⟩
          exact ⟨[], by simp, .ends inside⟩
        · rintro ⟨rest, rfl, reads⟩
          cases reads with
          | ends => simp
          | next known => exact absurd known inside

/-- Reading fails where it comes to an offset that is refused. -/
theorem decodeFrom_eq_error_iff (enough : code.size ≤ offset + steps) :
    decodeFrom code steps offset earlier = .error error ↔
      ∃ last, Reaches code offset last ∧ Refuses code last error := by
  induction steps generalizing offset earlier with
  | zero =>
      rw [decodeFrom]
      simpa using not_refused_of_outside (by omega)
  | succ steps ih =>
      rw [decodeFrom]
      by_cases inside : offset < code.size
      · rw [if_pos inside]
        cases found : decode code offset with
        | error problem =>
            simp only [Except.error.injEq]
            constructor
            · rintro rfl
              exact ⟨offset, .refl offset, (decode_eq_error_iff inside).1 found⟩
            · rintro ⟨last, reaches, refuses⟩
              cases reaches with
              | refl =>
                  rw [(decode_eq_error_iff inside).2 refuses] at found
                  cases found
                  rfl
              | step known =>
                  rw [found] at known
                  cases known
        | ok instruction =>
            have positive := instruction.size_pos
            simp only
            rw [ih (by omega)]
            constructor
            · rintro ⟨last, reaches, refuses⟩
              exact ⟨last, .step found reaches, refuses⟩
            · rintro ⟨last, reaches, refuses⟩
              cases reaches with
              | refl =>
                  rw [(decode_eq_error_iff inside).2 refuses] at found
                  cases found
              | step known later =>
                  rw [found] at known
                  cases known
                  exact ⟨last, later, refuses⟩
      · rw [if_neg inside]
        simpa using not_refused_of_outside inside

/-- What was read are the instructions at all offsets that reading comes to. -/
theorem Reads.mem_iff (reads : Reads code offset listing) {place : Nat}
    {instruction : Instruction} : (place, instruction) ∈ listing ↔
      Reaches code offset place ∧ decode code place = .ok instruction := by
  induction reads with
  | ends outside =>
      simp only [List.not_mem_nil, false_iff, not_and]
      intro reaches known
      have forward := reaches.le
      rcases decode_eq_ok_iff.1 known with ⟨op, holds, _⟩
      have inside := (Array.getElem?_eq_some_iff.1 holds).1
      omega
  | next inside here later ih =>
      rw [List.mem_cons, ih]
      constructor
      · rintro (same | ⟨reaches, known⟩)
        · cases same
          exact ⟨.refl _, here⟩
        · exact ⟨.step here reaches, known⟩
      · rintro ⟨reaches, known⟩
        cases reaches with
        | refl =>
            rw [here] at known
            cases known
            exact .inl rfl
        | step first reaches =>
            rw [here] at first
            cases first
            exact .inr ⟨reaches, known⟩

theorem decodeAll_eq_ok_iff : decodeAll code = .ok listing ↔ Reads code 0 listing := by
  rw [decodeAll, decodeFrom_eq_ok_iff (by omega)]
  simp

theorem decodeAll_eq_error_iff : decodeAll code = .error error ↔
    ∃ offset, Reaches code 0 offset ∧ Refuses code offset error :=
  decodeFrom_eq_error_iff (by omega)

end DecodeAll

/-- The flag of a call in a listing stands at a place of the code. -/
def HoldsFlag (listing : List (Nat × Instruction)) (place : Nat) : Prop :=
  ∃ offset slot count used, (offset, .call slot count used) ∈ listing ∧ place = offset + 4

/-- How a flag is written. -/
def flagByte (byte : UInt8) : UInt8 := if byte = 0 then 0 else 1

/-- The byte that is written at a place of the code. -/
structure IsWritten (listing : List (Nat × Instruction)) (code : Array UInt8) (place : Nat)
    (byte : Option UInt8) : Prop where
  plain : ¬HoldsFlag listing place → byte = code[place]?
  flag : HoldsFlag listing place → byte = code[place]?.map flagByte

section Rewriting

variable {code : Array UInt8} {offset : Nat} {instruction : Instruction}

theorem wordBytes_wordOfBytes (low high : UInt8) :
    wordBytes (wordOfBytes low high) = [low, high] := by
  have lowBound : low.toNat < 256 := low.toNat_lt
  have highBound : high.toNat < 256 := high.toNat_lt
  have value : (low.toNat + 256 * high.toNat).toUInt16.toNat = low.toNat + 256 * high.toNat := by
    simp only [Nat.toUInt16, UInt16.toNat_ofNat']
    omega
  simp only [wordBytes, wordOfBytes, value, List.cons.injEq, and_true]
  constructor <;> apply UInt8.toNat_inj.1 <;> simp only [Nat.toUInt8, UInt8.toNat_ofNat'] <;> omega

/-- An instruction is written as the bytes it was read from, its flag as zero or one. -/
theorem encode_instruction (op : Opcode) (low high count flag : UInt8) :
    (op.instruction (wordOfBytes low high) count flag).encode =
      op.byte :: [low, high, count, flagByte flag].take op.operandSize := by
  cases op with
  | call =>
      have used : (if flag != 0 then 1 else 0) = flagByte flag := by
        by_cases zero : flag = 0 <;> simp [flagByte, zero]
      simp only [Opcode.instruction, Instruction.encode, Instruction.operandBytes,
        wordBytes_wordOfBytes, used]
      rfl
  | load | store | fastStore | jump | compare | initList | initDict =>
      simp only [Opcode.instruction, Instruction.encode, Instruction.operandBytes,
        wordBytes_wordOfBytes]
      rfl
  | _ => rfl

theorem operandSize_le (op : Opcode) : op.operandSize ≤ 4 := by
  cases op <;> simp [Opcode.operandSize]

/-- What was read is written as it stands in the code, but for the flag of a call. -/
theorem getElem?_encode (reads : decode code offset = .ok instruction) {place : Nat}
    (within : place < instruction.size) :
    instruction.encode[place]? =
      if place = 4 then code[offset + place]?.map flagByte else code[offset + place]? := by
  rcases decode_eq_ok_iff.1 reads with ⟨op, holds, room, rfl⟩
  rw [size_instruction, Opcode.size] at within
  rw [Opcode.size] at room
  have operands := operandSize_le op
  have inside : offset + place < code.size := by omega
  rw [encode_instruction]
  cases place with
  | zero => exact holds.symm
  | succ place =>
      have operand : place < op.operandSize := by omega
      rw [List.getElem?_cons_succ, List.getElem?_take_of_lt operand,
        Array.getElem?_eq_getElem inside]
      have known : ∀ number, number = offset + (place + 1) →
          code[number]?.getD 0 = code[offset + (place + 1)] := by
        rintro number rfl
        rw [Array.getElem?_eq_getElem inside, Option.getD_some]
      obtain rfl | rfl | rfl | rfl : place = 0 ∨ place = 1 ∨ place = 2 ∨ place = 3 := by omega
      all_goals simp [known _ rfl]

theorem holdsFlag_cons {rest : List (Nat × Instruction)} {place : Nat} :
    HoldsFlag ((offset, instruction) :: rest) place ↔
      (place = offset + 4 ∧ 4 < instruction.size) ∨ HoldsFlag rest place := by
  constructor
  · rintro ⟨start, slot, count, used, member, rfl⟩
    rcases List.mem_cons.1 member with same | later
    · cases same
      exact .inl ⟨rfl, Nat.lt_succ_self 4⟩
    · exact .inr ⟨start, slot, count, used, later, rfl⟩
  · rintro (⟨rfl, large⟩ | ⟨start, slot, count, used, member, rfl⟩)
    · cases instruction with
      | call slot count used => exact ⟨offset, slot, count, used, List.mem_cons_self, rfl⟩
      | _ =>
          exact absurd large
            (by simp [Instruction.size, Instruction.opcode, Opcode.size, Opcode.operandSize])
    · exact ⟨start, slot, count, used, List.mem_cons_of_mem _ member, rfl⟩

theorem Reads.le {listing : List (Nat × Instruction)} (reads : Reads code offset listing)
    {place : Nat} (member : (place, instruction) ∈ listing) : offset ≤ place := by
  induction reads with
  | ends => cases member
  | next _ _ _ ih =>
      rcases List.mem_cons.1 member with same | later
      · cases same
        exact Nat.le_refl _
      · have behind := ih later
        omega

/-- What was read up to the end is written as the same bytes but for the flags of calls. -/
theorem Reads.isWritten {listing : List (Nat × Instruction)} (reads : Reads code offset listing)
    (place : Nat) : IsWritten listing code (offset + place)
      ((listing.map (·.2)).flatMap Instruction.encode)[place]? := by
  induction reads generalizing place with
  | @ends offset outside =>
      have missing : code[offset + place]? = none := Array.getElem?_eq_none (by omega)
      constructor <;> simp [missing]
  | @next offset instruction rest inside reads later ih =>
      simp only [List.map_cons, List.flatMap_cons]
      by_cases within : place < instruction.size
      · rw [List.getElem?_append_left (by rwa [length_encode]), getElem?_encode reads within]
        have apart : ¬HoldsFlag rest (offset + place) := by
          rintro ⟨start, slot, count, used, member, same⟩
          have behind := later.le member
          omega
        by_cases flag : place = 4
        · subst flag
          exact ⟨fun plain => absurd (holdsFlag_cons.2 (.inl ⟨rfl, within⟩)) plain, fun _ => rfl⟩
        · rw [if_neg flag]
          refine ⟨fun _ => rfl, fun held => ?_⟩
          rcases holdsFlag_cons.1 held with ⟨same, _⟩ | behind
          · omega
          · exact absurd behind apart
      · obtain ⟨further, rfl⟩ : ∃ further, place = instruction.size + further :=
          ⟨place - instruction.size, by omega⟩
        rw [List.getElem?_append_right (by rw [length_encode]; omega), length_encode,
          Nat.add_sub_cancel_left]
        have written := ih further
        rw [Nat.add_assoc] at written
        refine ⟨fun plain => written.plain fun held => plain (holdsFlag_cons.2 (.inr held)),
          fun held => written.flag ?_⟩
        rcases holdsFlag_cons.1 held with ⟨same, large⟩ | behind
        · omega
        · exact behind

theorem Reads.size_eq {listing : List (Nat × Instruction)} (reads : Reads code offset listing)
    (inside : offset ≤ code.size) :
    offset + ((listing.map (·.2)).flatMap Instruction.encode).length = code.size := by
  induction reads with
  | ends outside => simp; omega
  | next _ reads _ ih =>
      rcases decode_eq_ok_iff.1 reads with ⟨op, holds, room, rfl⟩
      rw [size_instruction] at ih
      rw [List.map_cons, List.flatMap_cons, List.length_append, length_encode, size_instruction]
      have behind := ih room
      omega

end Rewriting

/--
An instruction as numbers: its opcode, the word of every opcode but that of a call, and the
operands of a call.
-/
structure Fields where
  opcode : Opcode
  word : Nat
  slot : Nat
  count : Nat
  used : Bool
  deriving Repr, DecidableEq

/-- The numbers of an instruction. -/
def Instruction.fields (instruction : Instruction) : Fields :=
  match instruction with
  | .call slot count used => ⟨.call, 0, slot.toNat, count.toNat, used⟩
  | other => ⟨other.opcode, other.word, 0, 0, false⟩

namespace Fields

/-- The operands of an opcode have room in the code, and it has no others. -/
structure Fits (fields : Fields) : Prop where
  word : fields.word ≤ 65535
  slot : fields.slot ≤ 65535
  count : fields.count ≤ 255
  wordless : fields.opcode.operandSize ≠ 2 → fields.word = 0
  uncalled : fields.opcode ≠ .call → fields.slot = 0 ∧ fields.count = 0 ∧ fields.used = false

/-- Appends an opcode with those of the numbers that are its operands. -/
def emit (fields : Fields) : Emit PUnit :=
  if fields.opcode = .call then emitCall fields.slot fields.count fields.used
  else if fields.opcode.operandSize = 2 then emitWord fields.opcode fields.word
  else emitOpcode fields.opcode

/-- The instruction of an opcode with operands that are cut to their room in the code. -/
def instruction (fields : Fields) : Instruction :=
  match fields.opcode with
  | .call => .call fields.slot.toUInt16 fields.count.toUInt8 fields.used
  | other => other.instruction fields.word.toUInt16 0 0

variable {fields : Fields}

theorem emit_eq (fields : Fields) : fields.emit = emitBytes fields.instruction.encode := by
  rcases fields with ⟨opcode, word, slot, count, used⟩
  cases opcode <;> rfl

theorem size_instruction (fields : Fields) : fields.instruction.size = fields.opcode.size := by
  rcases fields with ⟨opcode, word, slot, count, used⟩
  cases opcode <;> rfl

/-- Numbers that fit are those of the instruction that they are cut to. -/
theorem Fits.fields_instruction (fits : fields.Fits) : fields.instruction.fields = fields := by
  rcases fields with ⟨opcode, word, slot, count, used⟩
  rcases fits with ⟨wordBound, slotBound, countBound, wordless, uncalled⟩
  simp only at wordBound slotBound countBound wordless uncalled
  have word16 : word.toUInt16.toNat = word :=
    UInt16.toNat_ofNat_of_lt' (Nat.lt_succ_of_le wordBound)
  have slot16 : slot.toUInt16.toNat = slot :=
    UInt16.toNat_ofNat_of_lt' (Nat.lt_succ_of_le slotBound)
  have count8 : count.toUInt8.toNat = count :=
    UInt8.toNat_ofNat_of_lt' (Nat.lt_succ_of_le countBound)
  cases opcode with
  | call => simp [Instruction.fields, Fields.instruction, slot16, count8, wordless (by decide)]
  | load | store | fastStore | jump | compare | initList | initDict =>
      rcases uncalled (by decide) with ⟨rfl, rfl, rfl⟩
      simp [Instruction.fields, Fields.instruction, Opcode.instruction, Instruction.opcode,
        Instruction.word, word16]
  | _ =>
      rcases uncalled (by simp) with ⟨rfl, rfl, rfl⟩
      cases wordless (by simp [Opcode.operandSize])
      rfl

end Fields

theorem fits_fields (instruction : Instruction) : instruction.fields.Fits := by
  cases instruction with
  | call slot count used =>
      have slotBound : slot.toNat < 65536 := slot.toNat_lt
      have countBound : count.toNat < 256 := count.toNat_lt
      constructor <;> simp [Instruction.fields] <;> omega
  | load word | store word | fastStore word | jump word | compare word | initList word
  | initDict word =>
      have bound : word.toNat < 65536 := word.toNat_lt
      constructor <;> simp [Instruction.fields, Instruction.opcode, Instruction.word,
        Opcode.operandSize]
      omega
  | _ => constructor <;> simp [Instruction.fields, Instruction.opcode, Instruction.word]

theorem instruction_fields (instruction : Instruction) :
    instruction.fields.instruction = instruction := by
  cases instruction with
  | call slot count used => simp [Instruction.fields, Fields.instruction]
  | _ =>
      simp [Instruction.fields, Fields.instruction, Instruction.opcode, Opcode.instruction,
        Instruction.word]

/-- Compilation appends an instruction as its numbers are appended. -/
theorem emit_fields (instruction : Instruction) : instruction.fields.emit = emit instruction := by
  rw [Fields.emit_eq, instruction_fields, emit_eq]

section Emitting

/-- An emission with some bytes more. -/
def Emission.written (before : Emission) (bytes : List UInt8) : Emission :=
  { before with draft := { before.draft with code := before.draft.code ++ bytes } }

theorem Emission.written_written (before : Emission) (front back : List UInt8) :
    (before.written front).written back = before.written (front ++ back) := by
  have code : before.draft.code ++ front ++ back = before.draft.code ++ (front ++ back) :=
    Array.toList_inj.1 (by simp)
  simp only [Emission.written, code]

/-- The bytes of some instructions are appended one after another, and nothing else is done. -/
theorem emitted_forM_emit (records : List Fields) (before : Emission) :
    emitted (records.forM Fields.emit) before =
      .ok (before.written ((records.map Fields.instruction).flatMap Instruction.encode)) := by
  induction records generalizing before with
  | nil => simp [emitted, Emission.written, List.forM, pure, EStateM.pure]
  | cons fields rest ih =>
      have first : emitted ((fields :: rest).forM Fields.emit) before =
          emitted (rest.forM Fields.emit) (before.written fields.instruction.encode) := by
        rw [List.forM.eq_def]
        simp only
        rw [Fields.emit_eq]
        rfl
      rw [first, ih, Emission.written_written, List.map_cons, List.flatMap_cons]

/-- How many bytes stand before one of some instructions. -/
def sizeBefore : List Fields → Nat → Nat
  | fields :: rest, place + 1 => fields.opcode.size + sizeBefore rest place
  | _, _ => 0

/-- Instructions that are read back are those that were written, behind all before them. -/
theorem located_fields {records : List Fields} (fit : ∀ fields ∈ records, fields.Fits)
    (start : Nat) :
    (located start (records.map Fields.instruction)).map
        (fun (offset, instruction) => (offset, instruction.fields)) =
      records.zipIdx.map fun (fields, place) => (start + sizeBefore records place, fields) := by
  induction records generalizing start with
  | nil => rfl
  | cons fields rest ih =>
      rcases List.forall_mem_cons.1 fit with ⟨first, others⟩
      simp only [List.map_cons, located, first.fields_instruction, Fields.size_instruction,
        ih others, List.zipIdx_cons, List.zipIdx_succ, List.map_map]
      simp [sizeBefore, Nat.add_assoc]

end Emitting

/-- Some code is written as other bytes are, but for the flags of calls. -/
structure SameButFlags (listing : List (Nat × Instruction)) (code written : Array UInt8) :
    Prop where
  size : written.size = code.size
  bytes : ∀ place, IsWritten listing code place written[place]?

/--
Compilation appends instructions from their numbers. Any list of numbers that fit is read back from
the bytes that are appended for it, with offsets that are the sizes added up; what is read is
written again as the same bytes but for flags; and reading fails exactly where it comes to byte
zero, to a byte past the last opcode or to an instruction that the end cuts off.
-/
theorem encoding_laws :
    (∀ instruction : Instruction, instruction.fields.Fits ∧
        emit instruction = instruction.fields.emit) ∧
      (∀ records : List Fields, (∀ fields ∈ records, fields.Fits) → ∀ before, ∃ bytes listing,
        emitted (records.forM Fields.emit) before = .ok (before.written bytes) ∧
          decodeAll bytes.toArray = .ok listing ∧
            listing.map (fun (offset, instruction) => (offset, instruction.fields)) =
              records.zipIdx.map fun (fields, place) => (sizeBefore records place, fields)) ∧
      (∀ code listing, decodeAll code = .ok listing → ∀ before, ∃ bytes,
        emitted ((listing.map (·.2.fields)).forM Fields.emit) before =
            .ok (before.written bytes) ∧
          SameButFlags listing code bytes.toArray) ∧
      ∀ code error, decodeAll code = .error error ↔
        ∃ offset, Reaches code 0 offset ∧ Refuses code offset error := by
  refine ⟨fun instruction => ⟨fits_fields instruction, (emit_fields instruction).symm⟩,
    fun records fit before => ?_, fun code listing reads before => ?_,
    fun code error => decodeAll_eq_error_iff⟩
  · refine ⟨_, _, emitted_forM_emit records before, decodeAll_eq List.toList_toArray, ?_⟩
    simpa using located_fields fit 0
  · refine ⟨_, emitted_forM_emit _ before, ?_⟩
    have same : (listing.map (·.2.fields)).map Fields.instruction = listing.map (·.2) := by
      simp [instruction_fields]
    have found := decodeAll_eq_ok_iff.1 reads
    have size := found.size_eq (Nat.zero_le _)
    have written := found.isWritten
    simp only [Nat.zero_add] at size written
    rw [same]
    exact ⟨by simpa using size, fun place => by simpa using written place⟩

/-- A call with a flag of seven and a pop are read, and written with a flag of one. -/
theorem encoding_laws_callFlag :
    let listing := [(0, Instruction.call 1 2 true), (5, .pop)]
    (decodeAll #[6, 1, 0, 2, 7, 27] = .ok listing ∧
      ∃ bytes, emitted ((listing.map (·.2.fields)).forM Fields.emit) {} =
          .ok (Emission.written {} bytes) ∧
        SameButFlags listing #[6, 1, 0, 2, 7, 27] bytes.toArray) ∧
      ∃ bytes listing, emitted ([⟨.call, 0, 1, 2, true⟩, ⟨.pop, 0, 0, 0, false⟩].forM
          Fields.emit) {} = .ok (Emission.written {} bytes) ∧
        decodeAll bytes.toArray = .ok listing ∧
          listing.map (fun (offset, instruction) => (offset, instruction.fields)) =
            [(0, ⟨.call, 0, 1, 2, true⟩), (5, ⟨.pop, 0, 0, 0, false⟩)] := by
  intro listing
  have reads : decodeAll #[6, 1, 0, 2, 7, 27] = .ok listing := rfl
  refine ⟨⟨reads, encoding_laws.2.2.1 _ _ reads {}⟩, encoding_laws.2.1 _ ?_ {}⟩
  simp only [List.forall_mem_cons, List.not_mem_nil, false_implies, implies_true, and_true]
  constructor <;> constructor <;> decide

end Lehce.Code
