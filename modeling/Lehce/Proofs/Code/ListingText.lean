import Mathlib.Data.List.Nodup
import Lehce.Code.Listing
import Lehce.Proofs.Code.Encoding

/-!
# The text of listings

A unit has a listing when its code can be read to the end; it shows one line for each
instruction that is read.

A line tells its offset and its instruction: numbers hold no blank, so the first blank
ends the offset; all names of opcodes take the same room; and the operands behind a name
are those that its opcode has. So no two instructions share a line.
-/

namespace Lehce.Code

/-- Texts are the same up to the first blank and behind it. -/
theorem append_blank_inj {front other behind further : List Char} (noBlank : ' ' ∉ front)
    (noOther : ' ' ∉ other) (same : front ++ ' ' :: behind = other ++ ' ' :: further) :
    front = other ∧ behind = further := by
  induction front generalizing other with
  | nil =>
      cases other with
      | nil => simpa using same
      | cons c other =>
          rw [List.nil_append, List.cons_append, List.cons.injEq] at same
          exact absurd (same.1 ▸ List.mem_cons_self) noOther
  | cons c front ih =>
      cases other with
      | nil =>
          rw [List.nil_append, List.cons_append, List.cons.injEq] at same
          exact absurd (same.1 ▸ List.mem_cons_self) noBlank
      | cons d other =>
          rw [List.cons_append, List.cons_append, List.cons.injEq] at same
          rcases same with ⟨rfl, same⟩
          rcases ih (fun member => noBlank (List.mem_cons_of_mem _ member))
            (fun member => noOther (List.mem_cons_of_mem _ member)) same with ⟨rfl, rfl⟩
          exact ⟨rfl, rfl⟩

theorem toList_toString (number : Nat) : (toString number).toList = Nat.toDigits 10 number := by
  rw [Nat.toString_eq_repr, Nat.toList_repr]

theorem blank_notMem_toDigits (number : Nat) : ' ' ∉ Nat.toDigits 10 number := fun member =>
  absurd (Nat.isDigit_of_mem_toDigits (by decide) (by decide) member) (by decide)

theorem toDigits_inj {first second : Nat}
    (same : Nat.toDigits 10 first = Nat.toDigits 10 second) : first = second := by
  have values := congrArg (Nat.ofDigitChars 10 · 0) same
  simpa only [Nat.ofDigitChars_ten_toDigits] using values

section Offsets

theorem toList_padLeft (fill : Char) (width : Nat) (text : String) :
    (padLeft fill width text).toList =
      List.replicate (width - text.length) fill ++ text.toList := by
  simp [padLeft]

theorem ofDigitChars_replicate (count : Nat) (digits : List Char) :
    Nat.ofDigitChars 10 (List.replicate count '0' ++ digits) 0 =
      Nat.ofDigitChars 10 digits 0 := by
  induction count with
  | zero => rfl
  | succ count ih =>
      rw [List.replicate_succ, List.cons_append, Nat.ofDigitChars_cons]
      exact ih

/-- An offset that is filled up with zeros is still a numeral of the offset. -/
theorem ofDigitChars_padLeft (width number : Nat) :
    Nat.ofDigitChars 10 (padLeft '0' width (toString number)).toList 0 = number := by
  rw [toList_padLeft, ofDigitChars_replicate, toList_toString, Nat.ofDigitChars_ten_toDigits]

theorem blank_notMem_padLeft (width number : Nat) :
    ' ' ∉ (padLeft '0' width (toString number)).toList := by
  rw [toList_padLeft, toList_toString]
  intro member
  rcases List.mem_append.1 member with fill | digit
  · exact absurd (List.eq_of_mem_replicate fill) (by decide)
  · exact blank_notMem_toDigits number digit

end Offsets

section Names

theorem mem_all (op : Opcode) : op ∈ Opcode.all := by
  cases op with
  | binary op => cases op <;> decide
  | unary op => cases op <;> decide
  | _ => decide

theorem nodup_names : (Opcode.all.map fun op => (padRight 14 op.name).toList).Nodup := by
  decide +kernel

theorem length_names : ∀ op ∈ Opcode.all, (padRight 14 op.name).toList.length = 14 := by
  decide +kernel

/-- A name that is filled up with blanks tells its opcode. -/
theorem name_inj {first second : Opcode}
    (same : (padRight 14 first.name).toList = (padRight 14 second.name).toList) :
    first = second :=
  List.inj_on_of_nodup_map nodup_names (mem_all first) (mem_all second) same

end Names

section Operands

variable {first second : Instruction}

theorem eq_call_of_opcode (call : first.opcode = .call) :
    ∃ slot count used, first = .call slot count used := by
  cases first with
  | call slot count used => exact ⟨slot, count, used, rfl⟩
  | _ => cases call

theorem operandText_of_ne_call (noCall : first.opcode ≠ .call) :
    first.operandText =
      if first.opcode.operandSize = 2 then toString first.word else "" := by
  cases first with
  | call slot count used => exact absurd rfl noCall
  | _ => rfl

theorem fields_of_ne_call (noCall : first.opcode ≠ .call) :
    first.fields = ⟨first.opcode, first.word, 0, 0, false⟩ := by
  cases first with
  | call slot count used => exact absurd rfl noCall
  | _ => rfl

theorem toList_operandText_call (slot : UInt16) (count : UInt8) (used : Bool) :
    (Instruction.call slot count used).operandText.toList =
      Nat.toDigits 10 slot.toNat ++ ' ' :: (Nat.toDigits 10 count.toNat ++
        ' ' :: (if used then "true" else "false").toList) := by
  simp [Instruction.operandText]

/-- The words of instructions with the same opcode can be told from their text. -/
theorem word_eq_of_operandText (noCall : first.opcode ≠ .call)
    (opcode : first.opcode = second.opcode)
    (same : first.operandText.toList = second.operandText.toList) : first.word = second.word := by
  have otherNoCall : second.opcode ≠ .call := opcode ▸ noCall
  rw [operandText_of_ne_call noCall, operandText_of_ne_call otherNoCall, opcode] at same
  by_cases two : second.opcode.operandSize = 2
  · rw [if_pos two, if_pos two, toList_toString, toList_toString] at same
    exact toDigits_inj same
  · have firstZero := (fits_fields first).wordless
    have secondZero := (fits_fields second).wordless
    rw [fields_of_ne_call noCall] at firstZero
    rw [fields_of_ne_call otherNoCall] at secondZero
    exact (firstZero (opcode ▸ two)).trans (secondZero two).symm

/-- The operands of instructions with the same opcode can be told from their text. -/
theorem operandText_inj (opcode : first.opcode = second.opcode)
    (same : first.operandText.toList = second.operandText.toList) : first = second := by
  by_cases call : first.opcode = .call
  · rcases eq_call_of_opcode call with ⟨slot, count, used, rfl⟩
    rcases eq_call_of_opcode (opcode.symm.trans call) with ⟨otherSlot, otherCount, otherUsed, rfl⟩
    rw [toList_operandText_call, toList_operandText_call] at same
    rcases append_blank_inj (blank_notMem_toDigits _) (blank_notMem_toDigits _) same with
      ⟨slots, rest⟩
    rcases append_blank_inj (blank_notMem_toDigits _) (blank_notMem_toDigits _) rest with
      ⟨counts, flags⟩
    have flag : used = otherUsed := by
      cases used <;> cases otherUsed <;> simp_all
    rw [UInt16.toNat_inj.1 (toDigits_inj slots), UInt8.toNat_inj.1 (toDigits_inj counts), flag]
  · have words := word_eq_of_operandText call opcode same
    rw [← instruction_fields first, ← instruction_fields second, fields_of_ne_call call,
      fields_of_ne_call (opcode ▸ call), opcode, words]

end Operands

/-- A line of a listing tells the offset and the instruction that it shows. -/
theorem instructionLine_inj {offset place : Nat} {instruction other : Instruction}
    (same : instructionLine offset instruction = instructionLine place other) :
    offset = place ∧ instruction = other := by
  have blank : " ".toList = [' '] := rfl
  have chars := congrArg String.toList same
  simp only [instructionLine, String.toList_append, List.append_assoc, blank,
    List.singleton_append] at chars
  rcases append_blank_inj (blank_notMem_padLeft 4 offset) (blank_notMem_padLeft 4 place) chars
    with ⟨offsets, rest⟩
  have lengths := (length_names _ (mem_all instruction.opcode)).trans
    (length_names _ (mem_all other.opcode)).symm
  rcases List.append_inj rest lengths with ⟨names, operands⟩
  have texts := List.append_cancel_right (List.cons.inj operands).2
  have values := congrArg (Nat.ofDigitChars 10 · 0) offsets
  simp only [ofDigitChars_padLeft] at values
  exact ⟨values, operandText_inj (name_inj names) texts⟩

section Listings

variable {unit : Unit}

/-- The line of the function that begins at an offset. -/
def Unit.label (unit : Unit) (offset : Nat) : String :=
  match unit.functions.reverse.find? (·.entry == (offset : Int)) with
  | some ref => ref.name ++ ":\n"
  | none => ""

/-- The text that shows some instructions with the functions and storages of a unit. -/
def Unit.textOf (unit : Unit) (listing : List (Nat × Instruction)) : String :=
  String.join (listing.map fun (offset, instruction) =>
    unit.label offset ++ instructionLine offset instruction) ++
    String.join (unit.storages.toList.map Storage.listing)

theorem listing_eq_map (unit : Unit) :
    unit.listing = (decodeAll unit.opcodes).map unit.textOf := by
  unfold Unit.listing
  cases decodeAll unit.opcodes <;> rfl

theorem listing_eq_ok_iff {text : String} : unit.listing = .ok text ↔
    ∃ listing, Reads unit.opcodes 0 listing ∧ unit.textOf listing = text := by
  rw [listing_eq_map]
  cases read : decodeAll unit.opcodes with
  | error problem =>
      simp only [Except.map, reduceCtorEq, false_iff, not_exists, not_and]
      intro listing reads
      rw [decodeAll_eq_ok_iff.2 reads] at read
      cases read
  | ok listing =>
      simp only [Except.map, Except.ok.injEq]
      constructor
      · exact fun same => ⟨listing, decodeAll_eq_ok_iff.1 read, same⟩
      · rintro ⟨other, reads, rfl⟩
        rw [decodeAll_eq_ok_iff.2 reads] at read
        rw [Except.ok.inj read]

theorem listing_eq_error_iff {error : DecodeError} : unit.listing = .error error ↔
    ∃ offset, Reaches unit.opcodes 0 offset ∧ Refuses unit.opcodes offset error := by
  rw [← decodeAll_eq_error_iff, listing_eq_map]
  cases decodeAll unit.opcodes <;> simp [Except.map]

end Listings

end Lehce.Code
