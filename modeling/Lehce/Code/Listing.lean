import Lehce.Code.Unit

/-!
# Listings

The readable form of a unit: one line per instruction with its offset, the name of
a function before its first instruction, and then the layout of every storage.
-/

namespace Lehce.Code

/-- A number with at least `width` characters, filled up on the left. -/
def padLeft (fill : Char) (width : Nat) (text : String) : String :=
  String.ofList (List.replicate (width - text.length) fill) ++ text

/-- A text with at least `width` characters, filled up with blanks on the right. -/
def padRight (width : Nat) (text : String) : String :=
  text ++ String.ofList (List.replicate (width - text.length) ' ')

/-- The operands of an instruction. -/
def Instruction.operandText (instruction : Instruction) : String :=
  match instruction with
  | .call slot count used =>
    toString slot.toNat ++ " " ++ toString count.toNat ++ " " ++ (if used then "true" else "false")
  | _ => if instruction.opcode.operandSize = 2 then toString instruction.word else ""

/-- The line of an instruction. -/
def instructionLine (offset : Nat) (instruction : Instruction) : String :=
  padLeft '0' 4 (toString offset) ++ " " ++ padRight 14 instruction.opcode.name ++ " " ++
    instruction.operandText ++ "\n"

/-- The lines of a storage. -/
def Storage.listing (storage : Storage) : String :=
  let title := if storage.name.isEmpty then "<top>" else storage.name
  let constants := storage.constants.toList.zipIdx.map fun (value, place) =>
    "  " ++ padLeft ' ' 3 (toString place) ++ " const " ++ value.quoted ++ "\n"
  let locals := storage.locals.toList.zipIdx.map fun (name, place) =>
    "  " ++ padLeft ' ' 3 (toString (storage.constants.size + place)) ++ " var   " ++
      name ++ "\n"
  "storage " ++ toString storage.index ++ " " ++ title ++ "\n" ++ String.join constants ++
    String.join locals

/-- The listing of a unit, or why its code cannot be read. -/
def Unit.listing (unit : Unit) : Except DecodeError String := do
  let instructions ← decodeAll unit.opcodes
  let lines := instructions.map fun (offset, instruction) =>
    let label := match unit.functions.reverse.find? (·.entry == (offset : Int)) with
      | some ref => ref.name ++ ":\n"
      | none => ""
    label ++ instructionLine offset instruction
  return String.join lines ++ String.join (unit.storages.toList.map Storage.listing)

end Lehce.Code
