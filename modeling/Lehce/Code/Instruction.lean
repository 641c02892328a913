/-!
# Instructions

The instructions of the stack machine and their bytes. An instruction is an opcode
byte followed by its operands: nothing, one word, or for a call a word and two
bytes. Words are little endian. `decode` reads the instruction at an offset and
fails on a byte that is no opcode and on an instruction that the code cuts off.
-/

namespace Lehce.Code

/-- Operations on the two topmost values. -/
inductive BinaryOp where
  | add
  | subtract
  | multiply
  | divide
  | modulo
  | equal
  | notEqual
  | less
  | lessEqual
  | greater
  | greaterEqual
  deriving Repr, DecidableEq, Inhabited

/-- Operations on the topmost value. -/
inductive UnaryOp where
  | not
  | negate
  | increment
  | decrement
  deriving Repr, DecidableEq, Inhabited

/-- What the first byte of an instruction says. -/
inductive Opcode where
  | load
  | store
  | fastStore
  | jump
  | compare
  | call
  | return_
  | initList
  | initDict
  | binary (op : BinaryOp)
  | unary (op : UnaryOp)
  | dup
  | dup2
  | pop
  | getItem
  | setItem
  deriving Repr, DecidableEq, Inhabited

namespace BinaryOp

/-- The operations in the order of their bytes, the first of which is ten. -/
def all : List BinaryOp := [
  .add, .subtract, .multiply, .divide, .modulo, .equal, .notEqual, .less, .lessEqual, .greater,
  .greaterEqual]

/-- The name of an operation. -/
def name : BinaryOp → String
  | add => "ADD"
  | subtract => "SUB"
  | multiply => "MUL"
  | divide => "DIV"
  | modulo => "MOD"
  | equal => "EQUAL"
  | notEqual => "NOT_EQUAL"
  | less => "LESS"
  | lessEqual => "LESS_EQUAL"
  | greater => "GREATER"
  | greaterEqual => "GREATER_EQUAL"

end BinaryOp

namespace UnaryOp

/-- The name of an operation. -/
def name : UnaryOp → String
  | not => "NOT"
  | negate => "NEGATE"
  | increment => "INCREMENT"
  | decrement => "DECREMENT"

end UnaryOp

namespace Opcode

/-- The opcodes in the order of their bytes, the first of which is one. -/
def all : List Opcode :=
  [load, store, fastStore, jump, compare, call, return_, initList, initDict] ++
    BinaryOp.all.map binary ++
    [unary .not, unary .negate, unary .increment, unary .decrement, dup, dup2, pop, getItem,
      setItem]

/-- The byte of an opcode. -/
def byte : Opcode → UInt8
  | load => 1
  | store => 2
  | fastStore => 3
  | jump => 4
  | compare => 5
  | call => 6
  | return_ => 7
  | initList => 8
  | initDict => 9
  | binary .add => 10
  | binary .subtract => 11
  | binary .multiply => 12
  | binary .divide => 13
  | binary .modulo => 14
  | binary .equal => 15
  | binary .notEqual => 16
  | binary .less => 17
  | binary .lessEqual => 18
  | binary .greater => 19
  | binary .greaterEqual => 20
  | unary .not => 21
  | unary .negate => 22
  | unary .increment => 23
  | unary .decrement => 24
  | dup => 25
  | dup2 => 26
  | pop => 27
  | getItem => 28
  | setItem => 29

/-- The opcode of a byte; zero and everything past the last opcode is none. -/
def ofByte? (b : UInt8) : Option Opcode :=
  if b = 0 then none else all[b.toNat - 1]?

/-- The name of an opcode. -/
def name : Opcode → String
  | load => "LOAD"
  | store => "STORE"
  | fastStore => "FAST_STORE"
  | jump => "JUMP"
  | compare => "COMPARE"
  | call => "CALL"
  | return_ => "RETURN"
  | initList => "INIT_LIST"
  | initDict => "INIT_DICT"
  | binary op => op.name
  | unary op => op.name
  | dup => "DUP"
  | dup2 => "DUP2"
  | pop => "POP"
  | getItem => "GET_ITEM"
  | setItem => "SET_ITEM"

/-- How many bytes of operands follow an opcode. -/
def operandSize : Opcode → Nat
  | load | store | fastStore | jump | compare | initList | initDict => 2
  | call => 4
  | _ => 0

/-- How many bytes an instruction of this opcode takes. -/
def size (op : Opcode) : Nat := 1 + op.operandSize

/-- The name that any byte has in a listing, opcode or not. -/
def nameOfByte (b : UInt8) : String :=
  if b = 0 then "INVALID"
  else match ofByte? b with
    | some op => op.name
    | none => "OP(" ++ toString b.toNat ++ ")"

/-- How many bytes of operands follow any byte; none follow one that is no opcode. -/
def operandSizeOfByte (b : UInt8) : Nat :=
  match ofByte? b with
  | some op => op.operandSize
  | none => 0

end Opcode

/-- An instruction with its operands. -/
inductive Instruction where
  | load (slot : UInt16)
  | store (slot : UInt16)
  | fastStore (slot : UInt16)
  | jump (target : UInt16)
  | compare (target : UInt16)
  | call (slot : UInt16) (count : UInt8) (used : Bool)
  | return_
  | initList (count : UInt16)
  | initDict (count : UInt16)
  | binary (op : BinaryOp)
  | unary (op : UnaryOp)
  | dup
  | dup2
  | pop
  | getItem
  | setItem
  deriving Repr, DecidableEq, Inhabited

/-- The two bytes of a word, the lower one first. -/
def wordBytes (word : UInt16) : List UInt8 :=
  [(word.toNat % 256).toUInt8, (word.toNat / 256).toUInt8]

/-- The word of two bytes, the lower one first. -/
def wordOfBytes (low high : UInt8) : UInt16 := (low.toNat + 256 * high.toNat).toUInt16

namespace Instruction

/-- The opcode of an instruction. -/
def opcode : Instruction → Opcode
  | load _ => .load
  | store _ => .store
  | fastStore _ => .fastStore
  | jump _ => .jump
  | compare _ => .compare
  | call _ _ _ => .call
  | return_ => .return_
  | initList _ => .initList
  | initDict _ => .initDict
  | binary op => .binary op
  | unary op => .unary op
  | dup => .dup
  | dup2 => .dup2
  | pop => .pop
  | getItem => .getItem
  | setItem => .setItem

/-- The bytes of the operands. -/
def operandBytes : Instruction → List UInt8
  | load word | store word | fastStore word | jump word | compare word | initList word
  | initDict word => wordBytes word
  | call slot count used => wordBytes slot ++ [count, if used then 1 else 0]
  | _ => []

/-- The bytes of an instruction. -/
def encode (instruction : Instruction) : List UInt8 :=
  instruction.opcode.byte :: instruction.operandBytes

/-- How many bytes an instruction takes. -/
def size (instruction : Instruction) : Nat := instruction.opcode.size

/-- The word operand of every instruction but a call. -/
def word : Instruction → Nat
  | load word | store word | fastStore word | jump word | compare word | initList word
  | initDict word => word.toNat
  | _ => 0

end Instruction

/-- The instruction of an opcode with a word and the two further bytes of a call. -/
def Opcode.instruction (op : Opcode) (word : UInt16) (count flag : UInt8) : Instruction :=
  match op with
  | .load => .load word
  | .store => .store word
  | .fastStore => .fastStore word
  | .jump => .jump word
  | .compare => .compare word
  | .call => .call word count (flag != 0)
  | .return_ => .return_
  | .initList => .initList word
  | .initDict => .initDict word
  | .binary op => .binary op
  | .unary op => .unary op
  | .dup => .dup
  | .dup2 => .dup2
  | .pop => .pop
  | .getItem => .getItem
  | .setItem => .setItem

/-- Why no instruction can be read at an offset. -/
inductive DecodeError where
  | outOfRange (offset : Int)
  | badOpcode (byte : UInt8) (offset : Nat)
  | truncated (op : Opcode) (offset : Nat)
  deriving Repr, DecidableEq

/-- The text of a decoding error. -/
def DecodeError.message : DecodeError → String
  | outOfRange offset => "offset " ++ toString offset ++ " out of range"
  | badOpcode byte offset => "bad opcode " ++ toString byte.toNat ++ " at " ++ toString offset
  | truncated op offset => "truncated " ++ op.name ++ " at " ++ toString offset

/-- Reads the instruction at an offset. -/
def decode (code : Array UInt8) (offset : Nat) : Except DecodeError Instruction :=
  if h : offset < code.size then
    match Opcode.ofByte? code[offset] with
    | none => .error (.badOpcode code[offset] offset)
    | some op =>
      if code.size < offset + op.size then .error (.truncated op offset)
      else
        let operand (i : Nat) : UInt8 := code[offset + i]?.getD 0
        .ok (op.instruction (wordOfBytes (operand 1) (operand 2)) (operand 3) (operand 4))
  else .error (.outOfRange offset)

/-- Reads the instruction at an offset that may be negative. -/
def decodeAt (code : Array UInt8) (offset : Int) : Except DecodeError Instruction :=
  if offset < 0 then .error (.outOfRange offset) else decode code offset.toNat

/--
Reads all instructions from an offset to the end of the code, each with its offset.
Every instruction has a byte, so as many steps as there are bytes are enough.
-/
def decodeFrom (code : Array UInt8) :
    Nat → Nat → List (Nat × Instruction) → Except DecodeError (List (Nat × Instruction))
  | 0, _, read => .ok read.reverse
  | steps + 1, offset, read =>
    if offset < code.size then
      match decode code offset with
      | .error problem => .error problem
      | .ok instruction =>
        decodeFrom code steps (offset + instruction.size) ((offset, instruction) :: read)
    else .ok read.reverse

/-- All instructions of some code with their offsets. -/
def decodeAll (code : Array UInt8) : Except DecodeError (List (Nat × Instruction)) :=
  decodeFrom code code.size 0 []

end Lehce.Code
