import Lehce.Machine.Operators
import Lehce.Machine.State

/-!
# One step of the machine

A step reads the instruction at the instruction pointer, moves the pointer behind
it and executes it. It may end with a fault. After a fault that is not fatal the
machine is ready to go on: an instruction that owes a value has pushed the empty
one. An operation or a native function may crash, and so does a call that the
machine has no memory for, in code that no program compiles to, or one of a
native function on a machine without any.
-/

namespace Lehce.Machine

open Code (Instruction Opcode)

/-- What one step comes to. -/
inductive Step where
  | done (m : Machine)
  | fault (m : Machine) (fault : Fault)
  | unreadable (m : Machine) (fault : Fault)
  | crash (m : Machine) (crash : Crash)

/-- Goes on only when the frame has `n` operands. -/
def withOperands (m : Machine) (n : Nat) (next : Machine → Step) : Step :=
  match m.need n with
  | some fault => .fault m fault
  | none => next m

/-- Pushes a result, or the empty value when there is a fault instead. -/
def pushResult (m : Machine) : Except Fault Value → Step
  | .ok value => .done (m.push value)
  | .error fault => .fault (m.push .empty) fault

/-- Changes the heap. -/
def changeHeap (m : Machine) (change : Heap → Heap) : Machine :=
  { m with host := { m.host with heap := change m.host.heap } }

/-- Adds a list or a dictionary to the heap and pushes it. -/
def pushNew (allocate : Heap → Value × Heap) : Machine → Machine
  | ⟨ip, operands, frame, callers, callDepth, ⟨heap, input, output⟩⟩ =>
    let (value, heap) := allocate heap
    (Machine.mk ip operands frame callers callDepth ⟨heap, input, output⟩).push value

/-- The fault of an instruction that cannot be executed. -/
def badInstruction (name : String) (at_ : Nat) : Fault :=
  .runtime .invalidJumpTarget ("bad instruction " ++ name ++ " at " ++ toString at_)

/-- The fault of a slot outside the memory. -/
def badSlot (slot at_ : Nat) : Fault :=
  .runtime .invalidSlot ("slot " ++ toString slot ++ " at " ++ toString at_)

/-- The fault of a jump behind the end of the code. -/
def badJump (target at_ : Nat) : Fault :=
  .runtime .invalidJumpTarget ("jump to " ++ toString target ++ " at " ++ toString at_)

/-- Ends a call with a fault: its arguments are dropped, and a used result is empty. -/
def failCall (m : Machine) (count : Nat) (used : Bool) (fault : Fault) : Step :=
  let m := m.drop count
  .fault (if used then m.push .empty else m) fault

/-- Calls a native function. Without a registry nothing says that there is none. -/
def callNative (registry : Option Registry) (m : Machine) (name : String) (count : Nat)
    (used : Bool) : Step :=
  match registry with
  | none => .crash (m.drop count) .missing
  | some natives =>
    match natives.find? name with
    | none =>
      failCall m count used
        (.runtime .notCallable ("native function " ++ name ++ " not registered"))
    | some native =>
      let args := (m.top count).toList
      let host := m.host
      let m : Machine := { m.drop count with host := {} }
      let result := native.call args host
      let m : Machine := { m with host := result.host }
      let m := if used then m.push result.value.orEmpty else m
      match result.failure with
      | none => .done m
      | some (.fault fault) => .fault m fault
      | some (.other message) => .fault m (.runtime .typeMismatch (name ++ ": " ++ message))
      | some (.crash crash) => .crash m crash

/-- Calls a function of the unit. -/
def callFunction (unit : Code.Unit) (m : Machine) (ref : FunctionRef) (count : Nat)
    (used : Bool) : Step :=
  if ref.arity ≠ count then
    failCall m count used (.runtime .argumentCountMismatch
      (ref.name ++ " takes " ++ toString ref.arity ++ " arguments, got " ++ toString count))
  else
    match if 0 < ref.storage then unit.storages[ref.storage.toNat]? else none with
    | none =>
      .fault m (.runtime .invalidSlot
        ("storage " ++ toString ref.storage ++ " of " ++ ref.name))
    | some storage =>
      if ref.entry < 0 ∨ (unit.opcodes.size : Int) ≤ ref.entry then
        .fault m (.runtime .invalidJumpTarget
          ("entry " ++ toString ref.entry ++ " of " ++ ref.name))
      else if m.callDepth ≤ m.frameCount then
        .fault m (.runtime .stackOverflow
          ("call depth " ++ toString m.callDepth ++ " exceeded in " ++ ref.name))
      else if storage.size < storage.constants.size + count then
        .crash m (.noRoom (storage.constants.size + count) storage.size)
      else
        let fresh := freshMemory storage
        let args := m.top count
        let first := storage.constants.size
        let memory := fresh.extract 0 first ++ args ++ fresh.extract (first + count) fresh.size
        let caller := m.frame
        let m := m.drop count
        .done { m with
          ip := ref.entry.toNat
          frame := { memory, returnTo := m.ip, base := m.operands.height, used }
          callers := m.callers.push caller }

/-- Calls what a slot holds. -/
def call (unit : Code.Unit) (registry : Option Registry) (m : Machine) (slot count : Nat)
    (used : Bool) : Step :=
  match m.frame.memory[slot]? with
  | none => .fault m (.runtime .invalidSlot ("slot " ++ toString slot))
  | some callee =>
    withOperands m count fun m =>
      match callee with
      | .function ref =>
        if ref.native then callNative registry m ref.name count used
        else callFunction unit m ref count used
      | other =>
        failCall m count used (.runtime .notCallable (other.kind.name ++ " is not a function"))

/-- Goes back to the caller of the current frame, which gets the result if it is used. -/
def leave (m : Machine) (caller : Frame) (result : Value) : Machine :=
  let callee := m.frame
  let m : Machine := { m with
    ip := callee.returnTo.toNat
    operands := m.operands.truncate callee.base
    frame := caller
    callers := m.callers.pop }
  if callee.used then m.push result else m

/-- Returns from a call; at the top level that ends the run. -/
def return_ (unit : Code.Unit) (m : Machine) : Step :=
  withOperands m 1 fun m =>
    match m.callers.back? with
    | none => .done { m with ip := unit.opcodes.size }
    | some caller => .done (leave m caller (m.peek 0))

/-- The entries that keys and values in turn make; a key that is no text makes none. -/
def pairEntries : List Value → List (String × Value)
  | .text key :: value :: rest => (key, value) :: pairEntries rest
  | _ :: _ :: rest => pairEntries rest
  | _ => []

/-- The fault of the last key that is no text, among keys and values in turn. -/
def lastKeyFault : List Value → Option Fault → Option Fault
  | .text _ :: _ :: rest, fault => lastKeyFault rest fault
  | key :: _ :: rest, _ => lastKeyFault rest (some (keyFault key))
  | _, fault => fault

/-- Makes a dictionary of the topmost operands. -/
def makeDict (m : Machine) (pairs : Nat) : Step :=
  withOperands m (2 * pairs) fun m =>
    let operands := (m.top (2 * pairs)).toList
    let dict := Dict.ofList (pairEntries operands)
    let m := pushNew (·.newDict dict) (m.drop (2 * pairs))
    match lastKeyFault operands none with
    | none => .done m
    | some fault => .fault m fault

/-- Makes a list of the topmost operands. -/
def makeList (m : Machine) (count : Nat) : Step :=
  withOperands m count fun m =>
    let items := m.top count
    .done (pushNew (·.newList items) (m.drop count))

/-- Executes an instruction that stands at an offset and has been passed. -/
def execute (unit : Code.Unit) (registry : Option Registry) (m : Machine) (at_ : Nat) :
    Instruction → Step
  | .load slot =>
    match m.frame.memory[slot.toNat]? with
    | none => .fault m (badSlot slot.toNat at_)
    | some value => .done (m.push value)
  | .store slot =>
    if m.frame.memory.size ≤ slot.toNat then .fault m (badSlot slot.toNat at_)
    else withOperands m 1 fun m =>
      let value := m.peek 0
      let m := m.drop 1
      .done { m with frame :=
        { m.frame with memory := m.frame.memory.setIfInBounds slot.toNat value } }
  | .fastStore slot =>
    if m.frame.memory.size ≤ slot.toNat then .fault m (badSlot slot.toNat at_)
    else withOperands m 1 fun m =>
      let value := m.peek 0
      .done { m with frame :=
        { m.frame with memory := m.frame.memory.setIfInBounds slot.toNat value } }
  | .jump target =>
    if unit.opcodes.size < target.toNat then .fault m (badJump target.toNat at_)
    else .done { m with ip := target.toNat }
  | .compare target =>
    if unit.opcodes.size < target.toNat then .fault m (badJump target.toNat at_)
    else withOperands m 1 fun m =>
      let holds := m.host.heap.truthy (m.peek 0)
      let m := m.drop 1
      .done (if holds then m else { m with ip := target.toNat })
  | .call slot count used => call unit registry m slot.toNat count.toNat used
  | .return_ => return_ unit m
  | .initList count => makeList m count.toNat
  | .initDict count => makeDict m count.toNat
  | .binary op =>
    withOperands m 2 fun m =>
      let right := m.peek 0
      let left := m.peek 1
      let m := m.drop 2
      match applyBinary op m.host.heap left right with
      | .value value => .done (m.push value)
      | .items items => .done (pushNew (·.newList items) m)
      | .fault fault => .fault (m.push .empty) fault
      | .crash crash => .crash m crash
  | .unary op =>
    withOperands m 1 fun m =>
      let operand := m.peek 0
      let m := m.drop 1
      pushResult m (applyUnary op m.host.heap operand)
  | .dup => withOperands m 1 fun m => .done (m.push (m.peek 0))
  | .dup2 =>
    withOperands m 2 fun m =>
      let lower := m.peek 1
      let upper := m.peek 0
      .done ((m.push lower).push upper)
  | .pop => withOperands m 1 fun m => .done (m.drop 1)
  | .getItem =>
    withOperands m 2 fun m =>
      let index := m.peek 0
      let container := m.peek 1
      let m := m.drop 2
      pushResult m (getItem m.host.heap container index)
  | .setItem =>
    withOperands m 3 fun m =>
      let value := m.peek 0
      let index := m.peek 1
      let container := m.peek 2
      let m := m.drop 3
      match setItem m.host.heap container index value with
      | .ok change => .done (changeHeap m change)
      | .error fault => .fault m fault

/-- The word at an offset of some code. -/
def wordAt (code : Array UInt8) (offset : Nat) : UInt16 :=
  Code.wordOfBytes (code[offset]?.getD 0) (code[offset + 1]?.getD 0)

/-- The instruction of an opcode at an offset; only a call has operands behind its word. -/
def fetch (code : Array UInt8) (at_ : Nat) (word : UInt16) : Opcode → Instruction
  | .call => .call word (code[at_ + 3]?.getD 0) (code[at_ + 4]?.getD 0 != 0)
  | op => op.instruction word 0 0

/--
One step at an offset inside the code. Byte zero and operands that the code cuts off are
refused at once; a byte that is no opcode is passed before it is found to be none.
-/
def step (unit : Code.Unit) (registry : Option Registry) (m : Machine) : Step :=
  let code := unit.opcodes
  let at_ := m.ip
  if inside : at_ < code.size then
    let byte := code[at_]
    let size := Opcode.operandSizeOfByte byte
    let bad := badInstruction (Opcode.nameOfByte byte) at_
    if byte = 0 ∨ code.size < at_ + 1 + size then .unreadable m bad
    else
      let m := { m with ip := at_ + 1 + size }
      let word := if 2 ≤ size then wordAt code (at_ + 1) else 0
      match Opcode.ofByte? byte with
      | some op => execute unit registry m at_ (fetch code at_ word op)
      | none => .fault m bad
  else .done m

end Lehce.Machine
