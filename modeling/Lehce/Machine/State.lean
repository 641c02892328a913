import Lehce.Code.Unit
import Lehce.Machine.Stack
import Lehce.Natives.Registry

/-!
# The state of the machine

A machine runs the code of a unit. It has a stack of operands and one frame for each
call in progress, the frame of the top level being the outermost. A frame has a
memory of its own, and operands below its base belong to its callers, of which the
innermost comes last.
-/

namespace Lehce

open Code (Unit)

/-- A call in progress. -/
structure Frame where
  memory : Array Value
  returnTo : Int := -1
  base : Nat := 0
  used : Bool := false
  deriving Inhabited

/-- The bounds of a run. -/
structure Limits where
  callDepth : Nat := 1024
  stackSize : Nat := 256
  deriving Repr, DecidableEq

/-- The limits given by numbers of which those that are not positive mean the default. -/
def Limits.ofInts (callDepth stackSize : Int) : Limits where
  callDepth := if 0 < callDepth then callDepth.toNat else 1024
  stackSize := if 0 < stackSize then stackSize.toNat else 256

/-- A running machine. -/
structure Machine where
  ip : Nat := 0
  operands : Stack
  frame : Frame
  callers : Array Frame := #[]
  callDepth : Nat
  host : Host
  deriving Inhabited

namespace Machine

/-- The memory of a storage with fresh variables. -/
def freshMemory (storage : Code.Storage) : Array Value :=
  storage.initialMemory.map fun datum => (Value.ofScalar datum).orEmpty

/-- A machine at the start of a unit, whose top level has the given memory. -/
def start (limits : Limits) (memory : Array Value) (host : Host) : Machine where
  operands := .ofSize limits.stackSize
  frame := { memory := memory.map Value.orEmpty }
  callDepth := limits.callDepth
  host := host

/-- How many calls are in progress, the top level included. -/
def frameCount (m : Machine) : Nat := m.callers.size + 1

/-- The frame of the top level. -/
def outermost (m : Machine) : Frame := m.callers[0]?.getD m.frame

/-- The operands, the topmost one last. -/
def stack (m : Machine) : Array Value := m.operands.live

/-- How many operands there is room for. -/
def capacity (m : Machine) : Nat := m.operands.cells.size

/-- Pushes an operand. -/
def push (m : Machine) (value : Value) : Machine := { m with operands := m.operands.push value }

/-- The operand `n` places below the topmost one. -/
def peek (m : Machine) (n : Nat) : Value := m.operands.peek n

/-- Drops the `n` topmost operands. -/
def drop (m : Machine) (n : Nat) : Machine := { m with operands := m.operands.drop n }

/-- The `n` topmost operands, the topmost one last. -/
def top (m : Machine) (n : Nat) : Array Value := m.operands.top n

/-- The fault of a frame that has fewer than `n` operands of its own. -/
def need (m : Machine) (n : Nat) : Option Fault :=
  if m.operands.height < m.frame.base + n then
    some (.runtime .stackUnderflow
      ("need " ++ toString n ++ " values at offset " ++ toString m.ip))
  else none

end Machine

end Lehce
