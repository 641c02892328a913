import Lehce.Machine.Step

/-!
# Runs

A run repeats steps until the instruction pointer leaves the code. Each fault is
handed to the consumer of the run. A fatal fault ends the run; after any other the
consumer decides, given all faults so far, whether the run goes on.

Programs need not end, so a run is given a number of steps, and says when these were
not enough.
-/

namespace Lehce

/-- Whether a run goes on, given its faults so far, the last one first. -/
abbrev Policy := List Fault → Bool

/-- The policy that stops at the first fault. -/
def Policy.first : Policy := fun _ => false

/-- The policy that goes on until there are `most` faults. -/
def Policy.upTo (most : Nat) : Policy := fun faults => faults.length < most

/-- A fault as the machine notes it in its log. -/
structure LoggedFault where
  fault : Fault
  offset : Nat
  stopped : Bool
  deriving Repr, DecidableEq

/-- How a run ended. -/
inductive Ending where
  | finished
  | stopped
  | crashed (crash : Crash)
  | outOfSteps
  deriving Repr, DecidableEq, Inhabited

/-- A run so far: its machine and its faults, the last one first. -/
structure Run where
  machine : Machine
  faults : List Fault := []
  log : List LoggedFault := []
  deriving Inhabited

namespace Run

/-- Goes on for at most `steps` steps. -/
def advance (unit : Code.Unit) (registry : Option Registry) (policy : Policy) :
    Nat → Run → Ending × Run
  | 0, run => (if run.machine.ip < unit.opcodes.size then .outOfSteps else .finished, run)
  | steps + 1, ⟨machine, faults, log⟩ =>
    let offset := machine.ip
    if offset < unit.opcodes.size then
      match Machine.step unit registry machine with
      | .done machine => advance unit registry policy steps ⟨machine, faults, log⟩
      | .unreadable machine fault => (.stopped, ⟨machine, fault :: faults, log⟩)
      | .fault machine fault =>
        let stopped := fault.kind.fatal
        let run : Run := ⟨machine, fault :: faults, ⟨fault, offset, stopped⟩ :: log⟩
        if stopped || !policy run.faults then (.stopped, run)
        else advance unit registry policy steps run
      | .crash machine crash => (.crashed crash, ⟨machine, faults, log⟩)
    else (.finished, ⟨machine, faults, log⟩)

end Run

/-- More steps than any run that is waited for takes. -/
def plentyOfSteps : Nat := Nat.pow 2 62

/-- What a run needs besides a unit. -/
structure Setup where
  registry : Option Registry
  limits : Limits := {}
  policy : Policy := .first
  steps : Nat := plentyOfSteps

/-- The memory with which the top level of a fresh unit starts; without a storage there is none. -/
def Code.Unit.freshMemory? (unit : Code.Unit) : Option (Array Value) :=
  unit.storages[0]?.map Machine.freshMemory

/-- Runs a unit from its start with a memory of its top level. -/
def Code.Unit.run (unit : Code.Unit) (setup : Setup) (memory : Array Value) (host : Host) :
    Ending × Run :=
  Run.advance unit setup.registry setup.policy setup.steps
    { machine := Machine.start setup.limits memory host }

/-- The value of a variable of a storage in a memory. -/
def Code.Storage.value? (storage : Code.Storage) (memory : Array Value) (name : String) :
    Option Value :=
  (storage.slot? name).bind fun slot => memory[slot]?

/-- The variables of a storage with their values in a memory. -/
def Code.Storage.values (storage : Code.Storage) (memory : Array Value) : List (String × Value) :=
  storage.slots.filterMap fun (name, slot) => memory[slot]?.map fun value => (name, value)

end Lehce
