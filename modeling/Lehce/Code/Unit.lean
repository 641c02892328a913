import Lehce.Code.Location
import Lehce.Value.Datum

/-!
# Units

A unit is a compiled program: its code, one storage for the top level and one for
each function, and its functions. A storage lists constants and variables; memory
for a run of it starts as the constants followed by an empty value for each
variable.
-/

namespace Lehce.Code

/-- The memory layout of the top level, which has number zero, or of a function. -/
structure Storage where
  index : Int
  name : String
  arity : Int
  constants : Array Datum
  locals : Array String
  deriving Inhabited

namespace Storage

/-- How many slots a memory of this layout has. -/
def size (storage : Storage) : Nat := storage.constants.size + storage.locals.size

/-- A fresh memory. -/
def initialMemory (storage : Storage) : Array Datum :=
  storage.constants ++ Array.replicate storage.locals.size .empty

/-- The variables with their slots; a repeated name counts where it stands last. -/
def slots (storage : Storage) : List (String × Nat) :=
  let numbered := storage.locals.toList.zipIdx.reverse
  numbered.foldl (fun slots (name, place) =>
    if slots.any (·.1 == name) then slots else (name, storage.constants.size + place) :: slots) []

/-- The slot of a variable. -/
def slot? (storage : Storage) (name : String) : Option Nat :=
  (storage.locals.toList.reverse.idxOf? name).map fun place =>
    storage.size - 1 - place

end Storage

/-- A compiled program. -/
structure Unit where
  opcodes : Array UInt8 := #[]
  storages : Array Storage := #[]
  functions : List FunctionRef := []
  locations : Array Location := #[]
  deriving Inhabited

end Lehce.Code
