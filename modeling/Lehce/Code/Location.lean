import Lehce.Code.Instruction

/-!
# Jump locations

A location is a place in the code that jumps refer to before it is known. Every
operand that refers to a location is recorded as one of its uses; when the
location is set, all its uses are patched, and a later use is written at once.
Operands are words, so a target is kept modulo 65536.

An operation that would write outside the code stops there, and says so.
-/

namespace Lehce.Code

/-- A location: its target once it is set, and the offsets of the operands that refer to it. -/
structure Location where
  target : Int := 0
  resolved : Bool := false
  uses : Array Int := #[]
  deriving Repr, DecidableEq, Inhabited

/-- Code together with the locations that its jumps refer to. -/
structure Draft where
  code : Array UInt8 := #[]
  locations : Array Location := #[]
  deriving Repr, DecidableEq, Inhabited

/-- What an operation left behind, and whether it stayed inside the code and the locations. -/
structure Edited where
  draft : Draft
  inside : Bool
  deriving Repr, DecidableEq

/-- Writes a word at an offset, when both of its bytes lie inside the code. -/
def putWord? (code : Array UInt8) (offset value : Int) : Option (Array UInt8) :=
  if 0 ≤ offset ∧ offset + 2 ≤ code.size then
    let place := offset.toNat
    let word := (value % 65536).toNat
    some ((code.setIfInBounds place (word % 256).toUInt8).setIfInBounds (place + 1)
      (word / 256).toUInt8)
  else none

namespace Draft

/-- Adds a location and returns its number. -/
def addLocation (draft : Draft) : Nat × Draft :=
  (draft.locations.size, { draft with locations := draft.locations.push {} })

/-- The location with a number. -/
def location? (draft : Draft) (number : Int) : Option Location :=
  if number < 0 then none else draft.locations[number.toNat]?

/-- Replaces the location with a number. -/
def putLocation (draft : Draft) (number : Int) (location : Location) : Draft :=
  { draft with locations := draft.locations.setIfInBounds number.toNat location }

/-- Writes a target at one offset. -/
def write (draft : Draft) (offset target : Int) : Edited :=
  match putWord? draft.code offset target with
  | some code => ⟨{ draft with code }, true⟩
  | none => ⟨draft, false⟩

/-- Writes a target at all of some offsets, up to the first that lies outside. -/
def writeAll (target : Int) : List Int → Draft → Edited
  | [], draft => ⟨draft, true⟩
  | offset :: rest, draft =>
    match draft.write offset target with
    | ⟨draft, true⟩ => writeAll target rest draft
    | ⟨draft, false⟩ => ⟨draft, false⟩

/-- Records that the operand at an offset refers to a location, and writes it if it is known. -/
def use (draft : Draft) (number offset : Int) : Edited :=
  match draft.location? number with
  | none => ⟨draft, false⟩
  | some location =>
    let recorded := draft.putLocation number { location with uses := location.uses.push offset }
    if location.resolved then recorded.write offset location.target else ⟨recorded, true⟩

/-- Sets a location and patches all its uses. -/
def set (draft : Draft) (number target : Int) : Edited :=
  match draft.location? number with
  | none => ⟨draft, false⟩
  | some location =>
    (draft.putLocation number { location with target, resolved := true }).writeAll target
      location.uses.toList

/-- Sets all of some locations, up to the first that fails. -/
def setAll (target : Int) : List Int → Draft → Edited
  | [], draft => ⟨draft, true⟩
  | number :: rest, draft =>
    match draft.set number target with
    | ⟨draft, true⟩ => setAll target rest draft
    | ⟨draft, false⟩ => ⟨draft, false⟩

/-- The numbers of the locations that have uses but no target. -/
def unresolved (draft : Draft) : List Nat :=
  (List.range draft.locations.size).filter fun i =>
    match draft.locations[i]? with
    | some location => !location.resolved && !location.uses.isEmpty
    | none => false

end Draft

/-- Why a group of locations cannot be cleared. -/
inductive ClearProblem where
  | unknown
  | unresolved (number : Int)
  deriving Repr, DecidableEq

/-- The text of a refused clearing, where it has one. -/
def ClearProblem.message : ClearProblem → Option String
  | unknown => none
  | unresolved number => some ("location " ++ toString number ++ " cleared while unresolved")

/-- Under checking, a group may be cleared only when all its locations are set. -/
def checkCleared (checking : Bool) (draft : Draft) : List Int → Option ClearProblem
  | [] => none
  | number :: rest =>
    if checking then
      match draft.location? number with
      | none => some .unknown
      | some location =>
        if location.resolved then checkCleared checking draft rest else some (.unresolved number)
    else none

end Lehce.Code
