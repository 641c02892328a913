import Lehce.Number.Integral
import Lehce.Value.Datum

/-!
# Inspected data

A program's values as an inspector sees them. An inspector has integers beside
floating-point numbers, no atoms, and functions that only tell their own text.
-/

namespace Lehce

/-- A value as an inspector sees it. -/
inductive Inspected where
  | nothing
  | bool (value : Bool)
  | integer (value : Int)
  | floating (value : Float)
  | text (content : String)
  | list (items : List Inspected)
  | dict (entries : List (String × Inspected))
  | function (name : String) (result : String)
  deriving Inhabited

namespace Inspected

/-- The greatest magnitude of a number that is inspected as an integer. -/
def integerBound : Nat := Nat.pow 2 53

/-- A number: an integer when it is whole and every integer up to it is a number. -/
def ofNumber (x : Float) : Inspected :=
  match Number.integer? x with
  | some n => if n.natAbs ≤ integerBound then integer n else floating x
  | none => floating x

mutual

/-- A datum as an inspector sees it. -/
def ofDatum : Datum → Inspected
  | .absent | .empty => nothing
  | .number value => ofNumber value
  | .bool value => bool value
  | .text content => text content
  | .atom name => text (":" ++ name)
  | .list items => list (ofItems items)
  | .dict entries => dict (ofEntries entries)
  | .function ref => function ref.name (Datum.display (.function ref))

/-- Some data one after the other. -/
def ofItems : List Datum → List Inspected
  | [] => []
  | item :: rest => ofDatum item :: ofItems rest

/-- The entries of a dictionary. -/
def ofEntries : List (String × Datum) → List (String × Inspected)
  | [] => []
  | (key, value) :: rest => (key, ofDatum value) :: ofEntries rest

end

end Inspected

end Lehce
