import Lehce.Value.Datum
import Lehce.Value.Dict

/-!
# Values and the heap

A running program shares its lists and dictionaries: a value names one by its
place in the heap, and two values with the same place see each other's changes.
All other values stand for themselves.

A value is written out, and compared with another, by following its places. A program
can put a list or dictionary into itself, and then there may be no end to this. Who follows
more places than the heap has, or more pairs of places than it has pairs, meets one of them
again and would go on for ever: then there is no answer.
-/

namespace Lehce

/-- A value of a running program. -/
inductive Value where
  | absent
  | empty
  | number (value : Float)
  | bool (value : Bool)
  | text (content : String)
  | atom (name : String)
  | list (place : Nat)
  | dict (place : Nat)
  | function (ref : FunctionRef)
  deriving Inhabited

/-- What stands at a place of the heap. -/
inductive Cell where
  | list (items : Array Value)
  | dict (entries : Dict Value)
  deriving Inhabited

/-- The lists and dictionaries of a running program. -/
structure Heap where
  cells : Array Cell := #[]
  deriving Inhabited

/-- What a procedure answers that may call itself so many times in a row, if that is enough. -/
def unroll {α β : Type} (step : (α → Option β) → α → Option β) : Nat → α → Option β
  | 0 => fun _ => none
  | depth + 1 => step (unroll step depth)

namespace Value

/-- The kind of a value. -/
def kind : Value → ValueKind
  | absent | empty => .empty
  | number _ => .number
  | bool _ => .bool
  | text _ => .text
  | atom _ => .atom
  | list _ => .list
  | dict _ => .dict
  | function _ => .function

/-- The value itself, or the empty one in place of none. -/
def orEmpty : Value → Value
  | absent => empty
  | value => value

/-- The value of a datum that needs no heap; lists and dictionaries have none. -/
def ofScalar : Datum → Value
  | .absent => absent
  | .empty => empty
  | .number value => number value
  | .bool value => bool value
  | .text content => text content
  | .atom name => atom name
  | .function ref => function ref
  | .list _ | .dict _ => empty

end Value

namespace Heap

/-- Adds a cell and returns its place. -/
def allocate (heap : Heap) (cell : Cell) : Nat × Heap :=
  (heap.cells.size, ⟨heap.cells.push cell⟩)

/-- Adds a list. -/
def newList (heap : Heap) (items : Array Value) : Value × Heap :=
  let (place, heap) := heap.allocate (.list items)
  (.list place, heap)

/-- Adds a dictionary. -/
def newDict (heap : Heap) (entries : Dict Value) : Value × Heap :=
  let (place, heap) := heap.allocate (.dict entries)
  (.dict place, heap)

/-- The items of the list at a place. -/
def items (heap : Heap) (place : Nat) : Array Value :=
  match heap.cells[place]? with
  | some (.list items) => items
  | _ => #[]

/-- The dictionary at a place. -/
def entries (heap : Heap) (place : Nat) : Dict Value :=
  match heap.cells[place]? with
  | some (.dict entries) => entries
  | _ => {}

/-- Puts a cell at a place. -/
def replace (heap : Heap) (place : Nat) (cell : Cell) : Heap :=
  ⟨heap.cells.setIfInBounds place cell⟩

/-- Changes the items of the list at a place. -/
def modifyItems (heap : Heap) (place : Nat) (f : Array Value → Array Value) : Heap :=
  ⟨heap.cells.modify place fun cell =>
    match cell with
    | .list items => .list (f items)
    | other => other⟩

/-- Changes the dictionary at a place. -/
def modifyEntries (heap : Heap) (place : Nat) (f : Dict Value → Dict Value) : Heap :=
  ⟨heap.cells.modify place fun cell =>
    match cell with
    | .dict entries => .dict (f entries)
    | other => other⟩

/-- Writes a value out, given how what it holds is written out. -/
def datumStep (heap : Heap) (inner : Value → Option Datum) : Value → Option Datum
  | .absent => some .absent
  | .empty => some .empty
  | .number value => some (.number value)
  | .bool value => some (.bool value)
  | .text content => some (.text content)
  | .atom name => some (.atom name)
  | .function ref => some (.function ref)
  | .list place => ((heap.items place).toList.mapM inner).map .list
  | .dict place =>
    ((heap.entries place).entries.mapM fun entry =>
      (inner entry.2).map fun datum => (entry.1, datum)).map .dict

/-- Writes a value out in full; nothing when there is no end to it. -/
def datum (heap : Heap) (value : Value) : Option Datum :=
  unroll heap.datumStep (heap.cells.size + 1) value

/-- The text of a value. -/
def display (heap : Heap) (value : Value) : Option String := (heap.datum value).map Datum.display

/--
Compares two values, given how what they hold is compared. The first items that differ
decide, whatever comes behind them.
-/
def equalStep (heap : Heap) (inner : Value × Value → Option Bool) : Value × Value → Option Bool
  | (.absent, .absent) | (.absent, .empty) | (.empty, .absent) | (.empty, .empty) => some true
  | (.number x, .number y) => some (x == y)
  | (.bool x, .bool y) => some (x == y)
  | (.text x, .text y) => some (x == y)
  | (.atom x, .atom y) => some (atomId x == atomId y)
  | (.function x, .function y) =>
    some (x.name == y.name && x.native == y.native && x.entry == y.entry)
  | (.list x, .list y) =>
    let xs := (heap.items x).toList
    let ys := (heap.items y).toList
    if x = y then some true
    else if xs.length = ys.length then (xs.zip ys).allM inner
    else some false
  | (.dict x, .dict y) =>
    let xs := heap.entries x
    let ys := heap.entries y
    if x = y then some true
    else if xs.size = ys.size then
      xs.entries.allM fun entry =>
        match ys.get? entry.1 with
        | some other => inner (entry.2, other)
        | none => some false
    else some false
  | _ => some false

/--
Whether two values are equal: scalars by their content, functions by name and code,
lists item by item and dictionaries key by key. A list or dictionary equals itself
whatever it holds. There is no answer when there is no end to comparing them.
-/
def equal (heap : Heap) (a b : Value) : Option Bool :=
  unroll heap.equalStep (heap.cells.size * heap.cells.size + 1) (a, b)

/-- Whether a value counts as true. -/
def truthy (heap : Heap) : Value → Bool
  | .absent | .empty => false
  | .bool value => value
  | .number value => value != 0
  | .text content => content != ""
  | .list place => (heap.items place).size != 0
  | .dict place => (heap.entries place).size != 0
  | .atom _ | .function _ => true

mutual

/-- Puts a datum on the heap, with a place of its own for every list and dictionary in it. -/
def store (heap : Heap) : Datum → Value × Heap
  | .list items =>
    let (values, heap) := storeItems heap #[] items
    heap.newList values
  | .dict entries =>
    let (dict, heap) := storeEntries heap {} entries
    heap.newDict dict
  | datum => (Value.ofScalar datum, heap)

/-- Puts data on the heap one after the other. -/
def storeItems (heap : Heap) (values : Array Value) : List Datum → Array Value × Heap
  | [] => (values, heap)
  | item :: rest =>
    let (value, heap) := store heap item
    storeItems heap (values.push value) rest

/-- Puts the values of a dictionary on the heap one after the other. -/
def storeEntries (heap : Heap) (dict : Dict Value) : List (String × Datum) → Dict Value × Heap
  | [] => (dict, heap)
  | (key, item) :: rest =>
    let (value, heap) := store heap item
    storeEntries heap (dict.set key value) rest

end

end Heap

/-- Resolves an index that may count from the end, or nothing when it lies outside. -/
def resolveIndex (length : Nat) (index : Int) : Option Nat :=
  let place := if index < 0 then index + length else index
  if place < 0 ∨ (length : Int) ≤ place then none else some place.toNat

end Lehce
