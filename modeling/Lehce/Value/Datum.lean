import Lehce.Number.Layout
import Lehce.Text.Quoted

/-!
# Data

A datum is a value of the language written out in full: lists and dictionaries are
trees here, with no sharing. Literals of a program are data, and every value that
leaves a run is shown as one. `absent` is the lack of a value, which counts as the
empty value nearly everywhere.
-/

namespace Lehce

/-- The kinds of values. -/
inductive ValueKind where
  | empty
  | number
  | bool
  | text
  | atom
  | list
  | dict
  | function
  deriving Repr, DecidableEq, Inhabited

namespace ValueKind

/-- The kinds in the order of their numbers. -/
def all : List ValueKind := [.empty, .number, .bool, .text, .atom, .list, .dict, .function]

/-- The name of a kind. -/
def name : ValueKind → String
  | empty => "boş"
  | number => "sayı"
  | bool => "bool"
  | text => "yazı"
  | atom => "atom"
  | list => "liste"
  | dict => "sözlük"
  | function => "fonksiyon"

end ValueKind

/--
A reference to a function: a native one by its name, or a compiled one by the
offset of its code, the storage its calls use and its number of parameters.
-/
structure FunctionRef where
  name : String
  native : Bool := false
  entry : Int := 0
  storage : Int := 0
  arity : Int := 0
  deriving Repr, DecidableEq, Inhabited

/-- A value written out in full. -/
inductive Datum where
  | absent
  | empty
  | number (value : Float)
  | bool (value : Bool)
  | text (content : String)
  | atom (name : String)
  | list (items : List Datum)
  | dict (entries : List (String × Datum))
  | function (ref : FunctionRef)
  deriving Inhabited

/-- The identity of an atom: the 64-bit FNV-1a hash of its name's bytes. -/
def atomId (name : String) : UInt64 :=
  name.toUTF8.foldl (fun hash byte => (hash ^^^ byte.toUInt64) * 0x100000001b3)
    0xcbf29ce484222325

/-- How the two truth values are shown. -/
def boolText (value : Bool) : String := if value then "doğru" else "yanlış"

/-- How the empty value is shown. -/
def emptyText : String := "boş"

namespace Datum

/-- The kind of a datum. -/
def kind : Datum → ValueKind
  | absent | empty => .empty
  | number _ => .number
  | bool _ => .bool
  | text _ => .text
  | atom _ => .atom
  | list _ => .list
  | dict _ => .dict
  | function _ => .function

mutual

/-- A datum as it appears inside a list or a dictionary: texts are quoted. -/
def quoted : Datum → String
  | text content => Text.quote content
  | absent | empty => emptyText
  | number value => Number.plainText value
  | bool value => boolText value
  | atom name => ":" ++ name
  | list items => "[" ++ ", ".intercalate (quotedItems items) ++ "]"
  | dict entries => "\x7b" ++ ", ".intercalate (quotedEntries entries) ++ "\x7d"
  | function ref => "<fonksiyon " ++ ref.name ++ ">"

/-- The quoted forms of some items. -/
def quotedItems : List Datum → List String
  | [] => []
  | item :: rest => quoted item :: quotedItems rest

/-- The written entries of a dictionary. -/
def quotedEntries : List (String × Datum) → List String
  | [] => []
  | (key, value) :: rest => (Text.quote key ++ ": " ++ quoted value) :: quotedEntries rest

end

/-- A datum as it is shown on its own: a text is its content. -/
def display : Datum → String
  | text content => content
  | other => quoted other

end Datum

end Lehce
