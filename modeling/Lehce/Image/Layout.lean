import Lehce.Image.Basic
import Lehce.Image.Cbor
import Lehce.Number.Integral
import Lehce.Text.Utf8

/-!
# The layout of images

An image is written as a map from the numbers of its fields to their items, and so are
the records in it. Fields that are zero are left out of constants, and empty lists are
written as nothing, so that an image of a loaded image has the same bytes.

Reading an image takes every item whose known fields have the right types: unknown
fields are passed over, missing ones are zero, and of two fields with the same
number the first counts.
-/

namespace Lehce

/-- Why bytes are no image. -/
inductive DecodeProblem where
  | malformed (problem : Cbor.Problem)
  | notRecord (item : String)
  | badText
  | unfit
  deriving Repr, DecidableEq

/-- The text of a problem. -/
def DecodeProblem.message : DecodeProblem → String
  | malformed problem => problem.message
  | notRecord item => "cbor: cannot unmarshal " ++ item ++ " into Go value of type compiler.Image"
  | badText => "cbor: invalid UTF-8 string"
  | unfit => "cbor: cannot unmarshal"

namespace Image

open Cbor (Item)

/-- A map whose keys are the numbers of fields; a field without an item is left out. -/
def fields (entries : List (Nat × Option Item)) : Item :=
  .map (entries.filterMap fun (number, item) => item.map fun item => (.unsigned number, item))

/-- A list as an item; an empty one is nothing. -/
def listItem (items : List Item) : Item := if items.isEmpty then .null else .array items

/-- A constant as an item. -/
def valueItem (value : StoredValue) : Item :=
  fields [
    (1, some (.unsigned value.kind)),
    (2, if value.number == 0 then none else some (.float value.number)),
    (3, if value.text.isEmpty then none else some (.ofString value.text)),
    (4, if value.bool then some (.simple 21) else none),
    (5, if value.native then some (.simple 21) else none)]

/-- A storage as an item. -/
def storageItem (storage : StoredStorage) : Item :=
  fields [
    (1, some (.ofString storage.name)),
    (2, some (.ofInt storage.arity)),
    (3, some (listItem (storage.constants.map valueItem))),
    (4, some (listItem (storage.locals.map .ofString)))]

/-- A function as an item. -/
def functionItem (function : StoredFunction) : Item :=
  fields [
    (1, some (.ofString function.name)),
    (2, some (.ofInt function.entry)),
    (3, some (.ofInt function.storage)),
    (4, some (.ofInt function.arity))]

/-- An image as an item. -/
def item (image : Image) : Item :=
  fields [
    (1, some (.ofInt image.version)),
    (2, some (if image.opcodes.isEmpty then .null else .bytes [image.opcodes])),
    (3, some (listItem (image.storages.map storageItem))),
    (4, some (listItem (image.functions.map functionItem)))]

/-- The tag that marks an item as what it is anyway. -/
def selfDescribed : Nat := 55799

/-- Whether the content of a tag with a fixed meaning has a type that it may have. -/
def tagFits (number : Nat) (content : Item) : Bool :=
  match number, content with
  | 0, .text _ => true
  | 0, _ => false
  | 1, .unsigned _ | 1, .negative _ | 1, .float _ => true
  | 1, _ => false
  | 2, .bytes _ | 3, .bytes _ => true
  | 2, _ | 3, _ => false
  | _, _ => true

/--
An item without the tags around it that mean nothing to a reader; big integers keep
theirs. Nothing, when a tag has a content that it may not have.
-/
def untag : Item → Option Item
  | .tag number content =>
    if number = selfDescribed then untag content
    else if tagFits number content = false then none
    else if number = 2 ∨ number = 3 then some (.tag number content)
    else untag content
  | other => some other

/-- The integer of an item, whatever its size; simple values count as their numbers. -/
def integerOf? : Item → Option Int
  | .unsigned n => some n
  | .negative n => some (-1 - n)
  | .simple n => if n < 20 ∨ 24 ≤ n then some n else none
  | .tag 2 (.bytes chunks) =>
    let n := Cbor.ofBigEndian chunks.flatten
    if n < Nat.pow 2 64 then some n else none
  | .tag 3 (.bytes chunks) => some (-1 - (Cbor.ofBigEndian chunks.flatten : Int))
  | _ => none

/-- Whether an item stands for nothing, which leaves what it is read into as it was. -/
def isNothing : Item → Bool
  | .simple 22 | .simple 23 => true
  | _ => false

/-- Reads a signed 64-bit integer. -/
def readInt (item : Item) : Option Int := do
  let item ← untag item
  if isNothing item then return 0
  let n ← integerOf? item
  if Number.fitsInt64 n then some n else none

/-- Reads a byte. -/
def readByte (item : Item) : Option Nat := do
  let item ← untag item
  if isNothing item then return 0
  let n ← integerOf? item
  if 0 ≤ n ∧ n < 256 then some n.toNat else none

/-- Reads a floating-point number; integers of 64 bits count as numbers. -/
def readNumber (item : Item) : Option Float := do
  let item ← untag item
  if isNothing item then return 0
  match item with
  | .float value => return value
  | other =>
    let n ← integerOf? other
    if Number.minInt64 ≤ n ∧ n < 18446744073709551616 then some (Number.ofInt n) else none

/-- Reads a text. -/
def readText (item : Item) : Option String := do
  let item ← untag item
  if isNothing item then return ""
  match item with
  | .text chunks => return String.join (← chunks.mapM Text.ofBytes?)
  | _ => none

/-- Reads a truth value. -/
def readBool (item : Item) : Option Bool := do
  let item ← untag item
  match item with
  | .simple 20 => return false
  | .simple 21 => return true
  | other => if isNothing other then return false else none

/-- Reads a list, given a reader of its items. -/
def readList {α : Type} (read : Item → Option α) (item : Item) : Option (List α) := do
  let item ← untag item
  if isNothing item then return []
  match item with
  | .array items => items.mapM read
  | _ => none

/-- Reads bytes: a byte string, a big integer's bytes, or a list of bytes. -/
def readBytes (item : Item) : Option (List UInt8) := do
  match ← untag item with
  | .bytes chunks | .tag _ (.bytes chunks) => return chunks.flatten
  | other => return (← readList readByte other).map Nat.toUInt8

/-- The number of a field that a key of a map names; other texts and integers name none. -/
def fieldNumber : Item → Option (Option Nat)
  | .unsigned n => some (some n)
  | .negative _ => some none
  | .text chunks => do
    let name := String.join (← chunks.mapM Text.ofBytes?)
    return (["1", "2", "3", "4", "5"].idxOf? name).map (· + 1)
  | _ => none

/-- The fields of a record; of two with the same number the first counts. -/
def readFields (item : Item) : Option (List (Nat × Item)) := do
  let item ← untag item
  if isNothing item then return []
  match item with
  | .map entries =>
    let numbered ← entries.mapM fun (key, value) => do return (← fieldNumber key, value)
    return numbered.filterMap fun (number, value) => number.map fun number => (number, value)
  | _ => none

/-- Reads a field; a missing one is zero. -/
def readField {α : Type} (entries : List (Nat × Item)) (number : Nat) (zero : α)
    (read : Item → Option α) : Option α :=
  match entries.lookup number with
  | some item => read item
  | none => some zero

/-- Reads a constant. -/
def readValue (item : Item) : Option StoredValue := do
  let entries ← readFields item
  return {
    kind := ← readField entries 1 0 readByte
    number := ← readField entries 2 0 readNumber
    text := ← readField entries 3 "" readText
    bool := ← readField entries 4 false readBool
    native := ← readField entries 5 false readBool }

/-- Reads a storage. -/
def readStorage (item : Item) : Option StoredStorage := do
  let entries ← readFields item
  return {
    name := ← readField entries 1 "" readText
    arity := ← readField entries 2 0 readInt
    constants := ← readField entries 3 [] (readList readValue)
    locals := ← readField entries 4 [] (readList readText) }

/-- Reads a function. -/
def readFunction (item : Item) : Option StoredFunction := do
  let entries ← readFields item
  return {
    name := ← readField entries 1 "" readText
    entry := ← readField entries 2 0 readInt
    storage := ← readField entries 3 0 readInt
    arity := ← readField entries 4 0 readInt }

/-- Why an item cannot be a record, if its type alone tells. -/
def recordProblem? : Item → Option DecodeProblem
  | .unsigned _ => some (.notRecord (Cbor.majorName 0))
  | .negative _ => some (.notRecord (Cbor.majorName 1))
  | .bytes _ => some (.notRecord (Cbor.majorName 2))
  | .text chunks =>
    if chunks.all fun chunk => (Text.ofBytes? chunk).isSome then
      some (.notRecord (Cbor.majorName 3))
    else some .badText
  | _ => none

/-- Reads an image from an item. -/
def ofItem? (item : Item) : Option Image := do
  let entries ← readFields item
  return {
    version := ← readField entries 1 0 readInt
    opcodes := ← readField entries 2 [] readBytes
    storages := ← readField entries 3 [] (readList readStorage)
    functions := ← readField entries 4 [] (readList readFunction) }

/-- Reads an image from its bytes. -/
def ofBytes (bytes : List UInt8) : Except DecodeProblem Image :=
  match Cbor.read bytes with
  | .error problem => .error (.malformed problem)
  | .ok item =>
    match recordProblem? item with
    | some problem => .error problem
    | none =>
      match ofItem? item with
      | some image => .ok image
      | none => .error .unfit

/-- The codec that writes the items of images in their canonical bytes. -/
def Codec.cbor : Codec where
  encode image := .ok image.item.encode
  decode bytes := (ofBytes bytes).mapError DecodeProblem.message

end Image

end Lehce
