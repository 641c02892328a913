import Lehce.Number.Integral
import Lehce.Suite.Case
import Lehce.Yaml.Read

/-!
# Suites

A suite is a file of cases. Its fields, and those of its cases and expectations, are
known by name; a file with an unknown field, a field that comes twice, or a value
that does not fit its field is refused.

Where a value is expected, tags make atoms, texts and the empty value out of scalars.
A value that is nothing leaves its expectation unset; inside the list of the stack it
is passed over.
-/

namespace Lehce

open Yaml (Meaning)

/-- The cases of a file. -/
structure Suite where
  name : String := ""
  cases : List Case := []

namespace Suite

/-- The number that a scalar denotes. -/
def numberOf? (value : String) : Option Float :=
  match Number.readFloat .double value.toList with
  | .ok x => some x
  | .error _ =>
    match Meaning.ofSpelling value with
    | .integer n => some (Number.ofInt n)
    | .floating x => some x
    | _ => none

/-- The datum of a scalar with a tag. -/
def scalarDatum? (tag value : String) : Option Datum :=
  match tag with
  | "!!null" | "!empty" => some .empty
  | "!!bool" =>
    match Meaning.ofSpelling value with
    | .bool b => some (.bool b)
    | _ => none
  | "!!int" | "!!float" => (numberOf? value).map .number
  | "!atom" => some (.atom value)
  | "!!str" | "!text" => some (.text value)
  | _ => none

/-- The text of a key; only scalars have one. -/
def keyText : Yaml.Node → String
  | .scalar _ _ value => value
  | _ => ""

mutual

/-- The datum of a node. -/
def datum? : Yaml.Node → Option Datum
  | .scalar tag quoted value => scalarDatum? (Yaml.Node.tag (.scalar tag quoted value)) value
  | .sequence items => (data? items).map .list
  | .mapping entries => (entries? [] entries).map .dict

/-- The data of some nodes. -/
def data? : List Yaml.Node → Option (List Datum)
  | [] => some []
  | node :: rest =>
    match datum? node, data? rest with
    | some datum, some data => some (datum :: data)
    | _, _ => none

/-- The entries of a mapping; of two values of a key the last one counts. -/
def entries? (done : List (String × Datum)) :
    List (Yaml.Node × Yaml.Node) → Option (List (String × Datum))
  | [] => some done
  | (key, value) :: rest =>
    match datum? value with
    | some datum => entries? (putEntry (keyText key) datum done) rest
    | none => none

end

/-- The text that a scalar gives to a field; nothing gives none. -/
def textField? : Yaml.Node → Option (Option String)
  | .scalar tag quoted value =>
    if Yaml.Node.isNothing (.scalar tag quoted value) then some none
    else match tag with
      | none | some "!!str" => some (some value)
      | some tag => if (Meaning.ofSpelling value).tag == tag then some (some value) else none
  | _ => none

/-- The integer that a scalar gives to a field; nothing gives none. -/
def integerField? : Yaml.Node → Option (Option Int)
  | .scalar none false value =>
    match Meaning.ofSpelling value with
    | .nothing => some none
    | .integer n => if Number.fitsInt64 n then some (some n) else none
    | .floating x =>
      if x ≤ Number.ofInt (-Number.minInt64) then some (some (Number.truncate x)) else none
    | _ => none
  | _ => none

/-- Whether no two keys are the same. -/
def distinctKeys (entries : List (Yaml.Node × Yaml.Node)) : Bool :=
  let keys := entries.map fun (key, _) => keyText key
  keys.eraseDups.length == keys.length

/-- The fields of a mapping by their names; nothing has no fields. -/
def fields? : Yaml.Node → Option (List (String × Yaml.Node))
  | .mapping entries => do
    if !distinctKeys entries then none
    let named ← entries.mapM fun (key, value) => do
      return (← textField? key, value)
    return named.filterMap fun (name, value) => name.map fun name => (name, value)
  | node => if node.isNothing then some [] else none

/-- The nodes of a sequence that are not nothing; nothing is no sequence. -/
def items? : Yaml.Node → Option (Option (List Yaml.Node))
  | .sequence items => some (some (items.filter fun item => !item.isNothing))
  | node => if node.isNothing then some none else none

/-- Adds a field of an expectation. -/
def addExpectation (expect : Expectation) : String × Yaml.Node → Option Expectation
  | ("top", node) =>
    if node.isNothing then some expect
    else (datum? node).map fun top => { expect with top := some top }
  | ("stack", node) => do
    match ← items? node with
    | none => return expect
    | some items => return { expect with stack := some (← data? items) }
  | ("memory", node) => do
    let memory ← (← fields? node).mapM fun (name, node) => do
      if node.isNothing then return (name, Datum.absent) else return (name, ← datum? node)
    return { expect with memory }
  | ("output", node) => (textField? node).map fun output => { expect with output }
  | ("error", node) => (textField? node).map fun error => { expect with error := error.getD "" }
  | ("line", node) => (integerField? node).map fun line => { expect with line }
  | ("column", node) => (integerField? node).map fun column => { expect with column }
  | _ => none

/-- Adds a field of a case. -/
def addCaseField (case : Case) : String × Yaml.Node → Option Case
  | ("name", node) => (textField? node).map fun text => { case with name := text.getD "" }
  | ("source", node) => (textField? node).map fun text => { case with source := text.getD "" }
  | ("input", node) => (textField? node).map fun text => { case with input := text.getD "" }
  | ("skip", node) => (textField? node).map fun text => { case with skip := text.getD "" }
  | ("expect", node) => do
    return { case with expect := ← (← fields? node).foldlM addExpectation {} }
  | _ => none

/-- The case of a node. -/
def case? (node : Yaml.Node) : Option Case := do (← fields? node).foldlM addCaseField {}

/-- Adds a field of a suite. -/
def addField (suite : Suite) : String × Yaml.Node → Option Suite
  | ("name", node) => (textField? node).map fun text => { suite with name := text.getD "" }
  | ("description", node) => (textField? node).map fun _ => suite
  | ("cases", node) => do
    let items := (← items? node).getD []
    return { suite with cases := ← items.mapM case? }
  | _ => none

/-- The last part of a path. -/
def baseName (path : String) : String := (path.splitOn "/").getLastD path

/-- Reads a suite from a file; without a name of its own it has the name of the file. -/
def ofFile? (path content : String) : Option Suite := do
  let suite ← (← fields? (← Yaml.read? content)).foldlM addField {}
  return if suite.name.isEmpty then { suite with name := baseName path } else suite

end Suite

/-- A case with the file and the suite that it came from. -/
structure LoadedCase where
  file : String
  suite : String
  case : Case

/-- The cases of all suites among some files, in the order of the files' paths. -/
def loadCases (files : List (String × String)) : Option (List LoadedCase) := do
  let suites := (files.filter fun (path, _) => path.endsWith ".yaml").mergeSort
    fun a b => !(b.1 < a.1)
  let loaded ← suites.mapM fun (path, content) => do
    let suite ← Suite.ofFile? path content
    return suite.cases.map fun case => ⟨path, suite.name, case⟩
  return loaded.flatten

end Lehce
