import Lehce.Natives.Registry
import Lehce.Number.Integral
import Lehce.Text.Case

/-!
# The standard native functions

Reading and writing lines, functions on numbers, texts, lists and dictionaries, and
the few functions of the module `base`.
-/

namespace Lehce.Natives

/-- A function that yields a value and changes nothing. -/
def pure_ (host : Host) (value : Value) : NativeResult := { host, value }

/-- A function that fails and changes nothing. -/
def fail (host : Host) (kind : Fault.Kind) (detail : String) : NativeResult :=
  { host, failure := some (.fault (.runtime kind detail)) }

/-- The failure of an argument of the wrong kind. -/
def wrongKind (host : Host) (name : String) (wanted : ValueKind) (arg : Value) : NativeResult :=
  fail host .typeMismatch (name ++ " expects " ++ wanted.name ++ ", got " ++ arg.kind.name)

/-- Goes on with the texts of some values, if there is an end to each of them. -/
def withTexts (host : Host) (values : List Value) (next : List String → NativeResult) :
    NativeResult :=
  match values.mapM host.heap.display with
  | some texts => next texts
  | none => { host, failure := some (.crash .endless) }

/-- Writes to the output. -/
def write (host : Host) (text : String) : NativeResult :=
  { host := { host with output := host.output ++ text }, value := .empty }

/-- Writes the texts of some values one after the other, and something at the end. -/
def writeAll (ending : String) (args : List Value) (host : Host) : NativeResult :=
  withTexts host args fun texts => write host (String.join texts ++ ending)

/-- A line without the line break at its end. -/
def stripLineEnd (line : List Char) : List Char :=
  let drop (c : Char) (reversed : List Char) : List Char :=
    match reversed with
    | last :: rest => if last = c then rest else reversed
    | [] => []
  (drop '\r' (drop '\n' line.reverse)).reverse

/-- Reads a line of the input; at its end there is none. -/
def readLine (host : Host) : NativeResult :=
  match host.input with
  | [] => pure_ host .empty
  | input =>
    let line := input.takeWhile (· ≠ '\n')
    let taken := (input.drop line.length).take 1
    { host := { host with input := input.drop (line.length + 1) }
      value := .text (String.ofList (stripLineEnd (line ++ taken))) }

/-- A function on one number. -/
def numeric (name : String) (f : Float → Float) : Native where
  name := name
  arity := some 1
  run args host :=
    match args with
    | .number n :: _ => pure_ host (.number (f n))
    | arg :: _ => wrongKind host name .number arg
    | [] => pure_ host .absent

/-- A function on one text. -/
def textual (name : String) (f : String → Value) : Native where
  name := name
  arity := some 1
  run args host :=
    match args with
    | .text t :: _ => pure_ host (f t)
    | arg :: _ => wrongKind host name .text arg
    | [] => pure_ host .absent

/-- A count as a number. -/
def count (n : Nat) : Value := .number (Number.ofInt n)

/-- Reading and writing. -/
def io : List Native := [
  { name := "io.print", arity := none, run := writeAll "" },
  { name := "io.writeline", arity := none, run := writeAll "\n" },
  { name := "io.readline", arity := some 0, run := fun _ host => readLine host }]

/-- Functions on numbers. -/
def num : List Native := [
  numeric "num.abs" Number.abs, numeric "num.floor" Number.floor, numeric "num.ceil" Number.ceil,
  numeric "num.round" Number.round, numeric "num.sqrt" Float.sqrt]

/-- Joins the texts of a list's items. -/
def join (args : List Value) (host : Host) : NativeResult :=
  match args with
  | .list place :: .text separator :: _ =>
    withTexts host (host.heap.items place).toList fun parts =>
      pure_ host (.text (separator.intercalate parts))
  | .list _ :: other :: _ => wrongKind host "text.join" .text other
  | other :: _ => wrongKind host "text.join" .list other
  | [] => pure_ host .absent

/-- Functions on texts. -/
def text : List Native := [
  textual "text.length" fun t => count t.length,
  textual "text.upper" fun t => .text (Text.upper t),
  textual "text.lower" fun t => .text (Text.lower t),
  { name := "text.join", arity := some 2, run := join }]

/-- Adds an item to a list. -/
def append (args : List Value) (host : Host) : NativeResult :=
  match args with
  | .list place :: item :: _ =>
    { host := { host with heap := host.heap.modifyItems place fun items => items.push item }
      value := .list place }
  | other :: _ => wrongKind host "list.append" .list other
  | [] => pure_ host .absent

/-- Takes the last item off a list. -/
def popItem (args : List Value) (host : Host) : NativeResult :=
  match args with
  | .list place :: _ =>
    match (host.heap.items place).back? with
    | some last =>
      { host := { host with heap := host.heap.modifyItems place fun items => items.pop }
        value := last }
    | none => fail host .indexOutOfRange "pop from empty list"
  | other :: _ => wrongKind host "list.pop" .list other
  | [] => pure_ host .absent

/-- The length of a list. -/
def listLength (args : List Value) (host : Host) : NativeResult :=
  match args with
  | .list place :: _ => pure_ host (count (host.heap.items place).size)
  | other :: _ => wrongKind host "list.length" .list other
  | [] => pure_ host .absent

/-- Functions on lists. -/
def list : List Native := [
  { name := "list.length", arity := some 1, run := listLength },
  { name := "list.append", arity := some 2, run := append },
  { name := "list.pop", arity := some 1, run := popItem }]

/-- The keys of a dictionary as a new list. -/
def keys (args : List Value) (host : Host) : NativeResult :=
  match args with
  | .dict place :: _ =>
    let keys := (host.heap.entries place).keys.map Value.text
    let (value, heap) := host.heap.newList keys.toArray
    { host := { host with heap }, value }
  | other :: _ => wrongKind host "dict.keys" .dict other
  | [] => pure_ host .absent

/-- The value of a key, or else the third argument or the empty value. -/
def lookup (args : List Value) (host : Host) : NativeResult :=
  if args.length ≠ 2 ∧ args.length ≠ 3 then
    fail host .argumentCountMismatch
      ("dict.get takes 2 or 3 arguments, got " ++ toString args.length)
  else match args with
    | .dict place :: .text key :: rest =>
      match (host.heap.entries place).get? key with
      | some value => pure_ host value
      | none => pure_ host (rest.headD .empty)
    | .dict _ :: other :: _ => wrongKind host "dict.get" .text other
    | other :: _ => wrongKind host "dict.get" .dict other
    | [] => pure_ host .absent

/-- Functions on dictionaries. -/
def dict : List Native := [
  { name := "dict.keys", arity := some 1, run := keys },
  { name := "dict.get", arity := none, run := lookup }]

/-- The length of a text, a list or a dictionary. -/
def length (args : List Value) (host : Host) : NativeResult :=
  match args with
  | .text t :: _ => pure_ host (count t.length)
  | .list place :: _ => pure_ host (count (host.heap.items place).size)
  | .dict place :: _ => pure_ host (count (host.heap.entries place).size)
  | other :: _ => fail host .typeMismatch (other.kind.name ++ " has no length")
  | [] => pure_ host .absent

/-- The functions whose module name may be left out. -/
def base : List Native := [
  { name := "base.type"
    arity := some 1
    run := fun args host => pure_ host (.text (args.headD .absent).kind.name) },
  { name := "base.text"
    arity := some 1
    run := fun args host =>
      withTexts host [args.headD .absent] fun texts => pure_ host (.text (String.join texts)) },
  { name := "base.length", arity := some 1, run := length }]

/-- The registry of all standard functions. -/
def standard : Registry := ⟨io ++ num ++ text ++ list ++ dict ++ base⟩

end Lehce.Natives
