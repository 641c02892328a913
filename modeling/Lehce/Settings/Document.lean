import Lehce.Flags
import Lehce.Number.Integral
import Lehce.Settings.Basic

/-!
# Settings files

A settings file has one field per line: a name, a colon and a literal. Literals are
integers, other numbers, truth values, null, quoted texts and lists of literals;
fields and items are separated by commas or line breaks, and a comment reaches from
two slashes to the end of its line. A field may come twice with the same literal.

Only five fields are known, each with literals of its own; a file with anything else
is refused as a whole.
-/

namespace Lehce

/-- A literal of a settings file. -/
inductive Literal where
  | null
  | bool (value : Bool)
  | integer (value : Int)
  | fraction
  | text (content : String)
  | list (items : List Literal)
  deriving Repr, BEq, Inhabited

namespace Literal

/-- A character that may be part of a name. -/
def isNameChar (c : Char) : Bool := c.isAlphanum || c == '_' || c == '$'

/-- A piece of a settings file. -/
inductive Piece where
  | name (text : String)
  | number (text : String)
  | text (content : String)
  | colon
  | comma
  | newline
  | opening
  | closing
  | minus
  | plus
  deriving Repr, DecidableEq

/-- The text between quotes and what follows it. -/
def readText : List Char → List Char → Option (String × List Char)
  | _, [] => none
  | content, '"' :: rest => some (String.ofList content.reverse, rest)
  | content, '\\' :: c :: rest =>
    match c with
    | 'n' => readText ('\n' :: content) rest
    | 't' => readText ('\t' :: content) rest
    | 'r' => readText ('\r' :: content) rest
    | 'a' => readText ('\x07' :: content) rest
    | 'b' => readText ('\x08' :: content) rest
    | 'f' => readText ('\x0c' :: content) rest
    | 'v' => readText ('\x0b' :: content) rest
    | '"' | '\\' | '/' => readText (c :: content) rest
    | _ => none
  | content, c :: rest => if c = '\n' then none else readText (c :: content) rest

/-- Splits a settings file into pieces. -/
def pieces : Nat → List Char → Option (List Piece)
  | 0, _ => none
  | _, [] => some []
  | steps + 1, c :: rest =>
    if c = '\n' then (pieces steps rest).map (.newline :: ·)
    else if c = ' ' ∨ c = '\t' ∨ c = '\r' then pieces steps rest
    else if c = '/' then
      match rest with
      | '/' :: rest => pieces steps (rest.dropWhile (· != '\n'))
      | _ => none
    else if c = '"' then
      match readText [] rest with
      | some (content, rest) => (pieces steps rest).map (.text content :: ·)
      | none => none
    else if c.isDigit ∨ c = '.' then
      let isPart (c : Char) : Bool := isNameChar c || c == '.'
      let text := String.ofList (c :: rest.takeWhile isPart)
      (pieces steps (rest.dropWhile isPart)).map (.number text :: ·)
    else if isNameChar c then
      let text := String.ofList (c :: rest.takeWhile isNameChar)
      (pieces steps (rest.dropWhile isNameChar)).map (.name text :: ·)
    else match c with
      | ':' => (pieces steps rest).map (.colon :: ·)
      | ',' => (pieces steps rest).map (.comma :: ·)
      | '[' => (pieces steps rest).map (.opening :: ·)
      | ']' => (pieces steps rest).map (.closing :: ·)
      | '-' => (pieces steps rest).map (.minus :: ·)
      | '+' => (pieces steps rest).map (.plus :: ·)
      | _ => none

/-- The factors that letters after an integer stand for. -/
def multipliers : List (String × Nat) := [
  ("K", 1000), ("M", Nat.pow 1000 2), ("G", Nat.pow 1000 3), ("T", Nat.pow 1000 4),
  ("P", Nat.pow 1000 5), ("Ki", 1024), ("Mi", Nat.pow 1024 2), ("Gi", Nat.pow 1024 3),
  ("Ti", Nat.pow 1024 4), ("Pi", Nat.pow 1024 5)]

/-- Digits with single underscores between them. -/
def digits? (base : Nat) (text : List Char) : Option Nat :=
  let isDigit (c : Char) : Bool := (Number.positionalValue? base [c]).isSome
  let parts := (String.ofList text).splitOn "_"
  if parts.all (fun part => part != "" && part.all isDigit) then
    Number.positionalValue? base (text.filter (· ≠ '_'))
  else none

/-- The integer that a number piece denotes. -/
def integer? (text : List Char) : Option Nat :=
  match text with
  | '0' :: 'x' :: rest | '0' :: 'X' :: rest => digits? 16 rest
  | '0' :: 'o' :: rest => digits? 8 rest
  | '0' :: 'b' :: rest => digits? 2 rest
  | ['0'] => some 0
  | '0' :: _ => none
  | _ =>
    let isPart (c : Char) : Bool := c.isDigit || c == '_'
    let suffix := String.ofList (text.dropWhile isPart)
    match digits? 10 (text.takeWhile isPart) with
    | none => none
    | some n => if suffix.isEmpty then some n else (multipliers.lookup suffix).map (n * ·)

/-- The literal of a number piece. -/
def ofNumber (negative : Bool) (text : String) : Option Literal :=
  match integer? text.toList with
  | some n => some (integer (if negative then -(n : Int) else n))
  | none =>
    match Number.readFloat .double text.toList with
    | .ok _ =>
      if text.contains '.' || text.contains 'e' || text.contains 'E' then some fraction else none
    | .error _ => none

/-- Pieces after some line breaks. -/
def skipLines (pieces : List Piece) : List Piece := pieces.dropWhile (· == .newline)

/-- Pieces after one separator and the line breaks around it; nothing without a separator. -/
def skipSeparator : List Piece → Option (List Piece)
  | .comma :: rest => some (skipLines rest)
  | .newline :: rest => some (skipLines rest)
  | _ => none

mutual

/-- Reads a literal. -/
def read : Nat → List Piece → Option (Literal × List Piece)
  | 0, _ => none
  | steps + 1, pieces =>
    match pieces with
    | .name "true" :: rest => some (bool true, rest)
    | .name "false" :: rest => some (bool false, rest)
    | .name "null" :: rest => some (null, rest)
    | .text content :: rest => some (text content, rest)
    | .number n :: rest => (ofNumber false n).map fun literal => (literal, rest)
    | .plus :: .number n :: rest => (ofNumber false n).map fun literal => (literal, rest)
    | .minus :: .number n :: rest => (ofNumber true n).map fun literal => (literal, rest)
    | .opening :: rest =>
      match readItems steps [] (skipLines rest) with
      | some (items, rest) => some (list items, rest)
      | none => none
    | _ => none

/-- Reads items up to the end of their list; `items` holds the last one first. -/
def readItems : Nat → List Literal → List Piece → Option (List Literal × List Piece)
  | 0, _, _ => none
  | _, items, .closing :: rest => some (items.reverse, rest)
  | steps + 1, items, pieces =>
    match read steps pieces with
    | none => none
    | some (item, .closing :: rest) => some ((item :: items).reverse, rest)
    | some (item, rest) =>
      match skipSeparator rest with
      | some rest => readItems steps (item :: items) rest
      | none => none

end

/-- Reads fields up to the end; `fields` holds the last one first. -/
def readFields : Nat → List (String × Literal) → List Piece → Option (List (String × Literal))
  | 0, _, _ => none
  | _, fields, [] => some fields.reverse
  | steps + 1, fields, pieces =>
    let named : Option (String × List Piece) := match pieces with
      | .name name :: .colon :: rest => some (name, rest)
      | .text name :: .colon :: rest => some (name, rest)
      | _ => none
    match named with
    | none => none
    | some (name, rest) =>
      match read steps (skipLines rest) with
      | none => none
      | some (literal, []) => some ((name, literal) :: fields).reverse
      | some (literal, rest) =>
        match skipSeparator rest with
        | some rest => readFields steps ((name, literal) :: fields) rest
        | none => none

/-- The fields of a settings file. -/
def fields? (source : String) : Option (List (String × Literal)) := do
  let pieces ← pieces (source.length + 1) source.toList
  readFields (2 * pieces.length + 2) [] (skipLines pieces)

/-- The content of a list of texts. -/
def texts? : Literal → Option (List String)
  | list items => items.mapM fun item => match item with
    | text content => some content
    | _ => none
  | _ => none

end Literal

/-- What a settings file sets. -/
structure SettingsFile where
  callDepth : Option Int := none
  stackSize : Option Int := none
  listing : Option Bool := none
  level : Option String := none
  disabled : Option (List String) := none
  deriving Repr, DecidableEq

namespace SettingsFile

/-- The greatest call depth that a file may set. -/
def maxCallDepth : Int := 1048576

/-- A value that a field may get, given what it has already: at most one value. -/
def agree {α : Type} [BEq α] (old : Option α) (value : α) : Option (Option α) :=
  match old with
  | none => some (some value)
  | some other => if other == value then some old else none

/-- Adds a field. -/
def addField (file : SettingsFile) : String × Literal → Option SettingsFile
  | ("max_call_depth", .integer n) =>
    if 0 < n ∧ n ≤ maxCallDepth then
      (agree file.callDepth n).map fun callDepth => { file with callDepth }
    else none
  | ("stack_size", .integer n) =>
    if 0 < n ∧ Number.fitsInt64 n then
      (agree file.stackSize n).map fun stackSize => { file with stackSize }
    else none
  | ("dump_opcodes", .bool b) =>
    (agree file.listing b).map fun listing => { file with listing }
  | ("log_level", .text name) =>
    if (Flags.levels.lookup name).isSome then
      (agree file.level name).map fun level => { file with level }
    else none
  | ("disabled_builtins", literal) => do
    let names ← literal.texts?
    (agree file.disabled names).map fun disabled => { file with disabled }
  | _ => none

/-- Reads a settings file; one that does not fit is refused. -/
def ofText? (source : String) : Option SettingsFile := do
  (← Literal.fields? source).foldlM addField {}

end SettingsFile

/-- Names in ascending order, each once. -/
def sortedNames (names : List String) : List String :=
  (names.mergeSort fun a b => !(b < a)).eraseReps

/-- The settings that flags and settings files give. A flag wins over files, and an earlier
file over a later one; names of disabled functions come from everywhere. -/
def Settings.ofSources (flags : Flags) (files : List SettingsFile) : Settings where
  callDepth := firstSet 0 [flags.callDepth, (files.findSome? (·.callDepth)).getD 0, 1024]
  stackSize := firstSet 0 [flags.stackSize, (files.findSome? (·.stackSize)).getD 0, 256]
  listing := flags.listing || (files.findSome? (·.listing)).getD false
  disabled := sortedNames (flags.disabled ++ files.flatMap fun file => file.disabled.getD [])

/-- The log level that flags and settings files give; a flag wins over files. -/
def Log.Level.ofSources (flags : Flags) (files : List SettingsFile) : Log.Level :=
  match files.findSome? (·.level) with
  | some name =>
    if flags.levelChosen then flags.level else (Flags.levels.lookup name).getD flags.level
  | none => flags.level

end Lehce
