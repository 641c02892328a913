import Lehce.Number.Numeral

/-!
# YAML nodes

A document is a tree of scalars, sequences and mappings. A scalar that is neither
quoted nor tagged gets its meaning from its spelling: it is nothing, a truth value,
an integer, another number or a point in time when it is spelt like one, and a text
otherwise.
-/

namespace Lehce.Yaml

/-- A node of a document. A scalar has the tag that it was given, if any. -/
inductive Node where
  | scalar (tag : Option String) (quoted : Bool) (value : String)
  | sequence (items : List Node)
  | mapping (entries : List (Node × Node))
  deriving Inhabited

/-- The node that stands where nothing was written. -/
def Node.nothing : Node := .scalar none false ""

/-- The meaning of a spelling. -/
inductive Meaning where
  | nothing
  | bool (value : Bool)
  | integer (value : Int)
  | floating (value : Float)
  | time
  | merge
  | text

namespace Meaning

/-- The tag of a meaning. -/
def tag : Meaning → String
  | nothing => "!!null"
  | bool _ => "!!bool"
  | integer _ => "!!int"
  | floating _ => "!!float"
  | time => "!!timestamp"
  | merge => "!!merge"
  | text => "!!str"

/-- The spellings that have a meaning of their own. -/
def words : List (String × Meaning) := [
  ("true", bool true), ("True", bool true), ("TRUE", bool true),
  ("false", bool false), ("False", bool false), ("FALSE", bool false),
  ("", nothing), ("~", nothing), ("null", nothing), ("Null", nothing), ("NULL", nothing),
  (".nan", floating Number.nan), (".NaN", floating Number.nan), (".NAN", floating Number.nan),
  (".inf", floating (Number.infinity false)), (".Inf", floating (Number.infinity false)),
  (".INF", floating (Number.infinity false)), ("+.inf", floating (Number.infinity false)),
  ("+.Inf", floating (Number.infinity false)), ("+.INF", floating (Number.infinity false)),
  ("-.inf", floating (Number.infinity true)), ("-.Inf", floating (Number.infinity true)),
  ("-.INF", floating (Number.infinity true)), ("<<", merge)]

/-- The magnitude of digits after an optional base mark; a leading zero marks base eight. -/
def magnitude? (text : List Char) : Option Nat :=
  match text with
  | '0' :: c :: d :: rest =>
    if c = 'x' ∨ c = 'X' then (Number.readNatural 16 64 (d :: rest)).toOption
    else if c = 'b' ∨ c = 'B' then (Number.readNatural 2 64 (d :: rest)).toOption
    else if c = 'o' ∨ c = 'O' then (Number.readNatural 8 64 (d :: rest)).toOption
    else (Number.readNatural 8 64 (c :: d :: rest)).toOption
  | ['0'] => some 0
  | '0' :: rest => (Number.readNatural 8 64 rest).toOption
  | digits => (Number.readNatural 10 64 digits).toOption

/-- The integer of a spelling without underscores: a signed 64-bit one, or one without sign. -/
def integer? (text : List Char) : Option Int :=
  let (negative, digits) := Number.splitSign text
  match magnitude? digits with
  | none => none
  | some n =>
    if negative then (if n ≤ Nat.pow 2 63 then some (-(n : Int)) else none)
    else if n < Nat.pow 2 63 ∨ text = digits then some n
    else none

/-- Whether a spelling is a decimal number: digits around at most one point, and an exponent. -/
def isDecimal (text : List Char) : Bool :=
  let (_, body) := Number.splitSign text
  let whole := body.takeWhile Char.isDigit
  let rest := body.dropWhile Char.isDigit
  let (hasDigits, rest) := match rest with
    | '.' :: rest =>
      let fraction := rest.takeWhile Char.isDigit
      (!whole.isEmpty || !fraction.isEmpty, rest.dropWhile Char.isDigit)
    | rest => (!whole.isEmpty, rest)
  let exponent := match rest with
    | [] => true
    | c :: rest =>
      let digits := (Number.splitSign rest).2
      (c == 'e' || c == 'E') && !digits.isEmpty && digits.all Char.isDigit
  hasDigits && exponent

/-- One or two digits and what follows them. -/
def shortNumber? (text : List Char) : Option (Nat × List Char) :=
  match text with
  | a :: b :: rest =>
    if a.isDigit && b.isDigit then
      (Number.positionalValue? 10 [a, b]).map fun n => (n, rest)
    else if a.isDigit then (Number.positionalValue? 10 [a]).map fun n => (n, b :: rest)
    else none
  | [a] => if a.isDigit then (Number.positionalValue? 10 [a]).map fun n => (n, []) else none
  | [] => none

/-- The number of days of a month. -/
def daysOfMonth (year month : Nat) : Nat :=
  if month = 2 then
    if year % 4 = 0 ∧ (year % 100 ≠ 0 ∨ year % 400 = 0) then 29 else 28
  else if month = 4 ∨ month = 6 ∨ month = 9 ∨ month = 11 then 30
  else 31

/-- Whether a text is a distance from universal time. -/
def isZone : List Char → Bool
  | ['Z'] => true
  | [sign, a, b, ':', c, d] =>
    (sign == '+' || sign == '-') && a.isDigit && b.isDigit && c.isDigit && d.isDigit
  | _ => false

/-- Whether a text is a time of day, before a zone or the end. -/
def isTimeOfDay (zoned : Bool) (text : List Char) : Bool :=
  match shortNumber? text with
  | some (hour, ':' :: rest) =>
    match shortNumber? rest with
    | some (minute, ':' :: rest) =>
      match shortNumber? rest with
      | some (second, rest) =>
        let rest := match rest with
          | '.' :: c :: rest => if c.isDigit then rest.dropWhile Char.isDigit else '.' :: c :: rest
          | rest => rest
        hour < 24 && minute < 60 && second < 60 && (if zoned then isZone rest else rest.isEmpty)
      | none => false
    | _ => false
  | _ => false

/-- Whether a spelling is a point in time: a date, or a date and a time of day. -/
def isTime (text : List Char) : Bool :=
  match text with
  | a :: b :: c :: d :: '-' :: rest =>
    match Number.positionalValue? 10 [a, b, c, d], shortNumber? rest with
    | some year, some (month, '-' :: rest) =>
      match shortNumber? rest with
      | some (day, rest) =>
        1 ≤ month && month ≤ 12 && 1 ≤ day && day ≤ daysOfMonth year month &&
          (match rest with
          | [] => true
          | 'T' :: rest | 't' :: rest => isTimeOfDay true rest
          | ' ' :: rest => isTimeOfDay false rest
          | _ => false)
      | none => false
    | _, _ => false
  | _ => false

/-- The meaning of a spelling. -/
def ofSpelling (spelling : String) : Meaning :=
  match words.lookup spelling with
  | some meaning => meaning
  | none =>
    match spelling.toList with
    | [] => nothing
    | '.' :: rest =>
      match Number.readFloat .double ('.' :: rest) with
      | .ok x => floating x
      | .error _ => text
    | c :: rest =>
      if c.isDigit ∨ c = '+' ∨ c = '-' then
        let whole := c :: rest
        let plain := whole.filter (· ≠ '_')
        if isTime whole then time
        else match integer? plain with
          | some n => integer n
          | none =>
            if isDecimal plain then
              match Number.readFloat .double plain with
              | .ok x => floating x
              | .error _ => text
            else text
      else text

end Meaning

namespace Node

/-- The tag of a node: the one it was given, or the one of its meaning. -/
def tag : Node → String
  | scalar (some tag) _ _ => tag
  | scalar none true _ => "!!str"
  | scalar none false value => (Meaning.ofSpelling value).tag
  | sequence _ => "!!seq"
  | mapping _ => "!!map"

/-- Whether a node stands for nothing. -/
def isNothing (node : Node) : Bool := node.tag == "!!null"

end Node

end Lehce.Yaml
