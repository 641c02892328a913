import Lehce.Number.Format
import Lehce.Text.Quoted

/-!
# Reading numerals

Three readers of written numbers. `readNatural` and `readInteger` read digits of a
base into a number of a given width, the latter after an optional sign; `readFloat`
reads the full grammar of decimal and hexadecimal floating-point texts with the
words for infinity and for no number. Each fails either because the text is no
numeral or because its value does not fit, and `NumeralProblem.message` words the
failure.
-/

namespace Lehce.Number

/-- Why a text denotes no number. -/
inductive NumeralProblem where
  | syntaxInvalid
  | outOfRange
  deriving Repr, DecidableEq

/-- The reader that refused a text. -/
inductive NumeralReader where
  | integer
  | natural
  | floating
  deriving Repr, DecidableEq

/-- The text of a refusal: the reader, the refused text in quotes, and the reason. -/
def NumeralProblem.message (reader : NumeralReader) (text : String) (problem : NumeralProblem) :
    String :=
  let name := match reader with
    | .integer => "strconv.ParseInt"
    | .natural => "strconv.ParseUint"
    | .floating => "strconv.ParseFloat"
  let reason := match problem with
    | .syntaxInvalid => "invalid syntax"
    | .outOfRange => "value out of range"
  name ++ ": parsing " ++ Text.quote text ++ ": " ++ reason

/-- The value of an ASCII digit or letter in bases up to thirty-six. -/
def digitValue? (c : Char) : Option Nat :=
  if '0' ≤ c ∧ c ≤ '9' then some (c.toNat - '0'.toNat)
  else if 'a' ≤ c ∧ c ≤ 'z' then some (c.toNat - 'a'.toNat + 10)
  else if 'A' ≤ c ∧ c ≤ 'Z' then some (c.toNat - 'A'.toNat + 10)
  else none

/-- The value of digits of a base, or nothing when one of them is no such digit. -/
def positionalValue? (base : Nat) (digits : List Char) : Option Nat :=
  digits.foldl (fun value c => do
    let value ← value
    let digit ← digitValue? c
    if digit < base then some (value * base + digit) else none) (some 0)

/-- Splits an optional sign off a text. -/
def splitSign : List Char → Bool × List Char
  | '-' :: rest => (true, rest)
  | '+' :: rest => (false, rest)
  | rest => (false, rest)

/--
The value of digits of a base that go on from a value. Of a character that is no
digit and a value above `most`, the one that comes first is the problem.
-/
def boundedValue (base most : Nat) : Nat → List Char → Except NumeralProblem Nat
  | value, [] => .ok value
  | value, c :: rest =>
    match positionalValue? base [c] with
    | none => .error .syntaxInvalid
    | some digit =>
      if most < value * base + digit then .error .outOfRange
      else boundedValue base most (value * base + digit) rest

/-- Reads digits of a base into a natural number of `bits` bits. -/
def readNatural (base bits : Nat) (text : List Char) : Except NumeralProblem Nat :=
  if text.isEmpty then .error .syntaxInvalid else boundedValue base (Nat.pow 2 bits - 1) 0 text

/-- Reads an optional sign and digits of a base into an integer of `bits` bits. -/
def readInteger (base bits : Nat) (text : List Char) : Except NumeralProblem Int :=
  let (negative, digits) := splitSign text
  match readNatural base bits digits with
  | .error problem => .error problem
  | .ok n =>
    if negative then
      if n ≤ Nat.pow 2 (bits - 1) then .ok (-(n : Int)) else .error .outOfRange
    else if n < Nat.pow 2 (bits - 1) then .ok n else .error .outOfRange

/-- The last thing seen while checking where underscores stand. -/
inductive Seen where
  | start
  | digit
  | underscore
  | other
  deriving DecidableEq

/-- Every underscore stands between two digits; a base mark counts as a digit. -/
def underscoresFit (hex : Bool) : Seen → List Char → Bool
  | seen, [] => seen ≠ .underscore
  | seen, c :: rest =>
    if c.isDigit ∨ (hex ∧ (('a' ≤ c ∧ c ≤ 'f') ∨ ('A' ≤ c ∧ c ≤ 'F'))) then
      underscoresFit hex .digit rest
    else if c = '_' then seen = .digit && underscoresFit hex .underscore rest
    else seen ≠ .underscore && underscoresFit hex .other rest

/-- Whether the underscores of an unsigned numeral stand where they may. -/
def underscoresAllowed : List Char → Bool
  | '0' :: mark :: rest =>
    if mark = 'x' ∨ mark = 'X' then underscoresFit true .digit rest
    else if mark = 'b' ∨ mark = 'B' ∨ mark = 'o' ∨ mark = 'O' then
      underscoresFit false .digit rest
    else underscoresFit false .start ('0' :: mark :: rest)
  | rest => underscoresFit false .start rest

/-- A mantissa that has been read: its digits without the point, and how many follow the point. -/
structure Mantissa where
  digits : List Char
  places : Nat
  rest : List Char

/-- Reads digits, underscores and at most one point. -/
def readMantissa (isDigit : Char → Bool) : Bool → List Char → Mantissa
  | _, [] => ⟨[], 0, []⟩
  | point, c :: rest =>
    if c = '_' then readMantissa isDigit point rest
    else if c = '.' ∧ point = false then readMantissa isDigit true rest
    else if isDigit c then
      let tail := readMantissa isDigit point rest
      ⟨c :: tail.digits, if point then tail.places + 1 else tail.places, tail.rest⟩
    else ⟨[], 0, c :: rest⟩

/-- Reads the digits of an exponent, underscores skipped; the first must be a digit. -/
def readExponent (text : List Char) : Option (Int × List Char) :=
  let (negative, digits) := splitSign text
  match digits with
  | first :: _ =>
    if first.isDigit then
      let run := digits.takeWhile fun c => c.isDigit || c = '_'
      let value := (positionalValue? 10 (run.filter (· ≠ '_'))).getD 0
      some (if negative then -(value : Int) else value, digits.drop run.length)
    else none
  | [] => none

/--
The number of a format nearest to `digits · radix^exponent`, where the radix is ten
or two. An exponent far outside every format's range is cut off first, so that no
power of it is ever formed.
-/
def scaledValue (format : Format) (negative : Bool) (digits : Nat) (radix : Nat)
    (exponent : Int) : Except NumeralProblem Float :=
  let width : Int := digits.log2
  if digits = 0 ∨ exponent + width < -2000 then .ok (ofQuotient negative 0 1)
  else if exponent > 2000 then .error .outOfRange
  else
    let num := digits * Nat.pow radix exponent.toNat
    let den := Nat.pow radix (-exponent).toNat
    match format.nearest num den with
    | some magnitude => .ok (ofQuotient negative magnitude.quotient.1 magnitude.quotient.2)
    | none => .error .outOfRange

/-- Whether two texts are the same up to the case of ASCII letters. -/
def sameLetters (text : List Char) (word : String) : Bool :=
  text.map Char.toLower = word.toList

/-- Reads a signed decimal numeral after its sign. -/
def readDecimalFloat (format : Format) (negative : Bool) (text : List Char) :
    Except NumeralProblem Float :=
  let mantissa := readMantissa Char.isDigit false text
  if mantissa.digits.isEmpty then .error .syntaxInvalid
  else
    let digits := (positionalValue? 10 mantissa.digits).getD 0
    match mantissa.rest with
    | [] => scaledValue format negative digits 10 (-(mantissa.places : Int))
    | c :: rest =>
      if c = 'e' ∨ c = 'E' then
        match readExponent rest with
        | some (exponent, []) => scaledValue format negative digits 10 (exponent - mantissa.places)
        | _ => .error .syntaxInvalid
      else .error .syntaxInvalid

/-- Reads a hexadecimal numeral after its sign and base mark; the binary exponent is required. -/
def readHexFloat (format : Format) (negative : Bool) (text : List Char) :
    Except NumeralProblem Float :=
  let isHex := fun c => match digitValue? c with
    | some d => d < 16
    | none => false
  let mantissa := readMantissa isHex false text
  if mantissa.digits.isEmpty then .error .syntaxInvalid
  else
    let digits := (positionalValue? 16 mantissa.digits).getD 0
    match mantissa.rest with
    | c :: rest =>
      if c = 'p' ∨ c = 'P' then
        match readExponent rest with
        | some (exponent, []) =>
          scaledValue format negative digits 2 (exponent - 4 * mantissa.places)
        | _ => .error .syntaxInvalid
      else .error .syntaxInvalid
    | [] => .error .syntaxInvalid

/--
Reads a floating-point numeral into a format: a sign, then a word, a decimal or a
hexadecimal number.
-/
def readFloat (format : Format) (text : List Char) : Except NumeralProblem Float :=
  let (negative, unsigned) := splitSign text
  if sameLetters unsigned "inf" ∨ sameLetters unsigned "infinity" then .ok (infinity negative)
  else if sameLetters text "nan" then .ok nan
  else if unsigned.contains '_' ∧ underscoresAllowed unsigned = false then .error .syntaxInvalid
  else match unsigned with
    | '0' :: mark :: rest =>
      if mark = 'x' ∨ mark = 'X' then readHexFloat format negative rest
      else readDecimalFloat format negative unsigned
    | _ => readDecimalFloat format negative unsigned

end Lehce.Number
