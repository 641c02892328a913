import Lehce.Number.Numeral
import Lehce.Text.Letter
import Lehce.Text.Digit
import Lehce.Token.Basic

/-!
# Numeric literals

How a numeric literal is cut off the front of a line. `0x`, `0b` and `0o` choose a
base, and so does a leading zero with a digit or an underscore after it;
underscores may stand anywhere after the first character. A decimal literal with
a fraction or an exponent, or one that exceeds the 64-bit integers, is a
floating-point number.
-/

namespace Lehce.Token

/-- Whether a symbol may start with this character. -/
def isSymbolStart (c : Char) : Bool := Text.isLetter c || c == '_'

/-- Whether a symbol may go on with this character. -/
def isSymbolPart (c : Char) : Bool := isSymbolStart c || Text.isDigit c

/-- Why the characters at the front of a line are no numeric literal. -/
inductive NumeralFault where
  | invalidDigit (digit : Char) (base : Nat)
  | noDigits
  | unexpected (c : Char)
  | unreadable (reader : Number.NumeralReader) (digits : String) (problem : Number.NumeralProblem)

/-- The detail text of a refused literal. -/
def NumeralFault.detail : NumeralFault → String
  | invalidDigit digit base =>
    "invalid digit " ++ Text.quoteChar digit ++ " for base " ++ toString base
  | noDigits => "number has no digits"
  | unexpected c => "unexpected " ++ Text.quoteChar c ++ " in number"
  | unreadable reader digits problem => problem.message reader digits

/-- A run of characters: those kept, how many were passed over, and what follows. -/
structure Run where
  kept : List Char
  length : Nat
  rest : List Char

/--
Passes over digits of a base and underscores, keeping the digits. A letter that is
a digit of some base but not of this one is an error, reported with the number of
characters before it.
-/
def basedRun (base : Nat) : List Char → Nat → List Char → Except (NumeralFault × Nat) Run
  | [], length, kept => .ok ⟨kept.reverse, length, []⟩
  | c :: rest, length, kept =>
    if c = '_' then basedRun base rest (length + 1) kept
    else match Number.digitValue? c with
      | some value =>
        if 16 ≤ value then .ok ⟨kept.reverse, length, c :: rest⟩
        else if base ≤ value then .error (.invalidDigit c base, length)
        else basedRun base rest (length + 1) (c :: kept)
      | none => .ok ⟨kept.reverse, length, c :: rest⟩

/-- Passes over decimal digits and underscores, keeping the digits. -/
def decimalRun (chars : List Char) : Run :=
  let run := chars.takeWhile fun c => c.isDigit || c == '_'
  ⟨run.filter (· != '_'), run.length, chars.drop run.length⟩

/-- A literal that was read: its token, how many characters it took, and what follows. -/
structure Literal where
  kind : Kind
  length : Nat
  rest : List Char

/-- Reads the digits after a base mark of `mark` characters. -/
def basedLiteral (base mark : Nat) (chars : List Char) : Except (NumeralFault × Nat) Literal := do
  let run ← basedRun base chars mark []
  if run.kept.isEmpty then throw (.noDigits, run.length)
  if let c :: _ := run.rest then
    if isSymbolStart c then throw (.unexpected c, run.length)
  match Number.readInteger base 64 run.kept with
  | .ok value => return ⟨.integer value, run.length, run.rest⟩
  | .error problem =>
    throw (.unreadable .integer (String.ofList run.kept) problem, run.length)

/-- Extends a run of digits by a fraction, when a point and a digit follow. -/
def withFraction (run : Run) : Run × Bool :=
  match run.rest with
  | '.' :: c :: rest =>
    if c.isDigit then
      let fraction := decimalRun (c :: rest)
      (⟨run.kept ++ '.' :: fraction.kept, run.length + 1 + fraction.length, fraction.rest⟩, true)
    else (run, false)
  | _ => (run, false)

/-- Extends a run of digits by an exponent, when its mark and a digit follow. -/
def withExponent (run : Run) : Run × Bool :=
  let extend (sign : List Char) (digits : List Char) : Run :=
    let power := decimalRun digits
    ⟨run.kept ++ 'e' :: sign ++ power.kept, run.length + 1 + sign.length + power.length, power.rest⟩
  match run.rest with
  | mark :: c :: rest =>
    if mark = 'e' ∨ mark = 'E' then
      if c.isDigit then (extend [] (c :: rest), true)
      else if c = '+' ∨ c = '-' then
        match rest with
        | d :: _ => if d.isDigit then (extend [c] rest, true) else (run, false)
        | [] => (run, false)
      else (run, false)
    else (run, false)
  | _ => (run, false)

/-- Reads a decimal literal: digits, a fraction and an exponent, each but the first optional. -/
def decimalLiteral (chars : List Char) : Except (NumeralFault × Nat) Literal := do
  let (run, fraction) := withFraction (decimalRun chars)
  let (run, exponent) := withExponent run
  if let c :: _ := run.rest then
    if Text.isLetter c then throw (.unexpected c, run.length)
  let integer := if fraction || exponent then none
    else (Number.readInteger 10 64 run.kept).toOption
  match integer with
  | some value => return ⟨.integer value, run.length, run.rest⟩
  | none =>
    match Number.readFloat .double run.kept with
    | .ok value => return ⟨.double value, run.length, run.rest⟩
    | .error problem =>
      throw (.unreadable .floating (String.ofList run.kept) problem, run.length)

/-- Whether a numeric literal starts here. -/
def startsNumeral : List Char → Bool
  | '.' :: c :: _ => c.isDigit
  | c :: _ => c.isDigit
  | [] => false

/-- Reads the numeric literal at the front of a line. -/
def numeral (chars : List Char) : Except (NumeralFault × Nat) Literal :=
  match chars with
  | '0' :: mark :: rest =>
    if mark = 'x' ∨ mark = 'X' then basedLiteral 16 2 rest
    else if mark = 'b' ∨ mark = 'B' then basedLiteral 2 2 rest
    else if mark = 'o' ∨ mark = 'O' then basedLiteral 8 2 rest
    else if mark.isDigit ∨ mark = '_' then basedLiteral 8 1 (mark :: rest)
    else decimalLiteral chars
  | _ => decimalLiteral chars

end Lehce.Token
