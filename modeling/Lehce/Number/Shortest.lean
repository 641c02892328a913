import Lehce.Number.Format

/-!
# The shortest decimal of a binary number

Among the decimals that round to a given binary number, `Scaled.shortest` takes
one on the coarsest grid `10^e` that has any, and on that grid the one nearest to
the number, an even last digit deciding a tie. Two written layouts of it follow:
`plain` never uses an exponent, `general` uses one outside a fixed range.
-/

namespace Lehce.Number

/-- A non-negative decimal `digits · 10^exponent`. -/
structure Decimal where
  digits : Nat
  exponent : Int
  deriving Repr, DecidableEq, Inhabited

/--
The numbers that round to `m · 2^q`, in quarters of its last place: everything
from `low` to `high` around `4 m`, both ends included when `m` is even. Below a
power of two the last place is half as wide, so the lower end is nearer.
-/
structure RoundingRange where
  low : Nat
  high : Nat
  closed : Bool

/-- The rounding range of a nonzero number of a format. -/
def Scaled.range (format : Format) (s : Scaled) : RoundingRange where
  low := if s.significand = Nat.pow 2 (format.precision - 1) ∧ format.least < s.exponent
    then 4 * s.significand - 1 else 4 * s.significand - 2
  high := 4 * s.significand + 2
  closed := s.significand % 2 = 0

/-- The factor `num / den` that carries quarters of the last place to units of `10^e`. -/
def gridFactor (place e : Int) : Nat × Nat :=
  ( Nat.pow 2 (place - 2).toNat * Nat.pow 10 (-e).toNat,
    Nat.pow 2 (2 - place).toNat * Nat.pow 10 e.toNat )

/-- Whether `k · 10^e` lies in the rounding range, given the grid's factor. -/
def RoundingRange.holds (range : RoundingRange) (num den k : Nat) : Bool :=
  if range.closed then range.low * num ≤ k * den && k * den ≤ range.high * num
  else range.low * num < k * den && k * den < range.high * num

/--
The point of the grid `10^e` nearest to the number among those in its rounding
range; only the two neighbours of the number can be that point.
-/
def Scaled.onGrid (format : Format) (s : Scaled) (e : Int) : Option Nat :=
  let range := s.range format
  let (num, den) := gridFactor s.exponent e
  let value := 4 * s.significand * num
  let below := value / den
  match range.holds num den below, range.holds num den (below + 1) with
  | true, false => some below
  | false, true => some (below + 1)
  | true, true =>
    let twice := 2 * (value % den)
    if twice < den then some below
    else if den < twice then some (below + 1)
    else some (if below % 2 = 0 then below else below + 1)
  | false, false => none

/-- Tries the grids `10^e`, `10^(e-1)`, … and takes the first that has a point. -/
def Scaled.search (format : Format) (s : Scaled) : Nat → Int → Decimal
  | 0, e => ⟨s.significand, e⟩
  | grids + 1, e =>
    match s.onGrid format e with
    | some k => ⟨k, e⟩
    | none => s.search format grids (e - 1)

/--
The shortest decimal that rounds to a nonzero number of the format. The search
starts on a grid coarser than the number itself, and seventeen digits below that
every binary number of at most 53 bits has a decimal.
-/
def Scaled.shortest (format : Format) (s : Scaled) : Decimal :=
  let bits : Int := s.significand.log2 + s.exponent + 1
  s.search format 24 ((bits * 30103).fdiv 100000 + 2)

/-- The decimal digits of a natural number. -/
def digitsOf (n : Nat) : List Char := Nat.toDigits 10 n

/-- Decimal digits with a point, no exponent and no needless zeros. -/
def Decimal.positional (d : Decimal) : String :=
  let digits := digitsOf d.digits
  if 0 ≤ d.exponent then
    String.ofList (if d.digits = 0 then ['0'] else digits ++ List.replicate d.exponent.toNat '0')
  else
    let places := (-d.exponent).toNat
    if places < digits.length then
      let whole := digits.length - places
      String.ofList (digits.take whole ++ '.' :: digits.drop whole)
    else
      String.ofList ('0' :: '.' :: List.replicate (places - digits.length) '0' ++ digits)

/-- An exponent with its sign and at least two digits. -/
def exponentText (e : Int) : String :=
  let digits := String.ofList (digitsOf e.natAbs)
  (if e < 0 then "-" else "+") ++ (if e.natAbs < 10 then "0" else "") ++ digits

/-- One digit, a point with the other digits if there are any, and an exponent. -/
def Decimal.scientific (d : Decimal) : String :=
  let digits := digitsOf d.digits
  let power := d.exponent + (digits.length : Int) - 1
  let fraction := digits.drop 1
  String.ofList (digits.take 1 ++ (if fraction.isEmpty then [] else '.' :: fraction))
    ++ "e" ++ exponentText power

/--
The general layout: positional when the leading digit stands for at least `10^-4`
and less than `10^6`, scientific otherwise.
-/
def Decimal.general (d : Decimal) : String :=
  let power := d.exponent + ((digitsOf d.digits).length : Int) - 1
  if d.digits = 0 then "0"
  else if power < -4 ∨ 6 ≤ power then d.scientific
  else d.positional

/-- The sign a text starts with. -/
def signText (negative : Bool) : String := if negative then "-" else ""

/-- The shortest decimal of a scaled significand; zero has its own. -/
def Scaled.decimal (format : Format) (s : Scaled) : Decimal :=
  if s.significand = 0 then ⟨0, 0⟩ else s.shortest format

end Lehce.Number
