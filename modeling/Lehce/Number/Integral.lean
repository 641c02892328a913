import Lehce.Number.Format

/-!
# Whole numbers among the floating-point ones

Which numbers are whole, their value as an integer, the rounding functions, and the
remainder of a division. All of it is computed on sign, significand and exponent,
so the results are exact; a result that is zero keeps the sign of its argument.
-/

namespace Lehce.Number

/-- The value of a scaled significand when it is whole. -/
def Scaled.whole? (s : Scaled) : Option Nat :=
  if 0 ≤ s.exponent then some (s.significand * Nat.pow 2 s.exponent.toNat)
  else
    let unit := Nat.pow 2 (-s.exponent).toNat
    if s.significand % unit = 0 then some (s.significand / unit) else none

/-- The integer that a number is, if it is one. -/
def integer? (x : Float) : Option Int :=
  match parts x with
  | .finite negative magnitude =>
    magnitude.whole?.map fun n => if negative then -(n : Int) else n
  | _ => none

/-- The least signed 64-bit integer. -/
def minInt64 : Int := -9223372036854775808

/-- Whether an integer is a signed 64-bit one. -/
def fitsInt64 (n : Int) : Bool := minInt64 ≤ n && n < -minInt64

/-- A signed 64-bit integer stays, and everything else becomes the least one. -/
def clampInt64 (n : Int) : Int := if fitsInt64 n then n else minInt64

/-- Whether a number is a signed 64-bit integer. -/
def isIntegral (x : Float) : Bool :=
  match integer? x with
  | some n => fitsInt64 n
  | none => false

/-- A number cut to a signed 64-bit integer; what does not fit becomes the least one. -/
def truncate (x : Float) : Int :=
  match parts x with
  | .finite negative magnitude =>
    let (num, den) := magnitude.quotient
    let whole : Int := num / den
    clampInt64 (if negative then -whole else whole)
  | _ => minInt64

/-- Rounds a number to an integer by a rule on its sign and the quotient of its magnitude. -/
def roundBy (rule : Bool → Nat → Nat → Nat) (x : Float) : Float :=
  match parts x with
  | .finite negative magnitude =>
    let (num, den) := magnitude.quotient
    ofQuotient negative (rule negative num den) 1
  | _ => x

/-- The greatest integer that is not above a number. -/
def floor (x : Float) : Float :=
  roundBy (fun negative num den => if negative then (num + den - 1) / den else num / den) x

/-- The least integer that is not below a number. -/
def ceil (x : Float) : Float :=
  roundBy (fun negative num den => if negative then num / den else (num + den - 1) / den) x

/-- The nearest integer; a half goes away from zero. -/
def round (x : Float) : Float :=
  roundBy (fun _ num den => (2 * num + den) / (2 * den)) x

/-- A number without its sign. -/
def abs (x : Float) : Float :=
  match parts x with
  | .nan => nan
  | .infinite _ => infinity false
  | .finite _ magnitude => assemble false magnitude

/-- The remainder of a division that is cut to an integer; it has the dividend's sign. -/
def remainder (x y : Float) : Float :=
  match parts x, parts y with
  | .finite negative a, .finite _ b =>
    if b.significand = 0 then nan
    else
      let place := min a.exponent b.exponent
      let dividend := a.significand * Nat.pow 2 (a.exponent - place).toNat
      let divisor := b.significand * Nat.pow 2 (b.exponent - place).toNat
      let rest : Scaled := ⟨dividend % divisor, place⟩
      ofQuotient negative rest.quotient.1 rest.quotient.2
  | .finite _ _, .infinite _ => x
  | _, _ => nan

end Lehce.Number
