/-!
# Binary floating-point formats

A finite number of a binary format is a scaled significand `m · 2^q`. This module
names the three formats the library meets, rounds an exact quotient of natural
numbers to the nearest number of a format, and takes a 64-bit number apart into
its sign, significand and exponent. Everything is exact integer arithmetic, so
the texts and bytes built on top of it never depend on how a machine rounds.
-/

namespace Lehce.Number

/-- A non-negative number `significand · 2^exponent`. -/
structure Scaled where
  significand : Nat
  exponent : Int
  deriving Repr, DecidableEq, Inhabited

/--
A binary format: how many bits a significand has, and the exponents of the last
place of its smallest and of its greatest numbers.
-/
structure Format where
  precision : Nat
  least : Int
  greatest : Int
  deriving Repr, DecidableEq

namespace Format

/-- The 64-bit format. -/
def double : Format := ⟨53, -1074, 971⟩

/-- The 32-bit format. -/
def single : Format := ⟨24, -149, 104⟩

/-- The 16-bit format. -/
def half : Format := ⟨11, -24, 5⟩

end Format

/-- The integer nearest to `num / den`; a half goes to the even neighbour. -/
def roundQuotient (num den : Nat) : Nat :=
  let whole := num / den
  let twice := 2 * (num % den)
  if twice < den then whole
  else if den < twice then whole + 1
  else if whole % 2 = 0 then whole
  else whole + 1

/-- `num / den / 2^exponent` as a quotient of natural numbers. -/
def unscale (num den : Nat) (exponent : Int) : Nat × Nat :=
  if exponent < 0 then (num * Nat.pow 2 (-exponent).toNat, den)
  else (num, den * Nat.pow 2 exponent.toNat)

/--
The exponent of the last place that `num / den` has in the format: the least one,
not below the format's own, at which the quotient has no more whole digits than
the precision.
-/
def Format.lastPlace (format : Format) (num den : Nat) : Int :=
  let bits : Int := (num.log2 : Int) - den.log2
  let (scaledNum, scaledDen) := unscale num den bits
  let wide := if scaledNum < scaledDen then bits - format.precision
    else bits + 1 - format.precision
  max wide format.least

/--
The number of the format nearest to `num / den`, ties going to the even
significand, or nothing when it would exceed every number of the format.
-/
def Format.nearest (format : Format) (num den : Nat) : Option Scaled :=
  if num = 0 then some ⟨0, format.least⟩
  else
    let place := format.lastPlace num den
    let (scaledNum, scaledDen) := unscale num den place
    let rounded := roundQuotient scaledNum scaledDen
    let result : Scaled :=
      if rounded = Nat.pow 2 format.precision then ⟨Nat.pow 2 (format.precision - 1), place + 1⟩
      else ⟨rounded, place⟩
    if format.greatest < result.exponent then none else some result

/-- A scaled significand as a quotient of natural numbers. -/
def Scaled.quotient (s : Scaled) : Nat × Nat :=
  if s.exponent < 0 then (s.significand, Nat.pow 2 (-s.exponent).toNat)
  else (s.significand * Nat.pow 2 s.exponent.toNat, 1)

/-- What a 64-bit number is made of. -/
inductive Parts where
  | nan
  | infinite (negative : Bool)
  | finite (negative : Bool) (magnitude : Scaled)
  deriving Repr, DecidableEq

/-- Takes a 64-bit number apart. -/
def parts (x : Float) : Parts :=
  let bits := x.toBits.toNat
  let negative := bits / Nat.pow 2 63 = 1
  let field : Nat := bits / Nat.pow 2 52 % Nat.pow 2 11
  let fraction : Nat := bits % Nat.pow 2 52
  if field = 2047 then
    if fraction = 0 then .infinite negative else .nan
  else if field = 0 then .finite negative ⟨fraction, -1074⟩
  else .finite negative ⟨Nat.pow 2 52 + fraction, Int.ofNat field - 1075⟩

/--
The bits of a number of the 64-bit format, given by a sign and a scaled
significand that `Format.double.nearest` returned.
-/
def assembleBits (negative : Bool) (magnitude : Scaled) : Nat :=
  let sign := if negative then Nat.pow 2 63 else 0
  if magnitude.significand < Nat.pow 2 52 then sign + magnitude.significand
  else sign + (magnitude.exponent + 1075).toNat * Nat.pow 2 52 +
    (magnitude.significand - Nat.pow 2 52)

/-- The 64-bit number with this sign and magnitude. -/
def assemble (negative : Bool) (magnitude : Scaled) : Float :=
  Float.ofBits (assembleBits negative magnitude).toUInt64

/-- Infinity with a sign. -/
def infinity (negative : Bool) : Float :=
  Float.ofBits (if negative then 0xFFF0000000000000 else 0x7FF0000000000000)

/-- The number that is none. -/
def nan : Float := Float.ofBits 0x7FF8000000000001

/-- The 64-bit number nearest to `num / den`; infinite when that is too large. -/
def ofQuotient (negative : Bool) (num den : Nat) : Float :=
  match Format.double.nearest num den with
  | some magnitude => assemble negative magnitude
  | none => infinity negative

/-- The 64-bit number nearest to an integer. -/
def ofInt (n : Int) : Float := ofQuotient (n < 0) n.natAbs 1

end Lehce.Number
