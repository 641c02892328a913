import Lehce.Number.Shortest

/-!
# Written numbers

The two layouts in which whole numbers of a format appear: `plainText` is how the
language itself shows a number, `generalText` is how tokens, arguments and
settings show one. They differ in the use of exponents and in how they spell the
infinities.
-/

namespace Lehce.Number

/-- A 64-bit number as the language shows it: never with an exponent. -/
def plainText (x : Float) : String :=
  match parts x with
  | .nan => "NaN"
  | .infinite negative => signText negative ++ "sonsuz"
  | .finite negative magnitude => signText negative ++ (magnitude.decimal .double).positional

/-- A 64-bit number in the general layout. -/
def generalText (x : Float) : String :=
  match parts x with
  | .nan => "NaN"
  | .infinite negative => (if negative then "-" else "+") ++ "Inf"
  | .finite negative magnitude => signText negative ++ (magnitude.decimal .double).general

/-- The nearest 32-bit number in the general layout, with the digits that precision needs. -/
def singleText (x : Float) : String :=
  match parts x with
  | .nan => "NaN"
  | .infinite negative => (if negative then "-" else "+") ++ "Inf"
  | .finite negative magnitude =>
    let (num, den) := magnitude.quotient
    match Format.single.nearest num den with
    | none => (if negative then "-" else "+") ++ "Inf"
    | some rounded => signText negative ++ (rounded.decimal .single).general

end Lehce.Number
