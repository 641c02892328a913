/-!
# Sets of code points

A set of code points is a list of closed ranges in ascending order, and membership
is a walk along the list that ends at the first range that is not wholly below the
code point.
-/

namespace Lehce.Text

/-- Whether a code point lies in one of the ranges, which are in ascending order. -/
def inRanges : List (Nat × Nat) → Nat → Bool
  | [], _ => false
  | (first, last) :: rest, code =>
    if code < first then false else if code ≤ last then true else inRanges rest code

end Lehce.Text
