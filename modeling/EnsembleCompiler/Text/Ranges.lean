/-!
# Sets of characters as ranges

A set of characters is a list of ranges of code points in increasing order.
-/

namespace EnsembleCompiler.Text

/-- Ranges of code points, both ends included, in increasing order. -/
abbrev Ranges := List (Nat × Nat)

/-- Whether a code point is in one of the ranges. -/
def Ranges.contains : Ranges → Nat → Bool
  | [], _ => false
  | (first, last) :: rest, n => if n < first then false else n ≤ last || Ranges.contains rest n

end EnsembleCompiler.Text
