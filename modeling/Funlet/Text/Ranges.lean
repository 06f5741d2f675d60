/-!
# Sets of characters as ranges

A property of characters that a standard gives as a table is held here as a list of inclusive
ranges of code points.
-/

set_option autoImplicit false

namespace Funlet.Text

/-- A set of code points, as inclusive ranges in ascending order. -/
abbrev CodeRanges := List (Nat × Nat)

def CodeRanges.holds (ranges : CodeRanges) (c : Char) : Bool :=
  ranges.any fun range => decide (range.1 ≤ c.toNat) && decide (c.toNat ≤ range.2)

end Funlet.Text
