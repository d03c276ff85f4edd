/-!
# Sets of characters given by ranges

A property of characters that follows no formula is written down as the ranges of code points
that have it, in ascending order and with both ends included.
-/

namespace Lindenmayer.Text

/-- Ranges of code points, both ends included. -/
abbrev CodeRanges := List (Nat × Nat)

/-- Whether a code point lies in one of the ranges. -/
def CodeRanges.contains (ranges : CodeRanges) (code : Nat) : Bool :=
  ranges.any fun (low, high) => low ≤ code && code ≤ high

end Lindenmayer.Text
