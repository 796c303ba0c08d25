/-!
# Classes of characters

A class of characters is given by closed ranges of code points, in ascending order.
-/

namespace SingleCycle.Text

/-- Whether a code point lies in one of the closed ranges. -/
def inRanges (ranges : List (Nat × Nat)) (n : Nat) : Bool :=
  ranges.any fun range => range.1 ≤ n && n ≤ range.2

end SingleCycle.Text
