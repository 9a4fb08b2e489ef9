/-!
Sets of characters given by inclusive ranges of code points.
-/

namespace Forwarding.Text

/-- Whether a code point lies in one of the inclusive ranges. -/
def inRanges (ranges : List (Nat × Nat)) (code : Nat) : Bool :=
  ranges.any fun (low, high) => low ≤ code && code ≤ high

end Forwarding.Text
