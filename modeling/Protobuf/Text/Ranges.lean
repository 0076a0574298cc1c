/-! Sets of characters as lists of ranges of their codes.
-/

namespace Protobuf.Text

/-- The code lies in one of the ranges, both ends of which count. -/
def inRanges (ranges : List (Nat × Nat)) (code : Nat) : Bool :=
  ranges.any fun range => range.1 ≤ code && code ≤ range.2

end Protobuf.Text
