/-!
# Sets of characters given by ranges

A character property is a list of closed code point ranges, in rising order. `Ranges.contains` is
membership; the tables of the single properties stand in modules of their own.
-/

namespace MipsLab.Text

/-- Closed ranges of code points, in rising order. -/
abbrev Ranges := List (Nat × Nat)

/-- Whether a code point lies in one of the ranges. -/
def Ranges.contains (table : Ranges) (code : Nat) : Bool :=
  table.any fun range => range.1 ≤ code && code ≤ range.2

end MipsLab.Text
