/-!
# Classes of characters

A class of characters is given by the ranges of code points that it consists of, in ascending order.
The tables of this library follow version 17 of the Unicode character data.
-/

namespace ProjectIndex

/-- Closed ranges of code points. -/
abbrev Ranges := List (Nat × Nat)

/-- The character lies in one of the ranges. -/
def Ranges.has (ranges : Ranges) (c : Char) : Bool :=
  ranges.any fun (low, high) => low ≤ c.toNat && c.toNat ≤ high

end ProjectIndex
