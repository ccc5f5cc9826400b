/-!
# Classes of characters

A class of characters is a list of ranges of code points.

## Main definitions

* `Arranger.CharClass` — the ranges, first and last code point of each.
* `Arranger.CharClass.contains` — whether a character is in the class.
-/

namespace Arranger

/-- A class of characters, as ranges of code points with both ends included. -/
structure CharClass where
  /-- The ranges, in ascending order. -/
  ranges : List (Nat × Nat)

/-- Whether a character is in one of the ranges. -/
def CharClass.contains (charClass : CharClass) (c : Char) : Bool :=
  charClass.ranges.any fun range => range.1 ≤ c.toNat && c.toNat ≤ range.2

end Arranger
