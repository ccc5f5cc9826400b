import Arranger.Number.Arithmetic

/-!
# Whole floating-point numbers

Rounding a number to a whole number of its own format, and reading a whole number off as a
natural number of a machine word.

## Main definitions

* `Arranger.Binary.floor`, `ceil`, `roundAway` — whole numbers near a number.
* `Arranger.Binary.isWhole` — whether a number is finite and whole.
* `Arranger.Binary.toWord` — the integer part, kept within `0` and `maxWord`.
* `Arranger.slack` — what is added before rounding down a number that should be whole.
-/

namespace Arranger

/-- The largest count, index or length: the largest number of a 64-bit word. -/
def maxWord : Nat := 18446744073709551615

/-- A small allowance for the rounding of a quotient or product that should be whole. -/
def slack : Double := 1 / 1000000000

namespace Binary

variable {format : Format}

/-- The whole number that `f` gives for the value of a finite number. A zero result keeps the
sign of the number; the other numbers stay as they are. -/
def mapWhole (f : Rat → Int) : Binary format → Binary format
  | .nan => .nan
  | .infinite negative => .infinite negative
  | x@(.finite negative _ _ _) => roundSigned negative (f x.value)

/-- The largest whole number that is not above the number. -/
def floor (x : Binary format) : Binary format :=
  x.mapWhole Rat.floor

/-- The smallest whole number that is not below the number. -/
def ceil (x : Binary format) : Binary format :=
  x.mapWhole Rat.ceil

/-- The nearest whole number, a half going away from zero. -/
def roundAway (x : Binary format) : Binary format :=
  x.mapWhole roundHalfAway

/-- Whether the number is finite and whole. -/
def isWhole (x : Binary format) : Bool :=
  x.isFinite && x.value.den == 1

/-- The integer part as a word: nothing is `0`, what is negative is `0`, and what is too large is
`maxWord`. -/
def toWord : Binary format → Nat
  | .nan => 0
  | .infinite negative => if negative then 0 else maxWord
  | x@(.finite _ _ _ _) => min (truncate x.value).toNat maxWord

end Binary

end Arranger
