/-!
# Rounding exact rationals to integers

Every floating-point operation of this library is an exact rational computation followed by one
rounding. This module holds the roundings to an integer and the position of the leading binary
digit; `Arranger.Number.Binary` builds the floating-point formats on them.

## Main definitions

* `Arranger.roundHalfEven` — nearest integer, a half goes to the even neighbour.
* `Arranger.roundHalfAway` — nearest integer, a half goes away from zero.
* `Arranger.truncate` — the integer part, toward zero.
* `Arranger.floorLog2` — the exponent of the leading binary digit of a positive rational.
-/

namespace Arranger

/-- The integer nearest to `q`; half way between two integers, the even one. -/
def roundHalfEven (q : Rat) : Int :=
  let below := q.floor
  let rest := q - below
  if rest < 1 / 2 then below
  else if 1 / 2 < rest then below + 1
  else below + below % 2

/-- The integer nearest to `q`; half way between two integers, the one farther from zero. -/
def roundHalfAway (q : Rat) : Int :=
  if q < 0 then -(-q + 1 / 2).floor else (q + 1 / 2).floor

/-- The integer part of `q`: the last integer met on the way from zero to `q`. -/
def truncate (q : Rat) : Int :=
  if q < 0 then q.ceil else q.floor

/-- The exponent `k` with `2 ^ k ≤ q < 2 ^ (k + 1)`, for positive `q`.

The difference of the bit lengths of numerator and denominator is `k` or `k + 1`, so one
comparison decides. -/
def floorLog2 (q : Rat) : Int :=
  let k : Int := q.num.natAbs.log2 - q.den.log2
  if (2 : Rat) ^ k ≤ q then k else k - 1

end Arranger
