import Arranger.Number.Arithmetic

/-!
# Decimal numerals

A decimal is a whole number of units of a power of ten. This module reads a decimal as a
floating-point number and finds, for a floating-point number, the shortest decimal that reads
back as it.

## Main definitions

* `Arranger.Decimal` — digits with the power of ten of the last one.
* `Arranger.Decimal.ofChars` — the decimal written with digits before and after a point.
* `Arranger.Decimal.toBinary` — the nearest floating-point number.
* `Arranger.Binary.shortest` — the fewest digits that read back as the number.

## Implementation notes

The search tries one digit, two digits, and so on, and on each grid only the two neighbours of
the number. It starts one place above the leading digit, where the upper neighbour is a power of
ten. A hit is checked by reading it back, so what the search returns reads back by
construction; a number that no grid of the search meets is written out exactly, as every
floating-point number is itself a decimal.
-/

namespace Arranger

/-- The decimal `digits * 10 ^ exponent`. -/
structure Decimal where
  /-- The digits, as one natural number. -/
  digits : Nat
  /-- The power of ten of the last digit. -/
  exponent : Int
deriving DecidableEq, Repr

namespace Decimal

/-- The exact value. -/
def value (d : Decimal) : Rat :=
  d.digits * (10 : Rat) ^ d.exponent

/-- The decimal written with the digits `whole` before the point and `fraction` after it. -/
def ofChars (whole fraction : List Char) : Decimal :=
  ⟨Nat.ofDigitChars 10 (whole ++ fraction) 0, -(fraction.length : Int)⟩

/-- The floating-point number nearest to the decimal. -/
def toBinary {format : Format} (d : Decimal) : Binary format :=
  Binary.round d.value

/-- The power of ten of the leading digit. -/
def leadingExponent (d : Decimal) : Int :=
  (Nat.toDigits 10 d.digits).length - 1 + d.exponent

end Decimal

namespace Binary

variable {format : Format}

/-- The magnitude of a finite number, written out exactly: below the point, halving a digit
takes one more decimal place. -/
def exactDecimal : Binary format → Decimal
  | .finite _ significand (.ofNat e) _ => ⟨significand * Nat.pow 2 e, 0⟩
  | .finite _ significand (.negSucc e) _ => ⟨significand * Nat.pow 5 (e + 1), .negSucc e⟩
  | _ => ⟨0, 0⟩

/-- The nearer neighbour of the magnitude of `x` among the multiples of `10 ^ place` that read
back as it; of two equally near ones the upper. -/
def neighbour? (x : Binary format) (place : Int) : Option Decimal :=
  let magnitude := x.value.abs
  let unit := (10 : Rat) ^ place
  let below := (magnitude / unit).floor.toNat
  let readsBack := fun n : Nat => decide ((Decimal.mk n place).toBinary = x.abs)
  if readsBack below &&
      (!readsBack (below + 1) || decide (magnitude - below * unit < (below + 1) * unit - magnitude))
    then some ⟨below, place⟩
  else if readsBack (below + 1) then some ⟨below + 1, place⟩
  else none

/-- The shortest decimal that reads back as the magnitude of a finite number. -/
def shortest (x : Binary format) : Decimal :=
  let leading := x.exactDecimal.leadingExponent
  ((List.range 18).findSome? fun k : Nat => x.neighbour? (leading + 1 - k)).getD x.exactDecimal

end Binary

end Arranger
