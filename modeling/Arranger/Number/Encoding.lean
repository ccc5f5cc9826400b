import Arranger.Number.Binary

/-!
# Bit patterns

The interchange encoding of a floating-point number: a sign bit, a biased exponent and the
significand without its leading one.

## Main definitions

* `Arranger.Binary.toBits` — the bit pattern as a natural number; not-a-number has the quiet
  pattern with the sign bit clear.
-/

namespace Arranger

/-- The biased exponent that marks the infinities and not-a-number: all its bits are ones. -/
def Format.specialExponent (format : Format) : Nat :=
  (format.maxExponent - format.minExponent + 2).toNat

/-- The pattern of a sign, a biased exponent and the digits after the leading one. -/
def Format.joinBits (format : Format) (negative : Bool) (exponent digits : Nat) : Nat :=
  let signed := if negative then format.specialExponent + 1 else 0
  (signed + exponent) * Nat.pow 2 (format.precision - 1) + digits

namespace Binary

variable {format : Format}

/-- The bit pattern of a number. -/
def toBits : Binary format → Nat
  | .nan => format.joinBits false format.specialExponent (Nat.pow 2 (format.precision - 2))
  | .infinite negative => format.joinBits negative format.specialExponent 0
  | .finite negative significand exponent _ =>
    let one := Nat.pow 2 (format.precision - 1)
    if significand < one then format.joinBits negative 0 significand
    else
      format.joinBits negative (exponent - format.minExponent + 1).toNat (significand - one)

end Binary

end Arranger
