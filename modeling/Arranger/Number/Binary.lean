import Arranger.Number.Rounding

/-!
# Binary floating-point numbers

A floating-point format is fixed by the number of digits of its significands and the range of
its exponents. A number of the format is not-a-number, an infinity, or a sign with a significand
and an exponent in canonical form, so that equal numbers are equal terms; the two zeros differ
in their sign.

## Main definitions

* `Arranger.Format` — a format, with the instances `Format.double` and `Format.single`.
* `Arranger.Binary` — the numbers of a format; `Double` and `Sample` are the two in use.
* `Arranger.Binary.value` — the exact rational value of a finite number.
* `Arranger.Binary.round` — the number of the format nearest to a rational.

## Implementation notes

Numbers are a type of this library and not the machine's `Float`: every operation is then a
definition that can be evaluated and reasoned about, and one definition serves both widths.
All the arithmetic is `Binary.round` of an exact rational result.
-/

namespace Arranger

/-- A binary floating-point format. -/
structure Format where
  /-- Number of binary digits of a significand. -/
  precision : Nat
  /-- Exponent of the last place of the smallest numbers. -/
  minExponent : Int
  /-- Exponent of the last place of the largest numbers. -/
  maxExponent : Int
deriving DecidableEq, Repr

namespace Format

/-- The 64-bit format: 53 digits. -/
def double : Format := ⟨53, -1074, 971⟩

/-- The 32-bit format: 24 digits. -/
def single : Format := ⟨24, -149, 104⟩

/-- The canonical way to write a magnitude: the significand fits, the exponent is in range, and
the leading digit is one unless the exponent is already the smallest. -/
def Canonical (format : Format) (significand : Nat) (exponent : Int) : Prop :=
  significand < Nat.pow 2 format.precision ∧
    format.minExponent ≤ exponent ∧ exponent ≤ format.maxExponent ∧
    (exponent = format.minExponent ∨ Nat.pow 2 (format.precision - 1) ≤ significand)

instance (format : Format) (significand : Nat) (exponent : Int) :
    Decidable (format.Canonical significand exponent) :=
  inferInstanceAs (Decidable (_ ∧ _))

/-- The exponent of the last place kept when a magnitude is rounded. -/
def lastPlace (format : Format) (magnitude : Rat) : Int :=
  max format.minExponent (floorLog2 magnitude - (format.precision - 1 : Int))

end Format

/-- A number of a binary floating-point format. -/
inductive Binary (format : Format) where
  /-- Not a number. -/
  | nan
  /-- An infinity. -/
  | infinite (negative : Bool)
  /-- The number `± significand * 2 ^ exponent`. -/
  | finite (negative : Bool) (significand : Nat) (exponent : Int)
      (canonical : format.Canonical significand exponent)
deriving DecidableEq

/-- The 64-bit numbers, used for beats, times and positions. -/
abbrev Double := Binary Format.double

/-- The 32-bit numbers, used for sound samples. -/
abbrev Sample := Binary Format.single

namespace Binary

variable {format : Format}

/-- The number `± significand * 2 ^ exponent` where that is canonical, and an infinity where the
exponent is too large for it. -/
def pack (negative : Bool) (significand : Nat) (exponent : Int) : Binary format :=
  if h : format.Canonical significand exponent then .finite negative significand exponent h
  else .infinite negative

/-- The zero of a sign. -/
def zero (negative : Bool) : Binary format :=
  pack negative 0 format.minExponent

/-- The exact value of a finite number, and zero for the others. -/
def value : Binary format → Rat
  | .finite negative significand exponent _ =>
    (if negative then -(significand : Int) else (significand : Int) : Int) * (2 : Rat) ^ exponent
  | _ => 0

/-- Whether the sign is minus; the sign of not-a-number is plus. -/
def isNegative : Binary format → Bool
  | .nan => false
  | .infinite negative => negative
  | .finite negative _ _ _ => negative

/-- Whether the number is finite. -/
def isFinite : Binary format → Bool
  | .finite _ _ _ _ => true
  | _ => false

/-- The number of the format nearest to `q`, of two equally near ones the one with the even
significand; beyond the largest number an infinity. A zero result takes the sign `negative`,
which otherwise plays no part. -/
def roundSigned (negative : Bool) (q : Rat) : Binary format :=
  if q = 0 then zero negative
  else
    let exponent := format.lastPlace q.abs
    let significand := (roundHalfEven (q.abs / (2 : Rat) ^ exponent)).toNat
    let sign := decide (q < 0)
    if significand < Nat.pow 2 format.precision then pack sign significand exponent
    else pack sign (significand / 2) (exponent + 1)

/-- The number of the format nearest to `q`; zero is the positive zero. -/
def round (q : Rat) : Binary format :=
  roundSigned false q

instance : OfNat (Binary format) n := ⟨round n⟩

instance : Inhabited (Binary format) := ⟨.nan⟩

/-- The number nearest to a natural number. -/
def ofNat (n : Nat) : Binary format :=
  round n

/-- The number nearest to an integer. -/
def ofInt (n : Int) : Binary format :=
  round n

/-- The nearest number of another format. -/
def convert {target : Format} : Binary format → Binary target
  | .nan => .nan
  | .infinite negative => .infinite negative
  | x@(.finite negative _ _ _) => roundSigned negative x.value

end Binary

end Arranger
