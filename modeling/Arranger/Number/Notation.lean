import Arranger.Number.Decimal

/-!
# Writing floating-point numbers

A number is written with the shortest digits that read back as it. What remains to be chosen is
where the point goes, and that choice is a `Notation`.

## Main definitions

* `Arranger.Notation` — the choices of a text format.
* `Arranger.Notation.plain` — the notation of patterns and messages: no exponents.
* `Arranger.Notation.tagged` — the notation of token names: always a point or an exponent.
* `Arranger.Notation.write` — the characters of a number.
-/

namespace Arranger

/-- How a text format writes floating-point numbers. -/
structure Notation where
  /-- Whether a whole number is followed by `.0`. -/
  marksWhole : Bool
  /-- The exponents of the leading digit, first and last, between which no exponent is written;
  without a range none ever is. -/
  positional : Option (Int × Int)

namespace Notation

/-- Digits and a point, however large or small the number. -/
def plain : Notation := ⟨false, none⟩

/-- A whole number carries `.0`, and what is below `10 ^ -4` or from `10 ^ 16` on has an
exponent. -/
def tagged : Notation := ⟨true, some (-4, 15)⟩

/-- The digits with the point `exponent` places from the right end. -/
def placePoint (marksWhole : Bool) (digits : List Char) : Int → List Char
  | .ofNat zeros =>
    digits ++ List.replicate zeros '0' ++ (if marksWhole then ['.', '0'] else [])
  | .negSucc places =>
    let padded := List.replicate (places + 2 - digits.length) '0' ++ digits
    let whole := padded.length - (places + 1)
    padded.take whole ++ '.' :: padded.drop whole

/-- The digits with the point after the first, and the exponent of the first. -/
def scientific (digits : List Char) (leading : Int) : List Char :=
  let fraction := match digits.drop 1 with
    | [] => []
    | rest => '.' :: rest
  digits.take 1 ++ fraction ++ 'e' :: (toString leading).toList

/-- The characters of a magnitude. -/
def writeDecimal (style : Notation) (d : Decimal) : List Char :=
  let digits := Nat.toDigits 10 d.digits
  let inRange := match style.positional with
    | none => true
    | some (first, last) =>
      d.digits == 0 || (decide (first ≤ d.leadingExponent) && decide (d.leadingExponent ≤ last))
  if inRange then placePoint style.marksWhole digits d.exponent
  else scientific digits d.leadingExponent

/-- The characters of a number. -/
def write {format : Format} (style : Notation) (x : Binary format) : List Char :=
  let sign := if x.isNegative then ['-'] else []
  match x with
  | .nan => ['N', 'a', 'N']
  | .infinite _ => sign ++ ['i', 'n', 'f']
  | .finite _ 0 _ _ => sign ++ style.writeDecimal ⟨0, 0⟩
  | .finite _ _ _ _ => sign ++ style.writeDecimal x.shortest

end Notation

namespace Binary

variable {format : Format}

/-- The number in plain notation. -/
def toText (x : Binary format) : String :=
  String.ofList (Notation.plain.write x)

end Binary

end Arranger
