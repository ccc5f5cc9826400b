import Arranger.Number.Decimal

/-!
# What scalars mean

A plain scalar is null, a truth value, a number or a text, which is decided by how it is written.

## Main definitions

* `Arranger.Yaml.isNullWord`, `truth?` — the words for nothing and for truth values.
* `Arranger.Yaml.integer?` — integers, in four notations.
* `Arranger.Yaml.float?` — floating-point numbers.
* `Arranger.Yaml.natural?` — integers of a 64-bit word.

## Implementation notes

Several zeros or a zero before digits make a text of what would be an integer, and also of what
would be a float, though `float?` itself does not mind them.
-/

namespace Arranger.Yaml

/-- Whether a text is a word for nothing. -/
def isNullWord (text : String) : Bool :=
  text == "null" || text == "Null" || text == "NULL" || text == "~"

/-- The truth value that a text is the word for. -/
def truth? (text : String) : Option Bool :=
  if text == "true" || text == "True" || text == "TRUE" then some true
  else if text == "false" || text == "False" || text == "FALSE" then some false
  else none

/-! ## Integers -/

/-- The value of a digit, with letters from ten on. -/
def digitValue (c : Char) : Nat :=
  if c.isDigit then c.toNat - 48
  else if 'a' ≤ c ∧ c ≤ 'z' then c.toNat - 87
  else if 'A' ≤ c ∧ c ≤ 'Z' then c.toNat - 55
  else 36

/-- The number that digits of a base spell, of which there must be one. -/
def digits? (base : Nat) (digits : List Char) : Option Nat :=
  if digits.isEmpty || digits.any (base ≤ digitValue ·) then none
  else some (digits.foldl (fun n c => n * base + digitValue c) 0)

/-- Whether the characters are digits with a zero at the start that does not stand alone. -/
def hasLeadingZero (chars : List Char) : Bool :=
  match chars with
  | '0' :: c :: rest => (c :: rest).all Char.isDigit
  | _ => false

/-- The magnitude that the characters spell: after `0x`, `0o` or `0b` in base 16, 8 or 2, and
otherwise in base 10. -/
def magnitude? (chars : List Char) : Option Nat :=
  match chars with
  | '0' :: 'x' :: digits => digits? 16 digits
  | '0' :: 'o' :: digits => digits? 8 digits
  | '0' :: 'b' :: digits => digits? 2 digits
  | _ => if hasLeadingZero chars then none else digits? 10 chars

/-- The integer that the characters spell, with a sign or without. -/
def integer? (chars : List Char) : Option Int :=
  match chars with
  | '-' :: digits => (magnitude? digits).map fun n => -(n : Int)
  | '+' :: digits => (magnitude? digits).map Int.ofNat
  | digits => (magnitude? digits).map Int.ofNat

/-- The integer that a text spells, if it is not negative and fits in 64 bits. -/
def natural? (text : String) : Option UInt64 := do
  let n ← integer? text.toList
  if text.toList.head? != some '-' && n < 18446744073709551616 then
    some (UInt64.ofNat n.toNat)
  else none

/-! ## Floating-point numbers -/

/-- The exponent that the characters give: none without characters, and else a letter and an integer
with a sign or without. -/
def exponent? : List Char → Option Int
  | [] => some 0
  | letter :: chars =>
    if letter == 'e' || letter == 'E' then
      match chars with
      | '-' :: digits => (digits? 10 digits).map fun n => -(n : Int)
      | '+' :: digits => (digits? 10 digits).map Int.ofNat
      | digits => (digits? 10 digits).map Int.ofNat
    else none

/-- The decimal that the characters spell: digits, perhaps with a point, and perhaps an exponent. -/
def decimal? (chars : List Char) : Option Decimal := do
  let whole := chars.takeWhile Char.isDigit
  let rest := chars.dropWhile Char.isDigit
  let (fraction, rest) := match rest with
    | '.' :: rest => (rest.takeWhile Char.isDigit, rest.dropWhile Char.isDigit)
    | rest => ([], rest)
  if whole.isEmpty && fraction.isEmpty then failure
  let decimal := Decimal.ofChars whole fraction
  return { decimal with exponent := decimal.exponent + (← exponent? rest) }

/-- A power of ten above which no number is finite, and the negative of one below which all numbers
are read as zero. -/
def maxDecimalExponent : Int := 400

/-- The floating-point number nearest to a decimal with a sign, if it is finite. -/
def nearest? (negative : Bool) (decimal : Decimal) : Option Double :=
  let leading := decimal.leadingExponent
  if decimal.digits = 0 || leading < -maxDecimalExponent then some (.zero negative)
  else if maxDecimalExponent < leading then none
  else
    let value := if negative then -decimal.value else decimal.value
    let x : Double := Binary.roundSigned negative value
    if x.isFinite then some x else none

/-- The floating-point number that a text spells. The words for infinity take a sign, and the word
for not-a-number does not. -/
def float? (text : String) : Option Double :=
  let infinity := fun word : String => word == ".inf" || word == ".Inf" || word == ".INF"
  match text.toList with
  | '+' :: chars =>
    if infinity (String.ofList chars) then some (.infinite false)
    else (decimal? chars).bind (nearest? false)
  | '-' :: chars =>
    if infinity (String.ofList chars) then some (.infinite true)
    else (decimal? chars).bind (nearest? true)
  | chars =>
    if infinity text then some (.infinite false)
    else if text == ".nan" || text == ".NaN" || text == ".NAN" then some .nan
    else (decimal? chars).bind (nearest? false)

end Arranger.Yaml
