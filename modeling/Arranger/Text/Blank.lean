import Arranger.Text.CharClass

/-!
# Blank characters

The characters with the Unicode property White_Space: tabs, line breaks and spaces.

## Main definitions

* `Arranger.isBlank` — whether a character is blank.
* `Arranger.trimBlank` — a text without the blanks at its ends.
-/

namespace Arranger

/-- The characters with the property White_Space. -/
def blankChars : CharClass :=
  ⟨[(0x9, 0xD), (0x20, 0x20), (0x85, 0x85), (0xA0, 0xA0), (0x1680, 0x1680), (0x2000, 0x200A),
    (0x2028, 0x2029), (0x202F, 0x202F), (0x205F, 0x205F), (0x3000, 0x3000)]⟩

/-- Whether a character is blank. -/
def isBlank (c : Char) : Bool :=
  blankChars.contains c

/-- The characters without the blank ones at either end. -/
def trimBlank (cs : List Char) : List Char :=
  ((cs.dropWhile isBlank).reverse.dropWhile isBlank).reverse

end Arranger
