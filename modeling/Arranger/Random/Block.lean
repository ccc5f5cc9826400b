/-!
# The block function of the random generator

A block of sixteen 32-bit words is mixed by rounds of addition, rotation and exclusive or, and
added to itself. Eight rounds of the ChaCha permutation are used: four times a round over the
columns of the four-by-four square of words and a round over its diagonals.

## Main definitions

* `Arranger.Row`, `Arranger.Block` — four words, and four rows of them.
* `Arranger.Block.scrambled` — the block function.

## Implementation notes

A round works on the four columns alike, so it is written once, on rows. The diagonals become
columns when the rows are turned by one, two and three places.
-/

namespace Arranger

/-- Four words. -/
structure Row where
  /-- The word in the first column. -/
  first : UInt32
  /-- The word in the second column. -/
  second : UInt32
  /-- The word in the third column. -/
  third : UInt32
  /-- The word in the fourth column. -/
  fourth : UInt32
deriving DecidableEq

namespace Row

/-- Two rows combined column by column. -/
def combine (f : UInt32 → UInt32 → UInt32) (x y : Row) : Row :=
  ⟨f x.first y.first, f x.second y.second, f x.third y.third, f x.fourth y.fourth⟩

/-- The word with its bits rotated to the left by less than 32 places. -/
def rotateWord (places : UInt32) (word : UInt32) : UInt32 :=
  word <<< places ||| word >>> (32 - places)

/-- Each word with its bits rotated to the left. -/
def rotateBits (places : UInt32) (x : Row) : Row :=
  ⟨rotateWord places x.first, rotateWord places x.second, rotateWord places x.third,
    rotateWord places x.fourth⟩

/-- The row turned by one column. -/
def turn (x : Row) : Row :=
  ⟨x.second, x.third, x.fourth, x.first⟩

/-- The words from the first column to the last. -/
def toList (x : Row) : List UInt32 :=
  [x.first, x.second, x.third, x.fourth]

end Row

/-- Four rows of words. -/
structure Block where
  /-- The first row. -/
  top : Row
  /-- The second row. -/
  upper : Row
  /-- The third row. -/
  lower : Row
  /-- The fourth row. -/
  bottom : Row
deriving DecidableEq

namespace Block

/-- Half a round over the columns. -/
def halfRound (small large : UInt32) (block : Block) : Block :=
  let top := block.top.combine (· + ·) block.upper
  let bottom := (block.bottom.combine (· ^^^ ·) top).rotateBits small
  let lower := block.lower.combine (· + ·) bottom
  let upper := (block.upper.combine (· ^^^ ·) lower).rotateBits large
  ⟨top, upper, lower, bottom⟩

/-- A round over the columns. -/
def columnRound (block : Block) : Block :=
  (block.halfRound 16 12).halfRound 8 7

/-- The block with its diagonals as columns. -/
def diagonalsUp (block : Block) : Block :=
  ⟨block.top, block.upper.turn, block.lower.turn.turn, block.bottom.turn.turn.turn⟩

/-- The block with its columns as diagonals. -/
def diagonalsDown (block : Block) : Block :=
  ⟨block.top, block.upper.turn.turn.turn, block.lower.turn.turn, block.bottom.turn⟩

/-- A round over the columns and one over the diagonals. -/
def doubleRound (block : Block) : Block :=
  block.columnRound.diagonalsUp.columnRound.diagonalsDown

/-- The block after eight rounds, added word by word to the block itself. -/
def scrambled (block : Block) : Block :=
  let mixed := Nat.repeat doubleRound 4 block
  ⟨mixed.top.combine (· + ·) block.top, mixed.upper.combine (· + ·) block.upper,
    mixed.lower.combine (· + ·) block.lower, mixed.bottom.combine (· + ·) block.bottom⟩

/-- The words row by row. -/
def toList (block : Block) : List UInt32 :=
  block.top.toList ++ block.upper.toList ++ block.lower.toList ++ block.bottom.toList

end Block

end Arranger
