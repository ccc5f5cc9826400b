import Arranger.Random.Block

/-!
# Streams of random words

A stream is the sequence of the words of the blocks with the numbers 0, 1, 2, … under a key, and
the key is expanded from a seed. A stream at a place is the key with the number of words that
were taken.

## Main definitions

* `Arranger.Stream` — a stream at a place.
* `Arranger.Stream.ofSeed` — the stream of a seed, at its start.
* `Arranger.Stream.word`, `longWord` — the next 32 or 64 bits.
-/

namespace Arranger

/-! ## Keys from seeds -/

/-- The state of the seed expander after a step: a linear congruential sequence. -/
def expand (state : UInt64) : UInt64 :=
  state * 6364136223846793005 + 11634580027462260723

/-- The word that the seed expander gives in a state: the folded upper half, rotated to the right
by the uppermost five bits. -/
def expandedWord (state : UInt64) : UInt32 :=
  let folded := (((state >>> 18) ^^^ state) >>> 27).toUInt32
  let places := (state >>> 59).toUInt32
  folded >>> places ||| folded <<< ((32 - places) % 32)

/-- The words that the expander gives after a state. -/
def expandedWords (state : UInt64) : Nat → List UInt32
  | 0 => []
  | n + 1 => expandedWord (expand state) :: expandedWords (expand state) n

/-! ## Streams -/

/-- A stream of random words at a place. -/
structure Stream where
  /-- The key, in two rows. -/
  key : Row × Row
  /-- The number of words that were taken. -/
  taken : Nat
deriving DecidableEq

namespace Stream

/-- The row of four words of a list. -/
def rowOf (words : List UInt32) : Row :=
  ⟨words.getD 0 0, words.getD 1 0, words.getD 2 0, words.getD 3 0⟩

/-- The stream of a seed, at its start. -/
def ofSeed (seed : UInt64) : Stream :=
  let words := expandedWords seed 8
  ⟨(rowOf words, rowOf (words.drop 4)), 0⟩

/-- The constants of the first row. -/
def constants : Row :=
  ⟨0x61707865, 0x3320646e, 0x79622d32, 0x6b206574⟩

/-- The words of a block by its number. -/
def block (stream : Stream) (number : Nat) : List UInt32 :=
  let low := UInt32.ofNat number
  let high := UInt32.ofNat (number / 4294967296)
  (Block.mk constants stream.key.1 stream.key.2 ⟨low, high, 0, 0⟩).scrambled.toList

/-- The word that is next. -/
def peek (stream : Stream) : UInt32 :=
  (stream.block (stream.taken / 16)).getD (stream.taken % 16) 0

/-- The stream after `n` more words. -/
def skip (stream : Stream) (n : Nat) : Stream :=
  { stream with taken := stream.taken + n }

/-- The next 32 bits as a number. -/
def word (stream : Stream) : Nat × Stream :=
  (stream.peek.toNat, stream.skip 1)

/-- The next 64 bits as a number, the lower half first. -/
def longWord (stream : Stream) : Nat × Stream :=
  (stream.peek.toNat + (stream.skip 1).peek.toNat * 4294967296, stream.skip 2)

end Stream

end Arranger
