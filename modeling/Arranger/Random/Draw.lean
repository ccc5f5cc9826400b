import Arranger.Random.Stream

/-!
# Random choices

An even choice among `n` numbers multiplies a random word with `n`: the upper half of the product
is the number chosen. Words whose lower half falls into the remainder of an uneven division are
drawn again.

## Main definitions

* `Arranger.Stream.draw` — a number below a bound, from 32-bit words.
* `Arranger.Stream.drawLong` — a number below a bound, from 64-bit words.
* `Arranger.exchange` — a list with two members exchanged.
* `Arranger.Stream.shuffle` — a list in random order.

## Implementation notes

More than half of all words are accepted. The number of attempts is nevertheless bounded, by
`maxAttempts`, so that the functions are total; the last attempt is accepted whatever it is.
-/

namespace Arranger

/-- The list with the members at two places exchanged. -/
def exchange {α : Type} (i j : Nat) (xs : List α) : List α :=
  match xs[i]?, xs[j]? with
  | some x, some y => (xs.set i y).set j x
  | _, _ => xs

namespace Stream

/-- How often a word may be drawn for one choice. -/
def maxAttempts : Nat := 256

/-- The largest multiple of `bound` by a power of two that is no more than `modulus`, less one;
`modulus` is a power of two itself. -/
def acceptedZone (modulus bound : Nat) : Nat :=
  bound * (modulus / Nat.pow 2 (bound.log2 + 1)) - 1

/-- A number below `bound` from words below `modulus`, in at most `attempts + 1` attempts. -/
def drawFrom (next : Stream → Nat × Stream) (modulus bound : Nat) :
    Nat → Stream → Nat × Stream
  | 0, stream =>
    let (word, stream) := next stream
    (word * bound / modulus, stream)
  | attempts + 1, stream =>
    let (word, stream) := next stream
    if word * bound % modulus ≤ acceptedZone modulus bound then (word * bound / modulus, stream)
    else drawFrom next modulus bound attempts stream

/-- A random number below `bound`, which must be positive and at most `2 ^ 32`. -/
def draw (bound : Nat) (stream : Stream) : Nat × Stream :=
  drawFrom word 4294967296 bound maxAttempts stream

/-- A random number below `bound`, which must be positive and at most `2 ^ 64`. -/
def drawLong (bound : Nat) (stream : Stream) : Nat × Stream :=
  drawFrom longWord 18446744073709551616 bound maxAttempts stream

/-! ## Shuffling -/

/-- The list with the members at the places `n`, `n - 1`, …, `1`, one after the other, exchanged
with a random member at the same or an earlier place. -/
def shuffleFrom {α : Type} : Nat → List α → Stream → List α × Stream
  | 0, xs, stream => (xs, stream)
  | n + 1, xs, stream =>
    let (j, stream) := stream.draw (n + 2)
    shuffleFrom n (exchange (n + 1) j xs) stream

/-- The list in random order. -/
def shuffle {α : Type} (xs : List α) (stream : Stream) : List α × Stream :=
  shuffleFrom (xs.length - 1) xs stream

end Stream

end Arranger
