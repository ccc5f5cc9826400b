import Arranger.Fault
import Arranger.Plan.Basic
import Arranger.Random.Draw

/-!
# From references to frames

A beat reference stands for a beat number, and a beat number for frames of a recording. A number
that is not on the beatmap is wrapped into it where the pattern plays once.

## Main definitions

* `Arranger.Place` — where in the playing a reference stands.
* `Arranger.movedStep?` — the number of a step, moved by an offset.
* `Arranger.BeatRef.resolve` — the beat number of a reference.
* `Arranger.Beatmap.wrapBeat` — the beat that stands for one outside the map.
* `Arranger.Slice.cut` — the part of a window that a slice keeps.
-/

namespace Arranger

/-- Where in the playing a reference stands. -/
structure Place where
  /-- The number of counted siblings: steps of the pattern, or parts of a mix. -/
  size : Nat
  /-- What is added to the numbers of literal and random references. -/
  offset : Double
  /-- The number of steps that were played before. -/
  position : Nat
deriving DecidableEq

/-! ## References -/

/-- The largest number that a step can have: the largest whole number of 64 bits with a sign. -/
def maxStepNumber : Nat := 9223372036854775807

/-- A whole number, if 64 bits with a sign hold it. -/
def stepNumber? (n : Int) : Option Int :=
  if -(maxStepNumber : Int) - 1 ≤ n ∧ n ≤ maxStepNumber then some n else none

/-- The number of the step at a position, moved by an offset. Steps are numbered from one. There is
no number if the position, the number of the step or the moved number is too large or too small. -/
def movedStep? (position : Nat) (offset : Int) : Option Int := do
  let before ← stepNumber? position
  let number ← stepNumber? (before + 1)
  stepNumber? (number + offset)

/-- The beat number that a reference stands for on a map of `beatCount` beats. A random reference
takes words of the stream. -/
def BeatRef.resolve (ref : BeatRef) (place : Place) (beatCount : Nat) (stream : Stream) :
    Except Fault Double × Stream :=
  match ref with
  | .literal number => (.ok (number + place.offset), stream)
  | .position offset =>
    match movedStep? place.position offset with
    | some number => (.ok (Binary.ofInt number), stream)
    | none => (.error (.beatOutOfRange (Binary.ofInt offset) beatCount), stream)
  | .random low high step =>
    match choices? low high step with
    | none => (.error (.beatOutOfRange high beatCount), stream)
    | some choices =>
      let drawn := stream.drawLong choices
      (.ok (low + Binary.ofNat drawn.1 * step + place.offset), drawn.2)

/-! ## Wrapping -/

/-- The beat number modulo `count`, where the numbers go from one to `count`. -/
def wrapInto (count : Nat) (beat : Double) : Double :=
  (beat - 1).euclidean (Binary.ofNat count) + 1

/-- The beat that stands for a beat number: the number itself if it is on the map, else the number
modulo `size` if that is on the map, else the number modulo the number of beats. -/
def Beatmap.wrapBeat (map : Beatmap) (size : Nat) (beat : Double) : Except Fault Double :=
  if map.containsBeat beat then .ok beat
  else if !beat.isFinite || map.beatCount = 0 then .error (.beatOutOfRange beat map.beatCount)
  else if 0 < size && map.containsBeat (wrapInto size beat) then .ok (wrapInto size beat)
  else if map.containsBeat (wrapInto map.beatCount beat) then .ok (wrapInto map.beatCount beat)
  else .error (.beatOutOfRange beat map.beatCount)

/-! ## Slicing -/

/-- The number of frames nearest to a fraction of `frames`. -/
def framesOf (fraction : Double) (frames : Nat) : Nat :=
  (Binary.ofNat frames * fraction).roundAway.toWord

/-- The part that a slice keeps of the frames from `start` to `stop`. -/
def Slice.cut (start stop : Nat) : Slice → Nat × Nat
  | head fraction => (start, start + framesOf fraction (stop - start))
  | tail fraction => (stop - framesOf fraction (stop - start), stop)

/-- The part of the frames from `start` to `stop` that a beat keeps. -/
def Beat.cut (beat : Beat) (start stop : Nat) : Nat × Nat :=
  match beat.slice with
  | some slice => slice.cut start stop
  | none => (start, stop)

end Arranger
