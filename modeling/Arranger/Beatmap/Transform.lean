import Arranger.Beatmap.Position

/-!
# Changing beatmaps

None of these operations fails. What would lie outside the recording, or not after the boundary
before it, is left out.

## Main definitions

* `Arranger.Beatmap.ofPositions` — the beatmap with boundaries near the given positions.
* `Arranger.Beatmap.scale` — more and shorter beats, or fewer and longer ones.
* `Arranger.Beatmap.shift` — the same beats counted from another place.
* `Arranger.Beatmap.resampled` — the beatmap of a recording converted to another rate.
-/

namespace Arranger

namespace Beatmap

/-! ## Boundaries from positions -/

/-- The frame nearest to a position, if the position is within half a frame of the recording. -/
def frameWithin? (sourceLength : Nat) (position : Double) : Option Nat :=
  let half : Double := 1 / 2
  if !position.isFinite || decide (position < -half)
      || decide (Binary.ofNat sourceLength + half < position) then none
  else some (min position.roundAway.toWord sourceLength)

/-- The members that are greater than all the members before them, and than `floor?`. -/
def keepRising (floor? : Option Nat) : List Nat → List Nat
  | [] => []
  | frame :: frames =>
    if floor?.all (· < frame) then frame :: keepRising (some frame) frames
    else keepRising floor? frames

/-- The beatmap with boundaries near the given positions, as far as they are within the recording
and rise. -/
def ofPositions (positions : List Double) (sourceLength : Nat) : Beatmap :=
  ⟨keepRising none (positions.filterMap (frameWithin? sourceLength)), sourceLength⟩

/-! ## Scaling -/

/-- The smallest factor for scaling. -/
def minScale : Double := 2 / 100

/-- The factor that a requested one stands for: its magnitude, but not less than `minScale`, and
one if it is no finite number. -/
def effectiveFactor (requested : Double) : Double :=
  if requested.isFinite then
    if requested.abs < minScale then minScale else requested.abs
  else 1

/-- The beatmap with `factor` times as many beats on the same span. The first boundary is kept,
and there is no beat of less than a frame. -/
def scale (map : Beatmap) (factor : Double) : Beatmap :=
  if map.boundaries.isEmpty then map
  else
    let factor := effectiveFactor factor
    let beats : Double := Binary.ofNat map.beatCount
    let wanted := (beats * factor + slack).floor.toWord
    let total := min wanted map.span
    let step := if total = wanted then 1 / factor else beats / Binary.ofNat (max total 1)
    ofPositions ((List.range (total + 1)).map fun k => map.position (Binary.ofNat k * step))
      map.sourceLength

/-! ## Shifting -/

/-- The beatmap whose first boundary is at coordinate `amount` of the given one. -/
def shift (map : Beatmap) (amount : Double) : Beatmap :=
  if !amount.isFinite || amount.numEq 0 then map
  else
    ofPositions
      ((List.range map.boundaries.length).map fun k => map.extrapolate (Binary.ofNat k + amount))
      map.sourceLength

/-! ## Resampling -/

/-- The beatmap on a recording of `sourceLength` frames that plays at `ratio` times the rate. -/
def resampled (map : Beatmap) (ratio : Double) (sourceLength : Nat) : Beatmap :=
  ofPositions (map.boundaries.map fun boundary => Binary.ofNat boundary * ratio) sourceLength

end Beatmap

end Arranger
