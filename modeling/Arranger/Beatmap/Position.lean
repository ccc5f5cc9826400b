import Arranger.Beatmap.Basic

/-!
# Positions on a beatmap

Between two boundaries the beat count runs evenly, so a fractional coordinate has a position:
coordinate `1.5` is half way between the boundaries number 1 and 2.

## Main definitions

* `Arranger.Beatmap.position` — the position of a coordinate within the map.
* `Arranger.Beatmap.extrapolate` — the position of any coordinate.
* `Arranger.Beatmap.window?` — the frames of a beat, which may be a fractional one.
* `Arranger.Beatmap.slice?` — the frames between two beats.
-/

namespace Arranger

/-- The number, or the end of the range from zero to `high` that it lies beyond. -/
def clampTo (high x : Double) : Double :=
  if x < 0 then 0 else if high < x then high else x

namespace Beatmap

/-- The length in frames of the interval from boundary number `index` to the next. -/
def interval (map : Beatmap) (index : Nat) : Double :=
  Binary.ofNat (map.boundary (index + 1) - map.boundary index)

/-- The position of a coordinate, where the first and the last beat go on at both ends. -/
def extrapolate (map : Beatmap) (coordinate : Double) : Double :=
  match map.boundaries with
  | [] => 0
  | [only] => Binary.ofNat only
  | _ =>
    let last := map.beatCount
    if coordinate ≤ 0 then
      Binary.ofNat (map.boundary 0) + coordinate * map.interval 0
    else if Binary.ofNat last ≤ coordinate then
      Binary.ofNat (map.boundary last)
        + (coordinate - Binary.ofNat last) * map.interval (last - 1)
    else
      let index := coordinate.floor.toWord
      Binary.ofNat (map.boundary index)
        + (coordinate - Binary.ofNat index) * map.interval index

/-- The position of a coordinate, kept between the first boundary and the last. -/
def position (map : Beatmap) (coordinate : Double) : Double :=
  map.extrapolate (clampTo (Binary.ofNat map.beatCount) coordinate)

/-- The frame nearest to the position of a coordinate. -/
def nearestFrame (map : Beatmap) (coordinate : Double) : Nat :=
  (map.position coordinate).roundAway.toWord

/-- Whether a beat, counted from one, starts within the map. -/
def containsBeat (map : Beatmap) (beat : Double) : Bool :=
  beat.isFinite && decide (1 ≤ beat) && decide (beat - 1 < Binary.ofNat map.beatCount)

/-- The frames from one coordinate to another. -/
def stretch (map : Beatmap) (first last : Double) : Nat × Nat :=
  let start := map.nearestFrame first
  (start, max (map.nearestFrame last) start)

/-- The frames of a beat: one beat long, and cut off at the last boundary. -/
def window? (map : Beatmap) (beat : Double) : Option (Nat × Nat) :=
  if map.containsBeat beat then some (map.stretch (beat - 1) beat) else none

/-- The frames from the start of one beat up to the start of another. -/
def slice? (map : Beatmap) (first last : Double) : Option (Nat × Nat) :=
  if map.containsBeat first && decide (first < last) then
    some (map.stretch (first - 1) (last - 1))
  else none

end Beatmap

end Arranger
