import Arranger.Number.Notation
import Arranger.Number.Integral

/-!
# Beatmaps

A beatmap divides a recording into beats by their boundaries, which are frame numbers. Beat
number `n`, counted from one, lies between the boundaries number `n - 1` and `n`.

## Main definitions

* `Arranger.Beatmap` — the boundaries with the length of the recording.
* `Arranger.Beatmap.build`, `ofSeconds` — the checked constructors.
* `Arranger.Beatmap.beatCount`, `beatLength?`, `meanInterval?`, `tempo?` — measures of a beatmap.

## Implementation notes

The checked constructors ask for at least one beat. Scaling, shifting and resampling can leave
fewer boundaries than that, so the type admits any number of them.
-/

namespace Arranger

/-- Beat boundaries on a recording of a given length. -/
structure Beatmap where
  /-- The frame numbers of the boundaries. -/
  boundaries : List Nat
  /-- The number of frames of the recording. -/
  sourceLength : Nat
deriving DecidableEq

namespace Beatmap

/-- What can be wrong with the data of a beatmap. -/
inductive Defect where
  /-- There are fewer than two boundaries. -/
  | tooFew (count : Nat)
  /-- The boundary after number `index` is not above it. -/
  | notRising (index before after : Nat)
  /-- The last boundary is past the end of the recording. -/
  | pastEnd (boundary sourceLength : Nat)
  /-- A time is negative or no finite number. -/
  | badTime (time : Double)
  /-- The recording does not have the length that the beatmap was made for. -/
  | lengthMismatch (expected found : Nat)
deriving DecidableEq

/-- The defect in words. -/
def Defect.message : Defect → String
  | tooFew count => s!"need at least 2 boundaries, got {count}"
  | notRising index before after =>
    s!"boundary {index + 1} ({after}) does not follow boundary {index} ({before})"
  | pastEnd boundary sourceLength =>
    s!"boundary {boundary} lies past the end of a {sourceLength}-sample source"
  | badTime time => s!"invalid beat time: {time.toText}"
  | lengthMismatch expected found =>
    s!"beatmap was built for {expected} samples but the audio has {found}"

/-! ## Building -/

/-- The first place, counted from `index`, where a boundary does not rise above the one
before. -/
def firstFall? (index : Nat) : List Nat → Option Defect
  | before :: after :: rest =>
    if after ≤ before then some (.notRising index before after)
    else firstFall? (index + 1) (after :: rest)
  | _ => none

/-- The beatmap with the given boundaries: at least two, rising, and none past the end. -/
def build (boundaries : List Nat) (sourceLength : Nat) : Except Defect Beatmap :=
  if boundaries.length < 2 then .error (.tooFew boundaries.length)
  else match firstFall? 0 boundaries with
    | some defect => .error defect
    | none =>
      let last := boundaries.getLastD 0
      if sourceLength < last then .error (.pastEnd last sourceLength)
      else .ok ⟨boundaries, sourceLength⟩

/-- The frame nearest to a time in seconds. -/
def frameAt (rate : Nat) (time : Double) : Except Defect Nat :=
  if time.isFinite && decide (0 ≤ time) then .ok (time * Binary.ofNat rate).roundAway.toWord
  else .error (.badTime time)

/-- The beatmap with boundaries at the given times in seconds. -/
def ofSeconds (times : List Double) (rate sourceLength : Nat) : Except Defect Beatmap := do
  build (← times.mapM (frameAt rate)) sourceLength

/-! ## Measures -/

/-- The number of beats. -/
def beatCount (map : Beatmap) : Nat :=
  map.boundaries.length - 1

/-- The boundary of a number, counted from zero. -/
def boundary (map : Beatmap) (index : Nat) : Nat :=
  map.boundaries.getD index 0

/-- The last boundary. -/
def lastBoundary (map : Beatmap) : Nat :=
  map.boundaries.getLastD 0

/-- The number of frames from the first boundary to the last. -/
def span (map : Beatmap) : Nat :=
  map.lastBoundary - map.boundary 0

/-- The length in frames of a beat, counted from one. -/
def beatLength? (map : Beatmap) (beat : Nat) : Option Nat :=
  if beat = 0 ∨ map.beatCount < beat then none
  else some (map.boundary beat - map.boundary (beat - 1))

/-- The mean length of a beat in frames. -/
def meanInterval? (map : Beatmap) : Option Double :=
  if map.beatCount = 0 then none
  else some (Binary.ofNat map.span / Binary.ofNat map.beatCount)

/-- The tempo in beats per minute. -/
def tempo? (map : Beatmap) (rate : Nat) : Option Double := do
  let interval ← map.meanInterval?
  if interval ≤ 0 then none
  else return 60 * Binary.ofNat rate / interval

end Beatmap

end Arranger
