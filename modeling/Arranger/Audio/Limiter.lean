import Arranger.Audio.Segment

/-!
# Limiting

A limiter cuts samples off at a ceiling, on both sides of zero.

## Main definitions

* `Arranger.Limiter.ofCeiling` — the limiter for a requested ceiling.
* `Arranger.Limiter.clampSample`, `clampSegment` — the limiter at work.
-/

namespace Arranger

/-- A limiter with its ceiling. -/
structure Limiter where
  /-- The largest magnitude that passes unchanged. -/
  ceiling : Sample
deriving DecidableEq

namespace Limiter

/-- The limiter for a requested ceiling. A ceiling above one is lowered to one, and a request
that is no positive number is answered with one. -/
def ofCeiling (requested : Sample) : Limiter :=
  if requested.isFinite && decide (0 < requested) && decide (requested < 1) then ⟨requested⟩
  else ⟨1⟩

/-- The limiter at full scale. -/
def fullScale : Limiter := ⟨1⟩

/-- The sample, or the end of the allowed range that it lies beyond. Not-a-number lies beyond
neither. -/
def clampSample (limiter : Limiter) (sample : Sample) : Sample :=
  if sample < -limiter.ceiling then -limiter.ceiling
  else if limiter.ceiling < sample then limiter.ceiling
  else sample

/-- The segment with every sample clamped. -/
def clampSegment (limiter : Limiter) (segment : Segment) : Segment :=
  segment.mapSamples limiter.clampSample

end Limiter

end Arranger
