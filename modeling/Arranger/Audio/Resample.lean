import Arranger.Number.Integral

/-!
# Resampling

A channel read at other instants than its own: the reading position advances by a fixed ratio,
and a position between two samples is answered with the straight line through them.

## Main definitions

* `Arranger.sampleAt` — the channel at a position between its samples.
* `Arranger.resample` — the channel read at steps of a ratio.
-/

namespace Arranger

/-- The channel at a position counted in samples. From the last sample on, it is constant. -/
def sampleAt (channel : Array Sample) (position : Double) : Sample :=
  let index := position.toWord
  let weight : Sample := (position - Binary.ofNat index).convert
  if index + 1 < channel.size then
    channel.getD index 0 * (1 - weight) + channel.getD (index + 1) 0 * weight
  else channel.getD (min index (channel.size - 1)) 0

/-- The number of samples that reading `length` samples at steps of `ratio` gives. -/
def resampledLength (length : Nat) (ratio : Double) : Nat :=
  (Binary.ofNat length / ratio).ceil.toWord

/-- The channel read at steps of `ratio` samples: a ratio above one shortens it, one below
stretches it. A single sample stays single, and a ratio that is no positive number changes
nothing. -/
def resample (channel : List Sample) (ratio : Double) : List Sample :=
  if ratio.isFinite && decide (0 < ratio) && decide (1 < channel.length) then
    let samples := channel.toArray
    (List.range (resampledLength channel.length ratio)).map fun i =>
      sampleAt samples (Binary.ofNat i * ratio)
  else channel

/-- The channel converted from one sample rate to another. -/
def convertRate (channel : List Sample) (sourceRate targetRate : Nat) : List Sample :=
  resample channel (Binary.ofNat sourceRate / Binary.ofNat targetRate)

end Arranger
