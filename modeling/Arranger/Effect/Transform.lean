import Arranger.Effect.Basic
import Arranger.Audio.Segment
import Arranger.Audio.Resample

/-!
# Effects at work

What each effect does to a segment. Only speed changes the number of frames, and none changes
the number of channels.

## Main definitions

* `Arranger.Effect.transform` — the segment after one effect.
* `Arranger.transformAll` — the segment after a chain of effects.
-/

namespace Arranger

/-- Each sample that `hold` frames apart follow one another, repeated over the frames between:
`left` more frames take the value `held`. -/
def holdFrom (hold left : Nat) (held : Sample) : List Sample → List Sample
  | [] => []
  | sample :: samples =>
    match left with
    | 0 => sample :: holdFrom hold (hold - 1) sample samples
    | left + 1 => held :: holdFrom hold left held samples

/-- Every sample number `0`, `hold`, `2 * hold`, … held up to the next of them. -/
def holdSamples (hold : Nat) (channel : List Sample) : List Sample :=
  holdFrom hold 0 0 channel

/-- The difference of each sample and the one before it, which at first is `previous`. -/
def differenceFrom (previous : Sample) : List Sample → List Sample
  | [] => []
  | sample :: samples => (sample - previous) :: differenceFrom sample samples

/-- The differences of neighbouring samples; the first sample is its own neighbour. -/
def difference : List Sample → List Sample
  | [] => []
  | sample :: samples => differenceFrom sample (sample :: samples)

/-- The sample rounded to the nearest of the steps of a bit depth, of which there are
`2 ^ (depth - 1)` between zero and one. -/
def crush (depth : Nat) (sample : Sample) : Sample :=
  let steps : Sample := Binary.ofNat (Nat.pow 2 (depth - 1))
  (sample * steps).roundAway / steps

/-- The channels with the first two exchanged. -/
def swapFirstTwo : List (List Sample) → List (List Sample)
  | first :: second :: rest => second :: first :: rest
  | channels => channels

/-- The channels with all but one silenced. -/
def silenceOthers (keep : Nat) (channels : List (List Sample)) : List (List Sample) :=
  channels.mapIdx fun index channel => if index = keep then channel else channel.map fun _ => 0

/-- The segment after an effect. -/
def Effect.transform (segment : Segment) : Effect → Segment
  | speed factor =>
    if factor.numEq 1 then segment else segment.mapChannels (resample · factor)
  | reverse => segment.mapChannels List.reverse
  | volume gain => segment.mapSamples (· * gain)
  | downsample hold => segment.mapChannels (holdSamples hold)
  | bitcrush depth => segment.mapSamples (crush depth)
  | gradient passes => segment.mapChannels (Nat.repeat difference passes)
  | swap => ⟨swapFirstTwo segment.channels⟩
  | isolate keep => ⟨silenceOthers keep segment.channels⟩

/-- The segment after the effects, from left to right. -/
def transformAll (effects : List Effect) (segment : Segment) : Segment :=
  effects.foldl Effect.transform segment

end Arranger
