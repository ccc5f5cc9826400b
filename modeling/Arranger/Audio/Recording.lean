import Arranger.Audio.Segment
import Arranger.Audio.Resample

/-!
# Recordings

A recording is sound at a known sample rate. The constructors check what the rest relies on: at
least one channel, channels of one length, a positive rate and finite samples.

## Main definitions

* `Arranger.Recording` — channels with a sample rate.
* `Arranger.Recording.ofChannels`, `ofInterleaved` — the checked constructors.
* `Arranger.Recording.interleaved` — the samples frame by frame.
* `Arranger.Recording.window` — a stretch of a recording, as a segment.
* `Arranger.Recording.resampled` — the recording at another rate.
-/

namespace Arranger

/-- Sound at a sample rate. -/
structure Recording where
  /-- The samples of each channel. -/
  channels : List (List Sample)
  /-- Frames per second. -/
  rate : Nat
deriving DecidableEq

namespace Recording

/-- What can be wrong with the data of a recording. -/
inductive Defect where
  /-- There is no channel. -/
  | noChannels
  /-- The sample rate is zero. -/
  | zeroRate
  /-- A channel differs in length from the first. -/
  | unevenChannel (channel samples expected : Nat)
  /-- A sample is not a finite number. -/
  | notFinite
  /-- The last frame of interleaved samples is incomplete. -/
  | partialFrame (samples channelCount : Nat)
deriving DecidableEq

/-- The defect in words. -/
def Defect.message : Defect → String
  | noChannels => "audio has no channels"
  | zeroRate => "sample rate must be positive"
  | unevenChannel channel samples expected =>
    s!"channel {channel} has {samples} samples, expected {expected}"
  | notFinite => "audio contains NaN or infinite samples"
  | partialFrame samples channelCount =>
    s!"{samples} interleaved samples do not divide into {channelCount} channels"

/-! ## Building -/

/-- The index and length of the first channel that is not `expected` samples long. -/
def firstUneven? (expected : Nat) : List (List Sample) → Nat → Option (Nat × Nat)
  | [], _ => none
  | channel :: channels, index =>
    if channel.length = expected then firstUneven? expected channels (index + 1)
    else some (index, channel.length)

/-- The recording of the given channels. -/
def ofChannels (channels : List (List Sample)) (rate : Nat) : Except Defect Recording :=
  match channels with
  | [] => .error .noChannels
  | first :: _ =>
    if rate = 0 then .error .zeroRate
    else match firstUneven? first.length channels 0 with
      | some (index, samples) => .error (.unevenChannel index samples first.length)
      | none =>
        if channels.all (·.all Binary.isFinite) then .ok ⟨channels, rate⟩
        else .error .notFinite

/-- The recording with a single channel. -/
def mono (samples : List Sample) (rate : Nat) : Except Defect Recording :=
  ofChannels [samples] rate

/-- Channel `channel` of samples that are stored frame by frame. -/
def everyNth (samples : Array Sample) (frames channelCount channel : Nat) : List Sample :=
  (List.range frames).map fun frame => samples.getD (frame * channelCount + channel) 0

/-- The recording of samples that are stored frame by frame. -/
def ofInterleaved (samples : List Sample) (channelCount rate : Nat) : Except Defect Recording :=
  if channelCount = 0 then .error .noChannels
  else if samples.length % channelCount ≠ 0 then
    .error (.partialFrame samples.length channelCount)
  else
    let stored := samples.toArray
    let frames := samples.length / channelCount
    ofChannels ((List.range channelCount).map (everyNth stored frames channelCount)) rate

/-- The recording made of a segment, without a check. -/
def ofSegment (segment : Segment) (rate : Nat) : Recording :=
  ⟨segment.channels, rate⟩

/-! ## Reading -/

/-- The number of frames. -/
def frames (recording : Recording) : Nat :=
  (recording.channels.headD []).length

/-- The number of channels. -/
def channelCount (recording : Recording) : Nat :=
  recording.channels.length

/-- Whether there is no frame. -/
def isEmpty (recording : Recording) : Bool :=
  recording.frames == 0

/-- The samples frame by frame. -/
def interleaved (recording : Recording) : List Sample :=
  let stored := recording.channels.map List.toArray
  (List.range recording.frames).flatMap fun frame => stored.map (·.getD frame 0)

/-- The length in seconds. -/
def seconds (recording : Recording) : Double :=
  Binary.ofNat recording.frames / Binary.ofNat recording.rate

/-- The frames from `start` up to `stop`, as far as the recording goes. -/
def window (recording : Recording) (start stop : Nat) : Segment :=
  let stop := min stop recording.frames
  let start := min start stop
  ⟨recording.channels.map fun channel => (channel.drop start).take (stop - start)⟩

/-- The recording at another sample rate. -/
def resampled (recording : Recording) (rate : Nat) : Except Defect Recording :=
  if rate = 0 then .error .zeroRate
  else if rate = recording.rate then .ok recording
  else .ok ⟨recording.channels.map (convertRate · recording.rate rate), rate⟩

end Recording

end Arranger
