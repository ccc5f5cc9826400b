import Arranger.Number.Arithmetic

/-!
# Segments of sound

A segment is a stretch of sound being worked on: for each channel its samples in time. The
channels are expected to have one length, and every operation is defined without it.

## Main definitions

* `Arranger.Segment` — the channels of a segment.
* `Arranger.overlay` — one list laid over another, place by place.
* `Arranger.Segment.append`, `padTo`, `conform` — joining in time, padding, and changing the
  number of channels.
-/

namespace Arranger

/-- The first list with each member combined with the one at the same place of the second. Where
the second has none the member stays, and the surplus of the second is left out. -/
def overlay {α : Type} (f : α → α → α) : List α → List α → List α
  | [], _ => []
  | xs, [] => xs
  | x :: xs, y :: ys => f x y :: overlay f xs ys

/-- A stretch of sound, one list of samples for each channel. -/
structure Segment where
  /-- The samples of each channel. -/
  channels : List (List Sample)
deriving DecidableEq, Inhabited

namespace Segment

/-- The segment without channels. -/
def empty : Segment := ⟨[]⟩

/-- A segment of silence. -/
def silent (channelCount frames : Nat) : Segment :=
  ⟨List.replicate channelCount (List.replicate frames 0)⟩

/-- The number of samples of the first channel. -/
def frames (segment : Segment) : Nat :=
  (segment.channels.headD []).length

/-- The number of channels. -/
def channelCount (segment : Segment) : Nat :=
  segment.channels.length

/-- Whether there is no sound at all. -/
def isEmpty (segment : Segment) : Bool :=
  segment.frames == 0

/-- A transformation of every channel on its own. -/
def mapChannels (segment : Segment) (f : List Sample → List Sample) : Segment :=
  ⟨segment.channels.map f⟩

/-- A transformation of every sample on its own. -/
def mapSamples (segment : Segment) (f : Sample → Sample) : Segment :=
  segment.mapChannels (·.map f)

/-- The segment followed by another, channel by channel. A segment without channels takes those of
the other. -/
def append (segment other : Segment) : Segment :=
  match segment.channels with
  | [] => other
  | channels => ⟨overlay (· ++ ·) channels other.channels⟩

/-- The segment with each channel that is shorter than `frames` filled up with `value`. -/
def padTo (segment : Segment) (frames : Nat) (value : Sample) : Segment :=
  segment.mapChannels fun channel =>
    channel ++ List.replicate (frames - channel.length) value

/-- The segment on `channelCount` channels: channel `c` is the old channel `c` modulo the old
number of channels, so a single channel is copied to all. A segment without channels has
nothing to copy and stays as it is. -/
def conform (segment : Segment) (channelCount : Nat) : Segment :=
  if segment.channelCount = channelCount ∨ segment.channelCount = 0 then segment
  else
    ⟨(List.range channelCount).map fun c =>
      segment.channels.getD (c % segment.channelCount) []⟩

end Segment

end Arranger
