import Arranger.Audio.Limiter
import Arranger.Effect.Transform
import Arranger.Plan.Basic

/-!
# From plans to sound

## Main definitions

* `Arranger.Leaf.perform` — the segment of a leaf.
* `Arranger.mixDown` — segments combined over the longest of them.
* `Arranger.Plan.perform` — the segment of a plan.
-/

namespace Arranger

namespace MixMode

/-- Two samples combined. -/
def combine : MixMode → Sample → Sample → Sample
  | sum => (· + ·)
  | product => (· * ·)

/-- The sample that changes nothing when it is combined. -/
def identity : MixMode → Sample
  | sum => 0
  | product => 1

end MixMode

/-- The segment of a leaf, on a number of channels. -/
def Leaf.perform (channelCount : Nat) : Leaf → Segment
  | extract _ recording start stop effects =>
    (transformAll effects (recording.window start stop)).conform channelCount
  | silence frames => Segment.silent channelCount frames

/-- The segment with another laid over it, which is filled up to its length. -/
def Segment.combine (mode : MixMode) (frames : Nat) (segment other : Segment) : Segment :=
  ⟨overlay (overlay mode.combine) segment.channels (other.padTo frames mode.identity).channels⟩

/-- The number of frames of the longest segment. -/
def longest (segments : List Segment) : Nat :=
  segments.foldl (fun frames segment => max frames segment.frames) 0

/-- The segments combined over the longest of them. -/
def mixDown (mode : MixMode) (channelCount : Nat) (parts : List Segment) : Segment :=
  let frames := longest parts
  let blank : Segment := ⟨List.replicate channelCount (List.replicate frames mode.identity)⟩
  parts.foldl (Segment.combine mode frames) blank

/-- The segment of a plan, on a number of channels. A mix is limited. -/
def Plan.perform (limiter : Limiter) (channelCount : Nat) : Plan → Segment
  | single leaf => leaf.perform channelCount
  | mix mode leaves =>
    limiter.clampSegment (mixDown mode channelCount (leaves.map (Leaf.perform channelCount)))

end Arranger
