import Mathlib.Data.List.GetD
import Mathlib.Order.Basic
import Arranger.Proofs.Audio.WellFormed

/-!
# The shape of segments

A segment has a shape if all its channels have one length. Cutting out, joining, limiting and
fitting to a number of channels give a shape for a shape.

## Main definitions

* `Arranger.Segment.HasShape` — the number of channels and their common length.

## Main results

* `Arranger.Segment.HasShape.mapChannels`, `append`, `conform` — the operations on shapes.
* `Arranger.Recording.WellFormed.window_hasShape` — the shape of a stretch of a recording.
-/

namespace Arranger

/-! ## Overlays -/

section Overlay

variable {α : Type} {f : α → α → α}

/-- A list with another laid over it keeps its length. -/
@[simp] lemma length_overlay (f : α → α → α) (xs ys : List α) :
    (overlay f xs ys).length = xs.length := by
  induction xs generalizing ys with
  | nil => rfl
  | cons x xs ih =>
    cases ys with
    | nil => rfl
    | cons y ys => exact congrArg (· + 1) (ih ys)

/-- What holds of the members of an overlay: what combining makes of the members of the two lists,
and of the members that nothing is laid over. -/
lemma forall_mem_overlay {p q r : α → Prop} (hcombine : ∀ x y, p x → q y → r (f x y))
    {xs ys : List α} (hkeep : ys.length < xs.length → ∀ x, p x → r x) (hxs : ∀ x ∈ xs, p x)
    (hys : ∀ y ∈ ys, q y) : ∀ z ∈ overlay f xs ys, r z := by
  induction xs generalizing ys with
  | nil => simp [overlay]
  | cons x xs ih =>
    cases ys with
    | nil => exact fun z hmem => hkeep (Nat.succ_pos _) z (hxs z hmem)
    | cons y ys =>
      rw [List.forall_mem_cons] at hxs hys
      rw [overlay, List.forall_mem_cons]
      exact ⟨hcombine x y hxs.1 hys.1,
        ih (fun hlt => hkeep (Nat.succ_lt_succ hlt)) hxs.2 hys.2⟩

end Overlay

/-! ## Shapes -/

namespace Segment

/-- A segment with a number of channels that are all as long as a number of frames. -/
structure HasShape (segment : Segment) (channelCount frames : ℕ) : Prop where
  /-- The number of channels. -/
  channelCount_eq : segment.channelCount = channelCount
  /-- The length of each channel. -/
  length_eq : ∀ channel ∈ segment.channels, channel.length = frames

/-- A segment without a channel has no frames. -/
lemma frames_of_channelCount_eq_zero {segment : Segment} (h : segment.channelCount = 0) :
    segment.frames = 0 := by
  rw [frames, List.eq_nil_of_length_eq_zero h]
  rfl

/-- Silence has the shape that it is made with. -/
lemma silent_hasShape (channelCount frames : ℕ) :
    (silent channelCount frames).HasShape channelCount frames := by
  refine ⟨List.length_replicate, fun channel hmem => ?_⟩
  rw [List.eq_of_mem_replicate hmem, List.length_replicate]

namespace HasShape

variable {segment other : Segment} {channelCount frames more : ℕ}

/-- A segment with a channel is as long as its channels. -/
lemma frames_eq (h : segment.HasShape channelCount frames) (hcount : 0 < channelCount) :
    segment.frames = frames := by
  obtain ⟨hchannels, hlength⟩ := h
  cases hlist : segment.channels with
  | nil => simp [Segment.channelCount, hlist] at hchannels; omega
  | cons first rest =>
    rw [Segment.frames, hlist]
    exact hlength first (by rw [hlist]; exact List.mem_cons_self)

/-- A transformation of every channel on its own that turns one length into another. -/
lemma mapChannels (h : segment.HasShape channelCount frames) {f : List Sample → List Sample}
    (hf : ∀ channel : List Sample, channel.length = frames → (f channel).length = more) :
    (segment.mapChannels f).HasShape channelCount more := by
  refine ⟨(List.length_map _).trans h.channelCount_eq, fun channel hmem => ?_⟩
  obtain ⟨old, hold, rfl⟩ := List.mem_map.mp hmem
  exact hf old (h.length_eq old hold)

/-- A transformation of every sample on its own. -/
lemma mapSamples (h : segment.HasShape channelCount frames) (f : Sample → Sample) :
    (segment.mapSamples f).HasShape channelCount frames :=
  h.mapChannels fun _ hlength => (List.length_map _).trans hlength

/-- Segments with as many channels are joined channel by channel. -/
lemma append (h : segment.HasShape channelCount frames)
    (hother : other.HasShape channelCount more) :
    (segment.append other).HasShape channelCount (frames + more) := by
  obtain ⟨hchannels, hlength⟩ := h
  obtain ⟨hotherChannels, hotherLength⟩ := hother
  have hsame : segment.channels.length = other.channels.length :=
    hchannels.trans hotherChannels.symm
  rw [Segment.append]
  split
  · next hnone =>
    -- a segment without channels takes those of the other, of which there are none
    rw [hnone] at hsame
    have hempty : other.channels = [] := List.length_eq_zero_iff.mp hsame.symm
    exact ⟨hotherChannels, by simp [hempty]⟩
  · refine ⟨(length_overlay _ _ _).trans hchannels, ?_⟩
    refine forall_mem_overlay (p := (·.length = frames)) (q := (·.length = more)) ?_
      (fun hlt => absurd hsame (Nat.ne_of_gt hlt)) hlength hotherLength
    intro x y hx hy
    rw [List.length_append, hx, hy]

/-- On another number of channels, a segment with a channel keeps its length. -/
lemma conform (h : segment.HasShape channelCount frames) (hcount : 0 < channelCount)
    (target : ℕ) : (segment.conform target).HasShape target frames := by
  obtain ⟨hchannels, hlength⟩ := h
  unfold Segment.conform
  rw [hchannels]
  split_ifs with hsame
  · obtain rfl : channelCount = target := by omega
    exact ⟨hchannels, hlength⟩
  · refine ⟨by simp [Segment.channelCount], fun channel hmem => ?_⟩
    obtain ⟨c, _, rfl⟩ := List.mem_map.mp hmem
    have hc : c % channelCount < segment.channels.length :=
      lt_of_lt_of_eq (Nat.mod_lt c hcount) hchannels.symm
    rw [List.getD_eq_getElem _ _ hc]
    exact hlength _ (List.getElem_mem hc)

end HasShape

end Segment

/-- The shape of a stretch of a well-formed recording, as far as the recording goes. -/
lemma Recording.WellFormed.window_hasShape {recording : Recording} (h : recording.WellFormed)
    (start stop : ℕ) :
    (recording.window start stop).HasShape recording.channelCount
      (min stop recording.frames - min start (min stop recording.frames)) := by
  refine ⟨List.length_map _, fun channel hmem => ?_⟩
  obtain ⟨old, hold, rfl⟩ := List.mem_map.mp hmem
  rw [List.length_take, List.length_drop, h.length_eq old hold]
  omega

end Arranger
