import Arranger.Effect.Transform
import Arranger.Proofs.Audio.Shape
import Arranger.Proofs.Number.Arithmetic

/-!
# Effects and the shape of segments

No effect changes the number of channels, and none but speed changes the number of frames.

## Main results

* `Arranger.Segment.HasShape.transform` — the shape after an effect that is not speed.
* `Arranger.Segment.HasShape.transformAll` — the shape after effects that are not speed.
* `Arranger.Segment.HasShape.exists_transform`, `exists_transformAll` — any effects give a shape.
-/

namespace Arranger

/-! ## Lengths of channels -/

/-- Held samples are as many as there were. -/
@[simp] lemma length_holdFrom (hold left : ℕ) (held : Sample) (samples : List Sample) :
    (holdFrom hold left held samples).length = samples.length := by
  induction samples generalizing left held with
  | nil => rfl
  | cons sample samples ih => cases left <;> simp [holdFrom, ih]

/-- Differences are as many as there were samples. -/
@[simp] lemma length_differenceFrom (previous : Sample) (samples : List Sample) :
    (differenceFrom previous samples).length = samples.length := by
  induction samples generalizing previous with
  | nil => rfl
  | cons sample samples ih => exact congrArg (· + 1) (ih sample)

/-- Differences are as many as there were samples. -/
@[simp] lemma length_difference (samples : List Sample) :
    (difference samples).length = samples.length := by
  cases samples with
  | nil => rfl
  | cons sample samples => exact length_differenceFrom sample _

/-- Repeated differences are as many as there were samples. -/
lemma length_repeat_difference (passes : ℕ) (samples : List Sample) :
    (Nat.repeat difference passes samples).length = samples.length := by
  induction passes with
  | zero => rfl
  | succ passes ih => exact (length_difference _).trans ih

/-- A resampled channel is no longer than a word, if the channel is not. -/
lemma length_resample_le {channel : List Sample} (h : channel.length ≤ maxWord) (ratio : Double) :
    (resample channel ratio).length ≤ maxWord := by
  unfold resample
  split_ifs
  · rw [List.length_map, List.length_range]
    exact Binary.toWord_le _
  · exact h

/-! ## Effects -/

/-- The exchange of the first two channels leaves the same channels in another order. -/
lemma swapFirstTwo_perm (channels : List (List Sample)) :
    (swapFirstTwo channels).Perm channels := by
  unfold swapFirstTwo
  split
  · exact List.Perm.swap ..
  · rfl

/-- Channels of which all but one are silenced are channels that there were, or their silence. -/
lemma exists_of_mem_silenceOthers {keep : ℕ} {channels : List (List Sample)}
    {channel : List Sample} (h : channel ∈ silenceOthers keep channels) :
    ∃ source ∈ channels, channel = source ∨ channel = source.map fun _ => 0 := by
  obtain ⟨index, hindex, rfl⟩ := List.mem_mapIdx.mp h
  refine ⟨channels[index], List.getElem_mem hindex, ?_⟩
  split_ifs
  · exact .inl rfl
  · exact .inr rfl

/-- **No effect changes the number of channels.** -/
@[simp] lemma channelCount_transform (segment : Segment) (effect : Effect) :
    (effect.transform segment).channelCount = segment.channelCount := by
  cases effect with
  | speed factor =>
    rw [Effect.transform]
    split_ifs
    · rfl
    · exact List.length_map _
  | swap => exact (swapFirstTwo_perm _).length_eq
  | isolate keep => exact List.length_mapIdx
  | _ => exact List.length_map _

namespace Segment.HasShape

variable {segment : Segment} {channelCount frames : ℕ}

/-- The first two channels exchanged keep the shape. -/
lemma swap (h : segment.HasShape channelCount frames) :
    HasShape ⟨swapFirstTwo segment.channels⟩ channelCount frames :=
  ⟨(swapFirstTwo_perm _).length_eq.trans h.channelCount_eq, fun channel hmem =>
    h.length_eq channel ((swapFirstTwo_perm _).mem_iff.mp hmem)⟩

/-- All channels but one silenced keep the shape. -/
lemma isolate (h : segment.HasShape channelCount frames) (keep : ℕ) :
    HasShape ⟨silenceOthers keep segment.channels⟩ channelCount frames := by
  refine ⟨List.length_mapIdx.trans h.channelCount_eq, fun channel hmem => ?_⟩
  obtain ⟨source, hsource, rfl | rfl⟩ := exists_of_mem_silenceOthers hmem
  · exact h.length_eq _ hsource
  · rw [List.length_map]
    exact h.length_eq _ hsource

/-- **An effect that is not speed keeps the shape.** -/
lemma transform (h : segment.HasShape channelCount frames) {effect : Effect}
    (hspeed : ∀ factor, effect ≠ .speed factor) :
    (effect.transform segment).HasShape channelCount frames := by
  cases effect with
  | speed factor => exact absurd rfl (hspeed factor)
  | reverse => exact h.mapChannels fun _ hlength => List.length_reverse.trans hlength
  | volume gain => exact h.mapSamples _
  | downsample hold => exact h.mapChannels fun _ hlength => (length_holdFrom _ _ _ _).trans hlength
  | bitcrush depth => exact h.mapSamples _
  | gradient passes =>
    exact h.mapChannels fun _ hlength => (length_repeat_difference _ _).trans hlength
  | swap => exact h.swap
  | isolate keep => exact h.isolate keep

/-- **Effects that are not speed keep the shape.** -/
lemma transformAll (h : segment.HasShape channelCount frames) {effects : List Effect}
    (hspeed : ∀ factor, Effect.speed factor ∉ effects) :
    (Arranger.transformAll effects segment).HasShape channelCount frames := by
  induction effects generalizing segment with
  | nil => exact h
  | cons effect effects ih =>
    simp only [List.mem_cons, not_or] at hspeed
    exact ih (h.transform fun factor heq => (hspeed factor).1 heq.symm) fun factor =>
      (hspeed factor).2

/-- **Every effect gives a shape for a shape**, with lengths that are words for lengths that are. -/
lemma exists_transform (h : segment.HasShape channelCount frames) (effect : Effect) :
    ∃ more, (effect.transform segment).HasShape channelCount more ∧
      (frames ≤ maxWord → more ≤ maxWord) := by
  by_cases hspeed : ∃ factor, effect = .speed factor
  · obtain ⟨factor, rfl⟩ := hspeed
    rw [Effect.transform]
    split_ifs
    · exact ⟨frames, h, id⟩
    · refine ⟨(resample (List.replicate frames 0) factor).length, h.mapChannels ?_, ?_⟩
      · intro channel hlength
        exact Recording.length_resample (by rw [hlength, List.length_replicate]) factor
      · exact fun hframes => length_resample_le (by rwa [List.length_replicate]) factor
  · exact ⟨frames, h.transform fun factor heq => hspeed ⟨factor, heq⟩, id⟩

/-- **Effects give a shape for a shape.** -/
lemma exists_transformAll (h : segment.HasShape channelCount frames) (effects : List Effect) :
    ∃ more, (Arranger.transformAll effects segment).HasShape channelCount more := by
  induction effects generalizing segment frames with
  | nil => exact ⟨frames, h⟩
  | cons effect effects ih =>
    obtain ⟨more, hmore, -⟩ := h.exists_transform effect
    exact ih hmore

end Segment.HasShape

end Arranger
