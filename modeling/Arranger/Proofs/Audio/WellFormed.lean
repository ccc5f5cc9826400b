import Mathlib.Tactic.Basic
import Mathlib.Data.List.Basic
import Arranger.Audio.Recording

/-!
# Well-formed recordings

The checked constructors of recordings ask for what the rest of the library relies on, and the
operations on recordings keep it.

## Main definitions

* `Arranger.Recording.WellFormed` — there is a channel, all channels have one length, and the
  sample rate is positive.
* `Arranger.Recording.Made` — the recordings that the library can make.

## Main results

* `Arranger.Recording.Made.wellFormed` — every recording that can be made is well formed.
* `Arranger.Recording.exists_resampled` — resampling to a positive rate succeeds.
-/

namespace Arranger

namespace Recording

/-- What a recording has to meet: it has a channel, its channels have one length, and its sample
rate is positive. -/
structure WellFormed (recording : Recording) : Prop where
  /-- There is a channel. -/
  channels_ne_nil : recording.channels ≠ []
  /-- All channels are as long as the recording. -/
  length_eq : ∀ channel ∈ recording.channels, channel.length = recording.frames
  /-- The sample rate is positive. -/
  rate_pos : 0 < recording.rate

/-- The recordings that the library can make: by a checked constructor, or out of another one by
resampling or by cutting out a stretch. -/
inductive Made : Recording → Prop where
  /-- Made of channels. -/
  | ofChannels {channels : List (List Sample)} {rate : ℕ} {recording : Recording} :
      ofChannels channels rate = .ok recording → Made recording
  /-- Made of a single channel. -/
  | mono {samples : List Sample} {rate : ℕ} {recording : Recording} :
      mono samples rate = .ok recording → Made recording
  /-- Made of samples that are stored frame by frame. -/
  | ofInterleaved {samples : List Sample} {channelCount rate : ℕ} {recording : Recording} :
      ofInterleaved samples channelCount rate = .ok recording → Made recording
  /-- Made by resampling. -/
  | resampled {source recording : Recording} {rate : ℕ} :
      Made source → source.resampled rate = .ok recording → Made recording
  /-- Cut out of another one. -/
  | window {source : Recording} (start stop : ℕ) :
      Made source → Made (ofSegment (source.window start stop) source.rate)

/-! ## Checked constructors -/

/-- The search for an uneven channel finds none only if all channels have the expected length. -/
lemma length_eq_of_firstUneven? {expected : ℕ} {channels : List (List Sample)} {index : ℕ}
    (h : firstUneven? expected channels index = none) :
    ∀ channel ∈ channels, channel.length = expected := by
  induction channels generalizing index with
  | nil => simp
  | cons first rest ih =>
    rw [firstUneven?] at h
    split_ifs at h with hlength
    rw [List.forall_mem_cons]
    exact ⟨hlength, ih h⟩

/-- The check on channels accepts well-formed recordings only. -/
lemma wellFormed_of_ofChannels {channels : List (List Sample)} {rate : ℕ} {recording : Recording}
    (h : ofChannels channels rate = .ok recording) : recording.WellFormed := by
  cases channels with
  | nil => cases h
  | cons first rest =>
    simp only [ofChannels] at h
    by_cases hrate : rate = 0
    · rw [if_pos hrate] at h
      cases h
    rw [if_neg hrate] at h
    split at h
    · cases h
    · next hlength =>
      split_ifs at h
      cases h
      exact ⟨List.cons_ne_nil _ _, length_eq_of_firstUneven? hlength, Nat.pos_of_ne_zero hrate⟩

/-- The check on channels changes nothing. -/
lemma eq_of_ofChannels {channels : List (List Sample)} {rate : ℕ} {recording : Recording}
    (h : ofChannels channels rate = .ok recording) : recording = ⟨channels, rate⟩ := by
  cases channels with
  | nil => cases h
  | cons first rest =>
    simp only [ofChannels] at h
    by_cases hrate : rate = 0
    · rw [if_pos hrate] at h
      cases h
    rw [if_neg hrate] at h
    split at h
    · cases h
    · split_ifs at h
      cases h
      rfl

/-- The check on interleaved samples accepts well-formed recordings only. -/
lemma wellFormed_of_ofInterleaved {samples : List Sample} {channelCount rate : ℕ}
    {recording : Recording} (h : ofInterleaved samples channelCount rate = .ok recording) :
    recording.WellFormed := by
  unfold ofInterleaved at h
  split_ifs at h
  exact wellFormed_of_ofChannels h

/-! ## Operations -/

/-- A transformation of the channels that treats channels of one length alike, and a positive
rate, give a well-formed recording. -/
lemma WellFormed.map {recording : Recording} (h : recording.WellFormed)
    {f : List Sample → List Sample} {rate : ℕ}
    (hf : ∀ xs ys : List Sample, xs.length = ys.length → (f xs).length = (f ys).length)
    (hrate : 0 < rate) : WellFormed ⟨recording.channels.map f, rate⟩ := by
  obtain ⟨first, rest, hchannels⟩ := List.exists_cons_of_ne_nil h.channels_ne_nil
  have hlength := h.length_eq
  rw [frames, hchannels] at hlength
  refine ⟨by simp [hchannels], ?_, hrate⟩
  rw [frames, hchannels]
  intro channel hmem
  obtain ⟨old, hold, rfl⟩ := List.mem_map.mp hmem
  exact hf _ _ (hlength old hold)

/-- The length of a resampled channel depends on the length of the channel only. -/
lemma length_resample {xs ys : List Sample} (h : xs.length = ys.length) (ratio : Double) :
    (resample xs ratio).length = (resample ys ratio).length := by
  unfold resample
  rw [h]
  split_ifs
  · simp
  · exact h

/-- Resampling to a positive rate succeeds. -/
theorem exists_resampled (recording : Recording) {rate : ℕ} (h : 0 < rate) :
    ∃ result, recording.resampled rate = .ok result := by
  unfold resampled
  rw [if_neg (Nat.ne_of_gt h)]
  split_ifs
  · exact ⟨_, rfl⟩
  · exact ⟨_, rfl⟩

/-- Resampling to the recording's own rate changes nothing. -/
lemma resampled_rate {recording : Recording} (h : 0 < recording.rate) :
    recording.resampled recording.rate = .ok recording := by
  rw [resampled, if_neg (Nat.ne_of_gt h), if_pos rfl]

/-- Resampling keeps a recording well formed. -/
lemma WellFormed.resampled {recording result : Recording} (h : recording.WellFormed) {rate : ℕ}
    (hresult : recording.resampled rate = .ok result) : result.WellFormed := by
  unfold Recording.resampled at hresult
  split_ifs at hresult with hzero hsame
  · cases hresult
    exact h
  · cases hresult
    exact h.map (fun xs ys hlength => length_resample hlength _) (Nat.pos_of_ne_zero hzero)

/-- A stretch of a well-formed recording is well formed. -/
lemma WellFormed.window {recording : Recording} (h : recording.WellFormed) (start stop : ℕ) :
    (ofSegment (recording.window start stop) recording.rate).WellFormed := by
  refine h.map (fun xs ys hlength => ?_) h.rate_pos
  simp [hlength]

/-- **Every recording that can be made is well formed.** -/
theorem Made.wellFormed {recording : Recording} (h : recording.Made) : recording.WellFormed := by
  induction h with
  | ofChannels h => exact wellFormed_of_ofChannels h
  | mono h => exact wellFormed_of_ofChannels h
  | ofInterleaved h => exact wellFormed_of_ofInterleaved h
  | resampled _ h ih => exact ih.resampled h
  | window start stop _ ih => exact ih.window start stop

end Recording

end Arranger
