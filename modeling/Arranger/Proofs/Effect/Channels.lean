import Arranger.Proofs.Effect.Shape

/-!
# Effects and the routing of channels

Every effect but those with the letter `c` does the same to each channel on its own. So it makes no
difference whether channels are copied, left out or exchanged before such effects or after them. A
segment that is put on more channels has its own channels first, and is what is left when it is put
on as many channels as before.

## Main results

* `Arranger.Effect.exists_mapChannels`, `Arranger.exists_mapChannels` — effects on each channel.
* `Arranger.Segment.conform_mapChannels`, `conform_conform` — other numbers of channels.
* `Arranger.Segment.conform_transformAll` — **the number of channels may be changed before effects
  or after them**, and back.
-/

namespace Arranger

/-! ## Effects on each channel -/

/-- **Effects other than those on channels** do the same to each channel on its own. -/
lemma Effect.exists_mapChannels {effect : Effect} (h : effect.code ≠ 'c') :
    ∃ f, ∀ segment, effect.transform segment = segment.mapChannels f := by
  cases effect with
  | speed factor =>
    by_cases hone : factor.numEq 1 = true
    · exact ⟨id, fun segment => by rw [transform, if_pos hone, Segment.mapChannels, List.map_id]⟩
    · exact ⟨(resample · factor), fun segment => by rw [transform, if_neg hone]⟩
  | swap => exact absurd rfl h
  | isolate keep => exact absurd rfl h
  | _ => exact ⟨_, fun _ => rfl⟩

/-- Two transformations of every channel on its own are one. -/
lemma Segment.mapChannels_mapChannels (segment : Segment) (f g : List Sample → List Sample) :
    (segment.mapChannels f).mapChannels g = segment.mapChannels (g ∘ f) :=
  congrArg Segment.mk List.map_map

/-- Chains of such effects do the same to each channel on its own. -/
lemma exists_mapChannels {effects : List Effect} (h : ∀ effect ∈ effects, effect.code ≠ 'c') :
    ∃ f, ∀ segment, transformAll effects segment = segment.mapChannels f := by
  induction effects with
  | nil => exact ⟨id, fun segment => by rw [Segment.mapChannels, List.map_id]; rfl⟩
  | cons effect effects ih =>
    rw [List.forall_mem_cons] at h
    obtain ⟨f, hf⟩ := Effect.exists_mapChannels h.1
    obtain ⟨g, hg⟩ := ih h.2
    refine ⟨g ∘ f, fun segment => ?_⟩
    rw [← Segment.mapChannels_mapChannels, ← hf, ← hg]
    rfl

/-! ## Other numbers of channels -/

namespace Segment

variable (segment : Segment) (channelCount : ℕ)

/-- The number of channels may be changed before or after each channel is transformed. -/
lemma conform_mapChannels (f : List Sample → List Sample) :
    (segment.mapChannels f).conform channelCount =
      (segment.conform channelCount).mapChannels f := by
  have hcount : (segment.mapChannels f).channelCount = segment.channelCount := List.length_map _
  rw [conform, conform, hcount]
  split_ifs with hsame
  · rfl
  · refine congrArg Segment.mk ?_
    rw [List.map_map]
    refine List.map_congr_left fun c _ => ?_
    have hc : c % segment.channelCount < segment.channels.length :=
      Nat.mod_lt c (Nat.pos_of_ne_zero fun hzero => hsame (.inr hzero))
    rw [Function.comp_apply, List.getD_eq_getElem _ _ hc, List.getD_eq_getElem _ _
      (hc.trans_eq hcount.symm)]
    exact List.getElem_map _

/-- **A segment on more channels is put back** on the number of channels that it had. -/
lemma conform_conform (h : segment.channelCount ≤ channelCount) :
    (segment.conform channelCount).conform segment.channelCount = segment := by
  by_cases hsame : segment.channelCount = channelCount ∨ segment.channelCount = 0
  · have hkept : segment.conform channelCount = segment := if_pos hsame
    rw [hkept]
    exact if_pos (.inl rfl)
  obtain ⟨hmore, hpos⟩ := not_or.mp hsame
  have hwide : segment.conform channelCount = ⟨(List.range channelCount).map fun c =>
      segment.channels.getD (c % segment.channelCount) []⟩ := if_neg hsame
  have hcount : (segment.conform channelCount).channelCount = channelCount := by
    rw [hwide, Segment.channelCount, List.length_map, List.length_range]
  rw [conform, hcount, if_neg (by omega)]
  refine congrArg Segment.mk (List.ext_getElem ?_ fun c hc hc' => ?_)
  · rw [List.length_map, List.length_range, Segment.channelCount]
  · -- both counts leave the number of a channel that the segment has
    have hfirst : c % channelCount = c := Nat.mod_eq_of_lt (hc'.trans_le h)
    have hagain : c % segment.channelCount = c := Nat.mod_eq_of_lt hc'
    have hlt : c < (segment.conform channelCount).channels.length :=
      (hc'.trans_le h).trans_eq hcount.symm
    rw [List.getElem_map, List.getElem_range, hfirst, List.getD_eq_getElem _ _ hlt]
    simp only [hwide, List.getElem_map, List.getElem_range, hagain]
    exact List.getD_eq_getElem _ _ hc'

/-- **The number of channels may be changed before effects or after them**, if no effect is one on
channels. A change to more channels and back changes nothing. -/
theorem conform_transformAll {effects : List Effect}
    (h : ∀ effect ∈ effects, effect.code ≠ 'c') :
    (transformAll effects segment).conform channelCount =
        transformAll effects (segment.conform channelCount) ∧
      (segment.channelCount ≤ channelCount →
        (segment.conform channelCount).conform segment.channelCount = segment) := by
  obtain ⟨f, hf⟩ := exists_mapChannels h
  rw [hf, hf]
  exact ⟨segment.conform_mapChannels channelCount f, segment.conform_conform channelCount⟩

/-- Two channels that are played faster, backwards and as differences, on five channels. -/
theorem conform_transformAll_five_channels :
    (∀ effect ∈ [Effect.speed 2, .reverse, .gradient 1], effect.code ≠ 'c') ∧
    (transformAll [.speed 2, .reverse, .gradient 1] ⟨[[1, 0, 3, 1], [2, 2, 0, 1]]⟩).conform 5 =
      transformAll [.speed 2, .reverse, .gradient 1] (conform ⟨[[1, 0, 3, 1], [2, 2, 0, 1]]⟩ 5) ∧
    (conform ⟨[[1, 0, 3, 1], [2, 2, 0, 1]]⟩ 5).channelCount = 5 ∧
    ((conform ⟨[[1, 0, 3, 1], [2, 2, 0, 1]]⟩ 5).conform 2) = ⟨[[1, 0, 3, 1], [2, 2, 0, 1]]⟩ := by
  have heffects : ∀ effect ∈ [Effect.speed 2, .reverse, .gradient 1], effect.code ≠ 'c' := by
    decide
  obtain ⟨hchange, hback⟩ := conform_transformAll ⟨[[1, 0, 3, 1], [2, 2, 0, 1]]⟩ 5 heffects
  exact ⟨heffects, hchange, by decide, hback (by decide)⟩

end Segment

end Arranger
