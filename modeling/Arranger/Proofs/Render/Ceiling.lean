import Arranger.Pattern.Compiling
import Arranger.Proofs.Audio.Peak
import Arranger.Proofs.Render.Shape

/-!
# Renderings at two ceilings

A rendering at a ceiling is the one at a higher ceiling, clamped. Mixes are clamped before they are
joined to the rest, but at the ceiling or at a higher one comes to the same: what is joined is
clamped once more, and mixes hold no mixes.

## Main definitions

* `Arranger.Limiter.clampRecording` — the limiter at work on a recording.

## Main results

* `Arranger.Limiter.clampSample_clampSample` — clamping lower makes up for clamping higher before.
* `Arranger.Limiter.clampSegment_append` — what is joined can be clamped before or after.
* `Arranger.render_clamped` — a rendering at a lower ceiling.
-/

namespace Arranger

/-! ## Samples -/

namespace Limiter

variable {limiter low high : Limiter}

/-- The recording with every sample clamped. -/
def clampRecording (limiter : Limiter) (recording : Recording) : Recording :=
  .ofSegment (limiter.clampSegment ⟨recording.channels⟩) recording.rate

/-- A sample below the allowed range. -/
lemma clampSample_of_lt {sample : Sample} (h : sample < -limiter.ceiling) :
    limiter.clampSample sample = -limiter.ceiling := by
  rw [clampSample, if_pos h]

/-- A sample above the allowed range. -/
lemma clampSample_of_gt (hfinite : limiter.ceiling.isFinite = true)
    (hpositive : 0 < limiter.ceiling.value) {sample : Sample} (h : limiter.ceiling < sample) :
    limiter.clampSample sample = limiter.ceiling := by
  have hrange : -limiter.ceiling < limiter.ceiling := by
    rw [Binary.lt_iff (by rwa [Binary.isFinite_neg]) hfinite, Binary.value_neg]
    linarith
  have hbelow := Binary.not_lt_of_le (Binary.le_of_lt (Binary.lt_trans hrange h))
  rw [clampSample, if_neg hbelow, if_pos h]

/-- A sample within the allowed range, or not-a-number. -/
lemma clampSample_of_not (limiter : Limiter) {sample : Sample}
    (hbelow : ¬ sample < -limiter.ceiling) (habove : ¬ limiter.ceiling < sample) :
    limiter.clampSample sample = sample := by
  rw [clampSample, if_neg hbelow, if_neg habove]

/-- A number that is not beyond the ceiling is not changed. -/
lemma Admits.clampSample_eq {sample : Sample} (h : limiter.Admits sample) :
    limiter.clampSample sample = sample :=
  limiter.clampSample_of_not (Binary.not_lt_of_le h.low) (Binary.not_lt_of_le h.high)

/-- Clamping twice is clamping once. -/
lemma clampSample_self (hfinite : limiter.ceiling.isFinite = true)
    (hpositive : 0 < limiter.ceiling.value) (sample : Sample) :
    limiter.clampSample (limiter.clampSample sample) = limiter.clampSample sample := by
  by_cases hnan : sample = .nan
  · rw [hnan, clampSample_nan, clampSample_nan]
  · exact (admits_clampSample hfinite hpositive hnan).clampSample_eq

/-- **Clamping makes up for clamping at a higher ceiling before.** -/
theorem clampSample_clampSample (hlow : low.ceiling.isFinite = true)
    (hpositive : 0 < low.ceiling.value) (hhigh : high.ceiling.isFinite = true)
    (h : low.ceiling ≤ high.ceiling) (sample : Sample) :
    low.clampSample (high.clampSample sample) = low.clampSample sample := by
  rw [Binary.le_iff hlow hhigh] at h
  rcases eq_or_lt_of_le h with heq | hlt
  · have hceiling : low = high := by
      have hsign : low.ceiling.isNegative = high.ceiling.isNegative := by
        rw [Binary.isNegative_of_pos hpositive, Binary.isNegative_of_pos (heq ▸ hpositive)]
      exact congrArg Limiter.mk (Binary.eq_of_value_eq hlow hhigh heq hsign)
    rw [← hceiling, clampSample_self hlow hpositive]
  · -- What is beyond the higher ceiling becomes its end of the range, beyond the lower ceiling.
    have habove : low.ceiling < high.ceiling := (Binary.lt_iff hlow hhigh).mpr hlt
    have hbelow : -high.ceiling < -low.ceiling := by
      rw [Binary.lt_iff (by rwa [Binary.isFinite_neg]) (by rwa [Binary.isFinite_neg])]
      rw [Binary.value_neg, Binary.value_neg]
      linarith
    by_cases hunder : sample < -high.ceiling
    · rw [clampSample_of_lt hunder, clampSample_of_lt hbelow,
        clampSample_of_lt (Binary.lt_trans hunder hbelow)]
    by_cases hover : high.ceiling < sample
    · rw [clampSample_of_gt hhigh (hpositive.trans hlt) hover,
        clampSample_of_gt hlow hpositive habove,
        clampSample_of_gt hlow hpositive (Binary.lt_trans habove hover)]
    · rw [high.clampSample_of_not hunder hover]

end Limiter

/-! ## Segments -/

/-- A list laid over another, and then each member transformed: the transformed lists one over the
other, if the transformation respects the way that members are combined. -/
lemma map_overlay {α β : Type} {f : α → α → α} {g : β → β → β} {transform : α → β}
    (h : ∀ x y, transform (f x y) = g (transform x) (transform y)) (xs ys : List α) :
    (overlay f xs ys).map transform = overlay g (xs.map transform) (ys.map transform) := by
  induction xs generalizing ys with
  | nil => rfl
  | cons x xs ih =>
    cases ys with
    | nil => rfl
    | cons y ys => rw [overlay, List.map_cons, h, ih, List.map_cons, List.map_cons, overlay]

namespace Limiter

/-- What is joined can be clamped before or after. -/
lemma clampSegment_append (limiter : Limiter) (segment other : Segment) :
    limiter.clampSegment (segment.append other) =
      (limiter.clampSegment segment).append (limiter.clampSegment other) := by
  obtain ⟨channels⟩ := segment
  cases channels with
  | nil => rfl
  | cons channel channels =>
    exact congrArg Segment.mk (map_overlay (fun _ _ => List.map_append) _ _)

section Twice

variable {low high : Limiter} (hlow : low.ceiling.isFinite = true)
  (hpositive : 0 < low.ceiling.value) (hhigh : high.ceiling.isFinite = true)
  (h : low.ceiling ≤ high.ceiling)

include hlow hpositive hhigh h

/-- Clamping makes up for clamping at a higher ceiling before. -/
lemma clampSegment_clampSegment (segment : Segment) :
    low.clampSegment (high.clampSegment segment) = low.clampSegment segment := by
  have hsample := clampSample_clampSample hlow hpositive hhigh h
  simp only [clampSegment, Segment.mapSamples, Segment.mapChannels, List.map_map,
    Function.comp_def, hsample]

/-- Clamping makes up for performing a plan at a higher ceiling. -/
lemma clampSegment_perform (plan : Plan) (channelCount : ℕ) :
    low.clampSegment (plan.perform high channelCount) =
      low.clampSegment (plan.perform low channelCount) := by
  cases plan with
  | single leaf => rfl
  | mix mode leaves =>
    have hself : low.ceiling ≤ low.ceiling := (Binary.le_iff hlow hlow).mpr le_rfl
    rw [Plan.perform, Plan.perform, clampSegment_clampSegment hlow hpositive hhigh h,
      clampSegment_clampSegment hlow hpositive hlow hself]

/-- Clamping makes up for performing plans at a higher ceiling.

**Proof sketch.** By induction on the plans from the last one on. What is joined can as well be
clamped before, and then each plan is clamped on its own. -/
lemma clampSegment_performAll (plans : List Plan) (channelCount : ℕ) :
    low.clampSegment (performAll high channelCount plans) =
      low.clampSegment (performAll low channelCount plans) := by
  induction plans using List.reverseRecOn with
  | nil => rfl
  | append_singleton plans plan ih =>
    rw [performAll_concat, performAll_concat, clampSegment_append, clampSegment_append, ih,
      clampSegment_perform hlow hpositive hhigh h]

/-- What is performed at a lower ceiling. -/
lemma perform_clamped (song : Song) (plans : List Plan) :
    perform song low plans = low.clampRecording (perform song high plans) := by
  have hjoined := clampSegment_performAll hlow hpositive hhigh h plans song.recording.channelCount
  have hclamped := clampSegment_clampSegment hlow hpositive hhigh h
    (performAll high song.recording.channelCount plans)
  rw [hjoined] at hclamped
  exact congrArg (Recording.ofSegment · song.recording.rate) hclamped.symm

end Twice

end Limiter

/-! ## Renderings -/

/-- **A rendering at a lower ceiling is the one at a higher ceiling, clamped**, or the same fault.
The ceilings are those that the requested ones are answered with. -/
theorem render_clamped (pattern : Pattern) (song : Song) (table : SongTable) (seed : Option UInt64)
    (repetition : Repeat) {low high : Sample}
    (h : (Limiter.ofCeiling low).ceiling ≤ (Limiter.ofCeiling high).ceiling) (entropy : UInt64) :
    render pattern song table ⟨seed, repetition, low⟩ entropy =
      (render pattern song table ⟨seed, repetition, high⟩ entropy).map
        (Limiter.ofCeiling low).clampRecording := by
  obtain ⟨hlow, hpositive, -⟩ := Limiter.ofCeiling_spec low
  obtain ⟨hhigh, -, -⟩ := Limiter.ofCeiling_spec high
  rw [render, render]
  cases checkAliases table pattern.aliases with
  | error fault => rfl
  | ok _ =>
    dsimp only [bind, Except.bind]
    cases (Stage.plan ⟨song, table, repetition⟩ pattern (.ofSeed (seed.getD entropy))).1 with
    | error fault => rfl
    | ok plans =>
      exact congrArg Except.ok (Limiter.perform_clamped hlow hpositive hhigh h song plans)

/-- A doubled beat laid over another one, and then the first one alone, at the ceilings a quarter
and two. The second is answered with one, and at either one the mix is clamped before the rest. -/
theorem render_clamped_two_beats :
    ∃ (song : Song) (pattern : Pattern), Pattern.ofText "1v2;2,1" = .ok pattern ∧
      (Limiter.ofCeiling (1 / 4)).ceiling ≤ (Limiter.ofCeiling 2).ceiling ∧
      render pattern song .empty ⟨some 0, .once, 2⟩ 0 = .ok ⟨[[1, -(1 / 2), 1 / 2, -(1 / 2)]], 2⟩ ∧
      render pattern song .empty ⟨some 0, .once, 1 / 4⟩ 0 =
        (render pattern song .empty ⟨some 0, .once, 2⟩ 0).map
          (Limiter.ofCeiling (1 / 4)).clampRecording := by
  have htext : Pattern.ofText "1v2;2,1" = .ok
      ⟨[.mix .sum [⟨none, { ref := .literal 1, effects := [.volume 2] }⟩,
          ⟨none, { ref := .literal 2 }⟩],
        .single ⟨none, { ref := .literal 1 }⟩]⟩ := by
    decide +kernel
  have hceiling : (Limiter.ofCeiling (1 / 4)).ceiling ≤ (Limiter.ofCeiling 2).ceiling := by
    decide +kernel
  have hrender : render
      ⟨[.mix .sum [⟨none, { ref := .literal 1, effects := [.volume 2] }⟩,
          ⟨none, { ref := .literal 2 }⟩],
        .single ⟨none, { ref := .literal 1 }⟩]⟩
      ⟨⟨[[1 / 2, -(1 / 2), 1, 1 / 2]], 2⟩, ⟨[0, 2, 4], 4⟩⟩ .empty ⟨some 0, .once, 2⟩ 0 =
        .ok ⟨[[1, -(1 / 2), 1 / 2, -(1 / 2)]], 2⟩ := by
    decide +kernel
  exact ⟨_, _, htext, hceiling, hrender, render_clamped _ _ _ _ _ hceiling _⟩

end Arranger
