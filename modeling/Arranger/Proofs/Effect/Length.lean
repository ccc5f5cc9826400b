import Arranger.Proofs.Effect.Shape
import Arranger.Proofs.Number.Magnitude

/-!
# Effects and the number of frames

How long a segment is after effects, with speed among them.

## Main definitions

* `Arranger.Effect.framesAfter`, `framesAfterAll` — the number of frames after one or more effects.
* `Arranger.Effect.IsPlayable` — an effect that, if it is speed, has a factor to play with.

## Main results

* `Arranger.Segment.HasShape.transform_playable`, `transformAll_playable` — the shape after effects.
* `Arranger.Effect.framesAfter_speed` — speed divides the number of frames by its factor.
-/

namespace Arranger

/-- The number of frames after an effect: what the factor of speed divides it into, rounded up to a
whole number. The factor one, and the other effects, do not change it, and no frame or a single one
stays as it is. -/
def Effect.framesAfter (frames : ℕ) : Effect → ℕ
  | speed factor =>
    if factor.numEq 1 = true ∨ frames ≤ 1 then frames
    else (Binary.ofNat frames / factor).ceil.toWord
  | _ => frames

/-- The number of frames after the effects, from left to right. -/
def framesAfterAll (frames : ℕ) (effects : List Effect) : ℕ :=
  effects.foldl Effect.framesAfter frames

/-- An effect that, if it is speed, has a factor that is a positive number. -/
def Effect.IsPlayable (effect : Effect) : Prop :=
  ∀ factor, effect = .speed factor → factor.isFinite = true ∧ 0 < factor

/-- The smallest speed factor. -/
lemma Effect.minSpeed_spec : minSpeed.isFinite = true ∧ minSpeed.value = 1 / 64 := by
  decide +kernel

/-- A speed factor is positive, if it is not too small. -/
lemma Effect.pos_of_minSpeed_le {factor : Double} (hfinite : factor.isFinite = true)
    (hslow : minSpeed ≤ factor) : 0 < factor := by
  obtain ⟨hmin, hvalue⟩ := minSpeed_spec
  rw [Binary.le_iff hmin hfinite, hvalue] at hslow
  rw [Binary.pos_iff hfinite]
  linarith

/-- The quotient of a number of frames by a factor that is not too small.

**Proof sketch.** It is at most `2 ^ 59`, which a 64-bit number is equal to, and so it is rounded to
no more than that. -/
lemma div_spec {frames : ℕ} (hframes : frames ≤ 2 ^ 53) {factor : Double}
    (hfinite : factor.isFinite = true) (hslow : Effect.minSpeed ≤ factor) :
    (Binary.ofNat frames / factor).isFinite = true ∧
      (Binary.ofNat frames / factor).value = Format.double.nearest (frames / factor.value) ∧
      0 ≤ Format.double.nearest (frames / factor.value) ∧
      Format.double.nearest (frames / factor.value) ≤ 2 ^ 59 := by
  obtain ⟨hmin, hminValue⟩ := Effect.minSpeed_spec
  obtain ⟨hwhole, hwholeValue, -⟩ := Binary.ofNat_spec .double hframes
  rw [Binary.le_iff hmin hfinite, hminValue] at hslow
  have hpos : 0 < factor.value := by linarith
  have hlow := Format.double.nearest_nonneg (show 0 ≤ frames / factor.value by positivity)
  have hquotient : frames / factor.value ≤ 2 ^ 59 := by
    have hcast : (frames : ℚ) ≤ 2 ^ 53 := by exact_mod_cast hframes
    rw [div_le_iff₀ hpos]
    linarith
  have hrepresentable : Format.double.Representable (2 ^ 59) :=
    ⟨2 ^ 53, 6, by decide, by decide, by norm_num⟩
  have hhigh := hrepresentable.nearest_le hquotient
  have hlimit : |Format.double.nearest (frames / factor.value)| < Format.double.limit := by
    rw [abs_of_nonneg hlow]
    exact hhigh.trans_lt (by exact_mod_cast (two_zpow_lt_iff (a := 59)).mpr (by decide))
  rw [Binary.div_eq hwhole hfinite hpos.ne', hwholeValue]
  obtain ⟨hround, hroundValue, -⟩ := Binary.roundSigned_of_lt _ hlimit
  exact ⟨hround, hroundValue, hlow, hhigh⟩

/-- **Speed divides the number of frames by its factor**: the quotient is rounded to a 64-bit number
and then up to a whole one. The factor is not too small and not one, and the number of frames is one
that a 64-bit number is equal to. -/
theorem Effect.framesAfter_speed {frames : ℕ} (hmore : 1 < frames) (hframes : frames ≤ 2 ^ 53)
    {factor : Double} (hfinite : factor.isFinite = true) (hslow : minSpeed ≤ factor)
    (hone : factor.numEq 1 = false) :
    (speed factor).framesAfter frames =
      (Format.double.nearest (frames / factor.value)).ceil.toNat := by
  obtain ⟨hquotient, hvalue, hlow, hhigh⟩ := div_spec hframes hfinite hslow
  have hdivided : ¬ (factor.numEq 1 = true ∨ frames ≤ 1) :=
    not_or.mpr ⟨Bool.eq_false_iff.mp hone, not_le.mpr hmore⟩
  rw [framesAfter, if_neg hdivided, ← hvalue]
  refine Binary.toWord_ceil hquotient (hvalue ▸ hlow) ?_
  rw [hvalue]
  exact hhigh.trans (by rw [maxWord]; norm_num)

/-- An effect that is not speed does not change the number of frames. -/
lemma Effect.framesAfter_of_ne (effect : Effect) (h : ∀ factor, effect ≠ .speed factor)
    (frames : ℕ) : effect.framesAfter frames = frames := by
  cases effect with
  | speed factor => exact absurd rfl (h factor)
  | _ => rfl

/-- A single sample stays single, and so does none. -/
lemma resample_of_length_le_one {channel : List Sample} (h : channel.length ≤ 1) (ratio : Double) :
    resample channel ratio = channel := by
  rw [resample, decide_eq_false (not_lt.mpr h), Bool.and_false]
  exact if_neg Bool.false_ne_true

section Resample

variable {ratio : Double} (hfinite : ratio.isFinite = true) (hpos : 0 < ratio)

include hfinite hpos

/-- A channel of several samples is read at steps of a positive number. -/
lemma resample_of_pos {channel : List Sample} (hmore : 1 < channel.length) :
    resample channel ratio = (List.range (resampledLength channel.length ratio)).map fun i =>
      sampleAt channel.toArray (.ofNat i * ratio) := by
  rw [resample, hfinite, decide_eq_true hpos, decide_eq_true hmore]
  exact if_pos rfl

/-- The number of samples of a channel that is read at steps of a positive number. -/
lemma length_resample_of_pos (channel : List Sample) :
    (resample channel ratio).length =
      if channel.length ≤ 1 then channel.length else resampledLength channel.length ratio := by
  split_ifs with hone
  · rw [resample_of_length_le_one hone]
  · rw [resample_of_pos hfinite hpos (not_le.mp hone), List.length_map, List.length_range]

end Resample

namespace Segment.HasShape

variable {segment : Segment} {channelCount frames : ℕ}

/-- **The shape after an effect.** -/
lemma transform_playable (h : segment.HasShape channelCount frames) {effect : Effect}
    (hplayable : effect.IsPlayable) :
    (effect.transform segment).HasShape channelCount (effect.framesAfter frames) := by
  by_cases hspeed : ∃ factor, effect = .speed factor
  · obtain ⟨factor, rfl⟩ := hspeed
    obtain ⟨hfinite, hpos⟩ := hplayable factor rfl
    rw [Effect.transform, Effect.framesAfter]
    by_cases hone : factor.numEq 1 = true
    · rw [if_pos hone, if_pos (.inl hone)]
      exact h
    · rw [if_neg hone]
      refine h.mapChannels fun channel hlength => ?_
      rw [length_resample_of_pos hfinite hpos, hlength, resampledLength]
      simp only [hone, Bool.false_eq_true, false_or]
  · rw [not_exists] at hspeed
    rw [effect.framesAfter_of_ne hspeed]
    exact h.transform hspeed

/-- **The shape after effects.** -/
lemma transformAll_playable (h : segment.HasShape channelCount frames) {effects : List Effect}
    (hplayable : ∀ effect ∈ effects, effect.IsPlayable) :
    (Arranger.transformAll effects segment).HasShape channelCount
      (framesAfterAll frames effects) := by
  induction effects generalizing segment frames with
  | nil => exact h
  | cons effect effects ih =>
    rw [List.forall_mem_cons] at hplayable
    exact ih (h.transform_playable hplayable.1) hplayable.2

end Segment.HasShape

end Arranger
