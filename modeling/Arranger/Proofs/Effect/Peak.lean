import Arranger.Proofs.Audio.Peak
import Arranger.Proofs.Effect.Shape

/-!
# Effects and peaks

How far from zero the samples of a segment can be behind an effect, computed with the operations of
the effect. If that is finite, no sample behind the effect is infinite or not a number.

## Main definitions

* `Arranger.Effect.peak` — the peak behind an effect.
* `Arranger.peakAll` — the peak behind a chain of effects.

## Main results

* `Arranger.Segment.All.transform` — the samples behind an effect.
* `Arranger.Segment.All.transformAll` — the samples behind a chain of effects.
-/

namespace Arranger

/-- The peak behind an effect, of samples that are at most `peak` before it. -/
def Effect.peak (peak : Sample) : Effect → Sample
  | speed factor => if factor.numEq 1 then peak else peak + peak
  | volume gain => peak * gain.abs
  | bitcrush depth => crush depth peak
  | gradient passes => Nat.repeat (fun peak => peak + peak) passes peak
  | reverse | downsample _ | swap | isolate _ => peak

/-- The peak behind the effects, from left to right. -/
def peakAll (effects : List Effect) (peak : Sample) : Sample :=
  effects.foldl Effect.peak peak

variable {peak : Sample}

/-! ## Samples -/

/-- Held samples are those of the channel, or the one that is held at first. -/
lemma forall_mem_holdFrom {p : Sample → Prop} {held : Sample} (hheld : p held)
    {samples : List Sample} (hsamples : ∀ sample ∈ samples, p sample) (hold left : ℕ) :
    ∀ sample ∈ holdFrom hold left held samples, p sample := by
  induction samples generalizing left held with
  | nil => simp [holdFrom]
  | cons first rest ih =>
    rw [List.forall_mem_cons] at hsamples
    cases left with
    | zero => exact List.forall_mem_cons.mpr ⟨hsamples.1, ih hsamples.1 hsamples.2 _⟩
    | succ left => exact List.forall_mem_cons.mpr ⟨hheld, ih hheld hsamples.2 _⟩

/-- The peak of differences of neighbours. -/
lemma differenceFrom_atMost {previous : Sample} (hprevious : previous.AtMost peak)
    {samples : List Sample} (hsamples : ∀ sample ∈ samples, sample.AtMost peak)
    (hpeak : (peak + peak).isFinite = true) :
    ∀ sample ∈ differenceFrom previous samples, sample.AtMost (peak + peak) := by
  induction samples generalizing previous with
  | nil => simp [differenceFrom]
  | cons first rest ih =>
    rw [List.forall_mem_cons] at hsamples
    exact List.forall_mem_cons.mpr ⟨hsamples.1.sub hprevious hpeak, ih hsamples.1 hsamples.2⟩

/-- The peak of the differences of a channel. -/
lemma difference_atMost {channel : List Sample} (hchannel : ∀ sample ∈ channel, sample.AtMost peak)
    (hpeak : (peak + peak).isFinite = true) :
    ∀ sample ∈ difference channel, sample.AtMost (peak + peak) := by
  cases channel with
  | nil => simp [difference]
  | cons first rest =>
    exact differenceFrom_atMost (hchannel first List.mem_cons_self) hchannel hpeak

/-- The peak of the differences of a channel that are taken several times. -/
lemma repeat_difference_atMost {channel : List Sample}
    (hchannel : ∀ sample ∈ channel, sample.AtMost peak) (passes : ℕ)
    (hpeak : (Nat.repeat (fun peak => peak + peak) passes peak).isFinite = true) :
    ∀ sample ∈ Nat.repeat difference passes channel,
      sample.AtMost (Nat.repeat (fun peak => peak + peak) passes peak) := by
  induction passes with
  | zero => exact hchannel
  | succ passes ih =>
    exact difference_atMost (ih (Binary.isFinite_of_isFinite_add hpeak).1) hpeak

/-- The peak of a sample rounded to the steps of a bit depth. -/
lemma crush_atMost {sample : Sample} (hsample : sample.AtMost peak) (depth : ℕ)
    (hpeak : (crush depth peak).isFinite = true) :
    (crush depth sample).AtMost (crush depth peak) := by
  have hproduct := Binary.isFinite_of_roundAway (Binary.isFinite_of_isFinite_div hpeak)
  have hsteps := (Binary.isFinite_of_isFinite_mul hproduct).2
  have hnonneg := Binary.value_nonneg (x := (Binary.ofNat (Nat.pow 2 (depth - 1)) : Sample))
    (Binary.isNegative_ofNat _)
  have hmul := hsample.mul ⟨hsteps, (abs_of_nonneg hnonneg).le⟩ hproduct
  exact (hmul.roundAway hproduct).div hsteps hnonneg hpeak

/-- A finite gain is at most its magnitude. -/
lemma gain_atMost {gain : Sample} (hpeak : (peak * gain.abs).isFinite = true) :
    gain.AtMost gain.abs := by
  have hgain := (Binary.isFinite_of_isFinite_mul hpeak).2
  rw [Binary.isFinite_abs] at hgain
  exact ⟨hgain, (Binary.value_abs gain).ge⟩

/-! ## Effects -/

/-- A peak is finite if the one behind an effect is. -/
lemma Effect.isFinite_of_isFinite_peak {effect : Effect}
    (h : (effect.peak peak).isFinite = true) : peak.isFinite = true := by
  cases effect with
  | speed factor =>
    rw [Effect.peak] at h
    split_ifs at h
    · exact h
    · exact (Binary.isFinite_of_isFinite_add h).1
  | volume gain => exact (Binary.isFinite_of_isFinite_mul h).1
  | bitcrush depth =>
    have hproduct := Binary.isFinite_of_roundAway (Binary.isFinite_of_isFinite_div h)
    exact (Binary.isFinite_of_isFinite_mul hproduct).1
  | gradient passes =>
    rw [Effect.peak] at h
    induction passes with
    | zero => exact h
    | succ passes ih => exact ih (Binary.isFinite_of_isFinite_add h).1
  | reverse => exact h
  | downsample hold => exact h
  | swap => exact h
  | isolate keep => exact h

/-- Zero is at most the peak behind an effect. -/
lemma Effect.zero_atMost_peak (hzero : (0 : Sample).AtMost peak) {effect : Effect}
    (hpeak : (effect.peak peak).isFinite = true) : (0 : Sample).AtMost (effect.peak peak) := by
  cases effect with
  | speed factor =>
    rw [Effect.peak] at hpeak ⊢
    split_ifs at hpeak ⊢
    · exact hzero
    · exact (hzero.add hzero hpeak).zero
  | volume gain => exact (hzero.mul (gain_atMost hpeak) hpeak).zero
  | bitcrush depth => exact (crush_atMost hzero depth hpeak).zero
  | gradient passes =>
    rw [Effect.peak] at hpeak ⊢
    induction passes with
    | zero => exact hzero
    | succ passes ih =>
      have hbefore := ih (Binary.isFinite_of_isFinite_add hpeak).1
      exact (hbefore.add hbefore hpeak).zero
  | reverse => exact hzero
  | downsample hold => exact hzero
  | swap => exact hzero
  | isolate keep => exact hzero

/-- A peak is finite if the one behind a chain of effects is. -/
lemma isFinite_of_isFinite_peakAll {effects : List Effect}
    (h : (peakAll effects peak).isFinite = true) : peak.isFinite = true := by
  induction effects generalizing peak with
  | nil => exact h
  | cons effect effects ih => exact Effect.isFinite_of_isFinite_peak (ih h)

/-- Zero is at most the peak behind a chain of effects. -/
lemma zero_atMost_peakAll (hzero : (0 : Sample).AtMost peak) {effects : List Effect}
    (hpeak : (peakAll effects peak).isFinite = true) :
    (0 : Sample).AtMost (peakAll effects peak) := by
  induction effects generalizing peak with
  | nil => exact hzero
  | cons effect effects ih =>
    have hrest : (peakAll effects (effect.peak peak)).isFinite = true := hpeak
    exact ih (Effect.zero_atMost_peak hzero (isFinite_of_isFinite_peakAll hrest)) hrest

namespace Segment

variable {segment : Segment}

/-- Channels that are exchanged have the samples that they had. -/
lemma All.swap {p : Sample → Prop} (h : segment.All p) : All p ⟨swapFirstTwo segment.channels⟩ :=
  fun channel hmem => h channel ((swapFirstTwo_perm _).mem_iff.mp hmem)

/-- Channels of which all but one are silenced have the samples that they had, or zero. -/
lemma All.isolate {p : Sample → Prop} (h : segment.All p) (hzero : p 0) (keep : ℕ) :
    All p ⟨silenceOthers keep segment.channels⟩ := by
  intro channel hchannel
  obtain ⟨source, hsource, rfl | rfl⟩ := exists_of_mem_silenceOthers hchannel
  · exact h _ hsource
  · intro sample hsample
    obtain ⟨_, _, rfl⟩ := List.mem_map.mp hsample
    exact hzero

section Transform

variable {channelCount frames : ℕ} (hshape : segment.HasShape channelCount frames)
  (hframes : frames ≤ maxWord) (hzero : (0 : Sample).AtMost peak)

include hshape hframes hzero

/-- **The samples behind an effect are at most the peak behind it**, if that is finite. -/
lemma All.transform (h : segment.All (·.AtMost peak)) {effect : Effect}
    (hpeak : (effect.peak peak).isFinite = true) :
    (effect.transform segment).All (·.AtMost (effect.peak peak)) := by
  cases effect with
  | speed factor =>
    rw [Effect.transform, Effect.peak] at *
    split_ifs at hpeak ⊢
    · exact h
    · exact h.mapChannels fun channel hmem hchannel =>
        resample_atMost hchannel hzero (hshape.length_eq channel hmem ▸ hframes) factor hpeak
  | reverse =>
    exact h.mapChannels fun channel _ hchannel sample hsample =>
      hchannel sample (List.mem_reverse.mp hsample)
  | volume gain =>
    exact h.mapSamples fun sample hsample => hsample.mul (gain_atMost hpeak) hpeak
  | downsample hold =>
    exact h.mapChannels fun channel _ hchannel =>
      forall_mem_holdFrom (p := (·.AtMost peak)) hzero hchannel hold 0
  | bitcrush depth => exact h.mapSamples fun sample hsample => crush_atMost hsample depth hpeak
  | gradient passes =>
    exact h.mapChannels fun channel _ hchannel => repeat_difference_atMost hchannel passes hpeak
  | swap => exact h.swap
  | isolate keep => exact h.isolate hzero keep

/-- **The samples behind a chain of effects are at most the peak behind it**, if that is finite. -/
lemma All.transformAll (h : segment.All (·.AtMost peak)) {effects : List Effect}
    (hpeak : (peakAll effects peak).isFinite = true) :
    (transformAll effects segment).All (·.AtMost (peakAll effects peak)) := by
  induction effects generalizing segment peak frames with
  | nil => exact h
  | cons effect effects ih =>
    have hrest : (peakAll effects (effect.peak peak)).isFinite = true := hpeak
    have hnext := isFinite_of_isFinite_peakAll hrest
    obtain ⟨more, hmore, hword⟩ := hshape.exists_transform effect
    exact ih hmore (hword hframes) (Effect.zero_atMost_peak hzero hnext)
      (h.transform hshape hframes hzero hnext) hrest

end Transform

end Segment

end Arranger
