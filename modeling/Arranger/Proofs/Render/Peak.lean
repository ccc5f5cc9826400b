import Arranger.Proofs.Effect.Peak
import Arranger.Proofs.Render.Shape

/-!
# The peak of what is rendered

How far from zero the samples can be before they are limited, computed from the effects and mixes of
a pattern and from the peak of the songs.

## Main definitions

* `Arranger.Term.peak`, `Step.peak` — the peaks of terms and steps.
* `Arranger.Pattern.HasHeadroom` — no peak of the pattern overflows.
* `Arranger.Song.AtMost` — a song with samples that are at most a peak.

## Main results

* `Arranger.mixDown_all` — the peak of a mix, also where it lacks parts.
* `Arranger.Plan.ComesOf.all_isFinite` — what a step with a finite peak plays is finite.
-/

namespace Arranger

/-! ## Peaks of a pattern -/

/-- The peak of a part that is filled up with samples that change nothing. -/
def MixMode.partPeak (peak : Sample) : MixMode → Sample
  | sum => peak
  | product => if peak.isFinite = true ∧ peak < 1 then 1 else peak

/-- The peak of parts laid over samples that are at most `peak`. -/
def MixMode.peakOver (mode : MixMode) (peak : Sample) (parts : List Sample) : Sample :=
  parts.foldl (fun before part => mode.combine before (mode.partPeak part)) peak

/-- The peak of what a term plays of songs that are at most `peak`. -/
def Term.peak (peak : Sample) (term : Term) : Sample :=
  if term.beat.silent then 0 else peakAll term.beat.effects peak

/-- The peak of what a step plays of songs that are at most `peak`, before it is limited. -/
def Step.peak (peak : Sample) : Step → Sample
  | single term => term.peak peak
  | mix mode parts => mode.peakOver mode.identity (parts.map (Term.peak peak))

/-- Playing songs that are at most `peak`, the pattern overflows nowhere. -/
def Pattern.HasHeadroom (peak : Sample) (pattern : Pattern) : Prop :=
  ∀ step ∈ pattern.steps, (step.peak peak).isFinite = true

instance (peak : Sample) (pattern : Pattern) : Decidable (pattern.HasHeadroom peak) :=
  inferInstanceAs (Decidable (∀ step ∈ pattern.steps, (step.peak peak).isFinite = true))

/-- A well-formed song that is no longer than a word, with samples that are at most a peak. -/
structure Song.AtMost (song : Song) (peak : Sample) : Prop where
  /-- The song is well formed. -/
  wellFormed : song.WellFormed
  /-- The recording is no longer than a word. -/
  frames_le : song.recording.frames ≤ maxWord
  /-- The samples are at most the peak. -/
  samples : song.recording.All (·.AtMost peak)

/-! ## Combining samples -/

namespace MixMode

variable {mode : MixMode} {x y p q : Sample}

/-- The peak of two samples combined. -/
lemma combine_atMost (hx : x.AtMost p) (hy : y.AtMost q) (h : (mode.combine p q).isFinite = true) :
    (mode.combine x y).AtMost (mode.combine p q) := by
  cases mode with
  | sum => exact hx.add hy h
  | product => exact hx.mul hy h

/-- A peak is finite if it is combined to a finite one. -/
lemma isFinite_of_combine (h : (mode.combine p q).isFinite = true) :
    p.isFinite = true ∧ q.isFinite = true := by
  cases mode with
  | sum => exact Binary.isFinite_of_isFinite_add h
  | product => exact Binary.isFinite_of_isFinite_mul h

/-- A sample that nothing is combined with stays below a peak that is combined. -/
lemma keep_atMost (hx : x.AtMost p) (hq : mode.identity.AtMost q)
    (h : (mode.combine p q).isFinite = true) : x.AtMost (mode.combine p q) := by
  cases mode with
  | sum => exact hx.add_right hq.peak_nonneg h
  | product =>
    have hle := hq.abs_le
    change |(1 : Sample).value| ≤ q.value at hle
    rw [(Binary.one_spec _).2.1, abs_one] at hle
    exact hx.mul_right hle h

/-- The peak of a part is finite if it is as a part that is filled up. -/
lemma isFinite_of_partPeak (h : (mode.partPeak p).isFinite = true) : p.isFinite = true := by
  cases mode with
  | sum => exact h
  | product =>
    change (if p.isFinite = true ∧ p < 1 then 1 else p).isFinite = true at h
    split_ifs at h with hsmall
    · exact hsmall.1
    · exact h

/-- A part is at most its peak as a part that is filled up, and so is what it is filled up with. -/
lemma partPeak_spec (hx : x.AtMost p) (h : (mode.partPeak p).isFinite = true) :
    x.AtMost (mode.partPeak p) ∧ mode.identity.AtMost (mode.partPeak p) := by
  cases mode with
  | sum => exact ⟨hx, hx.zero⟩
  | product =>
    obtain ⟨hone, hvalue, -⟩ := Binary.one_spec .single
    have hp := isFinite_of_partPeak h
    change x.AtMost (if p.isFinite = true ∧ p < 1 then 1 else p) ∧
      (1 : Sample).AtMost (if p.isFinite = true ∧ p < 1 then 1 else p)
    split_ifs with hsmall
    · have hle := ((Binary.lt_iff hp hone).mp hsmall.2).le
      exact ⟨⟨hx.finite, hx.abs_le.trans hle⟩, hone, by rw [hvalue, abs_one]⟩
    · have hlarge : 1 ≤ p.value := by
        rw [← hvalue, ← not_lt, ← Binary.lt_iff hp hone]
        exact fun hlt => hsmall ⟨hp, hlt⟩
      exact ⟨hx, hone, by rwa [hvalue, abs_one]⟩

/-- A part that is filled up has a finite peak, and is filled up with what is at most it, if the
peak combined with it is finite. -/
lemma partPeak_of_combine (hzero : q.isFinite = true → (0 : Sample).AtMost q)
    (h : (mode.combine p (mode.partPeak q)).isFinite = true) :
    (mode.partPeak q).isFinite = true ∧ q.isFinite = true ∧
      mode.identity.AtMost (mode.partPeak q) := by
  have hpart := (isFinite_of_combine h).2
  have hq := isFinite_of_partPeak hpart
  exact ⟨hpart, hq, (partPeak_spec (hzero hq) hpart).2⟩

/-- The peak before parts is finite if the one behind them is. -/
lemma isFinite_of_peakOver {parts : List Sample} (h : (mode.peakOver p parts).isFinite = true) :
    p.isFinite = true := by
  induction parts generalizing p with
  | nil => exact h
  | cons q parts ih => exact (isFinite_of_combine (ih h)).1

end MixMode

/-! ## Mixes -/

/-- The samples of a segment with a part laid over it. -/
lemma Segment.All.combine {mode : MixMode} {p q : Sample} {segment other : Segment}
    (h : segment.All (·.AtMost p)) (hother : other.All (·.AtMost q))
    (hidentity : mode.identity.AtMost q) (hpeak : (mode.combine p q).isFinite = true)
    (frames : ℕ) :
    (Segment.combine mode frames segment other).All (·.AtMost (mode.combine p q)) := by
  have hkeep : ∀ x : Sample, x.AtMost p → x.AtMost (mode.combine p q) :=
    fun x hx => MixMode.keep_atMost hx hidentity hpeak
  refine forall_mem_overlay (p := fun channel : List Sample => ∀ sample ∈ channel, sample.AtMost p)
    (q := fun channel : List Sample => ∀ sample ∈ channel, sample.AtMost q)
    (fun xs ys hxs hys => ?_) (fun _ xs hxs x hx => hkeep x (hxs x hx)) h
    (hother.padTo hidentity frames)
  exact forall_mem_overlay (p := (·.AtMost p)) (q := (·.AtMost q))
    (r := (·.AtMost (mode.combine p q))) (fun x y hx hy => MixMode.combine_atMost hx hy hpeak)
    (fun _ x hx => hkeep x hx) hxs hys

/-- Samples that a missing part leaves as they are stay below the peak combined with its peak. -/
lemma Segment.All.keep {mode : MixMode} {p q : Sample} {segment : Segment}
    (h : segment.All (·.AtMost p)) (hzero : q.isFinite = true → (0 : Sample).AtMost q)
    (hpeak : (mode.combine p (mode.partPeak q)).isFinite = true) :
    segment.All (·.AtMost (mode.combine p (mode.partPeak q))) :=
  h.mono fun _ hsample =>
    MixMode.keep_atMost hsample (MixMode.partPeak_of_combine hzero hpeak).2.2 hpeak

section Mix

variable {α β : Type} {mode : MixMode} {segment : α → Segment} {peak : β → Sample}

/-- **The samples of parts laid over a segment are at most the peaks combined**, if that is finite.
Parts may be missing.

**Proof sketch.** By induction on the parts. One that is there is combined with its peak, and one
that is missing leaves samples that are at most the peak before it, which combining does not
lower. -/
lemma foldl_combine_all (hzero : ∀ y, (peak y).isFinite = true → (0 : Sample).AtMost (peak y))
    {xs : List α} {ys : List β} (hparts : List.SublistForall₂
      (fun x y => (peak y).isFinite = true → (segment x).All (·.AtMost (peak y))) xs ys)
    (frames : ℕ) {before : Segment} {p : Sample} (hbefore : before.All (·.AtMost p))
    (hpeak : (mode.peakOver p (ys.map peak)).isFinite = true) :
    ((xs.map segment).foldl (Segment.combine mode frames) before).All
      (·.AtMost (mode.peakOver p (ys.map peak))) := by
  induction hparts generalizing before p with
  | @nil ys =>
    induction ys generalizing p with
    | nil => exact hbefore
    | cons y ys ih =>
      exact ih (hbefore.keep (hzero y) (MixMode.isFinite_of_peakOver hpeak)) hpeak
  | @cons x y xs ys hpart _ ih =>
    have hcombined : (mode.combine p (mode.partPeak (peak y))).isFinite = true :=
      MixMode.isFinite_of_peakOver hpeak
    obtain ⟨hpartFinite, hy, hfill⟩ := MixMode.partPeak_of_combine (hzero y) hcombined
    have hsegment := (hpart hy).mono fun x hx => (MixMode.partPeak_spec hx hpartFinite).1
    exact ih (hbefore.combine hsegment hfill hcombined frames) hpeak
  | @cons_right y xs ys _ ih =>
    exact ih (hbefore.keep (hzero y) (MixMode.isFinite_of_peakOver hpeak)) hpeak

/-- **The samples of a mix are at most its peak**, if that is finite. Parts may be missing. -/
lemma mixDown_all (hzero : ∀ y, (peak y).isFinite = true → (0 : Sample).AtMost (peak y))
    {xs : List α} {ys : List β} (hparts : List.SublistForall₂
      (fun x y => (peak y).isFinite = true → (segment x).All (·.AtMost (peak y))) xs ys)
    (channelCount : ℕ) (hpeak : (mode.peakOver mode.identity (ys.map peak)).isFinite = true) :
    (mixDown mode channelCount (xs.map segment)).All
      (·.AtMost (mode.peakOver mode.identity (ys.map peak))) := by
  have hidentity : mode.identity.AtMost mode.identity := by
    cases mode with
    | sum => exact Binary.zero_atMost_zero
    | product => exact Binary.one_atMost_one
  refine foldl_combine_all hzero hparts _ (fun channel hchannel sample hsample => ?_) hpeak
  rw [List.eq_of_mem_replicate hchannel] at hsample
  rwa [List.eq_of_mem_replicate hsample]

end Mix

/-! ## Leaves and plans -/

/-- Zero is at most the peak of a term. -/
lemma Term.zero_atMost_peak {peak : Sample} (hzero : (0 : Sample).AtMost peak) (term : Term)
    (hpeak : (term.peak peak).isFinite = true) : (0 : Sample).AtMost (term.peak peak) := by
  rw [Term.peak] at hpeak ⊢
  split_ifs at hpeak ⊢
  · exact Binary.zero_atMost_zero
  · exact zero_atMost_peakAll hzero hpeak

section Songs

variable {stage : Stage} {peak : Sample}
  (hsongs : ∀ term song, stage.songOf term = .ok song → song.AtMost peak)
  (hzero : (0 : Sample).AtMost peak)

include hsongs hzero

/-- **What a term plays is at most its peak**, if that is finite. -/
lemma Leaf.ComesOf.all_atMost {term : Term} {leaf : Leaf} (h : leaf.ComesOf stage term)
    (hpeak : (term.peak peak).isFinite = true) (channelCount : ℕ) :
    (leaf.perform channelCount).All (·.AtMost (term.peak peak)) := by
  obtain ⟨hsong, -, hleaf⟩ := h
  cases hleaf with
  | silence hsilent =>
    exact Segment.All.silent (Term.zero_atMost_peak hzero term hpeak) channelCount _
  | extract hsilent =>
    obtain ⟨hwellFormed, hframes, hsamples⟩ := hsongs term _ hsong
    rw [Term.peak, hsilent, if_neg Bool.false_ne_true] at hpeak ⊢
    refine ((hsamples.window _ _).transformAll (hwellFormed.recording.window_hasShape _ _) ?_ hzero
      hpeak).conform _
    omega

/-- **What a step with a finite peak plays is finite.** -/
lemma Plan.ComesOf.all_isFinite {step : Step} {plan : Plan} (h : plan.ComesOf stage step)
    (hpeak : (step.peak peak).isFinite = true) {limiter : Limiter}
    (hceiling : limiter.ceiling.isFinite = true) (hpositive : 0 < limiter.ceiling.value)
    (channelCount : ℕ) :
    (plan.perform limiter channelCount).All (·.isFinite = true) := by
  cases h with
  | @single term leaf hleaf =>
    exact (hleaf.all_atMost hsongs hzero hpeak channelCount).mono fun sample hsample =>
      hsample.finite
  | @mix parts leaves mode hleaves =>
    obtain ⟨terms, hforall, hterms⟩ := List.sublistForall₂_iff.mp hleaves
    have hparts := List.sublistForall₂_iff.mpr ⟨terms, hforall.imp fun leaf term hleaf hterm =>
      hleaf.all_atMost hsongs hzero hterm channelCount, hterms⟩
    have hmix := mixDown_all (fun term => term.zero_atMost_peak hzero) hparts channelCount hpeak
    exact hmix.mapSamples fun sample hsample =>
      (Limiter.admits_clampSample hceiling hpositive (Binary.ne_nan hsample.finite)).finite

end Songs

end Arranger
