import Arranger.Audio.Limiter
import Arranger.Audio.Resample
import Arranger.Proofs.Audio.Shape
import Arranger.Proofs.Number.Magnitude

/-!
# The peaks of channels and segments

What holds of all samples of a segment, and how far they are from zero. Resampling reads a channel
between its samples, where two of them are added, and limiting leaves no sample beyond the ceiling.

## Main definitions

* `Arranger.Segment.All`, `Recording.All` — what holds of all samples.
* `Arranger.Limiter.Admits` — a number that is not beyond the ceiling.

## Main results

* `Arranger.resample_atMost` — the peak of a channel read between its samples.
* `Arranger.Limiter.admits_clampSample` — limiting leaves no number beyond the ceiling.
-/

namespace Arranger

/-! ## Segments -/

/-- All samples of the segment have a property. -/
def Segment.All (property : Sample → Prop) (segment : Segment) : Prop :=
  ∀ channel ∈ segment.channels, ∀ sample ∈ channel, property sample

namespace Segment.All

variable {p q : Sample → Prop} {segment other : Segment}

/-- A property that follows from another one. -/
lemma mono (h : segment.All p) (hpq : ∀ sample, p sample → q sample) : segment.All q :=
  fun channel hchannel sample hsample => hpq sample (h channel hchannel sample hsample)

/-- The samples of silence are zero. -/
lemma silent (hzero : p 0) (channelCount frames : ℕ) : (silent channelCount frames).All p := by
  intro channel hchannel sample hsample
  rw [List.eq_of_mem_replicate hchannel] at hsample
  rwa [List.eq_of_mem_replicate hsample]

/-- A transformation of every channel on its own. -/
lemma mapChannels (h : segment.All p) {f : List Sample → List Sample}
    (hf : ∀ channel ∈ segment.channels, (∀ sample ∈ channel, p sample) →
      ∀ sample ∈ f channel, q sample) : (segment.mapChannels f).All q := by
  intro channel hchannel
  obtain ⟨old, hold, rfl⟩ := List.mem_map.mp hchannel
  exact hf old hold (h old hold)

/-- A transformation of every sample on its own. -/
lemma mapSamples (h : segment.All p) {f : Sample → Sample}
    (hf : ∀ sample, p sample → q (f sample)) : (segment.mapSamples f).All q := by
  refine h.mapChannels fun channel _ hchannel sample hsample => ?_
  obtain ⟨old, hold, rfl⟩ := List.mem_map.mp hsample
  exact hf old (hchannel old hold)

/-- A segment followed by another one. -/
lemma append (h : segment.All p) (hother : other.All p) : (segment.append other).All p := by
  rw [Segment.append]
  split
  · exact hother
  · refine forall_mem_overlay (fun x y hx hy => ?_) (fun _ _ hx => hx) h hother
    exact List.forall_mem_append.mpr ⟨hx, hy⟩

/-- A segment filled up with a value. -/
lemma padTo (h : segment.All p) {value : Sample} (hvalue : p value) (frames : ℕ) :
    (segment.padTo frames value).All p := by
  refine h.mapChannels fun channel _ hchannel => List.forall_mem_append.mpr ⟨hchannel, ?_⟩
  intro sample hsample
  rwa [List.eq_of_mem_replicate hsample]

/-- A segment on another number of channels. -/
lemma conform (h : segment.All p) (channelCount : ℕ) : (segment.conform channelCount).All p := by
  rw [Segment.conform]
  split_ifs with hsame
  · exact h
  · intro channel hchannel
    obtain ⟨c, _, rfl⟩ := List.mem_map.mp hchannel
    have hc : c % segment.channelCount < segment.channels.length :=
      Nat.mod_lt c (Nat.pos_of_ne_zero fun hzero => hsame (.inr hzero))
    rw [List.getD_eq_getElem _ _ hc]
    exact h _ (List.getElem_mem hc)

end Segment.All

/-- All samples of the recording have a property. -/
def Recording.All (property : Sample → Prop) (recording : Recording) : Prop :=
  ∀ channel ∈ recording.channels, ∀ sample ∈ channel, property sample

instance (property : Sample → Prop) [DecidablePred property] (recording : Recording) :
    Decidable (recording.All property) :=
  inferInstanceAs (Decidable (∀ channel ∈ recording.channels, ∀ sample ∈ channel, property sample))

/-- What holds of all samples of a recording holds of those of a stretch. -/
lemma Recording.All.window {recording : Recording} {p : Sample → Prop} (h : recording.All p)
    (start stop : ℕ) : (recording.window start stop).All p := by
  intro channel hchannel sample hsample
  obtain ⟨old, hold, rfl⟩ := List.mem_map.mp hchannel
  exact h old hold sample (List.mem_of_mem_drop (List.mem_of_mem_take hsample))

/-! ## Reading between samples -/

section Reading

variable {channel : List Sample} {peak : Sample} (hchannel : ∀ sample ∈ channel, sample.AtMost peak)
  (hzero : (0 : Sample).AtMost peak)

include hchannel hzero

/-- The samples of a channel and the zero that stands for a missing one have the peak of the
channel. -/
lemma getD_atMost (i : ℕ) : (channel.toArray.getD i 0).AtMost peak := by
  rw [Array.getD]
  split_ifs with hi
  · exact hchannel _ (List.getElem_mem _)
  · exact hzero

/-- The peak of a channel read at a position: two samples are added, in parts that make a whole. -/
lemma sampleAt_atMost (hlength : channel.length ≤ maxWord) {position : Double}
    (hposition : position.isFinite = true ∨ position.toWord = maxWord)
    (hsign : position.isNegative = false) (hpeak : (peak + peak).isFinite = true) :
    (sampleAt channel.toArray position).AtMost (peak + peak) := by
  have hread := getD_atMost hchannel hzero
  have hfinite := (Binary.isFinite_of_isFinite_add hpeak).1
  unfold sampleAt
  dsimp only
  by_cases hbetween : position.toWord + 1 < channel.toArray.size
  · rw [if_pos hbetween]
    rw [List.size_toArray] at hbetween
    have hword : position.toWord < maxWord := by omega
    have hweight : ((position - Binary.ofNat position.toWord).convert : Sample).IsFraction :=
      (Binary.sub_toWord_isFraction (hposition.resolve_right hword.ne) hsign hword).convert
    have hunit := Binary.mul_one_of_isFinite hfinite
    rw [← Binary.ofNat_one] at hunit
    have hleft := (hread position.toWord).mul hweight.one_sub.atMost_one (by rwa [hunit])
    have hright := (hread (position.toWord + 1)).mul hweight.atMost_one (by rwa [hunit])
    rw [hunit] at hleft hright
    exact hleft.add hright hpeak
  · rw [if_neg hbetween]
    exact (hread _).add_right hzero.peak_nonneg hpeak

/-- **The peak of a resampled channel** is at most twice the peak of the channel. -/
lemma resample_atMost (hlength : channel.length ≤ maxWord) (ratio : Double)
    (hpeak : (peak + peak).isFinite = true) :
    ∀ sample ∈ resample channel ratio, sample.AtMost (peak + peak) := by
  rw [resample]
  split_ifs with hratio
  · intro sample hsample
    obtain ⟨i, hi, rfl⟩ := List.mem_map.mp hsample
    rw [Bool.and_eq_true, Bool.and_eq_true, decide_eq_true_iff] at hratio
    obtain ⟨⟨hfinite, hpositive⟩, -⟩ := hratio
    obtain ⟨hsign, hposition⟩ :=
      Binary.ofNat_mul_spec i hfinite ((Binary.pos_iff hfinite).mp hpositive)
    refine sampleAt_atMost hchannel hzero hlength (hposition.imp_right fun heq => ?_) hsign hpeak
    rw [heq]
    rfl
  · exact fun sample hsample => (hchannel sample hsample).add_right hzero.peak_nonneg hpeak

end Reading

/-! ## Limiting -/

namespace Limiter

/-- The ceiling of a limiter is a number above zero and at most one. -/
lemma ofCeiling_spec (requested : Sample) :
    (ofCeiling requested).ceiling.isFinite = true ∧ 0 < (ofCeiling requested).ceiling.value ∧
      (ofCeiling requested).ceiling.value ≤ 1 := by
  obtain ⟨hone, hvalue, -⟩ := Binary.one_spec .single
  rw [ofCeiling]
  split_ifs with hrequested
  · rw [Bool.and_eq_true, Bool.and_eq_true, decide_eq_true_iff, decide_eq_true_iff] at hrequested
    obtain ⟨⟨hfinite, hpositive⟩, hsmall⟩ := hrequested
    rw [Binary.lt_iff hfinite hone, hvalue] at hsmall
    exact ⟨hfinite, (Binary.pos_iff hfinite).mp hpositive, hsmall.le⟩
  · exact ⟨hone, by rw [hvalue]; exact one_pos, hvalue.le⟩

/-- A finite number that is not beyond the ceiling. -/
structure Admits (limiter : Limiter) (sample : Sample) : Prop where
  /-- The sample is finite. -/
  finite : sample.isFinite = true
  /-- The sample is not beyond the ceiling below zero. -/
  low : -limiter.ceiling ≤ sample
  /-- The sample is not beyond the ceiling above zero. -/
  high : sample ≤ limiter.ceiling

variable {limiter : Limiter}

/-- Limiting lets not-a-number pass. -/
lemma clampSample_nan (limiter : Limiter) : limiter.clampSample .nan = .nan := by
  have hbelow : ¬ (.nan : Sample) < -limiter.ceiling := Bool.false_ne_true
  have habove : ¬ limiter.ceiling < (.nan : Sample) := by
    show ¬ limiter.ceiling.blt .nan = true
    cases limiter.ceiling <;> exact Bool.false_ne_true
  rw [clampSample, if_neg hbelow, if_neg habove]

/-- **Limiting leaves no number beyond the ceiling.** -/
lemma admits_clampSample (hfinite : limiter.ceiling.isFinite = true)
    (hpositive : 0 < limiter.ceiling.value) {sample : Sample} (hsample : sample ≠ .nan) :
    limiter.Admits (limiter.clampSample sample) := by
  have hneg : (-limiter.ceiling).isFinite = true := by rwa [Binary.isFinite_neg]
  have hle : -limiter.ceiling ≤ limiter.ceiling := by
    rw [Binary.le_iff hneg hfinite, Binary.value_neg]
    linarith
  rw [clampSample]
  split_ifs with hbelow habove
  · exact ⟨hneg, (Binary.le_iff hneg hneg).mpr le_rfl, hle⟩
  · exact ⟨hfinite, hle, (Binary.le_iff hfinite hfinite).mpr le_rfl⟩
  · have hlow := Binary.le_of_not_lt hsample (Binary.ne_nan hneg) hbelow
    have hhigh := Binary.le_of_not_lt (Binary.ne_nan hfinite) hsample habove
    exact ⟨Binary.isFinite_of_le hneg hfinite hlow hhigh, hlow, hhigh⟩

end Limiter

end Arranger
