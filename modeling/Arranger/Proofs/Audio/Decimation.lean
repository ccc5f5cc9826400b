import Arranger.Proofs.Effect.Length
import Arranger.Proofs.Number.Error
import Arranger.Proofs.Rows

/-!
# Decimation

A channel that is read at steps of a whole number of samples is never read between two samples, so
of every so many samples one is kept. The positions are exact, and the number of them is a quotient
that may be rounded before it is rounded up. At each position the next sample is added times zero: a
zero can lose its minus sign by it, and nothing else changes.

A step of one keeps every sample. So playing at the speed one and converting to the rate that a
recording has may leave the channels as they are.

## Main definitions

* `Arranger.SameNumbers` — channels that differ in the signs of zeros only.
* `Arranger.IsDecimation` — what is left if every so many samples one is kept.

## Main results

* `Arranger.sampleAt_ofNat` — a channel at a whole position.
* `Arranger.resample_isDecimation` — a channel read at steps of a whole number.
* `Arranger.resample_decimates` — **whole steps keep samples**, and a step of one keeps them all.
-/

namespace Arranger

/-! ## Lengths -/

section Length

variable {length step : ℕ} (hlength : length ≤ 2 ^ 52) (hpos : 1 ≤ step) (hstep : step ≤ 2 ^ 32)

include hlength hpos hstep in
/-- The number of samples at whole steps. -/
lemma resampledLength_ofNat :
    resampledLength length (.ofNat step) = (length / step : ℚ).ceil.toNat := by
  obtain ⟨hsource, hsourceValue, -⟩ :=
    Binary.ofNat_spec .double (n := length) (hlength.trans (by decide))
  obtain ⟨hratio, hratioValue, -⟩ :=
    Binary.ofNat_spec .double (n := step) (hstep.trans (by decide))
  have hdivisor : (1 : ℚ) ≤ step := by exact_mod_cast hpos
  have hquotient : (length : ℚ) / step ≤ (2 ^ 52 : ℕ) :=
    (div_le_self (Nat.cast_nonneg length) hdivisor).trans (by exact_mod_cast hlength)
  obtain ⟨hfinite, hvalue⟩ := Binary.div_spec (n := 2 ^ 52) (by decide) hsource hratio
    (by rw [hratioValue]; linarith) (by
      rw [hsourceValue, hratioValue, abs_of_nonneg (Nat.cast_nonneg length)]
      exact (div_le_iff₀ (by linarith)).mp hquotient)
  rw [hsourceValue, hratioValue] at hvalue
  have hnonneg := Format.double.nearest_nonneg (div_nonneg (Nat.cast_nonneg (α := ℚ) length)
    (Nat.cast_nonneg step))
  have hword : Format.double.nearest (length / step) ≤ maxWord :=
    (Format.nearest_le_natCast (by decide) hquotient).trans (by rw [maxWord]; norm_num)
  rw [resampledLength, Binary.toWord_ceil hfinite (hvalue ▸ hnonneg) (hvalue ▸ hword), hvalue,
    ceil_nearest_div hlength hpos (hstep.trans (by decide))]

include hpos in
/-- The steps in front of the last one do not lead past the end. -/
lemma mul_lt_of_lt_ceil {i : ℕ} (hi : i < (length / step : ℚ).ceil.toNat) :
    i * step < length := by
  have hdivisor : (0 : ℚ) < step := by exact_mod_cast hpos
  by_contra hpast
  have hquotient : (length : ℚ) / step ≤ (i : ℤ) := by
    rw [div_le_iff₀ hdivisor]
    exact_mod_cast not_lt.mp hpast
  have hceil := Rat.ceil_le_iff.mpr hquotient
  omega

include hpos in
/-- A single sample is a cut step, and no sample is none. -/
lemma toNat_ceil_of_le_one (hone : length ≤ 1) : (length / step : ℚ).ceil.toNat = length := by
  have hdivisor : (1 : ℚ) ≤ step := by exact_mod_cast hpos
  rcases Nat.le_one_iff_eq_zero_or_eq_one.mp hone with rfl | rfl
  · rw [Nat.cast_zero, zero_div]
    rfl
  · have hlow : 0 < ((1 : ℕ) / step : ℚ).ceil := ceil_pos (by positivity)
    have hhigh : ((1 : ℕ) / step : ℚ).ceil ≤ 1 := Rat.ceil_le_iff.mpr (by
      rw [Nat.cast_one, Int.cast_one]
      exact (div_le_one (by linarith)).mpr hdivisor)
    omega

end Length

/-! ## Samples -/

/-- Channels with the same numbers, place by place. The two zeros are one number. -/
def SameNumbers (channel other : List Sample) : Prop :=
  List.Forall₂ (fun x y => x.numEq y = true) channel other

/-- What is left of a channel of which the samples number `0`, `step`, `2 * step`, … are kept, as
numbers. -/
structure IsDecimation (step : ℕ) (channel kept : List Sample) : Prop where
  /-- As many samples as there are steps, of which the last may be cut short. -/
  length_eq : kept.length = (channel.length / step : ℚ).ceil.toNat
  /-- Each of the samples is the one that the steps before it lead to. -/
  numEq_getElem : ∀ i (hi : i < kept.length), ∃ hstep : i * step < channel.length,
    kept[i].numEq channel[i * step] = true

section Samples

variable {channel : List Sample} (hfinite : ∀ sample ∈ channel, sample.isFinite = true)
  (hlength : channel.length ≤ 2 ^ 52)

/-- A channel read within its bounds. -/
lemma getD_toArray {i : ℕ} (hi : i < channel.length) : channel.toArray.getD i 0 = channel[i] := by
  rw [toArray_getD, List.getD_eq_getElem _ _ hi]

include hfinite hlength

/-- **A channel at a whole position** has the sample of this number.

**Proof sketch.** The position is read off exactly, so the next sample has no weight. What is added
is a zero of either sign. -/
lemma sampleAt_ofNat {i : ℕ} (hi : i < channel.length) :
    (sampleAt channel.toArray (.ofNat i)).numEq channel[i] = true := by
  have hshort : i ≤ 2 ^ Format.double.precision := hi.le.trans (hlength.trans (by decide))
  have hword : (Binary.ofNat i : Double).toWord = i :=
    Binary.toWord_ofNat hshort (hi.le.trans (hlength.trans (by decide)))
  have hweight : ((.ofNat i - .ofNat i : Double).convert : Sample) = .ofNat 0 := by
    obtain ⟨hzero, hvalue, hsign⟩ := Binary.zero_spec .double
    rw [Binary.ofNat_sub le_rfl hshort, Nat.sub_self, Binary.ofNat_zero, Binary.convert_eq hzero,
      hvalue, hsign]
    rfl
  have hwhole : (1 - .ofNat 0 : Sample) = 1 := by
    rw [← Binary.ofNat_one]
    exact Binary.ofNat_sub (Nat.zero_le 1) (by decide)
  simp only [sampleAt, hword, hweight, hwhole, List.size_toArray]
  split_ifs with hnext
  · have hsample := hfinite _ (List.getElem_mem hi)
    obtain ⟨hzero, hzeroValue⟩ := Binary.zero_mul_spec (hfinite _ (List.getElem_mem hnext))
    obtain ⟨hsum, hvalue⟩ := Binary.add_zero_spec hsample hzero hzeroValue
    rw [getD_toArray hi, getD_toArray hnext, Binary.mul_one_eq, Binary.mul_commutes _ (.ofNat 0),
      Binary.numEq_eq_decide hsum hsample, decide_eq_true_iff, hvalue]
  · have hlast : min i (channel.length - 1) = i := by omega
    rw [hlast, getD_toArray hi]
    exact Binary.numEq_self (hfinite _ (List.getElem_mem hi))

/-- **A channel read at steps of a whole number.** -/
lemma resample_isDecimation {step : ℕ} (hpos : 1 ≤ step) (hstep : step ≤ 2 ^ 32) :
    IsDecimation step channel (resample channel (.ofNat step)) := by
  obtain ⟨hratio, hvalue, -⟩ := Binary.ofNat_spec .double (n := step) (hstep.trans (by decide))
  have hdivisor : (1 : ℚ) ≤ step := by exact_mod_cast hpos
  have hpositive : (0 : Double) < .ofNat step := by
    rw [Binary.pos_iff hratio, hvalue]
    linarith
  rcases le_or_gt channel.length 1 with hone | hmore
  · rw [resample_of_length_le_one hone]
    refine ⟨(toNat_ceil_of_le_one hpos hone).symm, fun i hi => ?_⟩
    obtain rfl : i = 0 := by omega
    simp only [zero_mul]
    exact ⟨hi, Binary.numEq_self (hfinite _ (List.getElem_mem hi))⟩
  · have hlengthEq := resampledLength_ofNat hlength hpos hstep
    rw [resample_of_pos hratio hpositive hmore, hlengthEq]
    refine ⟨by rw [List.length_map, List.length_range], fun i hi => ?_⟩
    rw [List.length_map, List.length_range] at hi
    have hwithin := mul_lt_of_lt_ceil hpos hi
    have hshort : i ≤ 2 ^ Format.double.precision :=
      (Nat.le_mul_of_pos_right i hpos).trans (hwithin.le.trans (hlength.trans (by decide)))
    refine ⟨hwithin, ?_⟩
    rw [List.getElem_map, List.getElem_range, Binary.ofNat_mul hshort (hstep.trans (by decide))]
    exact sampleAt_ofNat hfinite hlength hwithin

end Samples

/-- A step of one keeps all samples. -/
lemma IsDecimation.sameNumbers {channel kept : List Sample} (h : IsDecimation 1 channel kept) :
    SameNumbers kept channel := by
  have hlength : kept.length = channel.length := by
    rw [h.length_eq, Nat.cast_one, div_one, ← Int.cast_natCast, Rat.ceil_intCast, Int.toNat_natCast]
  refine List.forall₂_iff_get.mpr ⟨hlength, fun i hi _ => ?_⟩
  obtain ⟨_, hsame⟩ := h.numEq_getElem i hi
  simpa only [List.get_eq_getElem, mul_one] using hsame

/-! ## Shortcuts -/

section Shortcuts

variable {channels : List (List Sample)}
  (hfinite : ∀ channel ∈ channels, ∀ sample ∈ channel, sample.isFinite = true)
  (hlength : ∀ channel ∈ channels, channel.length ≤ 2 ^ 52)

include hfinite hlength

/-- Channels that are read at steps of one have the same numbers. -/
lemma forall₂_resample_one : List.Forall₂ SameNumbers (channels.map (resample · 1)) channels := by
  rw [List.forall₂_map_left_iff, List.forall₂_same]
  intro channel hmem
  rw [← Binary.ofNat_one]
  exact (resample_isDecimation (hfinite channel hmem) (hlength channel hmem) le_rfl
    (by decide)).sameNumbers

/-- **Steps of a whole number keep one of every so many samples.** A step of one keeps them all. So
playing at the speed one and converting to the rate that a recording has, which leave the channels
as they are, give the numbers that reading the channels gives.

**Proof sketch.** The positions are products of whole numbers up to `2 ^ 52`, which are exact, and
at a whole position a channel has the sample of this number. -/
theorem resample_decimates :
    (∀ channel ∈ channels, ∀ step, 1 ≤ step → step ≤ 2 ^ 32 →
      IsDecimation step channel (resample channel (.ofNat step))) ∧
    (∀ channel ∈ channels, SameNumbers (resample channel 1) channel) ∧
    List.Forall₂ SameNumbers (channels.map (resample · 1))
      ((Effect.speed 1).transform ⟨channels⟩).channels ∧
    ∀ rate, 0 < rate → rate < 2 ^ 32 → ∃ recording,
      Recording.resampled ⟨channels, rate⟩ rate = .ok recording ∧
      List.Forall₂ SameNumbers (channels.map (convertRate · rate rate)) recording.channels := by
  have hsame := forall₂_resample_one hfinite hlength
  refine ⟨fun channel hmem step hpos hstep =>
    resample_isDecimation (hfinite channel hmem) (hlength channel hmem) hpos hstep, ?_, ?_, ?_⟩
  · rwa [List.forall₂_map_left_iff, List.forall₂_same] at hsame
  · rwa [Effect.transform, if_pos (Binary.numEq_self (Binary.one_spec .double).1)]
  · intro rate hpos hrate
    refine ⟨⟨channels, rate⟩, Recording.resampled_rate hpos, ?_⟩
    simp only [convertRate]
    rw [Binary.ofNat_div_self hpos (hrate.le.trans (by decide))]
    exact hsame

end Shortcuts

/-- Every second of five samples, of which the first is a zero with a minus sign: it is the same
number without it. -/
theorem resample_decimates_five_samples :
    (∀ channel ∈ [([-0, 1, 1 / 2, 2, 3] : List Sample)], ∀ sample ∈ channel,
      sample.isFinite = true) ∧
    (∀ channel ∈ [([-0, 1, 1 / 2, 2, 3] : List Sample)], channel.length ≤ 2 ^ 52) ∧
    IsDecimation 2 [-0, 1, 1 / 2, 2, 3] (resample [-0, 1, 1 / 2, 2, 3] 2) ∧
    resample [-0, 1, 1 / 2, 2, 3] 2 = [0, 1 / 2, 3] ∧ (0 : Sample) ≠ -0 ∧
    SameNumbers (resample [-0, 1, 1 / 2, 2, 3] 1) [-0, 1, 1 / 2, 2, 3] ∧
    List.Forall₂ SameNumbers [resample [-0, 1, 1 / 2, 2, 3] 1]
      ((Effect.speed 1).transform ⟨[[-0, 1, 1 / 2, 2, 3]]⟩).channels ∧
    ∃ recording, Recording.resampled ⟨[[-0, 1, 1 / 2, 2, 3]], 44100⟩ 44100 = .ok recording ∧
      List.Forall₂ SameNumbers [convertRate [-0, 1, 1 / 2, 2, 3] 44100 44100]
        recording.channels := by
  have hfinite : ∀ channel ∈ [([-0, 1, 1 / 2, 2, 3] : List Sample)], ∀ sample ∈ channel,
      sample.isFinite = true := by decide +kernel
  have hlength : ∀ channel ∈ [([-0, 1, 1 / 2, 2, 3] : List Sample)], channel.length ≤ 2 ^ 52 := by
    decide
  obtain ⟨hkept, hsame, hspeed, hrate⟩ := resample_decimates hfinite hlength
  have hmem := List.mem_singleton_self ([-0, 1, 1 / 2, 2, 3] : List Sample)
  exact ⟨hfinite, hlength, hkept _ hmem 2 (by decide) (by decide), by decide +kernel,
    by decide +kernel, hsame _ hmem, hspeed, hrate 44100 (by decide) (by decide)⟩

end Arranger
