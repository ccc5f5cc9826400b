import Arranger.Proofs.Fallible
import Arranger.Proofs.Beatmap.WellFormed
import Arranger.Proofs.Number.Error

/-!
# Boundaries in seconds

A beat detector gives the times of the beats, as frame numbers divided by the sample rate. The
quotient is rounded, and so is its product with the sample rate that gives the frame number back.
For frame numbers up to `2 ^ 48` both errors together are less than half a frame, so that the
nearest frame is the one that was divided.

## Main definitions

* `Arranger.Beatmap.timeOf` — the time of a frame.

## Main results

* `Arranger.Beatmap.timeOf_mul_spec` — the error of a time in frames.
* `Arranger.Beatmap.frameAt_timeOf` — the frame at the time of a frame.
* `Arranger.Beatmap.ofSeconds_timeOf` — **times lose no frame**.
-/

namespace Arranger

namespace Beatmap

/-- The time of a frame in seconds. -/
def timeOf (rate frame : ℕ) : Double :=
  Binary.ofNat frame / Binary.ofNat rate

section TimeOf

variable {frame rate : ℕ} (hframe : frame ≤ 2 ^ 48) (hpos : 0 < rate) (hrate : rate < 2 ^ 32)

include hframe hpos hrate

/-- The time of a frame is the nearest number to the exact time. -/
lemma timeOf_spec : (timeOf rate frame).isFinite = true ∧
    (timeOf rate frame).value = Format.double.nearest (frame / rate) := by
  have hframeShort : frame ≤ 2 ^ Format.double.precision := hframe.trans (by decide)
  have hrateShort : rate ≤ 2 ^ Format.double.precision := hrate.le.trans (by decide)
  have hframeValue : (Binary.ofNat frame : Double).value = frame := Binary.value_ofNat hframeShort
  have hrateValue : (Binary.ofNat rate : Double).value = rate := Binary.value_ofNat hrateShort
  obtain ⟨hfinite, hvalue⟩ := Binary.div_spec hframeShort (Binary.isFinite_ofNat hframeShort)
    (Binary.isFinite_ofNat hrateShort) (by rw [hrateValue]; exact_mod_cast hpos) (by
      rw [hframeValue, hrateValue, abs_of_nonneg (Nat.cast_nonneg frame)]
      exact_mod_cast Nat.le_mul_of_pos_right frame hpos)
  exact ⟨hfinite, by rw [timeOf, hvalue, hframeValue, hrateValue]⟩

/-- The time of a frame is not negative. -/
lemma timeOf_nonneg : 0 ≤ (timeOf rate frame).value := by
  rw [(timeOf_spec hframe hpos hrate).2]
  exact Format.double.nearest_nonneg (div_nonneg (Nat.cast_nonneg _) (Nat.cast_nonneg _))

/-- **The error of a time in frames**, before the product is rounded.

The bound on the exact time is the one of the last frame number for all frames, as the relative
error of a time is not bounded for the frames next to the first. -/
lemma abs_timeOf_mul_sub_le : |(timeOf rate frame).value * rate - frame| ≤ 1 / 2 ^ 5 := by
  have hratePos : (0 : ℚ) < rate := by exact_mod_cast hpos
  have hlimit : (frame : ℚ) ≤ 2 ^ 48 := by exact_mod_cast hframe
  have hshort : (rate : ℚ) ≤ 2 ^ 32 := by exact_mod_cast hrate.le
  have hexact : |(frame : ℚ) / rate| ≤ 2 ^ 48 / rate := by
    rw [abs_of_nonneg (by positivity)]
    exact div_le_div_of_nonneg_right hlimit hratePos.le
  have hlow : (1 : ℚ) / 2 ^ 50 ≤ 2 ^ 48 / rate := by
    rw [div_le_div_iff₀ (by norm_num) hratePos]
    linarith
  have herror := abs_nearest_sub_le_of_le hexact hlow
  have hproduct : (timeOf rate frame).value * rate - frame =
      (Format.double.nearest (frame / rate) - frame / rate) * rate := by
    rw [(timeOf_spec hframe hpos hrate).2, sub_mul, div_mul_cancel₀ _ hratePos.ne']
  calc |(timeOf rate frame).value * rate - frame|
      = |Format.double.nearest (frame / rate) - frame / rate| * rate := by
        rw [hproduct, abs_mul, abs_of_pos hratePos]
    _ ≤ 2 ^ 48 / rate / 2 ^ 53 * rate := mul_le_mul_of_nonneg_right herror hratePos.le
    _ = 1 / 2 ^ 5 := by field_simp

/-- **The time of a frame in frames** is less than half a frame away from the frame. -/
lemma timeOf_mul_spec : (timeOf rate frame * .ofNat rate).isFinite = true ∧
    0 ≤ (timeOf rate frame * .ofNat rate).value ∧
    |(timeOf rate frame * .ofNat rate).value - frame| ≤ 1 / 2 ^ 3 := by
  obtain ⟨htime, -⟩ := timeOf_spec hframe hpos hrate
  have hrateShort : rate ≤ 2 ^ Format.double.precision := hrate.le.trans (by decide)
  have hexact := abs_timeOf_mul_sub_le hframe hpos hrate
  have hnonneg : 0 ≤ (timeOf rate frame).value * rate :=
    mul_nonneg (timeOf_nonneg hframe hpos hrate) (Nat.cast_nonneg _)
  have hbound : |(timeOf rate frame).value * rate| ≤ (2 ^ 49 : ℕ) := by
    have hlimit : (frame : ℚ) ≤ 2 ^ 48 := by exact_mod_cast hframe
    rw [abs_of_nonneg hnonneg]
    norm_num
    linarith [(abs_le.mp hexact).2]
  have hrateValue : (Binary.ofNat rate : Double).value = rate := Binary.value_ofNat hrateShort
  obtain ⟨hfinite, hvalue⟩ := Binary.mul_spec (n := 2 ^ 49) (by decide) htime
    (Binary.isFinite_ofNat hrateShort) (by rwa [hrateValue])
  have herror := abs_nearest_sub_le_of_one_le hbound (by norm_num)
  rw [hvalue, hrateValue]
  refine ⟨hfinite, Format.double.nearest_nonneg hnonneg, ?_⟩
  rw [abs_le] at hexact herror ⊢
  norm_num at hexact herror ⊢
  constructor <;> linarith

/-- **The frame at the time of a frame** is that frame. -/
lemma frameAt_timeOf : frameAt rate (timeOf rate frame) = .ok frame := by
  obtain ⟨htime, -⟩ := timeOf_spec hframe hpos hrate
  obtain ⟨hfinite, hnonneg, herror⟩ := timeOf_mul_spec hframe hpos hrate
  have hzero := Binary.zero_spec .double
  have htimeNonneg : 0 ≤ timeOf rate frame :=
    (Binary.le_iff hzero.1 htime).mpr (hzero.2.1 ▸ timeOf_nonneg hframe hpos hrate)
  have hround : roundHalfAway (timeOf rate frame * .ofNat rate).value = frame := by
    rw [roundHalfAway_eq_iff hnonneg]
    rw [abs_le] at herror
    push_cast
    constructor <;> linarith
  have hword : (timeOf rate frame * .ofNat rate).value ≤ maxWord := by
    have hlimit : (frame : ℚ) ≤ 2 ^ 48 := by exact_mod_cast hframe
    refine le_trans (b := 2 ^ 49) ?_ (by norm_num [maxWord])
    linarith [(abs_le.mp herror).2]
  rw [frameAt, htime, decide_eq_true htimeNonneg, Bool.and_self, if_pos rfl,
    Binary.toWord_roundAway hfinite hnonneg hword, hround, Int.toNat_natCast]

end TimeOf

/-- **Times lose no frame**: the boundaries at the times of given frames are checked as the frames
themselves are, whether they make a beatmap or not.

**Proof sketch.** A frame number up to `2 ^ 48` that is divided by the rate, multiplied by the rate
and rounded is off by less than half before the last step, so it is the same again. -/
theorem ofSeconds_timeOf {boundaries : List ℕ} (h : ∀ boundary ∈ boundaries, boundary ≤ 2 ^ 48)
    {rate : ℕ} (hpos : 0 < rate) (hrate : rate < 2 ^ 32) (sourceLength : ℕ) :
    ofSeconds (boundaries.map (timeOf rate)) rate sourceLength = build boundaries sourceLength := by
  have htimes : (boundaries.map (timeOf rate)).mapM (frameAt rate) = .ok boundaries :=
    mapM_map_eq_ok fun boundary hmem => frameAt_timeOf (h boundary hmem) hpos hrate
  rw [ofSeconds, htimes]
  rfl

/-- Thirds of a second, which are not exact in binary, are boundaries at their frames, and times that
do not rise are refused as the frames are. -/
theorem ofSeconds_timeOf_thirds :
    ofSeconds ([0, 1, 2, 2 ^ 48].map (timeOf 3)) 3 (2 ^ 48) = build [0, 1, 2, 2 ^ 48] (2 ^ 48) ∧
      ofSeconds ([0, 2, 1].map (timeOf 3)) 3 6 = .error (.notRising 1 2 1) :=
  ⟨ofSeconds_timeOf (by decide) (by decide) (by decide) (2 ^ 48),
    (ofSeconds_timeOf (by decide) (by decide) (by decide) 6).trans (by decide)⟩

end Beatmap

end Arranger
