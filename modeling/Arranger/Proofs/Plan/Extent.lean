import Arranger.Proofs.Number.Magnitude
import Arranger.Proofs.Pattern.Bounds
import Arranger.Plan.Resolving

/-!
# What a slice keeps lies within its beat

A slice keeps a fraction of the frames of a beat from one of its ends. The number of the frames is
computed with 64-bit numbers. Rounding keeps the order, and so it is not more than all of them.

## Main results

* `Arranger.Slice.cut_within` — the part that a slice keeps of frames is a part of them.
* `Arranger.Beat.cut_within` — so is the part that a beat keeps.
-/

namespace Arranger

/-! ## Slices -/

/-- A fraction of frames is not more than them. -/
lemma framesOf_le {fraction : Double} (hfraction : fraction.IsFraction) {frames : ℕ}
    (hframes : frames ≤ 2 ^ Format.double.precision) : framesOf fraction frames ≤ frames := by
  have hone : 1 ≤ 2 ^ Format.double.precision := by decide
  have hproduct : (Binary.ofNat frames * Binary.ofNat 1 : Double) = Binary.ofNat frames := by
    rw [Binary.ofNat_mul hframes hone, Nat.mul_one]
  have hwhole := Binary.isFinite_ofNat hframes
  have hmul := (Binary.AtMost.ofNat le_rfl hframes).mul hfraction.atMost_one
    (by rwa [hproduct])
  rw [hproduct] at hmul
  have hround := hmul.roundAway hwhole
  rw [Binary.roundAway_ofNat hframes] at hround
  exact hround.toWord_le hframes

/-- A fraction within the bounds of a slice makes no more of frames. -/
lemma framesOf_le_of_bounds {fraction : Double} (hpos : 0 < fraction) (hone : fraction ≤ 1)
    {frames : ℕ} (hframes : frames ≤ 2 ^ Format.double.precision) :
    framesOf fraction frames ≤ frames := by
  have hfinite := (fraction_spec hpos hone).1
  rw [Binary.pos_iff hfinite] at hpos
  rw [Binary.le_iff hfinite (Binary.one_spec _).1, (Binary.one_spec _).2.1] at hone
  exact framesOf_le ⟨hfinite, hpos.le, hone⟩ hframes

/-- What a slice keeps of frames is a part of them. -/
lemma Slice.cut_within {slice : Slice} (hslice : slice.Bounded) {start stop : ℕ}
    (hle : start ≤ stop) (hstop : stop ≤ 2 ^ Format.double.precision) :
    start ≤ (slice.cut start stop).1 ∧ (slice.cut start stop).1 ≤ (slice.cut start stop).2 ∧
      (slice.cut start stop).2 ≤ stop := by
  have hframes : stop - start ≤ 2 ^ Format.double.precision := by omega
  cases slice with
  | head fraction =>
    have hpart := framesOf_le_of_bounds hslice.1 hslice.2 hframes
    exact ⟨le_rfl, Nat.le_add_right _ _, by show start + framesOf _ _ ≤ stop; omega⟩
  | tail fraction =>
    have hpart := framesOf_le_of_bounds hslice.1 hslice.2 hframes
    exact ⟨by show start ≤ stop - framesOf _ _; omega, Nat.sub_le _ _, le_rfl⟩

/-- **What a beat keeps of frames is a part of them.** -/
lemma Beat.cut_within {beat : Beat} (hslice : ∀ slice ∈ beat.slice, slice.Bounded) {start stop : ℕ}
    (hle : start ≤ stop) (hstop : stop ≤ 2 ^ Format.double.precision) :
    start ≤ (beat.cut start stop).1 ∧ (beat.cut start stop).1 ≤ (beat.cut start stop).2 ∧
      (beat.cut start stop).2 ≤ stop := by
  rw [cut]
  cases hpart : beat.slice with
  | none => exact ⟨le_rfl, hle, le_rfl⟩
  | some slice => exact Slice.cut_within (hslice slice hpart) hle hstop

end Arranger
