import Arranger.Proofs.Number.Grid

/-!
# Interpolating from whole numbers

A position between two whole numbers is the first of them and a part of their distance: the part is
multiplied by the distance, and the product is added. Both operations round. As rounding keeps the
order and the whole numbers, the result is on the same side of every short whole number as the exact
one.

## Main definitions

* `Arranger.Format.interpolate` — a whole number and a part of a distance, with both roundings.

## Main results

* `Arranger.Format.interpolate_mono` — a greater part gives no less.
* `Arranger.Format.le_interpolate`, `interpolate_le` — the result and short whole numbers.
* `Arranger.Binary.add_mul_ofNat_spec` — the numbers that are computed.
-/

namespace Arranger

namespace Format

/-- What a whole number and a part of a distance are added up to: the product is rounded, and then
the sum. -/
def interpolate (format : Format) (base distance : ℕ) (part : ℚ) : ℚ :=
  format.nearest (base + format.nearest (part * distance))

variable {format : Format} [format.Regular] {base distance : ℕ}

/-- A greater part gives no less. -/
lemma interpolate_mono {part more : ℚ} (h : part ≤ more) :
    format.interpolate base distance part ≤ format.interpolate base distance more := by
  have hproduct := format.nearest_mono (mul_le_mul_of_nonneg_right h (Nat.cast_nonneg distance))
  exact format.nearest_mono (add_le_add_right hproduct base)

section Bounds

variable {part : ℚ} {bound : ℤ} (hbound : bound.natAbs ≤ 2 ^ format.precision)
  (hoffset : (bound - base).natAbs ≤ 2 ^ format.precision)

include hbound hoffset

/-- What is at least a short whole number is not rounded below it. -/
lemma le_interpolate (h : bound ≤ base + part * distance) :
    bound ≤ format.interpolate base distance part := by
  have hproduct : format.nearest (bound - base : ℤ) ≤ format.nearest (part * distance) :=
    format.nearest_mono (by push_cast; linarith)
  rw [nearest_intCast hoffset] at hproduct
  have hsum : format.nearest bound ≤ format.interpolate base distance part :=
    format.nearest_mono (by push_cast at hproduct; linarith)
  rwa [nearest_intCast hbound] at hsum

/-- What is at most a short whole number is not rounded above it. -/
lemma interpolate_le (h : base + part * distance ≤ bound) :
    format.interpolate base distance part ≤ bound := by
  have hproduct : format.nearest (part * distance) ≤ format.nearest (bound - base : ℤ) :=
    format.nearest_mono (by push_cast; linarith)
  rw [nearest_intCast hoffset] at hproduct
  have hsum : format.interpolate base distance part ≤ format.nearest bound :=
    format.nearest_mono (by push_cast at hproduct; linarith)
  rwa [nearest_intCast hbound] at hsum

end Bounds

end Format

/-- The product of the longest short whole numbers is finite, also with one of them added. -/
lemma Binary.isFinite_add_mul_ofNat : (.ofNat (2 ^ Format.double.precision) +
    .ofNat (2 ^ Format.double.precision) * .ofNat (2 ^ Format.double.precision) :
      Double).isFinite = true := by
  decide +kernel

/-- **A whole number and a part of a distance** are added up as `Format.interpolate` says, for parts
up to the longest short whole number. -/
lemma Binary.add_mul_ofNat_spec {base distance : ℕ} (hbase : base ≤ 2 ^ Format.double.precision)
    (hdistance : distance ≤ 2 ^ Format.double.precision) {part : Double}
    (hpart : part.AtMost (.ofNat (2 ^ Format.double.precision))) :
    (.ofNat base + part * .ofNat distance : Double).isFinite = true ∧
      (.ofNat base + part * .ofNat distance : Double).value =
        Format.double.interpolate base distance part.value := by
  have hproduct := hpart.mul (.ofNat hdistance le_rfl)
    (isFinite_of_isFinite_add isFinite_add_mul_ofNat).2
  have hfinite := ((AtMost.ofNat hbase le_rfl).add hproduct isFinite_add_mul_ofNat).finite
  refine ⟨hfinite, ?_⟩
  have hmul := hproduct.finite
  rw [add_eq (isFinite_ofNat hbase) hmul] at hfinite ⊢
  rw [value_roundSigned hfinite, value_ofNat hbase, Format.interpolate]
  rw [mul_eq hpart.finite (isFinite_ofNat hdistance)] at hmul ⊢
  rw [value_roundSigned hmul, value_ofNat hdistance]

end Arranger
