import Arranger.Beatmap.Position
import Arranger.Proofs.Beatmap.WellFormed
import Arranger.Proofs.Number.Interpolation

/-!
# Positions keep the order

The position of a coordinate is computed with 64-bit numbers, and every operation rounds. Rounding
keeps the order, and the boundaries have exact values as long as the recording is not too long. So a
position is on the same side of every boundary as its coordinate, and of two coordinates the smaller
one does not have the greater position, also where they are in different beats.

## Main definitions

* `Arranger.Beatmap.roundedPosition` — the value of the position of a coordinate.

## Main results

* `Arranger.Beatmap.WellFormed.extrapolate_spec`, `position_spec` — positions have that value.
* `Arranger.Beatmap.WellFormed.roundedPosition_le`, `le_roundedPosition` — positions and boundaries.
* `Arranger.Beatmap.WellFormed.roundedPosition_mono` — **positions keep the order**.
* `Arranger.Beatmap.WellFormed.nearestFrame_mono`, `nearestFrame_within` — so do the frames nearest
  to them, which are between the first boundary and the last.
-/

namespace Arranger

/-! ## Coordinates within a map -/

section Clamp

variable {n : ℕ} (hn : n ≤ 2 ^ Format.double.precision) {x y : Double}

include hn

/-- A coordinate on a map, if it is a number, is between zero and the end of the map. -/
lemma clampTo_spec (hne : x ≠ .nan) :
    (clampTo (.ofNat n) x).isFinite = true ∧ 0 ≤ (clampTo (.ofNat n) x).value ∧
      (clampTo (.ofNat n) x).value ≤ n := by
  obtain ⟨hzero, hzeroValue, -⟩ := Binary.zero_spec .double
  have hlast := Binary.isFinite_ofNat hn
  have hlastValue := Binary.value_ofNat hn
  rw [clampTo]
  split_ifs with hbelow habove
  · exact ⟨hzero, hzeroValue.ge, hzeroValue.trans_le (Nat.cast_nonneg n)⟩
  · exact ⟨hlast, hlastValue ▸ Nat.cast_nonneg n, hlastValue.le⟩
  · have hlow := Binary.le_of_not_lt hne (Binary.ne_nan hzero) hbelow
    have hhigh := Binary.le_of_not_lt (Binary.ne_nan hlast) hne habove
    have hfinite := Binary.isFinite_of_le hzero hlast hlow hhigh
    rw [Binary.le_iff hzero hfinite, hzeroValue] at hlow
    rw [Binary.le_iff hfinite hlast, hlastValue] at hhigh
    exact ⟨hfinite, hlow, hhigh⟩

/-- A coordinate on the map is not moved. -/
lemma clampTo_of_within (hx : x.isFinite = true) (hlow : 0 ≤ x.value) (hhigh : x.value ≤ n) :
    clampTo (.ofNat n) x = x := by
  obtain ⟨hzero, hzeroValue, -⟩ := Binary.zero_spec .double
  have hbelow : ¬ x < 0 := by
    rw [Binary.lt_iff hx hzero, hzeroValue]
    exact not_lt.mpr hlow
  have habove : ¬ .ofNat n < x := by
    rw [Binary.lt_iff (Binary.isFinite_ofNat hn) hx, Binary.value_ofNat hn]
    exact not_lt.mpr hhigh
  rw [clampTo, if_neg hbelow, if_neg habove]

/-- Coordinates are moved to the map in their order. -/
lemma clampTo_mono (hx : x ≠ .nan) (hy : y ≠ .nan) (h : x ≤ y) :
    (clampTo (.ofNat n) x).value ≤ (clampTo (.ofNat n) y).value := by
  obtain ⟨hxFinite, hxLow, hxHigh⟩ := clampTo_spec hn hx
  obtain ⟨hyFinite, hyLow, hyHigh⟩ := clampTo_spec hn hy
  by_cases hbelow : x < 0
  · rwa [clampTo, if_pos hbelow, (Binary.zero_spec .double).2.1]
  have hpositive : ¬ y < 0 := fun hneg => hbelow (Binary.lt_of_le_of_lt h hneg)
  by_cases habove : .ofNat n < y
  · rwa [clampTo.eq_def _ y, if_neg hpositive, if_pos habove, Binary.value_ofNat hn]
  · have hinside : ¬ .ofNat n < x := fun hlt => habove (Binary.lt_of_lt_of_le hlt h)
    rw [clampTo, if_neg hbelow, if_neg hinside] at hxFinite ⊢
    rw [clampTo, if_neg hpositive, if_neg habove] at hyFinite ⊢
    exact (Binary.le_iff hxFinite hyFinite).mp h

end Clamp

/-- The distance of a number from a short whole number that is not far away. -/
lemma sub_ofNat_spec {x : Double} (hx : x.isFinite = true) {n : ℕ}
    (hn : n ≤ 2 ^ Format.double.precision)
    (hnear : |x.value - n| ≤ (2 ^ Format.double.precision : ℕ)) :
    (x - .ofNat n).AtMost (.ofNat (2 ^ Format.double.precision)) ∧
      (x - .ofNat n).value = Format.double.nearest (x.value - n) := by
  have hbound := Format.abs_nearest_le_natCast le_rfl hnear
  rw [Binary.sub_eq hx (Binary.isFinite_ofNat hn), Binary.value_ofNat hn]
  obtain ⟨hfinite, hvalue⟩ := Binary.roundSigned_of_abs_le le_rfl hnear
    (x.isNegative && !(Binary.ofNat n : Double).isNegative)
  exact ⟨⟨hfinite, by rwa [hvalue, Binary.value_ofNat le_rfl]⟩, hvalue⟩

namespace Beatmap

variable {map : Beatmap}

/-! ## The value of a position -/

/-- The value of the position of a coordinate of value `q`, with all roundings: from the first
boundary on where the coordinate is not above zero, from the last one on where it is past the end,
and else from the boundary before it. -/
def roundedPosition (map : Beatmap) (q : ℚ) : ℚ :=
  if q ≤ 0 then
    Format.double.interpolate (map.boundary 0) (map.boundary 1 - map.boundary 0) q
  else if map.beatCount ≤ q then
    Format.double.interpolate (map.boundary map.beatCount)
      (map.boundary (map.beatCount - 1 + 1) - map.boundary (map.beatCount - 1))
      (Format.double.nearest (q - map.beatCount))
  else
    Format.double.interpolate (map.boundary ⌊q⌋₊) (map.boundary (⌊q⌋₊ + 1) - map.boundary ⌊q⌋₊)
      (Format.double.nearest (q - ⌊q⌋₊))

/-- Without a beat all positions are at the first boundary. -/
lemma roundedPosition_of_beatCount_eq_zero (hcount : map.beatCount = 0)
    (hshort : map.boundary 0 ≤ 2 ^ Format.double.precision) (q : ℚ) :
    map.roundedPosition q = map.boundary 0 := by
  have hnext : map.boundary 1 = 0 := by
    unfold beatCount at hcount
    exact List.getD_eq_default _ _ (by omega)
  have hnothing : ∀ part, Format.double.interpolate (map.boundary 0) 0 part = map.boundary 0 := by
    intro part
    rw [Format.interpolate, Nat.cast_zero, mul_zero, Format.nearest_zero, add_zero,
      Format.nearest_natCast hshort]
  rw [roundedPosition, hcount]
  split_ifs with hlow hhigh
  · rw [hnext, Nat.zero_sub, hnothing]
  · rw [show 0 - 1 + 1 = 1 by rfl, show 0 - 1 = 0 by rfl, hnext, Nat.zero_sub, hnothing]
  · exact absurd (not_le.mp hlow).le (by exact_mod_cast hhigh)

section Values

variable (h : map.WellFormed) (hlength : map.sourceLength ≤ 2 ^ Format.double.precision)

include h hlength

/-- **The position of a coordinate** on both sides of the map is finite and has the value with all
roundings. -/
lemma WellFormed.extrapolate_spec {x : Double}
    (hx : x.AtMost (.ofNat (2 ^ Format.double.precision))) :
    (map.extrapolate x).isFinite = true ∧
      (map.extrapolate x).value = map.roundedPosition x.value := by
  have hshort := fun i => (h.boundary_le i).trans hlength
  have hinterval := fun i => (Nat.sub_le (map.boundary (i + 1)) (map.boundary i)).trans (hshort _)
  have hbeats := h.beatCount_le.trans hlength
  have hlast := Binary.isFinite_ofNat hbeats
  obtain ⟨hzero, hzeroValue, -⟩ := Binary.zero_spec .double
  have hfinite := hx.finite
  have hbound := hx.abs_le
  rw [Binary.value_ofNat le_rfl] at hbound
  unfold extrapolate
  split
  · next hnil =>
    rw [roundedPosition_of_beatCount_eq_zero (by simp [beatCount, hnil]) (hshort 0)]
    simp [boundary, hnil, hzero, hzeroValue]
  · next only hone =>
    have honly : map.boundary 0 = only := by simp [boundary, hone]
    rw [roundedPosition_of_beatCount_eq_zero (by simp [beatCount, hone]) (hshort 0), honly]
    exact ⟨Binary.isFinite_ofNat (honly ▸ hshort 0), Binary.value_ofNat (honly ▸ hshort 0)⟩
  · have hfirst : x ≤ 0 ↔ x.value ≤ 0 := by rw [Binary.le_iff hfinite hzero, hzeroValue]
    have hlater : .ofNat map.beatCount ≤ x ↔ map.beatCount ≤ x.value := by
      rw [Binary.le_iff hlast hfinite, Binary.value_ofNat hbeats]
    dsimp only
    rw [roundedPosition]
    simp only [hfirst, hlater]
    split_ifs with hlow hhigh
    · exact Binary.add_mul_ofNat_spec (hshort 0) (hinterval 0) hx
    · obtain ⟨hpart, hvalue⟩ := sub_ofNat_spec hfinite hbeats (by
        rw [abs_of_nonneg (sub_nonneg.mpr hhigh)]
        exact (sub_le_self _ (Nat.cast_nonneg _)).trans ((le_abs_self _).trans hbound))
      rw [← hvalue]
      exact Binary.add_mul_ofNat_spec (hshort _) (hinterval _) hpart
    · have hnonneg := (not_le.mp hlow).le
      have hbelow := Nat.floor_le hnonneg
      have habove := Nat.lt_floor_add_one x.value
      have hword : x.value ≤ maxWord :=
        ((le_abs_self _).trans hbound).trans (by exact_mod_cast (by decide : 2 ^ 53 ≤ maxWord))
      have hindex : x.floor.toWord = ⌊x.value⌋₊ :=
        (Binary.toWord_floor hfinite hnonneg hword).trans (Int.floor_toNat x.value)
      have hbefore : ⌊x.value⌋₊ ≤ 2 ^ Format.double.precision :=
        Nat.floor_le_of_le ((le_abs_self _).trans hbound)
      obtain ⟨hpart, hvalue⟩ := sub_ofNat_spec hfinite hbefore (by
        rw [abs_of_nonneg (sub_nonneg.mpr hbelow)]
        exact (sub_lt_iff_lt_add'.mpr habove).le.trans (by exact_mod_cast Nat.one_le_two_pow))
      rw [hindex, ← hvalue]
      exact Binary.add_mul_ofNat_spec (hshort _) (hinterval _) hpart

/-- **The position of a coordinate within the map** is finite and has the value with all
roundings. -/
lemma WellFormed.position_spec {coordinate : Double} (hne : coordinate ≠ .nan) :
    (map.position coordinate).isFinite = true ∧ (map.position coordinate).value =
      map.roundedPosition (clampTo (.ofNat map.beatCount) coordinate).value := by
  have hbeats := h.beatCount_le.trans hlength
  obtain ⟨hfinite, hlow, hhigh⟩ := clampTo_spec hbeats hne
  refine h.extrapolate_spec hlength ⟨hfinite, ?_⟩
  rw [abs_of_nonneg hlow, Binary.value_ofNat le_rfl]
  exact hhigh.trans (by exact_mod_cast hbeats)

/-! ## The order of positions -/

/-- What is at most a boundary is not rounded above it. -/
lemma WellFormed.interpolate_le_boundary {i j distance : ℕ} {part : ℚ}
    (hle : map.boundary j + part * distance ≤ map.boundary i) :
    Format.double.interpolate (map.boundary j) distance part ≤ map.boundary i := by
  have hi := (h.boundary_le i).trans hlength
  have hj := (h.boundary_le j).trans hlength
  have hround : Format.double.interpolate (map.boundary j) distance part ≤ (map.boundary i : ℤ) :=
    Format.interpolate_le (by omega) (by omega) (by exact_mod_cast hle)
  exact_mod_cast hround

/-- What is at least a boundary is not rounded below it. -/
lemma WellFormed.boundary_le_interpolate {i j distance : ℕ} {part : ℚ}
    (hle : map.boundary i ≤ map.boundary j + part * distance) :
    map.boundary i ≤ Format.double.interpolate (map.boundary j) distance part := by
  have hi := (h.boundary_le i).trans hlength
  have hj := (h.boundary_le j).trans hlength
  have hround : (map.boundary i : ℤ) ≤ Format.double.interpolate (map.boundary j) distance part :=
    Format.le_interpolate (by omega) (by omega) (by exact_mod_cast hle)
  exact_mod_cast hround

/-- **A position is not past a boundary** that its coordinate is not past. -/
lemma WellFormed.roundedPosition_le {i : ℕ} (hi : i ≤ map.beatCount) {q : ℚ} (hq : q ≤ i) :
    map.roundedPosition q ≤ map.boundary i := by
  rw [roundedPosition]
  split_ifs with hlow hhigh
  · refine h.interpolate_le_boundary hlength ?_
    have hfirst : (map.boundary 0 : ℚ) ≤ map.boundary i := by
      exact_mod_cast h.boundary_mono (Nat.zero_le i) hi
    linarith [mul_nonpos_of_nonpos_of_nonneg hlow
      (Nat.cast_nonneg (α := ℚ) (map.boundary 1 - map.boundary 0))]
  · obtain rfl : i = map.beatCount := le_antisymm hi (by exact_mod_cast hhigh.trans hq)
    refine h.interpolate_le_boundary hlength ?_
    rw [le_antisymm hq hhigh, sub_self, Format.nearest_zero, zero_mul, add_zero]
  · have hbelow := Nat.floor_le (not_le.mp hlow).le
    have habove := Nat.lt_floor_add_one q
    refine h.interpolate_le_boundary hlength ?_
    rcases (Nat.floor_le_of_le hq).lt_or_eq with hlt | heq
    · -- the next boundary is between the position and the boundary
      have hpart : Format.double.nearest (q - ⌊q⌋₊) ≤ (1 : ℕ) :=
        Format.nearest_le_natCast Nat.one_le_two_pow (by rw [Nat.cast_one]; linarith)
      have hrising := (h.boundary_lt (hlt.trans_le hi)).le
      have hnext : (map.boundary (⌊q⌋₊ + 1) : ℚ) ≤ map.boundary i := by
        exact_mod_cast h.boundary_mono hlt hi
      have hmul := mul_le_mul_of_nonneg_right hpart
        (Nat.cast_nonneg (α := ℚ) (map.boundary (⌊q⌋₊ + 1) - map.boundary ⌊q⌋₊))
      rw [Nat.cast_one, one_mul] at hmul
      rw [Nat.cast_sub hrising] at hmul ⊢
      linarith
    · rw [heq] at hbelow ⊢
      rw [le_antisymm hq hbelow, sub_self, Format.nearest_zero, zero_mul, add_zero]

/-- **A position is not before a boundary** that its coordinate is not before. -/
lemma WellFormed.le_roundedPosition {i : ℕ} (hi : i ≤ map.beatCount) {q : ℚ} (hq : i ≤ q) :
    map.boundary i ≤ map.roundedPosition q := by
  -- a part that is not negative of an interval that starts at the boundary or behind it
  have hbehind : ∀ {j distance part}, i ≤ j → j ≤ map.beatCount → 0 ≤ part →
      map.boundary i ≤ Format.double.interpolate (map.boundary j) distance part := by
    intro j distance part hij hj hpart
    have hstart : (map.boundary i : ℚ) ≤ map.boundary j := by exact_mod_cast h.boundary_mono hij hj
    exact h.boundary_le_interpolate hlength
      (by linarith [mul_nonneg hpart (Nat.cast_nonneg (α := ℚ) distance)])
  rw [roundedPosition]
  split_ifs with hlow hhigh
  · have hzero : i = 0 := by exact_mod_cast le_antisymm (hq.trans hlow) (Nat.cast_nonneg i)
    exact hbehind hzero.le (Nat.zero_le _) ((Nat.cast_nonneg i).trans hq)
  · exact hbehind hi le_rfl (Format.double.nearest_nonneg (sub_nonneg.mpr hhigh))
  · have hbelow := Nat.floor_le (not_le.mp hlow).le
    have hbefore : ⌊q⌋₊ ≤ map.beatCount := Nat.floor_le_of_le (not_le.mp hhigh).le
    exact hbehind (Nat.le_floor hq) hbefore (Format.double.nearest_nonneg (sub_nonneg.mpr hbelow))

/-- **Positions keep the order.**

**Proof sketch.** If there is a boundary between the coordinates, it is between the positions. If
there is none, both coordinates are in the same beat, or both before the first boundary, or both
behind the last one, and each rounding keeps the order. -/
lemma WellFormed.roundedPosition_mono {q r : ℚ} (hle : q ≤ r) :
    map.roundedPosition q ≤ map.roundedPosition r := by
  by_cases hbetween : ∃ i ≤ map.beatCount, q ≤ i ∧ i ≤ r
  · obtain ⟨i, hi, hq, hr⟩ := hbetween
    exact (h.roundedPosition_le hlength hi hq).trans (h.le_roundedPosition hlength hi hr)
  have hbelow : ∀ i ≤ map.beatCount, q ≤ i → r < i := fun i hi hq => by
    by_contra hr
    exact hbetween ⟨i, hi, hq, not_lt.mp hr⟩
  rcases le_or_gt q 0 with hlow | hpos
  · have hr := hbelow 0 (Nat.zero_le _) (by exact_mod_cast hlow)
    rw [roundedPosition, if_pos hlow, roundedPosition, if_pos (by exact_mod_cast hr.le)]
    exact Format.interpolate_mono hle
  have hrPos := hpos.trans_le hle
  rcases le_or_gt (map.beatCount : ℚ) q with hhigh | hinside
  · rw [roundedPosition, if_neg (not_le.mpr hpos), if_pos hhigh, roundedPosition,
      if_neg (not_le.mpr hrPos), if_pos (hhigh.trans hle)]
    exact Format.interpolate_mono (Format.double.nearest_mono (sub_le_sub_right hle _))
  · have hnext : ⌊q⌋₊ + 1 ≤ map.beatCount := (Nat.floor_lt hpos.le).mpr hinside
    have hr := hbelow (⌊q⌋₊ + 1) hnext (by exact_mod_cast (Nat.lt_floor_add_one q).le)
    have hrInside : r < map.beatCount := hr.trans_le (by exact_mod_cast hnext)
    have hsame : ⌊r⌋₊ = ⌊q⌋₊ := by
      refine (Nat.floor_eq_iff hrPos.le).mpr ⟨(Nat.floor_le hpos.le).trans hle, ?_⟩
      exact_mod_cast hr
    rw [roundedPosition, if_neg (not_le.mpr hpos), if_neg (not_le.mpr hinside), roundedPosition,
      if_neg (not_le.mpr hrPos), if_neg (not_le.mpr hrInside), hsame]
    exact Format.interpolate_mono (Format.double.nearest_mono (sub_le_sub_right hle _))

/-- **Positions are between the first boundary and the last.** -/
lemma WellFormed.position_within {coordinate : Double} (hne : coordinate ≠ .nan) :
    map.boundary 0 ≤ (map.position coordinate).value ∧
      (map.position coordinate).value ≤ map.lastBoundary := by
  obtain ⟨-, hlow, hhigh⟩ := clampTo_spec (h.beatCount_le.trans hlength) hne
  rw [(h.position_spec hlength hne).2, ← boundary_beatCount]
  exact ⟨h.le_roundedPosition hlength (Nat.zero_le _) (by exact_mod_cast hlow),
    h.roundedPosition_le hlength le_rfl hhigh⟩

/-! ## Nearest frames -/

/-- The frame nearest to the position of a coordinate. -/
lemma WellFormed.nearestFrame_eq {coordinate : Double} (hne : coordinate ≠ .nan) :
    map.nearestFrame coordinate = (roundHalfAway (map.position coordinate).value).toNat := by
  have hshort := h.lastBoundary_le.trans hlength
  obtain ⟨hlow, hhigh⟩ := h.position_within hlength hne
  refine Binary.toWord_roundAway (h.position_spec hlength hne).1 ((Nat.cast_nonneg _).trans hlow) ?_
  exact hhigh.trans (by exact_mod_cast hshort.trans (by decide))

/-- **The frames nearest to positions keep the order of the coordinates.** -/
lemma WellFormed.nearestFrame_mono {x y : Double} (hx : x ≠ .nan) (hy : y ≠ .nan) (hle : x ≤ y) :
    map.nearestFrame x ≤ map.nearestFrame y := by
  have hclamp := clampTo_mono (h.beatCount_le.trans hlength) hx hy hle
  rw [h.nearestFrame_eq hlength hx, h.nearestFrame_eq hlength hy, (h.position_spec hlength hx).2,
    (h.position_spec hlength hy).2]
  exact Int.toNat_le_toNat (roundHalfAway_mono (h.roundedPosition_mono hlength hclamp))

/-- **The frame nearest to a position is between the first boundary and the last.** -/
lemma WellFormed.nearestFrame_within {coordinate : Double} (hne : coordinate ≠ .nan) :
    map.boundary 0 ≤ map.nearestFrame coordinate ∧
      map.nearestFrame coordinate ≤ map.lastBoundary := by
  obtain ⟨hlow, hhigh⟩ := h.position_within hlength hne
  have hfirst := roundHalfAway_mono hlow
  have hlast := roundHalfAway_mono hhigh
  rw [← Int.cast_natCast, roundHalfAway_intCast] at hfirst hlast
  rw [h.nearestFrame_eq hlength hne]
  omega

/-- **The frame of a whole coordinate is a boundary.** -/
lemma WellFormed.nearestFrame_of_value_eq {x : Double} (hx : x.isFinite = true) {j : ℕ}
    (hj : j ≤ map.beatCount) (hvalue : x.value = j) : map.nearestFrame x = map.boundary j := by
  have hne := Binary.ne_nan hx
  have hsame : clampTo (.ofNat map.beatCount) x = x :=
    clampTo_of_within (h.beatCount_le.trans hlength) hx (hvalue ▸ Nat.cast_nonneg j)
      (hvalue ▸ by exact_mod_cast hj)
  have hposition : (map.position x).value = map.boundary j := by
    rw [(h.position_spec hlength hne).2, hsame, hvalue]
    exact le_antisymm (h.roundedPosition_le hlength hj le_rfl)
      (h.le_roundedPosition hlength hj le_rfl)
  rw [h.nearestFrame_eq hlength hne, hposition, ← Int.cast_natCast, roundHalfAway_intCast,
    Int.toNat_natCast]

end Values

end Beatmap

end Arranger
