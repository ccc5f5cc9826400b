import Arranger.Proofs.Beatmap.Positions
import Arranger.Proofs.Number.Error

/-!
# The exact places of coordinates

A coordinate between two boundaries has a place that is computed without rounding: the boundary
before it and a part of the interval. The position of the coordinate is computed with three
roundings, so it is at most three errors away from the place. The places themselves are as far apart
as the intervals make them: where no interval is shorter than some length, coordinates that are a
part of a beat apart have places that are at least that part of the length apart.

## Main definitions

* `Arranger.Beatmap.place` — the exact place of a coordinate.

## Main results

* `Arranger.Format.abs_interpolate_sub_le` — the error of an interpolation.
* `Arranger.Beatmap.WellFormed.mul_sub_le_place_sub` — how far places are apart.
* `Arranger.Beatmap.place_of_intervals_eq` — places on a map with equal intervals.
* `Arranger.Beatmap.WellFormed.abs_roundedPosition_sub_place_le` — positions are near their places.
* `Arranger.Beatmap.WellFormed.nearestFrame_eq_of_nonneg` — the frames nearest to positions.
-/

namespace Arranger

/-- Coordinates that are not below zero are only moved down to the end of the map. -/
lemma value_clampTo {n : ℕ} (hn : n ≤ 2 ^ Format.double.precision) {x : Double}
    (hx : x.isFinite = true) (hnonneg : 0 ≤ x.value) :
    (clampTo (.ofNat n) x).value = min x.value n := by
  obtain ⟨hzero, hzeroValue, -⟩ := Binary.zero_spec .double
  rcases le_or_gt x.value n with hle | hgt
  · rw [clampTo_of_within hn hx hnonneg hle, min_eq_left hle]
  · have hbelow : ¬ x < 0 := by
      rw [Binary.lt_iff hx hzero, hzeroValue]
      exact not_lt.mpr hnonneg
    have habove : .ofNat n < x := by
      rwa [Binary.lt_iff (Binary.isFinite_ofNat hn) hx, Binary.value_ofNat hn]
    rw [clampTo, if_neg hbelow, if_pos habove, Binary.value_ofNat hn, min_eq_right hgt.le]

/-- **Interpolating is at most three errors away from the exact place**, where `error` bounds the
error of rounding numbers up to `bound`.

**Proof sketch.** The part, its product with the distance and the sum with the whole number are
rounded. None of the three is greater than `bound`, when the part is taken as a part of the
distance. -/
lemma Format.abs_interpolate_sub_le {base distance bound : ℕ}
    (hbound : bound ≤ 2 ^ Format.double.precision) (hle : base + distance ≤ bound) {error : ℚ}
    (hround : ∀ x : ℚ, |x| ≤ bound → |Format.double.nearest x - x| ≤ error)
    (hscale : bound * 2 ^ (-54 : ℤ) ≤ error) {part : ℚ} (hpart : 0 ≤ part) (hone : part ≤ 1) :
    |Format.double.interpolate base distance (Format.double.nearest part) -
      (base + part * distance)| ≤ 3 * error := by
  have hsource : (base : ℚ) + distance ≤ bound := by exact_mod_cast hle
  have hbase : (0 : ℚ) ≤ base := Nat.cast_nonneg _
  have hdistance : (0 : ℚ) ≤ distance := Nat.cast_nonneg _
  set rounded := Format.double.nearest part
  have hrounded : 0 ≤ rounded := Format.double.nearest_nonneg hpart
  have hroundedOne : rounded ≤ (1 : ℕ) :=
    Format.nearest_le_natCast Nat.one_le_two_pow (by rwa [Nat.cast_one])
  rw [Nat.cast_one] at hroundedOne
  have hfirst : |(rounded - part) * distance| ≤ error := by
    have hsmall : |rounded - part| ≤ 2 ^ (-54 : ℤ) :=
      Format.abs_nearest_sub_le_two_zpow (e := 0) (by rwa [abs_of_nonneg hpart]) (by decide)
    rw [abs_mul, abs_of_nonneg hdistance, mul_comm]
    exact (mul_le_mul (by linarith) hsmall (abs_nonneg _) (Nat.cast_nonneg _)).trans hscale
  set product := rounded * distance
  have hproduct : 0 ≤ product := mul_nonneg hrounded hdistance
  have hproductLe : product ≤ distance := mul_le_of_le_one_left hdistance hroundedOne
  have hsecond := hround product (by rw [abs_of_nonneg hproduct]; linarith)
  set offset := Format.double.nearest product
  have hoffset : 0 ≤ offset := Format.double.nearest_nonneg hproduct
  have hoffsetLe : offset ≤ distance := Format.nearest_le_natCast (by omega) hproductLe
  have hthird := hround (base + offset) (by rw [abs_of_nonneg (by linarith)]; linarith)
  rw [Format.interpolate]
  have hsplit : Format.double.nearest (base + offset) - (base + part * distance) =
      (Format.double.nearest (base + offset) - (base + offset)) + (offset - product) +
        (rounded - part) * distance := by
    simp only [product]
    ring
  rw [show Format.double.nearest (rounded * distance) = offset from rfl, hsplit]
  linarith [abs_add_three (Format.double.nearest (base + offset) - (base + offset))
    (offset - product) ((rounded - part) * distance)]

namespace Beatmap

/-- The place of a coordinate on a map: the boundary before it and the part of the interval. -/
def place (map : Beatmap) (q : ℚ) : ℚ :=
  map.boundary ⌊q⌋₊ + (q - ⌊q⌋₊) * (map.boundary (⌊q⌋₊ + 1) - map.boundary ⌊q⌋₊ : ℕ)

/-- The place of a whole coordinate is the boundary. -/
@[simp] lemma place_natCast (map : Beatmap) (i : ℕ) : map.place i = map.boundary i := by
  rw [place, Nat.floor_natCast, sub_self, zero_mul, add_zero]

section Places

variable {map : Beatmap} (h : map.WellFormed)

include h

/-! ## How far places are apart -/

section Intervals

variable {length : ℚ} (hintervals : ∀ i < map.beatCount,
  map.boundary i + length ≤ map.boundary (i + 1))

include hintervals

omit h in
/-- Boundaries are as far apart as the intervals between them. -/
lemma mul_sub_le_boundary_sub {i j : ℕ} (hij : i ≤ j) (hj : j ≤ map.beatCount) :
    length * (j - i) ≤ map.boundary j - map.boundary i := by
  induction j, hij using Nat.le_induction with
  | base => simp
  | succ j _ ih =>
    have hstep := hintervals j hj
    have hbefore := ih (Nat.le_of_succ_le hj)
    push_cast
    linarith

/-- The place of a coordinate is behind the boundary before it. -/
lemma WellFormed.mul_le_place_sub {q : ℚ} (hq : 0 ≤ q) (hend : q ≤ map.beatCount) :
    length * (q - ⌊q⌋₊) ≤ map.place q - map.boundary ⌊q⌋₊ := by
  have hbelow := Nat.floor_le hq
  rcases (Nat.floor_le_of_le hend).lt_or_eq with hlt | heq
  · have hrising := (h.boundary_lt hlt).le
    have hpart := mul_le_mul_of_nonneg_left (hintervals _ hlt) (sub_nonneg.mpr hbelow)
    rw [place, Nat.cast_sub hrising]
    linarith
  · have hwhole : q = ⌊q⌋₊ := le_antisymm (hend.trans_eq (by rw [heq])) hbelow
    rw [place, sub_eq_zero.mpr hwhole, mul_zero, zero_mul, add_zero, sub_self]

/-- The place of a coordinate is before the next boundary. -/
lemma WellFormed.mul_le_boundary_sub_place {q : ℚ} (hend : ⌊q⌋₊ < map.beatCount) :
    length * (⌊q⌋₊ + 1 - q) ≤ map.boundary (⌊q⌋₊ + 1) - map.place q := by
  have habove := Nat.lt_floor_add_one q
  have hrising := (h.boundary_lt hend).le
  have hpart := mul_le_mul_of_nonneg_left (hintervals _ hend) (sub_nonneg.mpr habove.le)
  rw [place, Nat.cast_sub hrising]
  linarith

/-- **Places are as far apart as the intervals make them.**

**Proof sketch.** Either both coordinates are in the same beat, or there are boundaries between
them, and then the way is divided there. -/
lemma WellFormed.mul_sub_le_place_sub {q r : ℚ} (hq : 0 ≤ q) (hle : q ≤ r)
    (hend : r ≤ map.beatCount) : length * (r - q) ≤ map.place r - map.place q := by
  have hr := hq.trans hle
  rcases (Nat.floor_le_floor hle).eq_or_lt with hsame | hlater
  · rcases (Nat.floor_le_of_le hend).lt_or_eq with hinside | hlast
    · have hrising := (h.boundary_lt hinside).le
      have hpart := mul_le_mul_of_nonneg_left (hintervals _ hinside) (sub_nonneg.mpr hle)
      rw [place, place, hsame, Nat.cast_sub hrising]
      linarith
    · have hends : r = q := by
        refine le_antisymm (hend.trans ?_) hle
        rw [← hlast, ← hsame]
        exact Nat.floor_le hq
      rw [hends, sub_self, sub_self, mul_zero]
  · have hfloor : ⌊r⌋₊ ≤ map.beatCount := Nat.floor_le_of_le hend
    have hstart := h.mul_le_boundary_sub_place hintervals (hlater.trans_le hfloor)
    have hmiddle := mul_sub_le_boundary_sub hintervals (Nat.succ_le_of_lt hlater) hfloor
    have hrest := h.mul_le_place_sub hintervals hr hend
    push_cast at hmiddle
    linarith

end Intervals

section Equal

variable {length : ℕ}
  (hequal : ∀ i < map.beatCount, map.boundary (i + 1) = map.boundary i + length)

include hequal

omit h

/-- Boundaries of equal intervals. -/
lemma boundary_of_intervals_eq {i : ℕ} (hi : i ≤ map.beatCount) :
    map.boundary i = map.boundary 0 + i * length := by
  induction i with
  | zero => omega
  | succ i ih => rw [hequal i hi, ih (Nat.le_of_succ_le hi)]; ring

/-- **Places on a map with equal intervals** are multiples of their length past the first
boundary. -/
lemma place_of_intervals_eq {q : ℚ} (hq : 0 ≤ q) (hend : q ≤ map.beatCount) :
    map.place q = map.boundary 0 + q * length := by
  rcases (Nat.floor_le_of_le hend).lt_or_eq with hinside | hlast
  · rw [place, hequal _ hinside, Nat.add_sub_cancel_left,
      boundary_of_intervals_eq hequal hinside.le]
    push_cast
    ring
  · have hwhole : q = map.beatCount := le_antisymm hend (hlast ▸ Nat.floor_le hq)
    rw [hwhole, place_natCast, boundary_of_intervals_eq hequal le_rfl]
    push_cast
    ring

end Equal

/-! ## The error of a position -/

section Error

variable (hlength : map.sourceLength ≤ 2 ^ Format.double.precision)

include hlength

/-- The position of a whole coordinate is the boundary. -/
lemma WellFormed.roundedPosition_natCast {i : ℕ} (hi : i ≤ map.beatCount) :
    map.roundedPosition i = map.boundary i :=
  le_antisymm (h.roundedPosition_le hlength hi le_rfl) (h.le_roundedPosition hlength hi le_rfl)

/-- **A position is at most three errors away from its place**, where `error` bounds the error of
rounding numbers up to the length of the recording. -/
lemma WellFormed.abs_roundedPosition_sub_place_le {error : ℚ}
    (hround : ∀ x : ℚ, |x| ≤ map.sourceLength → |Format.double.nearest x - x| ≤ error)
    (hpart : map.sourceLength * 2 ^ (-54 : ℤ) ≤ error) {q : ℚ} (hq : 0 ≤ q)
    (hend : q ≤ map.beatCount) : |map.roundedPosition q - map.place q| ≤ 3 * error := by
  have herror : 0 ≤ error :=
    (abs_nonneg _).trans (hround 0 (by rw [abs_zero]; exact Nat.cast_nonneg _))
  have hwhole : ∀ i ≤ map.beatCount, q = i → |map.roundedPosition q - map.place q| ≤ 3 * error := by
    rintro i hi rfl
    rw [h.roundedPosition_natCast hlength hi, place_natCast, sub_self, abs_zero]
    linarith
  rcases hq.eq_or_lt with hzero | hpos
  · exact hwhole 0 (Nat.zero_le _) (by rw [← hzero, Nat.cast_zero])
  rcases hend.eq_or_lt with hlast | hinside
  · exact hwhole _ le_rfl hlast
  have hbelow := Nat.floor_le hq
  have habove := Nat.lt_floor_add_one q
  have hrising := h.boundary_lt ((Nat.floor_lt hq).mpr hinside)
  have hnext := h.boundary_le (⌊q⌋₊ + 1)
  rw [roundedPosition, if_neg (not_le.mpr hpos), if_neg (not_le.mpr hinside), place]
  exact Format.abs_interpolate_sub_le hlength (by omega) hround hpart (sub_nonneg.mpr hbelow)
    (by linarith)

/-! ## Nearest frames -/

/-- The frame of a coordinate that is not below zero. -/
lemma WellFormed.nearestFrame_eq_of_nonneg {x : Double} (hx : x.isFinite = true)
    (hnonneg : 0 ≤ x.value) : map.nearestFrame x =
      (roundHalfAway (map.roundedPosition (min x.value map.beatCount))).toNat := by
  have hne := Binary.ne_nan hx
  rw [h.nearestFrame_eq hlength hne, (h.position_spec hlength hne).2,
    value_clampTo (h.beatCount_le.trans hlength) hx hnonneg]

end Error

end Places

end Beatmap

end Arranger
