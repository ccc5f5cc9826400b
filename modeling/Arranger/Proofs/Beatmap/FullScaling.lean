import Arranger.Proofs.Beatmap.ScaledBeats
import Mathlib.Algebra.Order.Group.MinMax

/-!
# Scaling without losing a beat

Where every interval has a frame for each of its beats and a little more, the frames of a scaled map
are all different. The little more is what the roundings can take away: the places of two multiples
of the step are more than one apart, by more than the errors of both positions. The last multiple
may be past the end of the map, as the number of beats is rounded down with some slack, and is moved
there; the one before it is still more than half a frame before the end.

On a map with equal intervals the errors are enough below half a frame, so there may also be as many
beats as frames.

## Main definitions

* `Arranger.Beatmap.roomLength`, `HasRoom` — every interval has a frame for each of its beats and a
  little more.
* `Arranger.Beatmap.Roomy` — maps with room.

## Main results

* `Arranger.Beatmap.Roomy.beatCount_scale` — no beat is lost where there is room.
* `Arranger.Beatmap.WellFormed.beatCount_scale_of_intervals_eq` — nor on maps with equal intervals.
* `Arranger.Beatmap.scale_beatCount` — **how many beats a scaled map has**.
-/

namespace Arranger

namespace Beatmap

/-- The length of an interval with a frame for each of the beats that it is divided into, and a
little more on long recordings. -/
def roomLength (map : Beatmap) (factor : Double) : ℚ :=
  (1 + map.sourceLength / 2 ^ 49) * (effectiveFactor factor).value

/-- Every interval of the map has a frame for each of the beats that it is divided into, and a
little more. -/
def HasRoom (map : Beatmap) (factor : Double) : Prop :=
  ∀ i < map.beatCount, map.boundary i + map.roomLength factor ≤ map.boundary (i + 1)

instance (map : Beatmap) (factor : Double) : Decidable (map.HasRoom factor) :=
  inferInstanceAs (Decidable (∀ i < map.beatCount, _))

/-- The error of rounding a number up to the length of the recording. -/
def roundingError (map : Beatmap) : ℚ :=
  map.sourceLength / 2 ^ 53

/-- On recordings of at most `2 ^ 50` frames the error is at most an eighth of a frame. -/
lemma roundingError_le {map : Beatmap} (hlength : map.sourceLength ≤ 2 ^ 50) :
    map.roundingError ≤ 1 / 8 := by
  have hsource : (map.sourceLength : ℚ) ≤ (2 ^ 50 : ℕ) := Nat.cast_le.mpr hlength
  rw [roundingError, div_le_iff₀ (by norm_num)]
  norm_num at hsource ⊢
  linarith

/-- The length in terms of the error. -/
lemma roomLength_eq (map : Beatmap) (factor : Double) :
    map.roomLength factor = (1 + 16 * map.roundingError) * (effectiveFactor factor).value := by
  simp only [roomLength, roundingError]
  ring

/-- Factors are positive. -/
lemma effectiveFactor_pos (factor : Double) : 0 < (effectiveFactor factor).value := by
  linarith [(effectiveFactor_spec factor).2]

/-- A map with a beat, on a recording that is not too long, with room for the beats that a factor
makes of its own. -/
structure Roomy (map : Beatmap) (factor : Double) : Prop where
  /-- The map is well formed. -/
  wellFormed : map.WellFormed
  /-- There is a beat. -/
  beatCount_pos : 0 < map.beatCount
  /-- The recording is not too long. -/
  short : map.sourceLength ≤ 2 ^ 50
  /-- There is room. -/
  room : map.HasRoom factor

namespace Roomy

variable {map : Beatmap} {factor : Double} (h : map.Roomy factor)

include h

/-- There is a boundary. -/
lemma boundaries_ne_nil : map.boundaries ≠ [] :=
  boundaries_ne_nil_of_beatCount_pos h.beatCount_pos

/-- There is a frame. -/
lemma one_le_sourceLength : (1 : ℚ) ≤ map.sourceLength := by
  exact_mod_cast h.beatCount_pos.trans_le h.wellFormed.beatCount_le

/-- The error is at least a unit of the last digit. -/
lemma unit_le_roundingError : 1 / 2 ^ 53 ≤ map.roundingError :=
  div_le_div_of_nonneg_right h.one_le_sourceLength (by norm_num)

/-- A position is at most three errors away from its place. -/
lemma abs_roundedPosition_sub_place_le {q : ℚ} (hq : 0 ≤ q) (hend : q ≤ map.beatCount) :
    |map.roundedPosition q - map.place q| ≤ 3 * map.roundingError := by
  refine h.wellFormed.abs_roundedPosition_sub_place_le (h.short.trans (by decide))
    (fun x hx => abs_nearest_sub_le_of_one_le hx h.one_le_sourceLength) ?_ hq hend
  rw [div_eq_mul_inv]
  exact mul_le_mul_of_nonneg_left (by norm_num) (Nat.cast_nonneg _)

/-! ### Lengths -/

/-- The intervals with room add up to the span. -/
lemma roomLength_mul_beatCount_le_span : map.roomLength factor * map.beatCount ≤ map.span := by
  have hsum := mul_sub_le_boundary_sub h.room (Nat.zero_le _) le_rfl
  rw [boundary_beatCount] at hsum
  rw [span, Nat.cast_sub (h.wellFormed.boundary_le_last 0)]
  simpa using hsum

/-- The intervals with room are within the recording. -/
lemma roomLength_mul_beatCount_le : map.roomLength factor * map.beatCount ≤ map.sourceLength :=
  h.roomLength_mul_beatCount_le_span.trans
    (by exact_mod_cast (Nat.sub_le _ _).trans h.wellFormed.lastBoundary_le)

/-- The length of all beats, in units of the last digit, is at most the error. -/
lemma roomLength_mul_unit_le :
    map.roomLength factor * (map.beatCount / 2 ^ 53) ≤ map.roundingError := by
  rw [← mul_div_assoc]
  exact div_le_div_of_nonneg_right h.roomLength_mul_beatCount_le (by norm_num)

/-- The error is not negative. -/
lemma roundingError_nonneg : 0 ≤ map.roundingError :=
  le_trans (by norm_num) h.unit_le_roundingError

/-- The factor is not greater than the length. -/
lemma factor_le_roomLength : (effectiveFactor factor).value ≤ map.roomLength factor := by
  have hfactor := effectiveFactor_pos factor
  have herror := h.unit_le_roundingError
  rw [roomLength_eq]
  refine le_mul_of_one_le_left hfactor.le ?_
  norm_num at herror
  linarith

/-- The length is positive. -/
lemma roomLength_pos : 0 < map.roomLength factor :=
  (effectiveFactor_pos factor).trans_le h.factor_le_roomLength

/-- The product of the number of beats and the factor is within the span. -/
lemma beatCount_mul_factor_le_span :
    map.beatCount * (effectiveFactor factor).value ≤ map.span :=
  (mul_comm _ _).trans_le ((mul_le_mul_of_nonneg_right h.factor_le_roomLength
    (Nat.cast_nonneg _)).trans h.roomLength_mul_beatCount_le_span)

/-- The product of the number of beats and the factor is within the recording. -/
lemma beatCount_mul_factor_le :
    map.beatCount * (effectiveFactor factor).value ≤ map.sourceLength :=
  h.beatCount_mul_factor_le_span.trans
    (by exact_mod_cast (Nat.sub_le _ _).trans h.wellFormed.lastBoundary_le)

/-- **All the beats that the factor asks for are made.** -/
lemma scaledBeats_eq : map.scaledBeats factor = map.wantedBeats factor :=
  min_eq_left (h.wellFormed.wantedBeats_le h.beatCount_mul_factor_le (h.short.trans (by decide))
    h.beatCount_mul_factor_le_span ((Nat.sub_le _ _).trans h.wellFormed.lastBoundary_le))

/-- The step is the reciprocal of the factor. -/
lemma exactStep_eq : map.exactStep factor = 1 / (effectiveFactor factor).value :=
  if_pos h.scaledBeats_eq

/-- **The length with room in steps** is more than one frame for each step. -/
lemma abs_roomLength_mul_step_sub_le :
    |map.roomLength factor * Format.double.nearest (map.exactStep factor) -
      (1 + 16 * map.roundingError)| ≤ (1 + 16 * map.roundingError) / 2 ^ 53 := by
  have hfactor := effectiveFactor_pos factor
  have herror := h.unit_le_roundingError
  have hfactorLe : (effectiveFactor factor).value ≤ (2 ^ 50 : ℕ) := by
    have hone : (1 : ℚ) ≤ map.beatCount := by exact_mod_cast h.beatCount_pos
    exact (le_mul_of_one_le_left hfactor.le hone).trans
      (h.beatCount_mul_factor_le.trans (by exact_mod_cast h.short))
  have hround := abs_nearest_one_div_sub_le hfactor hfactorLe
  have hroom : 0 ≤ 1 + 16 * map.roundingError := by
    norm_num at herror
    linarith
  rw [h.exactStep_eq, roomLength_eq, show ∀ s : ℚ, (1 + 16 * map.roundingError) *
    (effectiveFactor factor).value * s - (1 + 16 * map.roundingError) =
      (1 + 16 * map.roundingError) * (effectiveFactor factor).value *
        (s - 1 / (effectiveFactor factor).value) by
    intro s
    field_simp]
  rw [abs_mul, abs_of_nonneg (mul_nonneg hroom hfactor.le)]
  refine (mul_le_mul_of_nonneg_left hround (mul_nonneg hroom hfactor.le)).trans_eq ?_
  field_simp

/-- The length with room for a step is a frame and between thirteen and nineteen errors. -/
lemma roomLength_mul_step_bounds :
    1 + 13 * map.roundingError ≤
        map.roomLength factor * Format.double.nearest (map.exactStep factor) ∧
      map.roomLength factor * Format.double.nearest (map.exactStep factor) ≤
        1 + 19 * map.roundingError := by
  have hbounds := abs_le.mp h.abs_roomLength_mul_step_sub_le
  have herror := h.unit_le_roundingError
  have hshort := roundingError_le h.short
  have hpart : (1 + 16 * map.roundingError) / 2 ^ 53 ≤ 3 * map.roundingError := by
    rw [div_le_iff₀ (by norm_num)]
    norm_num at herror ⊢
    linarith
  constructor <;> linarith

/-! ### Frames -/

/-- The step is not negative. -/
lemma step_nonneg : 0 ≤ Format.double.nearest (map.exactStep factor) :=
  Format.double.nearest_nonneg (h.exactStep_eq ▸ (one_div_pos.mpr (effectiveFactor_pos factor)).le)

/-- **Positions of neighbouring multiples within the map are one apart.**

**Proof sketch.** The multiples are at most twice as far as the map is long, so the errors of both
are small, and the length with room for a step is still a frame and nine errors. The errors of the
two positions are six. -/
lemma roundedPosition_add_one_le {k : ℕ}
    (hinside : Format.double.nearest ((k + 1 : ℕ) * Format.double.nearest (map.exactStep factor)) ≤
      map.beatCount) :
    map.roundedPosition (Format.double.nearest
        (k * Format.double.nearest (map.exactStep factor))) + 1 ≤
      map.roundedPosition (Format.double.nearest
        ((k + 1 : ℕ) * Format.double.nearest (map.exactStep factor))) := by
  have hstep := h.step_nonneg
  set step := Format.double.nearest (map.exactStep factor)
  have hbeats : (1 : ℚ) ≤ map.beatCount := by exact_mod_cast h.beatCount_pos
  have hmultiple : (0 : ℚ) ≤ k * step := mul_nonneg (Nat.cast_nonneg _) hstep
  have hnext : ((k + 1 : ℕ) : ℚ) * step = k * step + step := by push_cast; ring
  have htwice : ((k + 1 : ℕ) : ℚ) * step ≤ (2 * map.beatCount : ℕ) := by
    by_contra hbeyond
    have hshort : 2 * map.beatCount ≤ 2 ^ Format.double.precision := by
      have := h.wellFormed.beatCount_le.trans h.short
      exact (Nat.mul_le_mul_left 2 this).trans (by decide)
    have hfar := (Format.natCast_le_nearest hshort (not_le.mp hbeyond).le).trans hinside
    push_cast at hfar
    linarith
  push_cast at htwice
  have hgreater := abs_le.mp (abs_nearest_sub_le_of_one_le
    (q := (k + 1 : ℕ) * step) (r := 2 * map.beatCount)
    (by rw [abs_of_nonneg (by linarith)]; push_cast; exact htwice) (by linarith))
  have hless := abs_le.mp (abs_nearest_sub_le_of_one_le (q := k * step)
    (r := 2 * map.beatCount) (by
      rw [abs_of_nonneg hmultiple]
      push_cast at hnext
      linarith) (by linarith))
  have horder : Format.double.nearest (k * step) ≤ Format.double.nearest ((k + 1 : ℕ) * step) :=
    Format.double.nearest_mono (by linarith)
  have hlow := Format.double.nearest_nonneg hmultiple
  have hapart := h.wellFormed.mul_sub_le_place_sub h.room hlow horder hinside
  have hposition := abs_le.mp (h.abs_roundedPosition_sub_place_le hlow (horder.trans hinside))
  have hpositionNext := abs_le.mp
    (h.abs_roundedPosition_sub_place_le (hlow.trans horder) hinside)
  have hgap : step - 4 * (map.beatCount / 2 ^ 53) ≤
      Format.double.nearest ((k + 1 : ℕ) * step) - Format.double.nearest (k * step) := by
    linarith
  have hscaled := mul_le_mul_of_nonneg_left hgap h.roomLength_pos.le
  have herror : map.roomLength factor * (map.beatCount / 2 ^ 53) ≤ map.roundingError :=
    h.roomLength_mul_unit_le
  linarith [h.roomLength_mul_step_bounds.1, h.roundingError_nonneg]

/-- **All the multiples but the last are more than half a frame before the end.**

**Proof sketch.** Less than half a beat too much is asked for, so the multiple before the last is
more than half a step before the end, which is half a frame and eight errors. The step, the multiple
and the position are rounded. -/
lemma roundedPosition_lt {k : ℕ} (hk : k < map.scaledBeats factor) :
    Format.double.nearest (k * Format.double.nearest (map.exactStep factor)) ≤ map.beatCount ∧
      map.roundedPosition (Format.double.nearest
        (k * Format.double.nearest (map.exactStep factor))) < map.lastBoundary - 1 / 2 := by
  have hstep := h.step_nonneg
  have hunit := h.roomLength_mul_unit_le
  have hlength := h.roomLength_pos
  have herror := h.roundingError_nonneg
  have hcount : (k : ℚ) ≤ map.beatCount * (effectiveFactor factor).value - 1 / 2 := by
    have hwanted := h.wellFormed.wantedBeats_le_add_half h.beatCount_mul_factor_le h.short
    have hbefore : ((k + 1 : ℕ) : ℚ) ≤ map.wantedBeats factor := by
      exact_mod_cast hk.trans_eq h.scaledBeats_eq
    push_cast at hbefore
    linarith
  have hupper := (abs_le.mp h.abs_roomLength_mul_step_sub_le).2
  set step := Format.double.nearest (map.exactStep factor)
  set length := map.roomLength factor with hlengthDef
  have hmultiple : (0 : ℚ) ≤ k * step := mul_nonneg (Nat.cast_nonneg _) hstep
  have hscaled : length * (k * step) ≤ length * map.beatCount - 1 / 2 - 7 * map.roundingError := by
    have hbound : length * step ≤ (1 + 16 * map.roundingError) * (1 + 1 / 2 ^ 53) := by linarith
    have hproduct := mul_le_mul hcount hbound (mul_nonneg hlength.le hstep)
      ((Nat.cast_nonneg k).trans hcount)
    have hsplit : (map.beatCount * (effectiveFactor factor).value - 1 / 2) *
        ((1 + 16 * map.roundingError) * (1 + 1 / 2 ^ 53)) =
          length * map.beatCount + length * (map.beatCount / 2 ^ 53) -
            (1 / 2 + 8 * map.roundingError) * (1 + 1 / 2 ^ 53) := by
      rw [hlengthDef, roomLength_eq]
      ring
    have hhalf : 1 / 2 + 8 * map.roundingError ≤
        (1 / 2 + 8 * map.roundingError) * (1 + 1 / 2 ^ 53) :=
      le_mul_of_one_le_right (by linarith) (by norm_num)
    linarith
  have hinside : k * step ≤ map.beatCount := by
    refine le_of_mul_le_mul_left ?_ hlength
    linarith
  have hbeats : (1 : ℚ) ≤ map.beatCount := by exact_mod_cast h.beatCount_pos
  have hround := (abs_le.mp (abs_nearest_sub_le_of_one_le (q := k * step)
    ((abs_of_nonneg hmultiple).trans_le hinside) hbeats)).2
  have hend : Format.double.nearest (k * step) ≤ map.beatCount :=
    Format.nearest_le_natCast (h.wellFormed.beatCount_le.trans (h.short.trans (by decide))) hinside
  have hlow := Format.double.nearest_nonneg hmultiple
  have hapart := h.wellFormed.mul_sub_le_place_sub h.room hlow hend le_rfl
  rw [place_natCast, boundary_beatCount] at hapart
  have hposition := (abs_le.mp (h.abs_roundedPosition_sub_place_le hlow hend)).2
  have hlate := mul_le_mul_of_nonneg_left hround hlength.le
  refine ⟨hend, ?_⟩
  linarith [h.unit_le_roundingError]

/-- **Where there is room no beat is lost.** -/
lemma beatCount_scale : (map.scale factor).beatCount = map.scaledBeats factor := by
  have hlength : map.sourceLength ≤ 2 ^ 52 := h.short.trans (by decide)
  have hshort : map.sourceLength ≤ 2 ^ Format.double.precision := h.short.trans (by decide)
  refine h.wellFormed.beatCount_scale_of_lt hlength h.boundaries_ne_nil fun k hk => ?_
  obtain ⟨hend, hbefore⟩ := h.roundedPosition_lt hk
  have hnonneg := (Nat.cast_nonneg (map.boundary 0)).trans (h.wellFormed.le_roundedPosition hshort
    (Nat.zero_le _) (q := Format.double.nearest (k * Format.double.nearest (map.exactStep factor)))
    (by exact_mod_cast Format.double.nearest_nonneg (mul_nonneg (Nat.cast_nonneg k) h.step_nonneg)))
  rw [h.wellFormed.nearestFrame_multiple hlength hk.le, min_eq_left hend,
    h.wellFormed.nearestFrame_multiple hlength hk]
  refine toNat_roundHalfAway_lt hnonneg ?_
  rcases le_or_gt (Format.double.nearest
    ((k + 1 : ℕ) * Format.double.nearest (map.exactStep factor))) map.beatCount with hinside | hpast
  · rw [min_eq_left hinside]
    exact roundHalfAway_lt_of_add_one_le hnonneg (h.roundedPosition_add_one_le hinside)
  · rw [min_eq_right hpast.le, h.wellFormed.roundedPosition_natCast hshort le_rfl,
      boundary_beatCount, roundHalfAway_natCast, roundHalfAway_lt_iff hnonneg]
    exact hbefore

end Roomy

/-! ## Equal intervals -/

section Equal

variable {map : Beatmap} (h : map.WellFormed) (hbeat : 0 < map.beatCount)
  (hlength : map.sourceLength ≤ 2 ^ 50) {length : ℕ}
  (hequal : ∀ i < map.beatCount, map.boundary (i + 1) = map.boundary i + length)

include hequal

/-- The span of equal intervals. -/
lemma span_of_intervals_eq : map.span = map.beatCount * length := by
  rw [span, ← boundary_beatCount, boundary_of_intervals_eq hequal le_rfl, Nat.add_sub_cancel_left]

include h hbeat

/-- Equal intervals have a frame. -/
lemma WellFormed.length_pos_of_intervals_eq : 0 < length := by
  have hrising := h.boundary_lt hbeat
  rw [hequal 0 hbeat] at hrising
  omega

variable {factor : Double} (hone : map.scaledBeats factor < map.wantedBeats factor ∨
  (effectiveFactor factor).value = length)

include hlength hone

/-- **With a frame for each beat the step is the reciprocal of the length.** -/
lemma WellFormed.exactStep_of_intervals_eq :
    map.scaledBeats factor = map.beatCount * length ∧ map.exactStep factor = 1 / length := by
  have hspan := span_of_intervals_eq hequal
  have hframes := h.length_pos_of_intervals_eq hbeat hequal
  have hspanLe : map.span ≤ map.sourceLength := (Nat.sub_le _ _).trans h.lastBoundary_le
  rcases hone with hcapped | hfactor
  · have hbeats : map.scaledBeats factor = map.span := by
      unfold scaledBeats at hcapped ⊢
      omega
    refine ⟨hbeats.trans hspan, ?_⟩
    have hpos : 0 < map.beatCount * length := Nat.mul_pos hbeat hframes
    have hbeatNe : (map.beatCount : ℚ) ≠ 0 := by exact_mod_cast hbeat.ne'
    rw [exactStep, if_neg hcapped.ne, hbeats, hspan, max_eq_left hpos]
    push_cast
    field_simp
  · have hproduct : map.beatCount * (effectiveFactor factor).value = map.span := by
      rw [hfactor, hspan]
      push_cast
      rfl
    have hfits : map.beatCount * (effectiveFactor factor).value ≤ map.sourceLength :=
      hproduct.trans_le (by exact_mod_cast hspanLe)
    have hwanted : map.wantedBeats factor = map.span :=
      le_antisymm (h.wantedBeats_le hfits (hlength.trans (by decide)) hproduct.le hspanLe)
        (h.le_wantedBeats hfits (hlength.trans (by decide)) hproduct.ge)
    have hbeats : map.scaledBeats factor = map.wantedBeats factor := by
      rw [scaledBeats, hwanted, min_self]
    exact ⟨hbeats.trans (hwanted.trans hspan), by rw [exactStep, if_pos hbeats, hfactor]⟩

omit h hbeat hequal hlength hone in
/-- The error of a multiple of a rounded reciprocal, in parts of a number: less than a third of one
for as many multiples as the number has, times another one. -/
lemma mul_abs_multiple_sub_le {beats k : ℕ} (hbeats : 0 < beats) (hlength : 0 < length)
    (hframes : beats * length ≤ 2 ^ 50) (hk : k ≤ beats * length) :
    length * |Format.double.nearest (k * Format.double.nearest (1 / length)) - k / length| ≤
      9 / 32 := by
  have hpos : (0 : ℚ) < length := by exact_mod_cast hlength
  have hone : (1 : ℚ) ≤ beats := by exact_mod_cast hbeats
  have hlengthLe : (length : ℚ) ≤ (2 ^ 50 : ℕ) := by
    exact_mod_cast (Nat.le_mul_of_pos_left length hbeats).trans hframes
  have hproduct : (beats : ℚ) * length ≤ (2 ^ 50 : ℕ) := by exact_mod_cast hframes
  have hcount : (k : ℚ) ≤ beats * length := by exact_mod_cast hk
  have hcountNonneg : (0 : ℚ) ≤ k := Nat.cast_nonneg k
  have hstep := abs_nearest_one_div_sub_le hpos hlengthLe
  set step := Format.double.nearest (1 / length)
  have hstepNonneg : 0 ≤ step := Format.double.nearest_nonneg (one_div_pos.mpr hpos).le
  -- the step is rounded
  have hscaled : |length * (k * step) - k| ≤ k / 2 ^ 53 := by
    rw [show length * (k * step) - k = (length * k) * (step - 1 / length) by field_simp, abs_mul,
      abs_of_nonneg (mul_nonneg hpos.le hcountNonneg)]
    refine (mul_le_mul_of_nonneg_left hstep (mul_nonneg hpos.le hcountNonneg)).trans_eq ?_
    field_simp
  -- the multiple is rounded
  have hmultiple : length * (k * step) ≤ length * (beats * (1 + 1 / 2 ^ 53)) := by
    have hupper := (abs_le.mp hscaled).2
    have hgrow : (k : ℚ) * (1 + 1 / 2 ^ 53) ≤ beats * length * (1 + 1 / 2 ^ 53) :=
      mul_le_mul_of_nonneg_right hcount (by norm_num)
    linarith
  have hround := abs_nearest_sub_le_of_one_le (q := k * step) (r := beats * (1 + 1 / 2 ^ 53))
    (by
      rw [abs_of_nonneg (mul_nonneg hcountNonneg hstepNonneg)]
      exact le_of_mul_le_mul_left hmultiple hpos)
    (one_le_mul_of_one_le_of_one_le hone (by norm_num))
  have hroundScaled := mul_le_mul_of_nonneg_left hround hpos.le
  rw [← abs_of_pos hpos, ← abs_mul, abs_of_pos hpos] at hroundScaled ⊢
  have hsplit : length * (Format.double.nearest (k * step) - k / length) =
      length * (Format.double.nearest (k * step) - k * step) + (length * (k * step) - k) := by
    field_simp
    ring
  rw [hsplit]
  refine (abs_add_le _ _).trans ?_
  norm_num at hproduct hroundScaled hscaled ⊢
  linarith

/-- **With a frame for each beat every frame is a boundary.**

**Proof sketch.** The step and the multiple are rounded, and the three errors of the position are a
sixteenth of a frame each. All of them together are less than half a frame. -/
lemma WellFormed.nearestFrame_of_intervals_eq {k : ℕ} (hk : k ≤ map.scaledBeats factor) :
    map.nearestFrame (Binary.ofNat k * map.scaleStep factor) = map.boundary 0 + k := by
  obtain ⟨hbeats, hstep⟩ := h.exactStep_of_intervals_eq hbeat hlength hequal hone
  have hframes := h.length_pos_of_intervals_eq hbeat hequal
  have hshort : map.sourceLength ≤ 2 ^ Format.double.precision := hlength.trans (by decide)
  have hsource : (map.sourceLength : ℚ) ≤ (2 ^ 50 : ℕ) := Nat.cast_le.mpr hlength
  have hspan : map.beatCount * length ≤ 2 ^ 50 := by
    rw [← span_of_intervals_eq hequal]
    exact (Nat.sub_le _ _).trans (h.lastBoundary_le.trans hlength)
  have hpos : (0 : ℚ) < length := by exact_mod_cast hframes
  have hmultiple := mul_abs_multiple_sub_le hbeat hframes hspan (hk.trans_eq hbeats)
  have hnonneg : 0 ≤ Format.double.nearest (k * Format.double.nearest (1 / length)) :=
    Format.double.nearest_nonneg (mul_nonneg (Nat.cast_nonneg k)
      (Format.double.nearest_nonneg (one_div_pos.mpr hpos).le))
  rw [h.nearestFrame_multiple (hlength.trans (by decide)) hk, hstep]
  set multiple := Format.double.nearest (k * Format.double.nearest (1 / length))
  set coordinate := min multiple map.beatCount with hcoordinate
  have hlow : 0 ≤ coordinate := le_min hnonneg (Nat.cast_nonneg _)
  have hend : coordinate ≤ map.beatCount := min_le_right _ _
  -- what is past the end is moved nearer
  have hnear : |coordinate - k / length| ≤ |multiple - k / length| := by
    have hexact : (k : ℚ) / length ≤ map.beatCount := by
      rw [div_le_iff₀ hpos]
      exact_mod_cast hk.trans_eq hbeats
    have hmin := abs_min_sub_min_le_max multiple map.beatCount (k / length) map.beatCount
    rwa [min_eq_left hexact, sub_self, abs_zero, max_eq_left (abs_nonneg _)] at hmin
  have hplace : |map.place coordinate - (map.boundary 0 + k : ℕ)| ≤ 9 / 32 := by
    rw [place_of_intervals_eq hequal hlow hend]
    push_cast
    rw [show (map.boundary 0 : ℚ) + coordinate * length - (map.boundary 0 + k) =
      length * (coordinate - k / length) by field_simp; ring, abs_mul, abs_of_pos hpos]
    exact (mul_le_mul_of_nonneg_left hnear hpos.le).trans hmultiple
  have hposition : |map.roundedPosition coordinate - map.place coordinate| ≤ 3 * (1 / 16) :=
    h.abs_roundedPosition_sub_place_le hshort (fun x hx =>
        (Format.abs_nearest_sub_le_two_zpow (e := 50) (hx.trans (hsource.trans_eq (by norm_num)))
          (by decide)).trans_eq (by norm_num [Format.double]))
      ((mul_le_mul_of_nonneg_right hsource (two_zpow_pos _).le).trans_eq (by norm_num)) hlow hend
  have hnonnegPosition := (Nat.cast_nonneg (map.boundary 0)).trans
    (h.le_roundedPosition hshort (Nat.zero_le _) (q := coordinate) (by exact_mod_cast hlow))
  have hframe : roundHalfAway (map.roundedPosition coordinate) = (map.boundary 0 + k : ℕ) := by
    rw [roundHalfAway_eq_iff hnonnegPosition, Int.cast_natCast]
    rw [abs_le] at hplace hposition
    constructor <;> linarith
  rw [hframe, Int.toNat_natCast]

/-- **With equal intervals and a frame for each beat no beat is lost.** -/
lemma WellFormed.beatCount_scale_of_intervals_eq (hne : map.boundaries ≠ []) :
    (map.scale factor).beatCount = map.scaledBeats factor := by
  refine h.beatCount_scale_of_lt (hlength.trans (by decide)) hne fun k hk => ?_
  rw [h.nearestFrame_of_intervals_eq hbeat hlength hequal hone hk.le,
    h.nearestFrame_of_intervals_eq hbeat hlength hequal hone hk]
  omega

end Equal

/-- **How many beats a scaled map has.** Take a built map, on a recording of at most `2 ^ 50` frames,
and any factor. The factor stands for one that is finite and at least `minScale`, and the map is
scaled to the product of that with the number of beats, rounded down with some slack, or to the
number of frames of the span if that is less. It never has more beats. Its boundaries are the frames
nearest to the positions of so many multiples of the step, and it has all the beats just if no two
of these frames coincide. So it has them all where every interval has a frame for each of its beats
and a little more, which is the length of the recording in parts of `2 ^ 49`. With equal intervals
it also has them all where there is one frame for each beat, be it that more beats are asked for or
that the factor is the length of the intervals.

**Proof sketch.** The frames do not fall, so each is kept once. The positions of neighbouring
multiples are one apart if there is room: their places are, and by more than the errors of the
roundings. With equal intervals the errors are less than half a frame. -/
theorem scale_beatCount {boundaries : List ℕ} {sourceLength : ℕ} {map : Beatmap}
    (hmap : build boundaries sourceLength = .ok map) (hlength : sourceLength ≤ 2 ^ 50)
    (factor : Double) :
    (map.scale factor).beatCount ≤ map.scaledBeats factor ∧
      (∀ frame, frame ∈ (map.scale factor).boundaries ↔ ∃ k ≤ map.scaledBeats factor,
        map.nearestFrame (Binary.ofNat k * map.scaleStep factor) = frame) ∧
      ((map.scale factor).beatCount = map.scaledBeats factor ↔
        ∀ j k, j < k → k ≤ map.scaledBeats factor →
          map.nearestFrame (Binary.ofNat j * map.scaleStep factor) ≠
            map.nearestFrame (Binary.ofNat k * map.scaleStep factor)) ∧
      (map.HasRoom factor → (map.scale factor).beatCount = map.scaledBeats factor) ∧
      ∀ length : ℕ, (∀ i < map.beatCount, map.boundary (i + 1) = map.boundary i + length) →
        (map.scaledBeats factor < map.wantedBeats factor ∨
          (effectiveFactor factor).value = length) →
        (map.scale factor).beatCount = map.scaledBeats factor := by
  have hwell := wellFormed_of_build hmap
  have hbeat := beatCount_pos_of_build hmap
  have hne := boundaries_ne_nil_of_beatCount_pos hbeat
  rw [← sourceLength_of_build hmap] at hlength
  have hlong : map.sourceLength ≤ 2 ^ 52 := hlength.trans (by decide)
  refine ⟨hwell.beatCount_scale_le hlong hne factor, fun frame => ?_, ?_, fun hroom => ?_,
    fun length hequal hone => ?_⟩
  · rw [hwell.mem_boundaries_scale_iff hlong hne, scaledFrames, List.mem_map]
    simp only [List.mem_range, Nat.lt_succ_iff]
  · rw [hwell.beatCount_scale_eq_iff hlong hne, scaledFrames, List.Nodup, List.pairwise_map]
    refine ⟨fun hpairwise j k hjk hk => ?_, fun hdistinct => ?_⟩
    · have hordered := (List.pairwise_iff_getElem.mp hpairwise) j k
        (by rw [List.length_range]; omega) (by rw [List.length_range]; omega) hjk
      simpa only [List.getElem_range] using hordered
    · refine List.pairwise_lt_range.imp_of_mem fun _ hk hjk => ?_
      exact hdistinct _ _ hjk (Nat.le_of_lt_succ (List.mem_range.mp hk))
  · exact (Roomy.mk hwell hbeat hlength hroom).beatCount_scale
  · exact hwell.beatCount_scale_of_intervals_eq hbeat hlength hequal hone hne

/-- Two beats of three and five frames have room for five, and two of four frames for eight. -/
theorem scale_beatCount_five_and_eight :
    build [1, 4, 9] 9 = .ok ⟨[1, 4, 9], 9⟩ ∧ 9 ≤ 2 ^ 50 ∧
      HasRoom ⟨[1, 4, 9], 9⟩ (5 / 2) ∧ (scale ⟨[1, 4, 9], 9⟩ (5 / 2)).beatCount = 5 ∧
      build [0, 4, 8] 8 = .ok ⟨[0, 4, 8], 8⟩ ∧ 8 ≤ 2 ^ 50 ∧
      scaledBeats ⟨[0, 4, 8], 8⟩ 100 < wantedBeats ⟨[0, 4, 8], 8⟩ 100 ∧
      (scale ⟨[0, 4, 8], 8⟩ 100).beatCount = 8 := by
  have hmap : build [1, 4, 9] 9 = .ok ⟨[1, 4, 9], 9⟩ := by decide +kernel
  have hequal : build [0, 4, 8] 8 = .ok ⟨[0, 4, 8], 8⟩ := by decide +kernel
  have hroom : HasRoom ⟨[1, 4, 9], 9⟩ (5 / 2) := by decide +kernel
  have hcapped : scaledBeats ⟨[0, 4, 8], 8⟩ 100 < wantedBeats ⟨[0, 4, 8], 8⟩ 100 := by
    decide +kernel
  refine ⟨hmap, by decide, hroom, ?_, hequal, by decide, hcapped, ?_⟩
  · exact ((scale_beatCount hmap (by decide) (5 / 2)).2.2.2.1 hroom).trans (by decide +kernel)
  · exact ((scale_beatCount hequal (by decide) 100).2.2.2.2 4 (by decide)
      (.inl hcapped)).trans (by decide +kernel)

/-- Two beats of one and three frames are scaled to four, but the first one has no room for two. -/
theorem scale_beatCount_lt_one_and_three_frames :
    build [0, 1, 4] 4 = .ok ⟨[0, 1, 4], 4⟩ ∧ 4 ≤ 2 ^ 50 ∧ (2 : Double).isFinite = true ∧
      min (Binary.ofNat (beatCount ⟨[0, 1, 4], 4⟩) * effectiveFactor 2 + slack).floor.toWord
        (span ⟨[0, 1, 4], 4⟩) = 4 ∧
      (scale ⟨[0, 1, 4], 4⟩ 2).boundaries = [0, 1, 3, 4] ∧
      (scale ⟨[0, 1, 4], 4⟩ 2).beatCount = 3 := by
  decide +kernel

end Beatmap

end Arranger
