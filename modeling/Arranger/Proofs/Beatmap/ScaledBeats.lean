import Arranger.Proofs.Beatmap.Scaling
import Arranger.Proofs.Beatmap.Places

/-!
# How many beats a scaled map has

A map is scaled to a number of beats: the product of its own number and the factor, rounded down,
but not more than there are frames. The frames nearest to the positions of so many multiples of the
step do not fall, and each of them is kept once. So the scaled map has that number of beats just if
no two of the frames coincide. With intervals of different lengths some do where the interval is too
short for its part of the beats. They do not where every interval has a frame for each of its beats
and a little more, which makes up for the roundings, and on maps with equal intervals they do not
either when there is one beat for each frame.

## Main definitions

* `Arranger.Beatmap.scaledFrames` — the frames nearest to the positions of the multiples of the step.

## Main results

* `Arranger.Beatmap.WellFormed.boundaries_scale_eq` — the boundaries of a scaled map.
* `Arranger.Beatmap.WellFormed.beatCount_scale_eq_iff` — when all frames are kept.
* `Arranger.Beatmap.WellFormed.wantedBeats_eq` — the number of beats that a factor asks for.
-/

namespace Arranger

namespace Beatmap

/-- The frames nearest to the positions of the multiples of the step: one for each boundary that a
scaled map is to have. -/
def scaledFrames (map : Beatmap) (factor : Double) : List ℕ :=
  (List.range (map.scaledBeats factor + 1)).map fun k =>
    map.nearestFrame (Binary.ofNat k * map.scaleStep factor)

/-- There is a frame for each boundary. -/
@[simp] lemma length_scaledFrames (map : Beatmap) (factor : Double) :
    (map.scaledFrames factor).length = map.scaledBeats factor + 1 := by
  simp [scaledFrames]

section Frames

variable {map : Beatmap} (h : map.WellFormed) (hlength : map.sourceLength ≤ 2 ^ 52)

include h hlength

/-- **The multiples of the step** are finite. -/
lemma WellFormed.mul_scaleStep_spec {factor : Double} {k : ℕ} (hk : k ≤ map.scaledBeats factor) :
    (Binary.ofNat k * map.scaleStep factor : Double).isFinite = true ∧
      (Binary.ofNat k * map.scaleStep factor : Double).value =
        Format.double.nearest (k * Format.double.nearest (map.exactStep factor)) ∧
      0 ≤ Format.double.nearest (map.exactStep factor) := by
  obtain ⟨hfinite, hvalue, hnonneg, hshort⟩ := h.scaleStep_spec hlength factor
  have hstep := Format.double.nearest_nonneg hnonneg
  have hcount : k ≤ 2 ^ Format.double.precision :=
    hk.trans ((h.scaledBeats_le factor).trans (hlength.trans (by decide)))
  have hpeak := (Binary.isFinite_of_isFinite_add Binary.isFinite_add_mul_ofNat).2
  have hatMost : (map.scaleStep factor).AtMost (.ofNat (2 ^ Format.double.precision)) := by
    refine ⟨hfinite, ?_⟩
    rw [hvalue, abs_of_nonneg hstep, Binary.value_ofNat le_rfl]
    exact Format.nearest_le_natCast le_rfl hshort
  have hproduct := ((Binary.AtMost.ofNat hcount le_rfl).mul hatMost hpeak).finite
  refine ⟨hproduct, ?_, hstep⟩
  rw [Binary.mul_eq (Binary.isFinite_ofNat hcount) hfinite] at hproduct ⊢
  rw [Binary.value_roundSigned hproduct, Binary.value_ofNat hcount, hvalue]

/-- The frame of a multiple of the step, which may be past the end of the map. -/
lemma WellFormed.nearestFrame_multiple {factor : Double} {k : ℕ}
    (hk : k ≤ map.scaledBeats factor) :
    map.nearestFrame (Binary.ofNat k * map.scaleStep factor) =
      (roundHalfAway (map.roundedPosition (min (Format.double.nearest
        (k * Format.double.nearest (map.exactStep factor))) map.beatCount))).toNat := by
  obtain ⟨hfinite, hvalue, hstep⟩ := h.mul_scaleStep_spec hlength hk
  have hnonneg := Format.double.nearest_nonneg (mul_nonneg (Nat.cast_nonneg (α := ℚ) k) hstep)
  rw [h.nearestFrame_eq_of_nonneg (hlength.trans (by decide)) hfinite (hvalue ▸ hnonneg), hvalue]

/-- The frames do not fall. -/
lemma WellFormed.pairwise_scaledFrames (factor : Double) :
    (map.scaledFrames factor).Pairwise (· ≤ ·) := by
  rw [scaledFrames, List.pairwise_map]
  refine (List.pairwise_lt_range).imp_of_mem fun {j k} hj hk hjk => ?_
  obtain ⟨hjFinite, hjValue, hstep⟩ :=
    h.mul_scaleStep_spec hlength (Nat.le_of_lt_succ (List.mem_range.mp hj))
  obtain ⟨hkFinite, hkValue, -⟩ :=
    h.mul_scaleStep_spec hlength (Nat.le_of_lt_succ (List.mem_range.mp hk))
  refine h.nearestFrame_mono (hlength.trans (by decide)) (Binary.ne_nan hjFinite)
    (Binary.ne_nan hkFinite) ?_
  rw [Binary.le_iff hjFinite hkFinite, hjValue, hkValue]
  exact Format.double.nearest_mono (mul_le_mul_of_nonneg_right (by exact_mod_cast hjk.le) hstep)

/-- **The boundaries of a scaled map** are the frames, as far as they rise. -/
lemma WellFormed.boundaries_scale_eq (hne : map.boundaries ≠ []) (factor : Double) :
    (map.scale factor).boundaries = keepRising none (map.scaledFrames factor) := by
  rw [scale_eq hne, h.ofPositions_position hlength fun k hmem =>
    h.mul_scaleStep_ne_nan hlength (Nat.le_of_lt_succ (List.mem_range.mp hmem))]
  rfl

/-- Every frame is a boundary of the scaled map, and there are no others. -/
lemma WellFormed.mem_boundaries_scale_iff (hne : map.boundaries ≠ []) {factor : Double}
    {frame : ℕ} :
    frame ∈ (map.scale factor).boundaries ↔ frame ∈ map.scaledFrames factor := by
  rw [h.boundaries_scale_eq hlength hne,
    mem_keepRising_iff (h.pairwise_scaledFrames hlength factor)]
  exact and_iff_left rfl

/-- A scaled map has no more beats than it is scaled to. -/
lemma WellFormed.beatCount_scale_le (hne : map.boundaries ≠ []) (factor : Double) :
    (map.scale factor).beatCount ≤ map.scaledBeats factor := by
  have hkept := (keepRising_sublist none (map.scaledFrames factor)).length_le
  rw [length_scaledFrames] at hkept
  rw [beatCount, h.boundaries_scale_eq hlength hne]
  omega

/-- **A scaled map has the beats that it is scaled to** just if no two frames coincide. -/
lemma WellFormed.beatCount_scale_eq_iff (hne : map.boundaries ≠ []) {factor : Double} :
    (map.scale factor).beatCount = map.scaledBeats factor ↔ (map.scaledFrames factor).Nodup := by
  have hmono := h.pairwise_scaledFrames hlength factor
  have hfirst : (map.scale factor).boundaries.length ≠ 0 := by
    rw [h.boundaries_scale hlength hne, List.length_cons]
    exact Nat.succ_ne_zero _
  have hcount : (map.scale factor).beatCount = map.scaledBeats factor ↔
      (keepRising none (map.scaledFrames factor)).length = (map.scaledFrames factor).length := by
    rw [← h.boundaries_scale_eq hlength hne, length_scaledFrames, beatCount]
    omega
  rw [hcount, length_keepRising_eq_iff]
  constructor
  · exact fun hall => hall.1.imp Nat.ne_of_lt
  · exact fun hnodup => ⟨(hmono.and hnodup).imp fun hframes => lt_of_le_of_ne hframes.1 hframes.2,
      fun _ _ => rfl⟩

/-- The scaled map has all its beats if every frame is before the next one. -/
lemma WellFormed.beatCount_scale_of_lt (hne : map.boundaries ≠ []) {factor : Double}
    (hrising : ∀ k < map.scaledBeats factor,
      map.nearestFrame (Binary.ofNat k * map.scaleStep factor) <
        map.nearestFrame (Binary.ofNat (k + 1) * map.scaleStep factor)) :
    (map.scale factor).beatCount = map.scaledBeats factor := by
  rw [h.beatCount_scale_eq_iff hlength hne, scaledFrames]
  have hchain : (List.range (map.scaledBeats factor + 1)).IsChain fun j k =>
      map.nearestFrame (Binary.ofNat j * map.scaleStep factor) <
        map.nearestFrame (Binary.ofNat k * map.scaleStep factor) :=
    (List.isChain_range_succ _ _).mpr hrising
  have hpairwise := ((List.isChain_map fun k =>
    map.nearestFrame (Binary.ofNat k * map.scaleStep factor)).mpr hchain).pairwise
  exact hpairwise.imp Nat.ne_of_lt

end Frames

/-! ## The number of beats that is asked for -/

section Wanted

variable {map : Beatmap} (h : map.WellFormed) {factor : Double}
  (hfits : map.beatCount * (effectiveFactor factor).value ≤ map.sourceLength)

include h hfits

section Exact

variable (hlength : map.sourceLength ≤ 2 ^ 52)

include hlength

/-- **The number of beats that a factor asks for**, where it is not more than there are frames: the
rounded product and the slack are added, and the sum is rounded down. -/
lemma WellFormed.wantedBeats_eq :
    (map.wantedBeats factor : ℤ) = (Format.double.nearest (Format.double.nearest
      (map.beatCount * (effectiveFactor factor).value) + slack.value)).floor := by
  obtain ⟨hfactor, hlow⟩ := effectiveFactor_spec factor
  obtain ⟨hslack, hslackNonneg, hslackLe⟩ := slack_spec
  have hshort : map.sourceLength ≤ 2 ^ Format.double.precision := hlength.trans (by decide)
  have hbeats := h.beatCount_le.trans hshort
  have hproduct : 0 ≤ map.beatCount * (effectiveFactor factor).value :=
    mul_nonneg (Nat.cast_nonneg _) (by linarith)
  have hrounded := Format.double.nearest_nonneg hproduct
  have hroundedLe := Format.nearest_le_natCast hshort hfits
  have hbeatsValue : (Binary.ofNat map.beatCount : Double).value = map.beatCount :=
    Binary.value_ofNat hbeats
  obtain ⟨hmulFinite, hmulValue⟩ := Binary.mul_spec hshort (Binary.isFinite_ofNat hbeats) hfactor
    (by rw [hbeatsValue]; exact (abs_of_nonneg hproduct).trans_le hfits)
  rw [hbeatsValue] at hmulValue
  have hsum : 0 ≤ Format.double.nearest (map.beatCount * (effectiveFactor factor).value) +
      slack.value := add_nonneg hrounded hslackNonneg
  have hsumLe : Format.double.nearest (map.beatCount * (effectiveFactor factor).value) +
      slack.value ≤ (map.sourceLength + 1 : ℕ) := by
    push_cast
    linarith
  have hnext : map.sourceLength + 1 ≤ 2 ^ Format.double.precision :=
    (Nat.succ_le_succ hlength).trans (by decide)
  obtain ⟨haddFinite, haddValue⟩ := Binary.roundSigned_of_abs_le hnext
    ((abs_of_nonneg hsum).trans_le hsumLe)
    ((.ofNat map.beatCount * effectiveFactor factor : Double).isNegative && slack.isNegative)
  rw [← hmulValue, ← Binary.add_eq hmulFinite hslack] at haddFinite haddValue
  have hnonneg := Format.double.nearest_nonneg hsum
  have hword : Format.double.nearest (Format.double.nearest
      (map.beatCount * (effectiveFactor factor).value) + slack.value) ≤ maxWord :=
    (Format.nearest_le_natCast hnext hsumLe).trans
      (by exact_mod_cast hnext.trans (by decide))
  rw [hmulValue] at haddValue
  rw [wantedBeats, Binary.toWord_floor haddFinite (haddValue ▸ hnonneg) (haddValue ▸ hword),
    haddValue]
  exact Int.toNat_of_nonneg (Int.floor_nonneg.mpr hnonneg)

/-- What the product of the number of beats and the factor reaches is asked for. -/
lemma WellFormed.le_wantedBeats {n : ℕ} (hn : n ≤ map.beatCount * (effectiveFactor factor).value) :
    n ≤ map.wantedBeats factor := by
  have hshort : n ≤ 2 ^ Format.double.precision := by
    have hle : n ≤ map.sourceLength := by exact_mod_cast hn.trans hfits
    exact hle.trans (hlength.trans (by decide))
  have hproduct := Format.natCast_le_nearest hshort hn
  have hsum : n ≤ Format.double.nearest (Format.double.nearest
      (map.beatCount * (effectiveFactor factor).value) + slack.value) :=
    Format.natCast_le_nearest hshort (by linarith [slack_spec.2.1])
  have hfloor : (n : ℤ) ≤ map.wantedBeats factor := by
    rw [h.wantedBeats_eq hfits hlength]
    exact Int.le_floor.mpr (by exact_mod_cast hsum)
  exact_mod_cast hfloor

/-- What the product does not go past is not exceeded, although there is some slack. -/
lemma WellFormed.wantedBeats_le {n : ℕ} (hn : map.beatCount * (effectiveFactor factor).value ≤ n)
    (hsource : n ≤ map.sourceLength) : map.wantedBeats factor ≤ n := by
  have hshort := hsource.trans hlength
  have hproduct : Format.double.nearest (map.beatCount * (effectiveFactor factor).value) ≤ n :=
    Format.nearest_le_natCast (hshort.trans (by decide)) hn
  have hsum := Format.double.nearest_mono (show Format.double.nearest
      (map.beatCount * (effectiveFactor factor).value) + slack.value ≤ n + 1 / 2 by
    linarith [slack_spec.2.2])
  have hbelow := hsum.trans (Format.nearest_add_half_le hshort)
  have hfloor : (map.wantedBeats factor : ℤ) < n + 1 := by
    rw [h.wantedBeats_eq hfits hlength]
    exact (Int.floor_lt (a := Format.double.nearest _)).mpr (by push_cast; linarith)
  omega

end Exact

/-- On recordings of at most `2 ^ 50` frames less than half a beat too much is asked for. -/
lemma WellFormed.wantedBeats_le_add_half (hlength : map.sourceLength ≤ 2 ^ 50) :
    map.wantedBeats factor ≤ map.beatCount * (effectiveFactor factor).value + 1 / 2 := by
  obtain ⟨-, hslack, hslackLe⟩ := slack_spec
  have hsource : (map.sourceLength : ℚ) ≤ 2 ^ (50 : ℤ) :=
    (Nat.cast_le.mpr hlength).trans_eq (by norm_num)
  set product := map.beatCount * (effectiveFactor factor).value with hproductDef
  have hproduct : 0 ≤ product :=
    mul_nonneg (Nat.cast_nonneg _) (by linarith [(effectiveFactor_spec factor).2])
  have hmul : |Format.double.nearest product - product| ≤ 1 / 16 :=
    (Format.abs_nearest_sub_le_two_zpow (e := 50)
      ((abs_of_nonneg hproduct).trans_le (hfits.trans hsource)) (by decide)).trans_eq
      (by norm_num [Format.double])
  set rounded := Format.double.nearest product with hroundedDef
  have hrounded : 0 ≤ rounded := Format.double.nearest_nonneg hproduct
  have hroundedLe : rounded ≤ map.sourceLength :=
    Format.nearest_le_natCast (hlength.trans (by decide)) hfits
  have hadd : |Format.double.nearest (rounded + slack.value) - (rounded + slack.value)| ≤ 1 / 8 := by
    refine (Format.abs_nearest_sub_le_two_zpow (e := 51) ?_ (by decide)).trans_eq
      (by norm_num [Format.double])
    have hdouble : (2 : ℚ) ^ (51 : ℤ) = 2 * 2 ^ (50 : ℤ) := two_zpow_eq_two_mul 51
    rw [abs_of_nonneg (by linarith), hdouble]
    linarith [one_le_zpow₀ (one_le_two (α := ℚ)) (show (0 : ℤ) ≤ 50 by decide)]
  have hfloor : (map.wantedBeats factor : ℚ) ≤ Format.double.nearest (rounded + slack.value) := by
    rw [← Int.cast_natCast, h.wantedBeats_eq hfits (hlength.trans (by decide))]
    exact Int.floor_le (Format.double.nearest (rounded + slack.value))
  linarith [(abs_le.mp hmul).2, (abs_le.mp hadd).2]

end Wanted

end Beatmap

end Arranger
