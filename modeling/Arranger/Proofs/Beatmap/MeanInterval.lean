import Arranger.Proofs.Beatmap.FullScaling

/-!
# The mean interval of a scaled map

The mean interval of a map is the quotient of its span and its number of beats, rounded. Scaling
does not move the first boundary and moves the last one at most back. So the mean interval falls
when there are more beats than before, as the quotients of numbers up to `2 ^ 52` are further apart
than the error. With as many beats as before it falls just if the last boundary moves. With fewer
beats, as when a greater factor lets some coincide, it can rise.

## Main results

* `Arranger.Beatmap.nearest_div_lt` — quotients of whole numbers that rounding keeps apart.
* `Arranger.Beatmap.WellFormed.meanInterval?_eq` — the value of the mean interval.
* `Arranger.Beatmap.WellFormed.meanInterval_scale_of_more`, `meanInterval_scale_of_same`,
  `meanInterval_scale_lt_iff_mul` — more beats, as many beats, and any number of beats.
* `Arranger.Beatmap.scale_meanInterval` — **when scaling makes the mean interval smaller**.
-/

namespace Arranger

namespace Beatmap

/-- Quotients of whole numbers are kept apart by rounding if the cross products differ by more than
a part of `2 ^ 52`. -/
lemma nearest_div_lt {a b c d : ℕ} (hb : 0 < b) (hle : b ≤ a) (hd : 0 < d)
    (h : 2 ^ 52 * (a * d) + c * b ≤ 2 ^ 52 * (c * b)) :
    Format.double.nearest (a / b) < Format.double.nearest (c / d) := by
  have hbPos : (0 : ℚ) < b := by exact_mod_cast hb
  have hdPos : (0 : ℚ) < d := by exact_mod_cast hd
  have hone : (1 : ℚ) ≤ a / b := (one_le_div hbPos).mpr (by exact_mod_cast hle)
  have hcross : (2 : ℚ) ^ 52 * (a * d) + c * b ≤ 2 ^ 52 * (c * b) := by exact_mod_cast h
  have hgap : (a : ℚ) / b + c / d / 2 ^ 52 ≤ c / d := by
    have hscaled := div_le_div_of_nonneg_right hcross (mul_pos hbPos hdPos).le
    have hleft : ((2 : ℚ) ^ 52 * (a * d) + c * b) / (b * d) =
        2 ^ 52 * (a / b + c / d / 2 ^ 52) := by
      field_simp
    have hright : (2 : ℚ) ^ 52 * (c * b) / (b * d) = 2 ^ 52 * (c / d) := by field_simp
    rw [hleft, hright] at hscaled
    exact le_of_mul_le_mul_left hscaled (by norm_num)
  have hlt : (a : ℚ) / b < c / d := by
    have hpos : 0 < (c : ℚ) / d := by
      by_contra hnonpos
      have hzero : (c : ℚ) / d = 0 :=
        le_antisymm (not_lt.mp hnonpos) (div_nonneg (Nat.cast_nonneg c) hdPos.le)
      rw [hzero, zero_div] at hgap
      linarith
    linarith [div_pos hpos (by norm_num : (0 : ℚ) < 2 ^ 52)]
  refine Format.double.nearest_lt_nearest ?_ hlt ?_
  · exact (zpow_le_one_of_nonpos₀ one_le_two (by decide)).trans hone
  · refine le_trans (le_of_eq ?_) hgap
    norm_num [Format.double]
    ring

/-- More beats on no longer a span. -/
lemma nearest_div_lt_of_lt {a b c d : ℕ} (hle : b ≤ a) (hac : a ≤ c) (hd : 0 < d) (hdb : d < b)
    (hb : b ≤ 2 ^ 52) : Format.double.nearest (a / b) < Format.double.nearest (c / d) := by
  refine nearest_div_lt (hd.trans hdb) hle hd ?_
  calc 2 ^ 52 * (a * d) + c * b
      ≤ 2 ^ 52 * (c * d) + c * 2 ^ 52 :=
        Nat.add_le_add (Nat.mul_le_mul_left _ (Nat.mul_le_mul_right d hac))
          (Nat.mul_le_mul_left c hb)
    _ = 2 ^ 52 * (c * (d + 1)) := by ring
    _ ≤ 2 ^ 52 * (c * b) := Nat.mul_le_mul_left _ (Nat.mul_le_mul_left c hdb)

/-- As many beats on a shorter span. -/
lemma nearest_div_lt_of_eq {a b c : ℕ} (hb : 0 < b) (hle : b ≤ a) (hac : a < c)
    (hc : c ≤ 2 ^ 52) : Format.double.nearest (a / b) < Format.double.nearest (c / b) := by
  refine nearest_div_lt hb hle hb ?_
  calc 2 ^ 52 * (a * b) + c * b
      ≤ 2 ^ 52 * (a * b) + 2 ^ 52 * b := Nat.add_le_add_left (Nat.mul_le_mul_right b hc) _
    _ = 2 ^ 52 * ((a + 1) * b) := by ring
    _ ≤ 2 ^ 52 * (c * b) := Nat.mul_le_mul_left _ (Nat.mul_le_mul_right b hac)

section Mean

variable {map : Beatmap} (h : map.WellFormed) (hlength : map.sourceLength ≤ 2 ^ 52)

include h hlength

/-- **The mean interval** of a map with a beat is the rounded quotient of the span and the number of
beats. -/
lemma WellFormed.meanInterval?_eq (hbeat : 0 < map.beatCount) :
    ∃ mean : Double, map.meanInterval? = some mean ∧ mean.isFinite = true ∧
      mean.value = Format.double.nearest (map.span / map.beatCount) := by
  have hspan : map.span ≤ 2 ^ Format.double.precision :=
    ((Nat.sub_le _ _).trans h.lastBoundary_le).trans (hlength.trans (by decide))
  have hbeats : map.beatCount ≤ 2 ^ Format.double.precision := h.beatCount_le_span.trans hspan
  have hone : (1 : ℚ) ≤ map.beatCount := by exact_mod_cast hbeat
  obtain ⟨hfinite, hvalue⟩ := Binary.div_spec (x := .ofNat map.span) (y := .ofNat map.beatCount)
    hspan (Binary.isFinite_ofNat hspan) (Binary.isFinite_ofNat hbeats)
    (by rw [Binary.value_ofNat hbeats]; linarith) (by
      rw [Binary.value_ofNat hspan, Binary.value_ofNat hbeats, abs_of_nonneg (Nat.cast_nonneg _)]
      exact le_mul_of_one_le_right (Nat.cast_nonneg _) hone)
  refine ⟨_, if_neg hbeat.ne', hfinite, ?_⟩
  rw [hvalue, Binary.value_ofNat hspan, Binary.value_ofNat hbeats]

end Mean

/-- Only a map with a beat has a mean interval. -/
lemma beatCount_pos_of_meanInterval? {map : Beatmap} {mean : Double}
    (h : map.meanInterval? = some mean) : 0 < map.beatCount := by
  refine Nat.pos_of_ne_zero fun hnone => ?_
  rw [meanInterval?, if_pos hnone] at h
  cases h

/-! ## Scaled maps -/

section Scaled

variable {map : Beatmap} (h : map.WellFormed) (hlength : map.sourceLength ≤ 2 ^ 52)
  (hne : map.boundaries ≠ []) (factor : Double)

include h hlength hne

/-- Scaling keeps the first boundary and does not move the last one forward. -/
lemma WellFormed.scale_ends :
    (map.scale factor).boundary 0 = map.boundary 0 ∧
      (map.scale factor).lastBoundary ≤ map.lastBoundary := by
  refine ⟨?_, lastBoundary_le_of_forall fun boundary hmem =>
    (h.boundary_scale_within hlength hne factor boundary hmem).2⟩
  rw [boundary, h.boundaries_scale hlength hne, List.getD_cons_zero]

/-- Scaling does not make the span longer. -/
lemma WellFormed.span_scale_le : (map.scale factor).span ≤ map.span := by
  obtain ⟨hfirst, hlast⟩ := h.scale_ends hlength hne factor
  unfold span
  omega

omit hlength hne in
/-- There are no more beats than frames, and no more frames than in the recording. -/
lemma WellFormed.beatCount_scale_bounds :
    (map.scale factor).beatCount ≤ (map.scale factor).span ∧ map.span ≤ map.sourceLength :=
  ⟨(h.scale factor).beatCount_le_span, (Nat.sub_le _ _).trans h.lastBoundary_le⟩

variable {factor} {before after : Double} (hbefore : map.meanInterval? = some before)
  (hafter : (map.scale factor).meanInterval? = some after)

omit hne in
include hbefore hafter in
/-- The mean intervals before and after are compared by their values. -/
lemma WellFormed.meanInterval_scale_lt_iff :
    after < before ↔
      Format.double.nearest ((map.scale factor).span / (map.scale factor).beatCount) <
        Format.double.nearest (map.span / map.beatCount) := by
  obtain ⟨mean, hmean, hfinite, hvalue⟩ :=
    h.meanInterval?_eq hlength (beatCount_pos_of_meanInterval? hbefore)
  obtain ⟨scaled, hscaled, hscaledFinite, hscaledValue⟩ :=
    (h.scale factor).meanInterval?_eq ((map.sourceLength_scale factor).trans_le hlength)
      (beatCount_pos_of_meanInterval? hafter)
  obtain rfl : mean = before := Option.some_injective _ (hmean.symm.trans hbefore)
  obtain rfl : scaled = after := Option.some_injective _ (hscaled.symm.trans hafter)
  rw [Binary.lt_iff hscaledFinite hfinite, hscaledValue, hvalue]

include hbefore

/-- **More beats than before** have a smaller mean interval. -/
lemma WellFormed.meanInterval_scale_of_more
    (hmore : map.beatCount < (map.scale factor).beatCount) :
    ∃ after, (map.scale factor).meanInterval? = some after ∧ after < before := by
  obtain ⟨hbeats, hframes⟩ := h.beatCount_scale_bounds factor
  have hspan := h.span_scale_le hlength hne factor
  obtain ⟨after, hafter, -, -⟩ := (h.scale factor).meanInterval?_eq
    ((map.sourceLength_scale factor).trans_le hlength) ((Nat.zero_le _).trans_lt hmore)
  refine ⟨after, hafter, (h.meanInterval_scale_lt_iff hlength hbefore hafter).mpr ?_⟩
  exact nearest_div_lt_of_lt hbeats hspan (beatCount_pos_of_meanInterval? hbefore) hmore
    (hbeats.trans (hspan.trans (hframes.trans hlength)))

/-- **As many beats as before** have a smaller mean interval just if the last boundary moves. -/
lemma WellFormed.meanInterval_scale_of_same
    (hsame : (map.scale factor).beatCount = map.beatCount) :
    ∃ after, (map.scale factor).meanInterval? = some after ∧
      (after < before ↔ (map.scale factor).lastBoundary < map.lastBoundary) ∧
      ((map.scale factor).lastBoundary = map.lastBoundary → after = before) := by
  have hbeat := beatCount_pos_of_meanInterval? hbefore
  obtain ⟨hbeats, hframes⟩ := h.beatCount_scale_bounds factor
  obtain ⟨hfirst, hlast⟩ := h.scale_ends hlength hne factor
  obtain ⟨after, hafter, -, -⟩ := (h.scale factor).meanInterval?_eq
    ((map.sourceLength_scale factor).trans_le hlength) (hbeat.trans_eq hsame.symm)
  have hkept : (map.scale factor).lastBoundary = map.lastBoundary → after = before := by
    intro hends
    have hspans : (map.scale factor).span = map.span := by rw [span, span, hends, hfirst]
    have hmeans : (map.scale factor).meanInterval? = map.meanInterval? := by
      rw [meanInterval?, meanInterval?, hsame, hspans]
    exact Option.some_injective _ (hafter.symm.trans (hmeans.trans hbefore))
  refine ⟨after, hafter, ⟨fun hlt => lt_of_le_of_ne hlast fun hends => ?_, fun hmoved => ?_⟩, hkept⟩
  · rw [hkept hends] at hlt
    exact Binary.not_lt_of_le (Binary.le_of_lt hlt) hlt
  · have hshorter : (map.scale factor).span < map.span := by
      have hrises := (h.scale factor).boundary_le_last 0
      unfold span
      omega
    rw [h.meanInterval_scale_lt_iff hlength hbefore hafter, hsame]
    exact nearest_div_lt_of_eq hbeat (hsame.symm.trans_le hbeats) hshorter (hframes.trans hlength)

include hafter in
/-- **Whatever the numbers of beats are**, on recordings that are not too long the mean intervals
are in the order of the exact quotients. -/
lemma WellFormed.meanInterval_scale_lt_iff_mul (hshort : map.sourceLength ≤ 2 ^ 26) :
    after < before ↔
      (map.scale factor).span * map.beatCount < map.span * (map.scale factor).beatCount := by
  have hbeat := beatCount_pos_of_meanInterval? hbefore
  have hbeats := beatCount_pos_of_meanInterval? hafter
  obtain ⟨hbeatsSpan, hframes⟩ := h.beatCount_scale_bounds factor
  have hspan := h.span_scale_le hlength hne factor
  have hbeatsPos : (0 : ℚ) < (map.scale factor).beatCount := by exact_mod_cast hbeats
  have hbeatPos : (0 : ℚ) < map.beatCount := by exact_mod_cast hbeat
  rw [h.meanInterval_scale_lt_iff hlength hbefore hafter]
  refine ⟨fun hlt => ?_, fun hcross => ?_⟩
  · have hexact := not_le.mp fun hle => absurd (Format.double.nearest_mono hle) (not_le.mpr hlt)
    rw [div_lt_div_iff₀ hbeatsPos hbeatPos] at hexact
    exact_mod_cast hexact
  · refine nearest_div_lt hbeats hbeatsSpan hbeat ?_
    have hproduct : map.span * (map.scale factor).beatCount ≤ 2 ^ 26 * 2 ^ 26 :=
      Nat.mul_le_mul (hframes.trans hshort) (hbeatsSpan.trans (hspan.trans (hframes.trans hshort)))
    omega

end Scaled

/-- Where there is room, a factor that is enough for another beat makes another beat. -/
lemma Roomy.beatCount_lt_scale {map : Beatmap} {factor : Double} (h : map.Roomy factor)
    (hfactor : map.beatCount + 1 ≤ map.beatCount * (effectiveFactor factor).value) :
    map.beatCount < (map.scale factor).beatCount := by
  rw [h.beatCount_scale, h.scaledBeats_eq]
  exact h.wellFormed.le_wantedBeats h.beatCount_mul_factor_le (h.short.trans (by decide))
    (by exact_mod_cast hfactor)

/-- **When scaling makes the mean interval smaller.** Take a built map, on a recording of at most
`2 ^ 52` frames, and a factor above one. If the scaled map has more beats than before, its mean
interval is smaller. If it has as many, the mean interval is smaller just if the last boundary is
not where it was, and else the same. On recordings of at most `2 ^ 26` frames, whatever the numbers
of beats are, it is smaller just if the exact quotient of the span and the number of beats is. And
it is smaller wherever every interval has a frame for each of its beats and a little more, if the
factor is enough for another beat.

**Proof sketch.** The first boundary is kept and the last one is at most moved back, so with more
beats the exact quotient falls by more than the errors of the two roundings. -/
theorem scale_meanInterval {boundaries : List ℕ} {sourceLength : ℕ} {map : Beatmap}
    (hmap : build boundaries sourceLength = .ok map) (hlength : sourceLength ≤ 2 ^ 52)
    {factor : Double} (hfinite : factor.isFinite = true) (hgreater : 1 < factor) :
    ∃ before, map.meanInterval? = some before ∧
      (map.beatCount < (map.scale factor).beatCount →
        ∃ after, (map.scale factor).meanInterval? = some after ∧ after < before) ∧
      ((map.scale factor).beatCount = map.beatCount →
        ∃ after, (map.scale factor).meanInterval? = some after ∧
          (after < before ↔ (map.scale factor).lastBoundary < map.lastBoundary) ∧
          ((map.scale factor).lastBoundary = map.lastBoundary → after = before)) ∧
      (sourceLength ≤ 2 ^ 26 → ∀ after, (map.scale factor).meanInterval? = some after →
        (after < before ↔ (map.scale factor).span * map.beatCount <
          map.span * (map.scale factor).beatCount)) ∧
      (sourceLength ≤ 2 ^ 50 → map.HasRoom factor →
        map.beatCount + 1 ≤ map.beatCount * factor.value →
        ∃ after, (map.scale factor).meanInterval? = some after ∧ after < before) := by
  have hwell := wellFormed_of_build hmap
  have hbeat := beatCount_pos_of_build hmap
  have hne := boundaries_ne_nil_of_beatCount_pos hbeat
  rw [← sourceLength_of_build hmap] at hlength ⊢
  obtain ⟨before, hbefore, -, -⟩ := hwell.meanInterval?_eq hlength hbeat
  have hmore : map.beatCount < (map.scale factor).beatCount →
      ∃ after, (map.scale factor).meanInterval? = some after ∧ after < before :=
    hwell.meanInterval_scale_of_more hlength hne hbefore
  refine ⟨before, hbefore, hmore, hwell.meanInterval_scale_of_same hlength hne hbefore,
    fun hshort after hafter => hwell.meanInterval_scale_lt_iff_mul hlength hne hbefore hafter hshort,
    fun hshort hroom hfactor => hmore ?_⟩
  obtain ⟨hone, honeValue, -⟩ := Binary.one_spec .double
  rw [Binary.lt_iff hone hfinite, honeValue] at hgreater
  refine (Roomy.mk hwell hbeat hshort hroom).beatCount_lt_scale ?_
  rwa [effectiveFactor_of_one_le hfinite hgreater.le]

/-- One and a half times as many beats make the mean interval of two beats shorter. -/
theorem scale_meanInterval_half_as_many_again :
    build [1, 4, 9] 9 = .ok ⟨[1, 4, 9], 9⟩ ∧ 9 ≤ 2 ^ 52 ∧ (3 / 2 : Double).isFinite = true ∧
      (1 : Double) < 3 / 2 ∧ HasRoom ⟨[1, 4, 9], 9⟩ (3 / 2) ∧
      ∃ before, meanInterval? ⟨[1, 4, 9], 9⟩ = some before ∧
        ∃ after, (scale ⟨[1, 4, 9], 9⟩ (3 / 2)).meanInterval? = some after ∧ after < before := by
  have hmap : build [1, 4, 9] 9 = .ok ⟨[1, 4, 9], 9⟩ := by decide +kernel
  have hfinite : (3 / 2 : Double).isFinite = true := by decide +kernel
  have hgreater : (1 : Double) < 3 / 2 := by decide +kernel
  have hroom : HasRoom ⟨[1, 4, 9], 9⟩ (3 / 2) := by decide +kernel
  obtain ⟨before, hbefore, -, -, -, hfaster⟩ :=
    scale_meanInterval hmap (by decide) hfinite hgreater
  exact ⟨hmap, by decide, hfinite, hgreater, hroom, before, hbefore,
    hfaster (by decide) hroom (by decide +kernel)⟩

/-- A beat of one frame stays as it is, and of four beats one is lost when there are to be a fifth
more of them. -/
theorem scale_meanInterval_kept_and_raised :
    build [0, 1] 1 = .ok ⟨[0, 1], 1⟩ ∧ (2 : Double).isFinite = true ∧ (1 : Double) < 2 ∧
      (scale ⟨[0, 1], 1⟩ 2).meanInterval? = meanInterval? ⟨[0, 1], 1⟩ ∧
      build [0, 1, 2, 3, 5] 5 = .ok ⟨[0, 1, 2, 3, 5], 5⟩ ∧
      (121 / 100 : Double).isFinite = true ∧ (1 : Double) < 121 / 100 ∧
      (scale ⟨[0, 1, 2, 3, 5], 5⟩ (121 / 100)).boundaries = [0, 1, 2, 4] ∧
      meanInterval? ⟨[0, 1, 2, 3, 5], 5⟩ = some (5 / 4) ∧
      (scale ⟨[0, 1, 2, 3, 5], 5⟩ (121 / 100)).meanInterval? = some (4 / 3) ∧
      (5 / 4 : Double) < 4 / 3 := by
  decide +kernel

end Beatmap

end Arranger
