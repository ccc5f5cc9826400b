import Arranger.Proofs.Beatmap.Boundaries
import Arranger.Proofs.Beatmap.Window

/-!
# Scaling stays within the map

The boundaries of a scaled map are the frames nearest to the positions of the multiples of a step.
The step is the reciprocal of a factor or, where that many beats are more than there are frames, a
quotient of the numbers of beats. Either way it is finite, for every factor that can be asked for.
So the first coordinate is zero and the others are numbers, and the positions are those of the first
boundary and of places up to the last one, however the multiples have been rounded.

## Main definitions

* `Arranger.Beatmap.wantedBeats`, `scaledBeats`, `scaleStep` — the numbers of beats and the step.
* `Arranger.Beatmap.exactStep` — the step before it is rounded.

## Main results

* `Arranger.Beatmap.effectiveFactor_spec` — factors are finite and not too small.
* `Arranger.Beatmap.WellFormed.scaleStep_spec` — the step is finite.
* `Arranger.Beatmap.WellFormed.boundaries_scale` — the boundaries of a scaled map.
* `Arranger.Beatmap.scale_within` — **scaling keeps the first boundary and the span**.
-/

namespace Arranger

namespace Beatmap

/-! ## The step -/

/-- The number of beats that a factor asks for. -/
def wantedBeats (map : Beatmap) (factor : Double) : ℕ :=
  (Binary.ofNat map.beatCount * effectiveFactor factor + slack).floor.toWord

/-- The number of beats that a map is scaled to: no beat is shorter than a frame. -/
def scaledBeats (map : Beatmap) (factor : Double) : ℕ :=
  min (map.wantedBeats factor) map.span

/-- How far the beats of a scaled map are apart, in beats of the map. -/
def scaleStep (map : Beatmap) (factor : Double) : Double :=
  if map.scaledBeats factor = map.wantedBeats factor then 1 / effectiveFactor factor
  else Binary.ofNat map.beatCount / Binary.ofNat (max (map.scaledBeats factor) 1)

/-- The step without rounding. -/
def exactStep (map : Beatmap) (factor : Double) : ℚ :=
  if map.scaledBeats factor = map.wantedBeats factor then 1 / (effectiveFactor factor).value
  else map.beatCount / (max (map.scaledBeats factor) 1 : ℕ)

/-- A map with a boundary is scaled to the positions of the multiples of the step. -/
lemma scale_eq {map : Beatmap} (hne : map.boundaries ≠ []) (factor : Double) :
    map.scale factor = ofPositions ((List.range (map.scaledBeats factor + 1)).map fun k =>
      map.position (Binary.ofNat k * map.scaleStep factor)) map.sourceLength := by
  rw [scale, if_neg (by simpa using hne)]
  rfl

/-- The smallest factor is a small number. -/
lemma minScale_spec : minScale.isFinite = true ∧ 1 / 64 ≤ minScale.value ∧ minScale.value ≤ 1 := by
  decide +kernel

/-- The slack is a small number. -/
lemma slack_spec : slack.isFinite = true ∧ 0 ≤ slack.value ∧ slack.value ≤ 1 / 8 := by
  decide +kernel

/-- **Every factor stands for a finite one** that is not too small. -/
lemma effectiveFactor_spec (requested : Double) :
    (effectiveFactor requested).isFinite = true ∧ 1 / 64 ≤ (effectiveFactor requested).value := by
  obtain ⟨hmin, hminLow, -⟩ := minScale_spec
  rw [effectiveFactor]
  split_ifs with hfinite hlow
  · exact ⟨hmin, hminLow⟩
  · have habs : requested.abs.isFinite = true := by rwa [Binary.isFinite_abs]
    rw [Binary.lt_iff habs hmin, not_lt] at hlow
    exact ⟨habs, hminLow.trans hlow⟩
  · obtain ⟨hone, hvalue, -⟩ := Binary.one_spec .double
    exact ⟨hone, hvalue.symm ▸ by norm_num⟩

/-- A finite factor of at least one stands for itself. -/
lemma effectiveFactor_of_one_le {factor : Double} (hfinite : factor.isFinite = true)
    (hone : 1 ≤ factor.value) : effectiveFactor factor = factor := by
  obtain ⟨hmin, -, hminHigh⟩ := minScale_spec
  have habs : factor.abs = factor :=
    Binary.abs_of_not_isNegative (Binary.isNegative_of_pos (by linarith))
  rw [effectiveFactor, if_pos hfinite, habs, if_neg]
  rw [Binary.lt_iff hfinite hmin]
  linarith

/-- What is added to a number of beats before it is rounded down does not add a beat. -/
lemma toWord_floor_add_slack {n : ℕ} (hn : n ≤ 2 ^ 52) :
    (.ofNat n + slack : Double).floor.toWord = n := by
  obtain ⟨hslack, hlow, hhigh⟩ := slack_spec
  obtain ⟨hfinite, hbelow, habove⟩ := Binary.ofNat_add_spec hn hslack hlow (by linarith)
  have hnext : ((n + 1 : ℕ) : ℚ) ≤ maxWord := by
    exact_mod_cast (Nat.succ_le_succ hn).trans (by decide)
  have hfloor : (.ofNat n + slack : Double).value.floor = n :=
    floor_eq_of_bounds (by exact_mod_cast hbelow) (by push_cast; linarith)
  push_cast at hnext
  rw [Binary.toWord_floor hfinite ((Nat.cast_nonneg n).trans hbelow) (by linarith), hfloor,
    Int.toNat_natCast]

section Within

variable {map : Beatmap} (h : map.WellFormed)

include h

/-- A scaled map has no more beats than the recording has frames. -/
lemma WellFormed.scaledBeats_le (factor : Double) : map.scaledBeats factor ≤ map.sourceLength :=
  (min_le_right _ _).trans ((Nat.sub_le _ _).trans h.lastBoundary_le)

variable (hlength : map.sourceLength ≤ 2 ^ 52)

include hlength

/-- **The step is finite**, and it is the exact one rounded. -/
lemma WellFormed.scaleStep_spec (factor : Double) :
    (map.scaleStep factor).isFinite = true ∧
      (map.scaleStep factor).value = Format.double.nearest (map.exactStep factor) ∧
      0 ≤ map.exactStep factor ∧
      map.exactStep factor ≤ (2 ^ Format.double.precision : ℕ) := by
  have hshort : map.sourceLength ≤ 2 ^ Format.double.precision := hlength.trans (by decide)
  rw [scaleStep, exactStep]
  split_ifs
  · obtain ⟨hfactor, hlow⟩ := effectiveFactor_spec factor
    obtain ⟨hone, honeValue, -⟩ := Binary.one_spec .double
    have hpos : 0 < (effectiveFactor factor).value := by linarith
    have hle : 1 / (effectiveFactor factor).value ≤ 64 := by
      rw [div_le_iff₀ hpos]
      linarith
    obtain ⟨hfinite, hvalue⟩ := Binary.div_spec (n := 64) (by decide) hone hfactor hpos (by
      rw [honeValue, abs_one]
      push_cast
      linarith)
    rw [honeValue] at hvalue
    exact ⟨hfinite, hvalue, (one_div_pos.mpr hpos).le,
      hle.trans (by exact_mod_cast (by decide : 64 ≤ 2 ^ Format.double.precision))⟩
  · have hbeats := h.beatCount_le.trans hshort
    have hcount : max (map.scaledBeats factor) 1 ≤ 2 ^ Format.double.precision :=
      max_le ((h.scaledBeats_le factor).trans hshort) Nat.one_le_two_pow
    have hone : (1 : ℚ) ≤ (max (map.scaledBeats factor) 1 : ℕ) := by
      exact_mod_cast le_max_right _ 1
    have hvalue : (Binary.ofNat (max (map.scaledBeats factor) 1) : Double).value =
        (max (map.scaledBeats factor) 1 : ℕ) := Binary.value_ofNat hcount
    obtain ⟨hfinite, hquotient⟩ := Binary.div_spec hbeats (Binary.isFinite_ofNat hbeats)
      (Binary.isFinite_ofNat hcount) (by rw [hvalue]; linarith) (by
        rw [Binary.value_ofNat hbeats, hvalue, abs_of_nonneg (Nat.cast_nonneg _)]
        exact le_mul_of_one_le_right (Nat.cast_nonneg _) hone)
    rw [Binary.value_ofNat hbeats, hvalue] at hquotient
    exact ⟨hfinite, hquotient, div_nonneg (Nat.cast_nonneg _) (Nat.cast_nonneg _),
      (div_le_self (Nat.cast_nonneg _) hone).trans (by exact_mod_cast hbeats)⟩

/-- The step is finite. -/
lemma WellFormed.isFinite_scaleStep (factor : Double) :
    (map.scaleStep factor).isFinite = true :=
  (h.scaleStep_spec hlength factor).1

/-- The multiples of the step are numbers. -/
lemma WellFormed.mul_scaleStep_ne_nan {factor : Double} {k : ℕ} (hk : k ≤ map.scaledBeats factor) :
    (Binary.ofNat k * map.scaleStep factor : Double) ≠ .nan :=
  Binary.mul_ne_nan (Binary.isFinite_ofNat
      (hk.trans ((h.scaledBeats_le factor).trans (hlength.trans (by decide)))))
    (h.isFinite_scaleStep hlength factor)

/-- **The boundaries of a scaled map** are the first boundary and, as far as they rise, the frames
nearest to the positions of the multiples of the step. -/
lemma WellFormed.boundaries_scale (hne : map.boundaries ≠ []) (factor : Double) :
    (map.scale factor).boundaries =
      map.boundary 0 :: keepRising (some (map.boundary 0))
        ((List.range (map.scaledBeats factor)).map fun k =>
          map.nearestFrame (Binary.ofNat (k + 1) * map.scaleStep factor)) := by
  obtain ⟨hzero, hvalue⟩ := Binary.zero_mul_spec (h.isFinite_scaleStep hlength factor)
  have hfirst := h.nearestFrame_of_value_eq (hlength.trans (by decide)) hzero (Nat.zero_le _)
    (hvalue.trans Nat.cast_zero.symm)
  rw [scale_eq hne, h.ofPositions_position hlength fun k hmem =>
    h.mul_scaleStep_ne_nan hlength (Nat.le_of_lt_succ (List.mem_range.mp hmem)),
    List.range_succ_eq_map, List.map_cons, hfirst, List.map_map]
  rfl

/-- The boundaries of a scaled map are between the first boundary of the map and the last. -/
lemma WellFormed.boundary_scale_within (hne : map.boundaries ≠ []) (factor : Double) :
    ∀ boundary ∈ (map.scale factor).boundaries,
      map.boundary 0 ≤ boundary ∧ boundary ≤ map.lastBoundary := by
  rw [h.boundaries_scale hlength hne, List.forall_mem_cons]
  refine ⟨⟨le_rfl, h.boundary_le_last 0⟩, fun boundary hmem => ?_⟩
  obtain ⟨k, hk, rfl⟩ := List.mem_map.mp ((keepRising_sublist _ _).subset hmem)
  exact h.nearestFrame_within (hlength.trans (by decide))
    (h.mul_scaleStep_ne_nan hlength (List.mem_range.mp hk))

/-! ## Scaling by one -/

/-- **Scaling by a factor that stands for one** keeps the map. -/
lemma WellFormed.scale_of_effectiveFactor_eq_one {factor : Double}
    (hfactor : effectiveFactor factor = 1) : map.scale factor = map := by
  by_cases hne : map.boundaries = []
  · rw [Beatmap.scale, hne]
    rfl
  have hcount := h.beatCount_le.trans hlength
  have hshort : map.beatCount ≤ 2 ^ Format.double.precision := hcount.trans (by decide)
  have hwanted : map.wantedBeats factor = map.beatCount := by
    rw [wantedBeats, hfactor, Binary.mul_one_of_isFinite (Binary.isFinite_ofNat hshort),
      toWord_floor_add_slack hcount]
  have hbeats : map.scaledBeats factor = map.beatCount := by
    rw [scaledBeats, hwanted, min_eq_left h.beatCount_le_span]
  have hstep : map.scaleStep factor = 1 := by
    rw [scaleStep, if_pos (hbeats.trans hwanted.symm), hfactor, ← Binary.ofNat_one,
      Binary.ofNat_div_self one_pos (by decide), Binary.ofNat_one]
  have hlist : map.scaledBeats factor + 1 = map.boundaries.length := by
    rw [hbeats, length_boundaries hne]
  rw [scale_eq hne, hstep, hlist]
  refine h.ofPositions_boundaries hlength fun k hk => ?_
  have hk' : k ≤ 2 ^ Format.double.precision := by
    rw [← hlist, hbeats] at hk
    omega
  rw [Binary.mul_one_of_isFinite (Binary.isFinite_ofNat hk')]
  exact ⟨Binary.isFinite_ofNat hk', Binary.value_ofNat hk'⟩

end Within

/-- **Scaling keeps the first boundary and the span.** Take a reachable map with a boundary, on a
recording of at most `2 ^ 52` frames, and any factor: zero, negative, tiny, huge or not a number.
The scaled map starts with the same boundary and is for the same length. Its boundaries rise, and
all are between the first boundary of the map and the last. So no beat of the scaled map, also no
fractional one, has frames outside.

**Proof sketch.** The factor is replaced by one that is finite and not too small, so the step is
finite. The multiples of the step are numbers, which are moved to the map before their positions are
taken, and rounding keeps the order. -/
theorem scale_within {map : Beatmap} (h : map.Reachable) (hlength : map.sourceLength ≤ 2 ^ 52)
    (hne : map.boundaries ≠ []) (factor : Double) :
    (map.scale factor).boundaries.head? = map.boundaries.head? ∧
      (map.scale factor).sourceLength = map.sourceLength ∧
      (map.scale factor).boundaries.Pairwise (· < ·) ∧
      (∀ boundary ∈ (map.scale factor).boundaries,
        map.boundary 0 ≤ boundary ∧ boundary ≤ map.lastBoundary) ∧
      ∀ beat start stop, (map.scale factor).window? beat = some (start, stop) →
        map.boundary 0 ≤ start ∧ start ≤ stop ∧ stop ≤ map.lastBoundary := by
  have hwell := h.wellFormed
  have hscaled := hwell.scale factor
  have hsource := map.sourceLength_scale factor
  have hwithin := hwell.boundary_scale_within hlength hne factor
  have hboundaries := hwell.boundaries_scale hlength hne factor
  refine ⟨?_, hsource, hscaled.rising, hwithin, fun beat start stop hwindow => ?_⟩
  · rw [hboundaries, List.head?_cons, boundary]
    cases hlist : map.boundaries with
    | nil => exact absurd hlist hne
    | cons first rest => rfl
  · have hshort : (map.scale factor).sourceLength ≤ 2 ^ Format.double.precision :=
      hsource.trans_le (hlength.trans (by decide))
    obtain ⟨hlow, hle, hhigh⟩ := hscaled.window?_within hshort hwindow
    have hfirst : (map.scale factor).boundary 0 = map.boundary 0 := by
      rw [boundary, hboundaries, List.getD_cons_zero]
    exact ⟨hfirst.symm.trans_le hlow, hle,
      hhigh.trans (lastBoundary_le_of_forall fun boundary hmem => (hwithin boundary hmem).2)⟩

/-- A hundred times as many beats would be more than one for each frame. -/
theorem scale_within_hundredfold :
    Reachable ⟨[1, 3, 8], 9⟩ ∧ 9 ≤ 2 ^ 52 ∧ [1, 3, 8] ≠ [] ∧
      (scale ⟨[1, 3, 8], 9⟩ 100).boundaries = [1, 2, 3, 4, 5, 7, 8] ∧
      (scale ⟨[1, 3, 8], 9⟩ 100).boundaries.head? = [1, 3, 8].head? ∧
      (scale ⟨[1, 3, 8], 9⟩ 100).sourceLength = 9 ∧
      (scale ⟨[1, 3, 8], 9⟩ 100).boundaries.Pairwise (· < ·) ∧
      (∀ boundary ∈ (scale ⟨[1, 3, 8], 9⟩ 100).boundaries, 1 ≤ boundary ∧ boundary ≤ 8) ∧
      ∀ beat start stop, (scale ⟨[1, 3, 8], 9⟩ 100).window? beat = some (start, stop) →
        1 ≤ start ∧ start ≤ stop ∧ stop ≤ 8 := by
  have hmap : build [1, 3, 8] 9 = .ok ⟨[1, 3, 8], 9⟩ := by decide +kernel
  exact ⟨.made (.build hmap), by decide, by decide, by decide +kernel,
    scale_within (.made (.build hmap)) (by decide) (by decide) 100⟩

end Beatmap

end Arranger
