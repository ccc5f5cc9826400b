import Mathlib.Order.Monotone.Basic
import Arranger.Proofs.Beatmap.Boundaries

/-!
# Shifting by whole numbers of beats

A shifted map has the boundaries of the map under other numbers. Before the first boundary and past
the last one the outer beats go on. As the widths of the beats are whole numbers, so are the places
of all boundaries, on both sides of the map. They are computed with rounding, but a whole number
that is not too long is not moved by it, and one outside the recording is not moved into it.

## Main definitions

* `Arranger.Beatmap.extendedBoundary` — the boundaries of a map that goes on at both ends.

## Main results

* `Arranger.Beatmap.WellFormed.extendedBoundary_lt` — they rise.
* `Arranger.Beatmap.WellFormed.frameWithin?_extrapolate` — those on the recording are computed.
* `Arranger.Beatmap.boundaries_shift_ofInt` — **shifting by whole numbers**.
-/

namespace Arranger

namespace Beatmap

/-- The boundaries of a map of which the first and the last beat are repeated, at both ends, without
limit. -/
def extendedBoundary (map : Beatmap) (index : ℤ) : ℤ :=
  if index < 0 then map.boundary 0 + index * (map.boundary 1 - map.boundary 0)
  else if map.beatCount < index then
    map.boundary map.beatCount + (index - map.beatCount) *
      (map.boundary map.beatCount - map.boundary (map.beatCount - 1))
  else map.boundary index.toNat

section Extended

variable {map : Beatmap}

/-- Up to number zero, the first beat goes on. -/
lemma extendedBoundary_of_nonpos {index : ℤ} (h : index ≤ 0) : map.extendedBoundary index =
    map.boundary 0 + index * (map.boundary 1 - map.boundary 0) := by
  rw [extendedBoundary]
  split_ifs with hbefore hbehind
  · rfl
  · omega
  · obtain rfl : index = 0 := by omega
    rw [zero_mul, add_zero]
    rfl

/-- From the number of beats on, the last beat goes on. -/
lemma extendedBoundary_of_beatCount_le {index : ℤ} (h : map.beatCount ≤ index) :
    map.extendedBoundary index = map.boundary map.beatCount + (index - map.beatCount) *
      (map.boundary map.beatCount - map.boundary (map.beatCount - 1)) := by
  rw [extendedBoundary]
  split_ifs with hbefore hbehind
  · omega
  · rfl
  · obtain rfl : index = map.beatCount := by omega
    rw [sub_self, zero_mul, add_zero, Int.toNat_natCast]

/-- On the map there are its boundaries. -/
lemma extendedBoundary_natCast {i : ℕ} (h : i ≤ map.beatCount) :
    map.extendedBoundary i = map.boundary i := by
  rw [extendedBoundary, if_neg (by omega), if_neg (by omega), Int.toNat_natCast]

/-- A boundary of a map that goes on at both ends is below the next one. -/
lemma WellFormed.extendedBoundary_lt_succ (h : map.WellFormed) (hbeats : 1 ≤ map.beatCount)
    (index : ℤ) : map.extendedBoundary index < map.extendedBoundary (index + 1) := by
  rcases lt_or_ge index 0 with hbefore | hfirst
  · have hwidth : map.boundary 0 < map.boundary 1 := h.boundary_lt (by omega)
    rw [extendedBoundary_of_nonpos hbefore.le, extendedBoundary_of_nonpos (by omega), add_one_mul]
    omega
  obtain ⟨i, rfl⟩ := Int.eq_ofNat_of_zero_le hfirst
  rcases Nat.lt_or_ge i map.beatCount with hinside | hbehind
  · have hwidth := h.boundary_lt hinside
    rw [extendedBoundary_natCast hinside.le, ← Nat.cast_succ, extendedBoundary_natCast hinside]
    exact_mod_cast hwidth
  · have hwidth := h.boundary_lt (i := map.beatCount - 1) (by omega)
    rw [Nat.sub_add_cancel hbeats] at hwidth
    rw [extendedBoundary_of_beatCount_le (by omega), extendedBoundary_of_beatCount_le (by omega),
      add_sub_right_comm, add_one_mul]
    omega

/-- **The boundaries of a map that goes on at both ends rise.** -/
lemma WellFormed.extendedBoundary_lt (h : map.WellFormed) (hbeats : 1 ≤ map.beatCount)
    {first later : ℤ} (hlt : first < later) :
    map.extendedBoundary first < map.extendedBoundary later :=
  strictMono_int_of_lt_succ (h.extendedBoundary_lt_succ hbeats) hlt

end Extended

/-! ## Computed places -/

section Computed

variable {map : Beatmap} (h : map.WellFormed) (hbeats : 1 ≤ map.beatCount)

include h hbeats

/-- The place of a whole number of beats is a boundary and a multiple of a width. -/
lemma WellFormed.roundedPosition_intCast {index : ℤ} (hindex : index.natAbs ≤ 2 ^ 52)
    (hcount : map.beatCount ≤ 2 ^ 52) :
    ∃ base distance, ∃ part : ℚ, base ≤ map.sourceLength ∧
      map.roundedPosition index = Format.double.interpolate base distance part ∧
      base + part * distance = map.extendedBoundary index := by
  rw [roundedPosition]
  split_ifs with hlow hhigh
  · have hwidth : map.boundary 0 ≤ map.boundary 1 := (h.boundary_lt (by omega)).le
    refine ⟨_, _, _, h.boundary_le 0, rfl, ?_⟩
    rw [extendedBoundary_of_nonpos (by exact_mod_cast hlow), Nat.cast_sub hwidth]
    push_cast
    rfl
  · have hoffset : (index - map.beatCount : ℤ).natAbs ≤ 2 ^ Format.double.precision := by
      have : 2 ^ 52 + 2 ^ 52 ≤ 2 ^ Format.double.precision := by decide
      omega
    have hexact := Format.nearest_intCast hoffset
    have hwidth := (h.boundary_lt (i := map.beatCount - 1) (by omega)).le
    refine ⟨_, _, _, h.boundary_le _, rfl, ?_⟩
    rw [extendedBoundary_of_beatCount_le (by exact_mod_cast hhigh), Nat.cast_sub hwidth,
      Nat.sub_add_cancel hbeats]
    push_cast at hexact ⊢
    rw [hexact]
  · obtain ⟨i, rfl⟩ := Int.eq_ofNat_of_zero_le (by exact_mod_cast (not_le.mp hlow).le)
    rw [Int.cast_natCast, not_le, Nat.cast_lt] at hhigh
    refine ⟨_, _, _, h.boundary_le _, rfl, ?_⟩
    rw [extendedBoundary_natCast hhigh.le, Int.cast_natCast, Nat.floor_natCast, sub_self,
      Format.nearest_zero, zero_mul, add_zero, Int.cast_natCast]

/-- The place of a whole number of beats is computed to be on the same side of every short integer as
it is. -/
lemma WellFormed.extrapolate_intCast_spec (hlength : map.sourceLength < 2 ^ 52) {x : Double}
    (hx : x.isFinite = true) {index : ℤ} (hvalue : x.value = index)
    (hindex : index.natAbs ≤ 2 ^ 52) :
    (map.extrapolate x).isFinite = true ∧ ∀ bound : ℤ, bound.natAbs ≤ 2 ^ 52 →
      (map.extendedBoundary index ≤ bound → (map.extrapolate x).value ≤ bound) ∧
        (bound ≤ map.extendedBoundary index → bound ≤ (map.extrapolate x).value) := by
  have hprecision : 2 ^ 52 + 2 ^ 52 ≤ 2 ^ Format.double.precision := by decide
  have hatMost : x.AtMost (.ofNat (2 ^ Format.double.precision)) := by
    refine ⟨hx, ?_⟩
    rw [hvalue, Binary.value_ofNat le_rfl, ← Int.cast_abs, Int.abs_eq_natAbs]
    exact_mod_cast (by omega : index.natAbs ≤ 2 ^ Format.double.precision)
  obtain ⟨hfinite, hplace⟩ := h.extrapolate_spec (by omega) hatMost
  obtain ⟨base, distance, part, hbase, hrounded, hexact⟩ :=
    h.roundedPosition_intCast hbeats hindex (h.beatCount_le.trans hlength.le)
  rw [hvalue, hrounded] at hplace
  refine ⟨hfinite, fun bound hbound => ⟨fun hle => ?_, fun hle => ?_⟩⟩
  · rw [hplace]
    exact Format.interpolate_le (by omega) (by omega) (hexact.trans_le (by exact_mod_cast hle))
  · rw [hplace]
    refine Format.le_interpolate (by omega) (by omega) (le_of_le_of_eq ?_ hexact.symm)
    exact_mod_cast hle

/-- **Places of whole numbers of beats are computed exactly** where they are on the recording, and
the others have no frame. -/
lemma WellFormed.frameWithin?_extrapolate (hlength : map.sourceLength < 2 ^ 52) {x : Double}
    (hx : x.isFinite = true) {index : ℤ} (hvalue : x.value = index)
    (hindex : index.natAbs ≤ 2 ^ 52) :
    (frameWithin? map.sourceLength (map.extrapolate x)).map (Nat.cast : ℕ → ℤ) =
      if 0 ≤ map.extendedBoundary index ∧ map.extendedBoundary index ≤ map.sourceLength then
        some (map.extendedBoundary index)
      else none := by
  obtain ⟨hfinite, hside⟩ := h.extrapolate_intCast_spec hbeats hlength hx hvalue hindex
  set place := map.extendedBoundary index
  -- a place in front of the recording is at least a frame in front of it, and likewise behind it
  rcases lt_or_ge place 0 with hbefore | hfrom
  · have hout := (hside (-1) (by decide)).1 (by omega)
    rw [frameWithin?_of_le_neg_one hlength.le hfinite (by exact_mod_cast hout),
      if_neg (by omega), Option.map_none]
  rcases lt_or_ge (map.sourceLength : ℤ) place with hbehind | hupTo
  · have hout := (hside (map.sourceLength + 1) (by omega)).2 (by omega)
    rw [frameWithin?_of_add_one_le hlength.le hfinite (by exact_mod_cast hout),
      if_neg (by omega), Option.map_none]
  · obtain ⟨hnotAbove, hnotBelow⟩ := hside place (by omega)
    have hexact : (map.extrapolate x).value = place :=
      le_antisymm (hnotAbove le_rfl) (hnotBelow le_rfl)
    rw [frameWithin?_of_within hlength.le hfinite (hexact ▸ by exact_mod_cast hfrom)
      (hexact ▸ by exact_mod_cast hupTo), hexact, roundHalfAway_intCast, if_pos ⟨hfrom, hupTo⟩,
      Option.map_some, Int.toNat_of_nonneg hfrom]

/-- **The frames of a map that is shifted by an integer** are the boundaries of the map that goes on
at both ends, from the integer on, as far as they are on the recording. -/
lemma WellFormed.filterMap_frameWithin? (hlength : map.sourceLength ≤ 2 ^ 50) {amount : ℤ}
    (hamount : amount.natAbs ≤ 2 ^ 32) {count : ℕ} (hcount : count ≤ 2 ^ 51) :
    (((List.range count).map fun k => map.extrapolate (.ofNat k + .ofInt amount)).filterMap
        (frameWithin? map.sourceLength)).map (Nat.cast : ℕ → ℤ) =
      ((List.range count).map fun k : ℕ => map.extendedBoundary (amount + k)).filter
        fun place : ℤ => 0 ≤ place ∧ place ≤ map.sourceLength := by
  have hprecision : 2 ^ 52 ≤ 2 ^ Format.double.precision := by decide
  rw [List.filterMap_map, List.map_filterMap, ← List.filterMap_eq_filter, List.filterMap_map]
  refine List.filterMap_congr fun k hmem => ?_
  have hk := List.mem_range.mp hmem
  obtain ⟨hfinite, hvalue⟩ : (.ofNat k + .ofInt amount : Double).isFinite = true ∧
      (.ofNat k + .ofInt amount : Double).value = (k + amount : ℤ) :=
    Binary.ofNat_add_ofInt_spec (by omega) (by omega) (by omega)
  rw [Function.comp_apply, h.frameWithin?_extrapolate hbeats (by omega) hfinite hvalue (by omega),
    Function.comp_apply, Option.guard, add_comm (k : ℤ)]
  simp only [decide_eq_true_eq]

end Computed

/-- An integer other than zero is not taken for no shift at all. -/
lemma shift_ofInt (map : Beatmap) {amount : ℤ} (hne : amount ≠ 0)
    (hamount : amount.natAbs ≤ 2 ^ 32) :
    map.shift (.ofInt amount) = ofPositions ((List.range map.boundaries.length).map fun k =>
      map.extrapolate (.ofNat k + .ofInt amount)) map.sourceLength := by
  obtain ⟨hfinite, hvalue⟩ := Binary.ofInt_spec .double
    (hamount.trans (by decide : 2 ^ 32 ≤ 2 ^ Format.double.precision))
  obtain ⟨hzero, hzeroValue, -⟩ := Binary.zero_spec .double
  have hvalueNe : ((amount : ℤ) : ℚ) ≠ 0 := by exact_mod_cast hne
  rw [shift, hfinite, Binary.numEq_eq_decide hfinite hzero, hvalue, hzeroValue,
    decide_eq_false hvalueNe, if_neg (by decide)]

/-- **Shifting by whole numbers.** Take a reachable map with a beat, on a recording of at most
`2 ^ 50` frames, and an integer other than zero of magnitude at most `2 ^ 32`. The boundaries of the
shifted map are those with the numbers from the integer on, as many as the map has, among the
boundaries of the map that goes on at both ends, as far as they are on the recording. They are in
the same order, and they are computed as integers: no boundary on the recording is lost or moved.

**Proof sketch.** The coordinates are integers, and so are the places of the boundaries. Every
rounding on the way keeps the order and the short whole numbers. So a place on the recording is
exact, a place before it is at least a frame before it, and a place past the end at least a frame
past it. As the boundaries rise, none is left out. -/
theorem boundaries_shift_ofInt {map : Beatmap} (h : map.Reachable) (hbeats : 1 ≤ map.beatCount)
    (hlength : map.sourceLength ≤ 2 ^ 50) {amount : ℤ} (hamount : 1 ≤ |amount|)
    (hbound : |amount| ≤ 2 ^ 32) :
    (map.shift (.ofInt amount)).sourceLength = map.sourceLength ∧
      (map.shift (.ofInt amount)).boundaries.map (Nat.cast : ℕ → ℤ) =
        ((List.range (map.beatCount + 1)).map fun k : ℕ =>
          map.extendedBoundary (amount + k)).filter
            fun place : ℤ => 0 ≤ place ∧ place ≤ map.sourceLength := by
  rw [Int.abs_eq_natAbs] at hamount hbound
  have hwell := h.wellFormed
  have hcount := hwell.beatCount_le
  have hlist : map.boundaries.length = map.beatCount + 1 := by
    refine length_boundaries fun hnil => ?_
    rw [beatCount, hnil] at hbeats
    cases hbeats
  have hmagnitude : amount.natAbs ≤ 2 ^ 32 := by omega
  have hframes := hwell.filterMap_frameWithin? hbeats hlength hmagnitude
    (show map.beatCount + 1 ≤ 2 ^ 51 by omega)
  have hrising : (((List.range (map.beatCount + 1)).map fun k =>
      map.extrapolate (.ofNat k + .ofInt amount)).filterMap
        (frameWithin? map.sourceLength)).Pairwise (· < ·) := by
    have hplaces := (List.pairwise_lt_range (n := map.beatCount + 1)).map
      (fun k : ℕ => map.extendedBoundary (amount + k))
      fun a b hlt => hwell.extendedBoundary_lt hbeats (by omega : amount + a < amount + b)
    have hkept := hplaces.filter fun place : ℤ => decide (0 ≤ place ∧ place ≤ map.sourceLength)
    rw [← hframes, List.pairwise_map] at hkept
    exact hkept.imp Int.ofNat_lt.mp
  refine ⟨map.sourceLength_shift _, ?_⟩
  rw [map.shift_ofInt (by omega) hmagnitude, hlist, ofPositions,
    keepRising_of_pairwise hrising fun _ _ => rfl, hframes]

/-- Two beats earlier there is one place before the recording. -/
theorem boundaries_shift_ofInt_two_earlier :
    Reachable ⟨[3, 5, 9], 12⟩ ∧ 1 ≤ beatCount ⟨[3, 5, 9], 12⟩ ∧ 12 ≤ 2 ^ 50 ∧ 1 ≤ |(-2 : ℤ)| ∧
      |(-2 : ℤ)| ≤ 2 ^ 32 ∧ (shift ⟨[3, 5, 9], 12⟩ (.ofInt (-2))).boundaries = [1, 3] ∧
      (shift ⟨[3, 5, 9], 12⟩ (.ofInt (-2))).sourceLength = 12 ∧
      (shift ⟨[3, 5, 9], 12⟩ (.ofInt (-2))).boundaries.map (Nat.cast : ℕ → ℤ) =
        ((List.range 3).map fun k : ℕ => extendedBoundary ⟨[3, 5, 9], 12⟩ (-2 + k)).filter
          fun place : ℤ => 0 ≤ place ∧ place ≤ 12 := by
  have hmap : build [3, 5, 9] 12 = .ok ⟨[3, 5, 9], 12⟩ := by decide +kernel
  exact ⟨.made (.build hmap), by decide, by decide, by decide, by decide, by decide +kernel,
    boundaries_shift_ofInt (.made (.build hmap)) (by decide) (by decide) (by decide) (by decide)⟩

end Beatmap

end Arranger
