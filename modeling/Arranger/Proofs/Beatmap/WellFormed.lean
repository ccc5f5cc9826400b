import Mathlib.Tactic.Basic
import Mathlib.Data.List.Basic
import Mathlib.Data.List.Chain
import Mathlib.Data.List.GetD
import Mathlib.Data.Option.Basic
import Arranger.Beatmap.Transform

/-!
# Well-formed beatmaps

The boundaries of a beatmap rise and do not go past the end of the recording. The checked
constructors ask for it, and scaling, shifting and resampling leave out the boundaries that would
break it, whatever the positions are that they compute.

## Main definitions

* `Arranger.Beatmap.WellFormed` — rising boundaries within the recording.
* `Arranger.Beatmap.Made` — the beatmaps that the checked constructors return.
* `Arranger.Beatmap.Reachable` — those that come of them by changes.

## Main results

* `Arranger.Beatmap.Made.wellFormed` — the checked constructors return well-formed beatmaps.
* `Arranger.Beatmap.WellFormed.boundary_lt`, `boundary_mono`, `boundary_le` — the order of the
  boundaries by their numbers.
* `Arranger.Beatmap.ofPositions_wellFormed` — so does the choice of boundaries near positions.
* `Arranger.Beatmap.WellFormed.scale`, `WellFormed.shift` — scaling and shifting keep it.
* `Arranger.Beatmap.Reachable.wellFormed` — so reachable beatmaps are well formed.
-/

namespace Arranger

namespace Beatmap

/-- What a beatmap has to meet: its boundaries rise, and none is past the end of the
recording. -/
structure WellFormed (map : Beatmap) : Prop where
  /-- Every boundary is greater than all before it. -/
  rising : map.boundaries.Pairwise (· < ·)
  /-- No boundary is past the end. -/
  bounded : ∀ boundary ∈ map.boundaries, boundary ≤ map.sourceLength

/-- The beatmaps that the checked constructors return. -/
inductive Made : Beatmap → Prop where
  /-- Made of boundaries. -/
  | build {boundaries : List ℕ} {sourceLength : ℕ} {map : Beatmap} :
      build boundaries sourceLength = .ok map → Made map
  /-- Made of times in seconds. -/
  | ofSeconds {times : List Double} {rate sourceLength : ℕ} {map : Beatmap} :
      ofSeconds times rate sourceLength = .ok map → Made map

/-! ## Checked constructors -/

/-- The search for a fall finds none only if the boundaries rise. -/
lemma isChain_of_firstFall? {index : ℕ} {boundaries : List ℕ}
    (h : firstFall? index boundaries = none) : boundaries.IsChain (· < ·) := by
  induction boundaries generalizing index with
  | nil => exact .nil
  | cons before rest ih =>
    cases rest with
    | nil => exact .singleton before
    | cons after rest =>
      rw [firstFall?] at h
      split_ifs at h with hfall
      exact .cons_cons (Nat.lt_of_not_le hfall) (ih h)

/-- The members of rising boundaries are at most the last one. -/
lemma le_getLastD_of_mem {boundaries : List ℕ} (h : boundaries.Pairwise (· < ·)) {boundary : ℕ}
    (hmem : boundary ∈ boundaries) : boundary ≤ boundaries.getLastD 0 := by
  induction boundaries using List.reverseRecOn with
  | nil => simp at hmem
  | append_singleton front last _ =>
    rw [List.getLastD_concat]
    rw [List.pairwise_append] at h
    rcases List.mem_append.mp hmem with hfront | hlast
    · exact (h.2.2 boundary hfront last (List.mem_singleton_self last)).le
    · exact (List.mem_singleton.mp hlast).le

/-- What the check on boundaries asks for, and what it returns. -/
lemma build_eq_ok_iff {boundaries : List ℕ} {sourceLength : ℕ} {map : Beatmap} :
    build boundaries sourceLength = .ok map ↔
      2 ≤ boundaries.length ∧ firstFall? 0 boundaries = none ∧
        boundaries.getLastD 0 ≤ sourceLength ∧ ⟨boundaries, sourceLength⟩ = map := by
  simp only [build]
  cases hfall : firstFall? 0 boundaries with
  | some defect => split_ifs <;> simp
  | none =>
    dsimp only
    split_ifs with hlength hend
    · simp [Nat.not_le_of_lt hlength]
    · simp [Nat.not_le_of_lt hend, -List.getLastD_eq_getLast?]
    · simp [Nat.le_of_not_lt hlength, Nat.le_of_not_lt hend, -List.getLastD_eq_getLast?]

/-- The check on boundaries accepts well-formed beatmaps only. -/
lemma wellFormed_of_build {boundaries : List ℕ} {sourceLength : ℕ} {map : Beatmap}
    (h : build boundaries sourceLength = .ok map) : map.WellFormed := by
  obtain ⟨_, hfall, hend, rfl⟩ := build_eq_ok_iff.mp h
  have hrising := (isChain_of_firstFall? hfall).pairwise
  exact ⟨hrising, fun boundary hmem => (le_getLastD_of_mem hrising hmem).trans hend⟩

/-- A beatmap is built for the given length. -/
lemma sourceLength_of_build {boundaries : List ℕ} {sourceLength : ℕ} {map : Beatmap}
    (h : build boundaries sourceLength = .ok map) : map.sourceLength = sourceLength := by
  obtain ⟨_, _, _, rfl⟩ := build_eq_ok_iff.mp h
  rfl

/-- A built map has a beat. -/
lemma beatCount_pos_of_build {boundaries : List ℕ} {sourceLength : ℕ} {map : Beatmap}
    (hmap : build boundaries sourceLength = .ok map) : 0 < map.beatCount := by
  obtain ⟨htwo, -, -, rfl⟩ := build_eq_ok_iff.mp hmap
  exact Nat.sub_pos_of_lt htwo

/-- A map with a beat has a boundary. -/
lemma boundaries_ne_nil_of_beatCount_pos {map : Beatmap} (hbeat : 0 < map.beatCount) :
    map.boundaries ≠ [] := by
  rintro hnil
  simp [beatCount, hnil] at hbeat

/-- **The checked constructors return well-formed beatmaps.** -/
theorem Made.wellFormed {map : Beatmap} (h : map.Made) : map.WellFormed := by
  cases h with
  | build h => exact wellFormed_of_build h
  | @ofSeconds times rate sourceLength _ h =>
    unfold Beatmap.ofSeconds at h
    cases htimes : times.mapM (frameAt rate) with
    | error defect => rw [htimes] at h; cases h
    | ok boundaries => rw [htimes] at h; exact wellFormed_of_build h

/-! ## The boundaries of a well-formed beatmap -/

section Boundaries

variable {map : Beatmap}

/-- There is one boundary more than there are beats, if there is one at all. -/
lemma length_boundaries (hne : map.boundaries ≠ []) :
    map.boundaries.length = map.beatCount + 1 :=
  (Nat.sub_add_cancel (List.length_pos_iff.mpr hne)).symm

/-- A boundary is below the next one. -/
lemma WellFormed.boundary_lt (h : map.WellFormed) {i : ℕ} (hi : i < map.beatCount) :
    map.boundary i < map.boundary (i + 1) := by
  have hlength : i + 1 < map.boundaries.length := by
    unfold beatCount at hi
    omega
  unfold boundary
  rw [List.getD_eq_getElem _ _ (by omega), List.getD_eq_getElem _ _ hlength]
  exact List.pairwise_iff_getElem.mp h.rising i (i + 1) (by omega) hlength (by omega)

/-- The boundaries rise. -/
lemma WellFormed.boundary_mono (h : map.WellFormed) {i j : ℕ} (hij : i ≤ j)
    (hj : j ≤ map.beatCount) : map.boundary i ≤ map.boundary j := by
  induction j, hij using Nat.le_induction with
  | base => exact le_rfl
  | succ j _ ih => exact (ih (by omega)).trans (h.boundary_lt (by omega)).le

/-- A boundary is at least its number past the first one. -/
lemma WellFormed.add_le_boundary (h : map.WellFormed) {i : ℕ} (hi : i ≤ map.beatCount) :
    map.boundary 0 + i ≤ map.boundary i := by
  induction i with
  | zero => exact le_rfl
  | succ i ih =>
    have := ih (by omega)
    have := h.boundary_lt (i := i) (by omega)
    omega

/-- The boundary behind the last beat is the last boundary. -/
lemma boundary_beatCount (map : Beatmap) : map.boundary map.beatCount = map.lastBoundary := by
  rw [boundary, lastBoundary, beatCount, List.getD_eq_getElem?_getD, List.getLastD_eq_getLast?,
    List.getLast?_eq_getElem?]

/-- No boundary is past the last one. -/
lemma WellFormed.boundary_le_last (h : map.WellFormed) (i : ℕ) :
    map.boundary i ≤ map.lastBoundary := by
  unfold boundary
  rcases Nat.lt_or_ge i map.boundaries.length with hi | hi
  · rw [List.getD_eq_getElem _ _ hi]
    exact le_getLastD_of_mem h.rising (List.getElem_mem hi)
  · rw [List.getD_eq_default _ _ hi]
    exact Nat.zero_le _

/-- The last boundary is at most what all boundaries are at most. -/
lemma lastBoundary_le_of_forall {bound : ℕ} (h : ∀ boundary ∈ map.boundaries, boundary ≤ bound) :
    map.lastBoundary ≤ bound := by
  rcases List.mem_cons.mp (List.getLastD_mem_cons (l := map.boundaries) (a := 0)) with hzero | hmem
  · exact (Nat.le_of_eq hzero).trans (Nat.zero_le _)
  · exact h _ hmem

/-- The last boundary is not past the end. -/
lemma WellFormed.lastBoundary_le (h : map.WellFormed) : map.lastBoundary ≤ map.sourceLength :=
  lastBoundary_le_of_forall h.bounded

/-- No boundary is past the end. -/
lemma WellFormed.boundary_le (h : map.WellFormed) (i : ℕ) : map.boundary i ≤ map.sourceLength :=
  (h.boundary_le_last i).trans h.lastBoundary_le

/-- There are no more beats than frames from the first boundary to the last. -/
lemma WellFormed.beatCount_le_span (h : map.WellFormed) : map.beatCount ≤ map.span := by
  have := h.add_le_boundary le_rfl
  rw [boundary_beatCount] at this
  unfold span
  omega

/-- There are no more beats than frames. -/
lemma WellFormed.beatCount_le (h : map.WellFormed) : map.beatCount ≤ map.sourceLength :=
  h.beatCount_le_span.trans ((Nat.sub_le _ _).trans h.lastBoundary_le)

end Boundaries

/-! ## Boundaries from positions -/

/-- The members that are kept are above the floor. -/
lemma floor_lt_of_mem_keepRising {floor? : Option ℕ} {frames : List ℕ} {kept : ℕ}
    (h : kept ∈ keepRising floor? frames) : floor?.all (· < kept) = true := by
  induction frames generalizing floor? with
  | nil => simp [keepRising] at h
  | cons frame frames ih =>
    rw [keepRising] at h
    split_ifs at h with habove
    · rcases List.mem_cons.mp h with rfl | hmem
      · exact habove
      · have hframe : frame < kept := by simpa using ih hmem
        cases floor? with
        | none => rfl
        | some floor =>
          have hfloor : floor < frame := by simpa using habove
          simpa using hfloor.trans hframe
    · exact ih h

/-- The members that are kept rise. -/
lemma keepRising_pairwise (floor? : Option ℕ) (frames : List ℕ) :
    (keepRising floor? frames).Pairwise (· < ·) := by
  induction frames generalizing floor? with
  | nil => exact .nil
  | cons frame frames ih =>
    rw [keepRising]
    split_ifs
    · refine .cons (fun kept hmem => ?_) (ih _)
      simpa using floor_lt_of_mem_keepRising hmem
    · exact ih _

/-- Members are left out and nothing else is done. -/
lemma keepRising_sublist (floor? : Option ℕ) (frames : List ℕ) :
    (keepRising floor? frames).Sublist frames := by
  induction frames generalizing floor? with
  | nil => exact .slnil
  | cons frame frames ih =>
    rw [keepRising]
    split_ifs
    · exact (ih _).cons_cons frame
    · exact (ih _).cons frame

/-- The frame of a position is not past the end. -/
lemma le_of_frameWithin? {sourceLength frame : ℕ} {position : Double}
    (h : frameWithin? sourceLength position = some frame) : frame ≤ sourceLength := by
  simp only [frameWithin?] at h
  split_ifs at h
  cases h
  exact Nat.min_le_right _ _

/-- **Boundaries near any positions make a well-formed beatmap.** -/
theorem ofPositions_wellFormed (positions : List Double) (sourceLength : ℕ) :
    (ofPositions positions sourceLength).WellFormed := by
  refine ⟨keepRising_pairwise _ _, fun boundary hmem => ?_⟩
  obtain ⟨position, _, hframe⟩ := List.mem_filterMap.mp ((keepRising_sublist _ _).subset hmem)
  exact le_of_frameWithin? hframe

/-! ## Operations -/

/-- Scaling keeps the length of the recording. -/
@[simp] lemma sourceLength_scale (map : Beatmap) (factor : Double) :
    (map.scale factor).sourceLength = map.sourceLength := by
  unfold scale
  split_ifs <;> rfl

/-- Shifting keeps the length of the recording. -/
@[simp] lemma sourceLength_shift (map : Beatmap) (amount : Double) :
    (map.shift amount).sourceLength = map.sourceLength := by
  unfold shift
  split_ifs <;> rfl

/-- Scaling by any factor keeps a beatmap well formed. -/
lemma WellFormed.scale {map : Beatmap} (h : map.WellFormed) (factor : Double) :
    (map.scale factor).WellFormed := by
  unfold Beatmap.scale
  split_ifs
  · exact h
  · exact ofPositions_wellFormed _ _

/-- Shifting by any amount keeps a beatmap well formed. -/
lemma WellFormed.shift {map : Beatmap} (h : map.WellFormed) (amount : Double) :
    (map.shift amount).WellFormed := by
  unfold Beatmap.shift
  split_ifs
  · exact h
  · exact ofPositions_wellFormed _ _

/-! ## Reachable beatmaps -/

/-- The beatmaps that come of made ones by changes. -/
inductive Reachable : Beatmap → Prop where
  /-- Made by a checked constructor. -/
  | made {map : Beatmap} (h : map.Made) : Reachable map
  /-- Scaled. -/
  | scale {map : Beatmap} (h : map.Reachable) (factor : Double) : Reachable (map.scale factor)
  /-- Shifted. -/
  | shift {map : Beatmap} (h : map.Reachable) (amount : Double) : Reachable (map.shift amount)
  /-- Resampled, for a recording of some length. -/
  | resampled {map : Beatmap} (h : map.Reachable) (ratio : Double) (sourceLength : ℕ) :
      Reachable (map.resampled ratio sourceLength)

/-- **Reachable beatmaps are well formed.** -/
lemma Reachable.wellFormed {map : Beatmap} (h : map.Reachable) : map.WellFormed := by
  induction h with
  | made h => exact h.wellFormed
  | scale _ factor ih => exact ih.scale factor
  | shift _ amount ih => exact ih.shift amount
  | resampled _ ratio sourceLength _ => exact ofPositions_wellFormed _ _

end Beatmap

end Arranger
