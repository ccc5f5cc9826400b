import Arranger.Pattern.Compiling
import Arranger.Plan.Planning
import Arranger.Proofs.Pattern.Groups
import Arranger.Proofs.Plan.Order

/-!
# Shuffle groups in the order of play

The table of groups has for each name the slots of the steps with that name, in written order. So
the order of play leaves steps without a group where they are and the members of a group among
themselves, and each iteration of a pattern plays the same steps as any other.

## Main definitions

* `Arranger.Pattern.iteration` — the steps as they are due in one iteration.

## Main results

* `Arranger.Pattern.exists_group_of_slotsOf` — the table of groups has the slots of each group.
* `Arranger.Stage.plan_playOrder` — the order of play of a plan and its iterations.
-/

namespace Arranger

/-! ## The slots of a group -/

namespace Pattern

/-- **The table of groups has the slots of each group.** -/
lemma exists_group_of_slotsOf {pattern : Pattern} {name : String} (h : pattern.slotsOf name ≠ []) :
    ∃ group ∈ pattern.groups, group.slots = pattern.slotsOf name := by
  have hnamed : slotsNamed name pattern.groups = pattern.slotsOf name :=
    slotsNamed_joinGroups name [] 0 pattern.steps
  rw [← hnamed] at h ⊢
  unfold slotsNamed at h ⊢
  cases hfind : pattern.groups.find? fun group => group.name = name with
  | none => simp [hfind] at h
  | some group => exact ⟨group, List.mem_of_find?_eq_some hfind, rfl⟩

/-- A step without a group is no slot of one. -/
lemma not_mem_slots {pattern : Pattern} {slot : ℕ} {step : Step}
    (hstep : pattern.steps[slot]? = some step) (hgroup : step.group? = none) :
    slot ∉ pattern.groups.flatMap ShuffleGroup.slots := by
  intro hmem
  obtain ⟨⟨step', slot'⟩, hslot, rfl⟩ := List.mem_map.mp (pattern.slots_groups.subset hmem)
  obtain ⟨hmem', hsome⟩ := List.mem_filter.mp hslot
  have heq := List.mem_zipIdx_iff_getElem?.mp hmem'
  rw [hstep] at heq
  cases heq
  simp [hgroup] at hsome

/-! ## Iterations -/

/-- The steps in an order of play, as they are due in iteration `k`. -/
def iteration (pattern : Pattern) (order : List ℕ) (k : ℕ) : List Cue :=
  (order.filterMap (pattern.steps[·]?)).map fun step =>
    ⟨step, pattern.size, Binary.ofNat (k * pattern.size)⟩

end Pattern

/-- **The order of play.** Planning fixes an order of the steps once, at its start. It is a
permutation of their slots, it leaves each step without a group in its own slot, and it maps the
slots of each group onto themselves. The steps are played in this order in each iteration, and so
each iteration plays every step exactly once. -/
theorem Stage.plan_playOrder (stage : Stage) (pattern : Pattern) (cursor : Cursor) :
    ∃ (order : List ℕ) (random : Stream), pattern.playOrder cursor.random = (order, random) ∧
      order.Perm (List.range pattern.steps.length) ∧
      (∀ (slot : ℕ) (step : Step), pattern.steps[slot]? = some step → step.group? = none →
        order[slot]? = some slot) ∧
      (∀ name, ((pattern.slotsOf name).map (order[·]?)).Perm ((pattern.slotsOf name).map some)) ∧
      stage.plan pattern cursor =
        collect stage.planCue
          ((List.range (stage.repetitions pattern.size)).flatMap (pattern.iteration order))
          ⟨random, cursor.position⟩ ∧
      ∀ k, (pattern.iteration order k).Perm
        (pattern.steps.map fun step => ⟨step, pattern.size, Binary.ofNat (k * pattern.size)⟩) := by
  have hbound : ∀ slot ∈ pattern.groups.flatMap ShuffleGroup.slots,
      slot < (List.range pattern.steps.length).length := by
    intro slot hslot
    rw [List.length_range]
    exact pattern.slot_lt hslot
  refine ⟨_, _, rfl, pattern.playOrder_perm cursor.random, ?_, ?_, rfl, ?_⟩
  · intro slot step hstep hgroup
    have hlt : slot < pattern.steps.length := (List.getElem?_eq_some_iff.mp hstep).1
    refine (getElem?_shuffleGroups (Pattern.not_mem_slots hstep hgroup)).trans ?_
    rw [List.getElem?_range hlt]
  · intro name
    by_cases hempty : pattern.slotsOf name = []
    · rw [hempty]
      exact .nil
    · obtain ⟨group, hgroup, hslots⟩ := Pattern.exists_group_of_slotsOf hempty
      rw [← hslots]
      exact map_shuffleGroups_perm pattern.nodup_slots hbound hgroup
  · intro k
    exact (pattern.rearranged_perm cursor.random).map _

/-- Two groups with a mix between their members, filling a song of seven beats: in both iterations
the members of each group change places and the mix stays. -/
theorem Stage.plan_playOrder_two_groups :
    ∃ (stage : Stage) (pattern : Pattern) (order : List ℕ) (random : Stream),
      Pattern.ofText "1#x,2#y,3;4,5#x,6#y,7#x" = .ok pattern ∧
      pattern.playOrder (.ofSeed 1) = (order, random) ∧ order = [5, 4, 2, 0, 1, 3] ∧
      order.Perm (List.range pattern.steps.length) ∧ order[2]? = some 2 ∧
      pattern.slotsOf "x" = [0, 3, 5] ∧
      ((pattern.slotsOf "x").map (order[·]?)).Perm ((pattern.slotsOf "x").map some) ∧
      stage.repetitions pattern.size = 2 ∧
      stage.plan pattern (.ofSeed 1) =
        collect stage.planCue ((List.range 2).flatMap (pattern.iteration order)) ⟨random, 0⟩ ∧
      ∀ k, (pattern.iteration order k).Perm
        (pattern.steps.map fun step => ⟨step, pattern.size, Binary.ofNat (k * pattern.size)⟩) := by
  have htext : Pattern.ofText "1#x,2#y,3;4,5#x,6#y,7#x" = .ok
      ⟨[.single ⟨none, { ref := .literal 1, group := some "x" }⟩,
        .single ⟨none, { ref := .literal 2, group := some "y" }⟩,
        .mix .sum [⟨none, { ref := .literal 3 }⟩, ⟨none, { ref := .literal 4 }⟩],
        .single ⟨none, { ref := .literal 5, group := some "x" }⟩,
        .single ⟨none, { ref := .literal 6, group := some "y" }⟩,
        .single ⟨none, { ref := .literal 7, group := some "x" }⟩]⟩ := by
    decide +kernel
  have horder : (Pattern.playOrder
      ⟨[.single ⟨none, { ref := .literal 1, group := some "x" }⟩,
        .single ⟨none, { ref := .literal 2, group := some "y" }⟩,
        .mix .sum [⟨none, { ref := .literal 3 }⟩, ⟨none, { ref := .literal 4 }⟩],
        .single ⟨none, { ref := .literal 5, group := some "x" }⟩,
        .single ⟨none, { ref := .literal 6, group := some "y" }⟩,
        .single ⟨none, { ref := .literal 7, group := some "x" }⟩]⟩ (.ofSeed 1)).1 =
      [5, 4, 2, 0, 1, 3] := by
    decide +kernel
  obtain ⟨order, random, hplay, hperm, hfixed, hgroups, hplan, hiterations⟩ :=
    Stage.plan_playOrder ⟨⟨⟨[List.replicate 7 0], 1⟩, ⟨List.range 8, 7⟩⟩, .empty, .fill⟩
      ⟨[.single ⟨none, { ref := .literal 1, group := some "x" }⟩,
        .single ⟨none, { ref := .literal 2, group := some "y" }⟩,
        .mix .sum [⟨none, { ref := .literal 3 }⟩, ⟨none, { ref := .literal 4 }⟩],
        .single ⟨none, { ref := .literal 5, group := some "x" }⟩,
        .single ⟨none, { ref := .literal 6, group := some "y" }⟩,
        .single ⟨none, { ref := .literal 7, group := some "x" }⟩]⟩ (.ofSeed 1)
  rw [show (Cursor.ofSeed 1).random = .ofSeed 1 from rfl] at hplay
  rw [hplay] at horder
  exact ⟨_, _, order, random, htext, hplay, horder, hperm, hfixed 2 _ rfl rfl, by decide +kernel,
    hgroups "x", by decide +kernel, hplan, hiterations⟩

end Arranger
