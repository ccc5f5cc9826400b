import Mathlib.Data.List.InsertIdx
import Arranger.Proofs.Pattern.Groups
import Arranger.Proofs.Plan.Order

/-!
# The order of play around a step

A step without a group that is put between others stays in its place, and the others are played in
the order in which they are played without it: shuffling does not look at the slots that it puts in
order, and shifting these does not change their number.

## Main definitions

* `Arranger.makeRoom` — the order of play of the steps around a place.

## Main results

* `Arranger.Stream.shuffle_map` — shuffling does not look at the members.
* `Arranger.shuffleGroups_makeRoom` — groups with shifted slots.
* `Arranger.Pattern.playOrder_insertIdx` — the order of play of steps with another between them.
-/

namespace Arranger

/-! ## Shuffling -/

/-- Exchanging members does not look at them. -/
lemma exchange_map {α β : Type} (f : α → β) (i j : ℕ) (xs : List α) :
    exchange i j (xs.map f) = (exchange i j xs).map f := by
  unfold exchange
  rw [List.getElem?_map, List.getElem?_map]
  cases xs[i]? with
  | none => rfl
  | some x =>
    cases xs[j]? with
    | none => rfl
    | some y => simp [List.map_set]

namespace Stream

/-- The exchanges of a shuffle do not look at the members. -/
lemma shuffleFrom_map {α β : Type} (f : α → β) (n : ℕ) (xs : List α) (stream : Stream) :
    shuffleFrom n (xs.map f) stream =
      ((shuffleFrom n xs stream).1.map f, (shuffleFrom n xs stream).2) := by
  induction n generalizing xs stream with
  | zero => rfl
  | succ n ih =>
    rw [shuffleFrom, shuffleFrom]
    dsimp only
    rw [exchange_map, ih]

/-- **Shuffling does not look at the members.** -/
lemma shuffle_map {α β : Type} (f : α → β) (xs : List α) (stream : Stream) :
    stream.shuffle (xs.map f) = ((stream.shuffle xs).1.map f, (stream.shuffle xs).2) := by
  rw [shuffle, List.length_map, shuffleFrom_map]
  rfl

end Stream

/-! ## The order of play -/

/-- The order of play of the steps around a place, where the step at the place stays there. -/
def makeRoom (place : ℕ) (order : List ℕ) : List ℕ :=
  (order.map (shiftFrom place)).insertIdx place place

/-- Slots other than the place are shifted ones. -/
lemma exists_shiftFrom_eq {place slot : ℕ} (h : slot ≠ place) :
    ∃ other, shiftFrom place other = slot := by
  rcases Nat.lt_or_gt_of_ne h with hlt | hgt
  · exact ⟨slot, if_pos hlt⟩
  · refine ⟨slot - 1, ?_⟩
    rw [shiftFrom, if_neg (by omega)]
    omega

/-- A member behind a place, or before it. -/
lemma getElem?_insertIdx_shiftFrom {α : Type} (place slot : ℕ) (x : α) (xs : List α) :
    (xs.insertIdx place x)[shiftFrom place slot]? = xs[slot]? := by
  induction place generalizing slot xs with
  | zero => simp
  | succ place ih =>
    cases xs with
    | nil => rfl
    | cons first xs =>
      cases slot with
      | zero => simp
      | succ slot => simp [ih]

/-- A member that is set behind a place, or before it. -/
lemma set_insertIdx {α : Type} (place slot : ℕ) (x y : α) (xs : List α) :
    (xs.insertIdx place x).set (shiftFrom place slot) y = (xs.set slot y).insertIdx place x := by
  induction place generalizing slot xs with
  | zero => simp
  | succ place ih =>
    cases xs with
    | nil => rfl
    | cons first xs =>
      cases slot with
      | zero => simp
      | succ slot => simp [ih]

/-- New members at some places of an order. -/
lemma placeAll_makeRoom (place : ℕ) (order slots members : List ℕ) :
    placeAll (makeRoom place order)
        ((slots.map (shiftFrom place)).zip (members.map (shiftFrom place))) =
      makeRoom place (placeAll order (slots.zip members)) := by
  rw [List.zip_map]
  generalize slots.zip members = placed
  induction placed generalizing order with
  | nil => rfl
  | cons pair placed ih =>
    have hset : (makeRoom place order).set (shiftFrom place pair.1) (shiftFrom place pair.2) =
        makeRoom place (order.set pair.1 pair.2) := by
      rw [makeRoom, makeRoom, set_insertIdx, List.map_set]
    exact (congrArg (placeAll · _) hset).trans (ih _)

/-- Groups with shifted slots shuffle the steps around the place as they do without it. -/
lemma shuffleGroups_makeRoom (place : ℕ) (groups : List ShuffleGroup) (order : List ℕ)
    (stream : Stream) :
    shuffleGroups (groups.map (ShuffleGroup.mapSlots (shiftFrom place))) (makeRoom place order)
        stream =
      (makeRoom place (shuffleGroups groups order stream).1,
        (shuffleGroups groups order stream).2) := by
  induction groups generalizing order stream with
  | nil => rfl
  | cons group groups ih =>
    rw [List.map_cons, shuffleGroups, shuffleGroups, ShuffleGroup.mapSlots]
    dsimp only
    rw [Stream.shuffle_map, placeAll_makeRoom, ih]

/-- One more step in written order. -/
lemma makeRoom_range {place n : ℕ} (h : place ≤ n) :
    makeRoom place (List.range n) = List.range (n + 1) := by
  refine List.ext_getElem (by simp [makeRoom, List.length_insertIdx, h]) fun slot _ _ => ?_
  simp only [makeRoom, List.getElem_insertIdx, List.getElem_map, List.getElem_range, shiftFrom]
  split_ifs <;> omega

namespace Pattern

/-- A step that does not count leaves the size as it is. -/
lemma size_insertIdx (pattern : Pattern) {step : Step} (hcounts : step.counts = false)
    (place : ℕ) : size ⟨pattern.steps.insertIdx place step⟩ = pattern.size := by
  have hguard : Option.guard (Step.counts ·) step = none := by simp [Option.guard, hcounts]
  rw [size, size, ← List.filterMap_eq_filter, filterMap_insertIdx hguard]

/-- A slot that is not the place is that of a step around it. -/
lemma mem_steps_of_insertIdx {pattern : Pattern} {step other : Step} {place slot : ℕ}
    (h : (pattern.steps.insertIdx place step)[slot]? = some other) (hne : slot ≠ place) :
    other ∈ pattern.steps := by
  obtain ⟨slot, rfl⟩ := exists_shiftFrom_eq hne
  rw [getElem?_insertIdx_shiftFrom] at h
  exact List.mem_of_getElem? h

/-- **The order of play of steps with another between them** that has no group: the other one stays
in its place, and the same random words are drawn. -/
lemma playOrder_insertIdx (pattern : Pattern) {step : Step} (hgroup : step.group? = none)
    {place : ℕ} (hplace : place ≤ pattern.steps.length) (stream : Stream) :
    playOrder ⟨pattern.steps.insertIdx place step⟩ stream =
      (makeRoom place (pattern.playOrder stream).1, (pattern.playOrder stream).2) := by
  rw [playOrder, groups_insertIdx pattern hgroup, List.length_insertIdx_of_le_length hplace,
    ← makeRoom_range hplace, shuffleGroups_makeRoom]
  rfl

end Pattern

end Arranger
