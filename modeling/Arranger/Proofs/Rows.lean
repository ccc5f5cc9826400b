import Mathlib.Data.List.GetD
import Mathlib.Order.Basic

/-!
# Rows

A list is the row of its members by their places, and a row of pieces of one length is a row of the
members of the pieces.

## Main results

* `Arranger.filterMap_getElem?`, `getD_range` — a list as the row of its members.
* `Arranger.place_div_mod`, `flatMap_range` — a row of pieces.
-/

namespace Arranger

variable {α β : Type}

/-- The member at a place of a stored list. -/
lemma toArray_getD (xs : List α) (i : ℕ) (default : α) :
    xs.toArray.getD i default = xs.getD i default := by
  rw [Array.getD_eq_getD_getElem?, List.getElem?_toArray, List.getD_eq_getElem?_getD]

/-- The members of a row at its places are the row. -/
lemma filterMap_getElem? (xs : List α) :
    ((List.range xs.length).filterMap fun i => xs[i]?) = xs := by
  induction xs with
  | nil => rfl
  | cons x xs ih =>
    rw [List.length_cons, List.range_succ_eq_map, List.filterMap_cons, List.filterMap_map]
    simpa [Function.comp_def] using ih

/-- What is made of the members of a list, by their places. -/
lemma map_getD_range (f : α → β) (xs : List α) (default : α) :
    ((List.range xs.length).map fun i => f (xs.getD i default)) = xs.map f := by
  refine List.ext_getElem (by simp) fun i hi _ => ?_
  rw [List.length_map, List.length_range] at hi
  rw [List.getElem_map, List.getElem_map, List.getElem_range, List.getD_eq_getElem _ _ hi]

/-- A list by its places. -/
lemma getD_range (xs : List α) (default : α) :
    ((List.range xs.length).map fun i => xs.getD i default) = xs := by
  have hrow := map_getD_range id xs default
  rwa [List.map_id] at hrow

/-- The piece that a place of the row is in, and the place in the piece. -/
lemma place_div_mod {size n : ℕ} (hn : n < size) (k : ℕ) :
    (k * size + n) / size = k ∧ (k * size + n) % size = n := by
  refine ⟨?_, Nat.mul_add_mod_of_lt hn⟩
  rw [Nat.mul_comm, Nat.mul_add_div (Nat.zero_lt_of_lt hn), Nat.div_eq_of_lt hn, Nat.add_zero]

/-- A row of pieces of one length is a row of their members. -/
lemma flatMap_range (size count : ℕ) (f : ℕ → ℕ → α) :
    ((List.range count).flatMap fun k => (List.range size).map (f k)) =
      (List.range (count * size)).map fun i => f (i / size) (i % size) := by
  induction count with
  | zero => simp
  | succ count ih =>
    rw [List.range_succ, List.flatMap_append, ih, List.flatMap_singleton, Nat.succ_mul,
      List.range_add, List.map_append, List.map_map]
    congr 1
    refine List.map_congr_left fun n hn => ?_
    obtain ⟨hdiv, hmod⟩ := place_div_mod (List.mem_range.mp hn) count
    rw [Function.comp_apply, hdiv, hmod]

end Arranger
