import Mathlib.Algebra.Order.Floor.Div
import Mathlib.Data.List.Basic
import Arranger.Plan.Planning
import Arranger.Proofs.Rows

/-!
# Tiling

A pattern without groups, aliases and marks is played in written order, over and over. Its cues are
those of one long row, in which the steps come again after the length of the pattern.

## Main definitions

* `Arranger.plainStep` — the step that plays a reference and nothing else.
* `Arranger.plainPattern` — a pattern of such steps.

## Main results

* `Arranger.collect_range` — what is collected where the states on the way are known.
* `Arranger.collect_range_congr` — functions that agree in the states on the way.
* `Arranger.Stage.repetitions_eq_one` — where there is one repetition.
* `Arranger.Stage.beatCount_le_repetitions_mul`, `mul_lt_beatCount` — repetitions that fill
  a song cover it, and begin within it.
* `Arranger.Stage.cues_range` — the cues of all repetitions as one row.
* `Arranger.Stage.plan_plainPattern` — how a plain pattern is planned.
-/

namespace Arranger

/-! ## Collecting -/

/-- **What is collected where the states on the way are known.** If member number `i` takes state
number `i` to the next one, the results are those of the members and the state is the last one. -/
lemma collect_range {α β σ ε : Type} {f : α → σ → Except ε (Option β) × σ} (member : ℕ → α)
    (state : ℕ → σ) (result : ℕ → Option β) {n : ℕ}
    (h : ∀ i < n, f (member i) (state i) = (.ok (result i), state (i + 1))) :
    collect f ((List.range n).map member) (state 0) =
      (.ok ((List.range n).filterMap result), state n) := by
  induction n generalizing member state result with
  | zero => rfl
  | succ n ih =>
    have hmore := ih (fun i => member (i + 1)) (fun i => state (i + 1)) (fun i => result (i + 1))
      fun i hi => h (i + 1) (by omega)
    rw [List.range_succ_eq_map, List.map_cons, List.map_map, collect, h 0 (by omega)]
    simp only [Function.comp_def, Nat.succ_eq_add_one] at hmore ⊢
    rw [hmore]
    cases hresult : result 0 with
    | none => simp [List.filterMap_map, hresult]
    | some value => simp [List.filterMap_map, hresult]

/-- What is collected from members that come of others. -/
lemma collect_map {α β γ σ ε : Type} (f : β → σ → Except ε (Option γ) × σ) (member : α → β)
    (xs : List α) (state : σ) :
    collect f (xs.map member) state = collect (fun x => f (member x)) xs state := by
  induction xs generalizing state with
  | nil => rfl
  | cons x xs ih => simp only [List.map_cons, collect, ih]

/-- Functions that agree on the members collect the same. -/
lemma collect_congr {α β σ ε : Type} {f g : α → σ → Except ε (Option β) × σ} {xs : List α}
    (h : ∀ x ∈ xs, ∀ state, f x state = g x state) (state : σ) :
    collect f xs state = collect g xs state := by
  induction xs generalizing state with
  | nil => rfl
  | cons x xs ih =>
    rw [List.forall_mem_cons] at h
    have hrest : collect f xs = collect g xs := funext (ih h.2)
    rw [collect, collect, h.1, hrest]

/-- Functions on a row collect the same, if they agree in the states that occur. The invariant tells
which states those are at a place of the row. -/
lemma collect_range_congr {β σ ε : Type} {f g : ℕ → σ → Except ε (Option β) × σ}
    (inv : ℕ → σ → Prop) {start n : ℕ}
    (hstep : ∀ i < start + n, ∀ state, inv i state → f i state = g i state)
    (hnext : ∀ i state result state', inv i state → f i state = (.ok result, state') →
      inv (i + 1) state') {state : σ} (hstart : inv start state) :
    collect f (List.range' start n) state = collect g (List.range' start n) state := by
  induction n generalizing start state with
  | zero => rfl
  | succ n ih =>
    rw [List.range'_succ, collect, collect, ← hstep start (by omega) state hstart]
    cases hfirst : f start state with
    | mk outcome state' =>
      cases outcome with
      | error fault => rfl
      | ok result =>
        dsimp only
        rw [ih (fun i hi => hstep i (by omega)) (hnext start state result state' hstart hfirst)]

/-! ## Plain patterns -/

/-- The step that plays a reference and nothing else. -/
def plainStep (ref : BeatRef) : Step :=
  .single ⟨none, { ref := ref }⟩

/-- The pattern of `size` steps that each play a reference and nothing else. -/
def plainPattern (size : ℕ) (ref : ℕ → BeatRef) : Pattern :=
  ⟨(List.range size).map fun n => plainStep (ref n)⟩

/-- Steps without a group make no groups. -/
lemma joinGroups_eq_nil {steps : List Step} {slot : ℕ} (h : ∀ step ∈ steps, step.group? = none) :
    joinGroups [] slot steps = [] := by
  induction steps generalizing slot with
  | nil => rfl
  | cons step steps ih =>
    rw [List.forall_mem_cons] at h
    rw [joinGroups, h.1]
    exact ih h.2

namespace Pattern

/-- Patterns without groups are played in written order. -/
lemma rearranged_of_ungrouped {pattern : Pattern} (h : ∀ step ∈ pattern.steps, step.group? = none)
    (stream : Stream) : pattern.rearranged stream = (pattern.steps, stream) := by
  have horder : pattern.playOrder stream = (List.range pattern.steps.length, stream) := by
    rw [playOrder, groups, joinGroups_eq_nil h, shuffleGroups]
  rw [rearranged, horder]
  exact congrArg (·, stream) (filterMap_getElem? pattern.steps)

variable (size : ℕ) (ref : ℕ → BeatRef)

/-- All steps of a plain pattern count. -/
lemma size_plainPattern : (plainPattern size ref).size = size := by
  have hcounts : ∀ step ∈ (plainPattern size ref).steps, step.counts = true := by
    intro step hmem
    obtain ⟨n, _, rfl⟩ := List.mem_map.mp hmem
    rfl
  rw [Pattern.size, List.filter_eq_self.mpr hcounts, plainPattern, List.length_map,
    List.length_range]

/-- A plain pattern has no aliases. -/
lemma aliases_plainPattern : (plainPattern size ref).aliases = [] := by
  have hsources : (plainPattern size ref).terms.filterMap Term.source = [] := by
    refine List.filterMap_eq_nil_iff.mpr fun term hmem => ?_
    obtain ⟨step, hstep, hterm⟩ := List.mem_flatMap.mp hmem
    obtain ⟨n, _, rfl⟩ := List.mem_map.mp hstep
    obtain rfl := List.mem_singleton.mp hterm
    rfl
  rw [aliases, hsources, keepFirst]

end Pattern

/-! ## Repetitions -/

namespace Stage

/-- There is one repetition where the pattern plays once, and of a pattern that counts no step. -/
lemma repetitions_eq_one {stage : Stage} {size : ℕ} (h : stage.repetition = .once ∨ size = 0) :
    stage.repetitions size = 1 := by
  rw [repetitions]
  cases hrepetition : stage.repetition with
  | once => rfl
  | fill =>
    rcases h with honce | hzero
    · rw [honce] at hrepetition
      cases hrepetition
    · exact if_pos hzero

section Fill

variable {stage : Stage} (hfill : stage.repetition = .fill) {size : ℕ} (hsize : 0 < size)

include hfill hsize

/-- A song is filled by as many repetitions as it takes, and by one if it has no beats. -/
lemma repetitions_of_fill :
    stage.repetitions size = max 1 (stage.primary.beatmap.beatCount ⌈/⌉ size) := by
  rw [repetitions, hfill, Nat.ceilDiv_eq_add_pred_div, Nat.add_sub_assoc hsize]
  exact if_neg hsize.ne'

/-- Repetitions that fill a song cover it. -/
lemma beatCount_le_repetitions_mul :
    stage.primary.beatmap.beatCount ≤ stage.repetitions size * size := by
  rw [repetitions_of_fill hfill hsize, Nat.mul_comm, ← ceilDiv_le_iff_le_mul hsize]
  exact le_max_right _ _

/-- Every repetition but the first begins within the song. -/
lemma mul_lt_beatCount {k : ℕ} (hk : k < stage.repetitions size) (hpos : 0 < k) :
    k * size < stage.primary.beatmap.beatCount := by
  rw [repetitions_of_fill hfill hsize] at hk
  by_contra hbehind
  have hle : stage.primary.beatmap.beatCount ⌈/⌉ size ≤ k :=
    (ceilDiv_le_iff_le_mul hsize).mpr (by rw [Nat.mul_comm]; omega)
  omega

end Fill

/-- The cues come of the number of the repetition and of what the step comes of. -/
lemma cues_map {α : Type} (size count : ℕ) (step : α → Step) (xs : List α) :
    cues size count (xs.map step) =
      ((List.range count).flatMap fun k => xs.map fun x => (k, x)).map fun place =>
        ⟨step place.2, size, Binary.ofNat (place.1 * size)⟩ := by
  unfold cues
  simp only [List.map_flatMap, List.map_map, Function.comp_def]

/-- The cues of all repetitions as one row. -/
lemma cues_range (size count : ℕ) (step : ℕ → Step) :
    cues size count ((List.range size).map step) =
      (List.range (count * size)).map fun i =>
        ⟨step (i % size), size, Binary.ofNat (i / size * size)⟩ := by
  rw [← flatMap_range size count fun k n => Cue.mk (step n) size (Binary.ofNat (k * size))]
  unfold cues
  simp only [List.map_map, Function.comp_def]

/-- **A plain pattern is planned in one row**, in written order over and over. -/
lemma plan_plainPattern (stage : Stage) (size : ℕ) (ref : ℕ → BeatRef) (cursor : Cursor) :
    stage.plan (plainPattern size ref) cursor =
      collect stage.planCue ((List.range (stage.repetitions size * size)).map fun i =>
        ⟨plainStep (ref (i % size)), size, Binary.ofNat (i / size * size)⟩) cursor := by
  have hgroups : ∀ step ∈ (plainPattern size ref).steps, step.group? = none := by
    intro step hmem
    obtain ⟨n, _, rfl⟩ := List.mem_map.mp hmem
    rfl
  rw [plan, Pattern.rearranged_of_ungrouped hgroups, Pattern.size_plainPattern]
  dsimp only
  rw [plainPattern, cues_range]

end Stage

end Arranger
