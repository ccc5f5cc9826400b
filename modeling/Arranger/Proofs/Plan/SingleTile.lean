import Mathlib.Data.List.ReduceOption
import Arranger.Proofs.Fallible
import Arranger.Proofs.Pattern.Bounds
import Arranger.Proofs.Plan.Succession

/-!
# Songs that one tile fills

A pattern that counts at least as many steps as the song has beats fills it with a single tile. Then
it is planned as where it plays once, only that a beat number that is not on its map is not wrapped
into it, but its leaf is left out.

## Main definitions

* `Arranger.Leaf.within`, `Plan.within` — what is left of a leaf and of a plan on the maps.
* `Arranger.Leaf.Answers` — a leaf that is played for what is looked up.
* `Arranger.Stage.requestsByStep` — what is looked up for each step that is played.

## Main results

* `Arranger.collect_thinned` — members of which one run leaves out some results of the other.
* `Arranger.Stage.plan_singleTile` — filling a song with one tile is playing once what is on the
  maps.
-/

namespace Arranger

/-! ## Results that are left out -/

section Collecting

variable {α β γ σ ε : Type} {f g : α → σ → Except ε (Option β) × σ} {note : α → σ → List γ}
  {thin : β → γ → Option β} {R : β → γ → Prop} {xs : List α}

/-- **Members of which one run leaves out some results of the other.** Wherever the one run
succeeds there is a result, one thing is noted, and the other run has what is left of the result by
the note. Then this holds of the whole list.

**Proof sketch.** By induction on the list. Both runs pass on the same state. -/
lemma collect_thinned
    (h : ∀ x ∈ xs, ∀ state result state', f x state = (.ok result, state') →
      ∃ y a, result = some y ∧ note x state = [a] ∧ R y a ∧ g x state = (.ok (thin y a), state'))
    {ys : List β} {state last : σ} (hrun : collect f xs state = (.ok ys, last)) :
    ys.length = xs.length ∧ List.Forall₂ R ys (collectNotes f note xs state) ∧
      collect g xs state =
        (.ok (List.zipWith thin ys (collectNotes f note xs state)).reduceOption, last) := by
  induction xs generalizing state ys with
  | nil =>
    cases hrun
    exact ⟨rfl, .nil, rfl⟩
  | cons x xs ih =>
    rw [List.forall_mem_cons] at h
    obtain ⟨result, state', results, hfirst, hrest, rfl⟩ := collect_cons_eq_ok_iff.mp hrun
    obtain ⟨y, a, rfl, hnote, hR, hthin⟩ := h.1 state result state' hfirst
    obtain ⟨hlength, hnotes, hthinned⟩ := ih h.2 hrest
    rw [collectNotes, hfirst, hnote]
    refine ⟨congrArg (· + 1) hlength, .cons hR hnotes, ?_⟩
    refine collect_cons_eq_ok_iff.mpr ⟨thin y a, state', _, hthin, hthinned, ?_⟩
    cases hleft : thin y a with
    | none => simp [hleft]
    | some left => simp [hleft]

end Collecting

/-! ## What is left of plans -/

/-- The leaves of a plan. -/
def Plan.leaves : Plan → List Leaf
  | single leaf => [leaf]
  | mix _ leaves => leaves

/-- The leaf, if what is looked up for it is on its map. -/
def Leaf.within (leaf : Leaf) (request : Request) : Option Leaf :=
  if request.isInside then some leaf else none

/-- What is played for what is looked up: a leaf of the beat that the number is wrapped into, on the
song of the map. -/
inductive Leaf.Answers (leaf : Leaf) (request : Request) : Prop where
  /-- The leaf is what a term plays on the beat. -/
  | intro {song : Song} {term : Term} {size : ℕ} {beat : Double} (hmap : song.beatmap = request.map)
      (hbeat : request.map.wrapBeat size request.beat = .ok beat)
      (hleaf : Stage.leafOf song term beat = .ok leaf)

/-- The plan with those of its leaves for which what is looked up is on its map. A mix without
leaves is left out. -/
def Plan.within : Plan → List Request → Option Plan
  | single leaf, requests => (requests.head?.bind leaf.within).map .single
  | mix mode leaves, requests =>
    Stage.mixOf? mode (List.zipWith Leaf.within leaves requests).reduceOption

namespace Stage

/-- The stage on which patterns fill the song. -/
def filling (stage : Stage) : Stage :=
  { stage with repetition := .fill }

/-- What is looked up for each step that is played, in the order of play. -/
def requestsByStep (stage : Stage) (pattern : Pattern) (cursor : Cursor) : List (List Request) :=
  let (steps, random) := pattern.rearranged cursor.random
  collectNotes stage.planCue (fun cue cursor => [stage.cueNotes stage.termRequests cue cursor])
    (cues pattern.size (stage.repetitions pattern.size) steps) { cursor with random }

section Filling

variable {stage : Stage} (honce : stage.repetition = .once)

include honce

/-- What a term plays for a beat number where the song is filled: what it plays once, if the number
is on the map. -/
lemma leafFor_filling {size : ℕ} {song : Song} {term : Term} {requested : Double}
    {result : Option Leaf} (h : stage.leafFor size song term requested = .ok result) :
    ∃ leaf, result = some leaf ∧ leaf.Answers ⟨song.beatmap, requested⟩ ∧
      stage.filling.leafFor size song term requested =
        .ok (leaf.within ⟨song.beatmap, requested⟩) := by
  obtain ⟨beat?, hbeat, h⟩ := bind_eq_ok_iff.mp h
  rw [beatFor, honce] at hbeat
  obtain ⟨beat, hwrapped, rfl⟩ := map_eq_ok_iff.mp hbeat
  obtain ⟨leaf, hleaf, h⟩ := bind_eq_ok_iff.mp h
  cases h
  refine ⟨leaf, rfl, ⟨rfl, hwrapped, hleaf⟩, ?_⟩
  unfold Leaf.within Request.isInside leafFor beatFor
  by_cases hinside : song.beatmap.containsBeat requested = true
  · rw [Beatmap.wrapBeat, if_pos hinside] at hwrapped
    cases hwrapped
    simp [filling, hinside, hleaf, bind, Except.bind, pure, Except.pure]
  · simp [filling, hinside, bind, Except.bind, pure, Except.pure]

/-- What a term plays where the song is filled: what it plays once, if its number is on the map. -/
lemma planTerm_filling {place : Place} {term : Term} {stream stream' : Stream}
    {result : Option Leaf} (h : stage.planTerm place term stream = (.ok result, stream')) :
    ∃ leaf request, result = some leaf ∧ stage.termRequests place term stream = [request] ∧
      leaf.Answers request ∧
        stage.filling.planTerm place term stream = (.ok (leaf.within request), stream') := by
  obtain ⟨song, requested, hsong, hresolve, hmade⟩ := planTerm_eq_ok_iff.mp h
  obtain ⟨leaf, rfl, hanswers, hfilling⟩ := leafFor_filling honce hmade
  refine ⟨leaf, ⟨song.beatmap, requested⟩, rfl, ?_, hanswers,
    planTerm_eq_ok_iff.mpr ⟨song, requested, hsong, hresolve, hfilling⟩⟩
  rw [termRequests, hsong]
  dsimp only
  rw [hresolve]

/-- What a step with a term plays where the song is filled: of what it plays once, what is on the
maps. -/
lemma planStep_filling {place : Place} {step : Step} (hterms : step.terms ≠ [])
    {stream stream' : Stream} {result : Option Plan}
    (h : stage.planStep place step stream = (.ok result, stream')) :
    ∃ plan, result = some plan ∧
      List.Forall₂ Leaf.Answers plan.leaves
        (stage.stepNotes stage.termRequests place step stream) ∧
      stage.filling.planStep place step stream =
        (.ok (plan.within (stage.stepNotes stage.termRequests place step stream)), stream') := by
  cases step with
  | single term =>
    obtain ⟨hmap, hstream⟩ := Prod.mk.inj h
    obtain ⟨leaf?, hterm, rfl⟩ := map_eq_ok_iff.mp hmap
    obtain ⟨leaf, request, rfl, hrequest, hanswers, hfilling⟩ :=
      planTerm_filling honce (Prod.ext hterm hstream)
    refine ⟨.single leaf, rfl, ?_, ?_⟩
    · rw [stepNotes, hrequest]
      exact .cons hanswers .nil
    · rw [planStep, hfilling, stepNotes, hrequest]
      rfl
  | mix mode parts =>
    obtain ⟨hmap, hstream⟩ := Prod.mk.inj h
    obtain ⟨leaves, hleaves, rfl⟩ := map_eq_ok_iff.mp hmap
    obtain ⟨hcount, hnotes, hfilling⟩ := collect_thinned
      (fun term _ stream result stream' hterm => planTerm_filling honce hterm)
      (Prod.ext hleaves hstream)
    have hne : ¬ leaves.isEmpty = true := by
      rw [List.isEmpty_iff_length_eq_zero, hcount, List.length_eq_zero_iff]
      exact hterms
    refine ⟨.mix mode leaves, if_neg hne, hnotes, ?_⟩
    · rw [planStep]
      dsimp only
      rw [hfilling]
      rfl

/-- What a cue plays where the song is filled: of what it plays once, what is on the maps. -/
lemma planCue_filling {cue : Cue} (hterms : cue.step.terms ≠ []) {cursor cursor' : Cursor}
    {result : Option Plan} (h : stage.planCue cue cursor = (.ok result, cursor')) :
    ∃ plan, result = some plan ∧
      List.Forall₂ Leaf.Answers plan.leaves (stage.cueNotes stage.termRequests cue cursor) ∧
      stage.filling.planCue cue cursor =
        (.ok (plan.within (stage.cueNotes stage.termRequests cue cursor)), cursor') := by
  obtain ⟨random, hstep, rfl⟩ := planCue_eq_ok_iff.mp h
  obtain ⟨plan, rfl, hanswers, hfilling⟩ := planStep_filling honce hterms hstep
  exact ⟨plan, rfl, hanswers, planCue_eq_ok_iff.mpr ⟨random, hfilling, rfl⟩⟩

end Filling

/-- **Filling a song with one tile is playing once what is on the maps.** Take a pattern of a text
that counts no step, or as many as the song has beats or more. If it can be planned where it plays
once, then where it fills the song it is planned alike, except that each leaf is left out for which
a beat number is looked up that is not on the map of its song, and so is each mix with no leaf
left. The cursor behind the plans is the same.

Each leaf of each plan goes with one beat number that is looked up, and is played on the beat that
this number is wrapped into.

**Proof sketch.** There is one repetition either way, and so the same cues are gone through. A term
draws the same random words, and its leaf is kept or left out. What is kept is the leaf that plays
once, since no number on a map is wrapped. -/
theorem plan_singleTile {stage : Stage} (honce : stage.repetition = .once) {text : String}
    {pattern : Pattern} (htext : Pattern.ofText text = .ok pattern)
    (hsize : pattern.size = 0 ∨ stage.primary.beatmap.beatCount ≤ pattern.size)
    {cursor last : Cursor} {plans : List Plan}
    (hplan : stage.plan pattern cursor = (.ok plans, last)) :
    List.Forall₂ (fun plan requests => List.Forall₂ Leaf.Answers plan.leaves requests) plans
        (stage.requestsByStep pattern cursor) ∧
      stage.filling.plan pattern cursor =
        (.ok (List.zipWith Plan.within plans (stage.requestsByStep pattern cursor)).reduceOption,
          last) := by
  have hrepetitions : stage.filling.repetitions pattern.size = stage.repetitions pattern.size := by
    rw [show stage.repetitions pattern.size = 1 by rw [repetitions, honce]]
    rcases Nat.eq_zero_or_pos pattern.size with hzero | hpos
    · rw [hzero]
      rfl
    · have hcover : stage.primary.beatmap.beatCount ≤ pattern.size := by omega
      rw [repetitions_of_fill rfl hpos]
      refine max_eq_left ((ceilDiv_le_iff_le_mul hpos).mpr ?_)
      rwa [Nat.mul_one]
  rw [plan, hrepetitions]
  refine (collect_thinned (f := stage.planCue) (fun cue hcue cursor result cursor' h => ?_) hplan).2
  have hstep := Pattern.step_mem_of_mem_cues hcue
  obtain ⟨plan, hresult, hanswers, hfilling⟩ :=
    planCue_filling honce (Pattern.terms_ne_nil_of_ofText htext _ hstep) h
  exact ⟨plan, _, hresult, rfl, hanswers, hfilling⟩

/-- A random beat, a mix of which one part is not on the map, and a mix of which no part is: one of
its parts is a beat of another song. -/
theorem plan_singleTile_three_steps :
    ∃ (stage : Stage) (pattern : Pattern) (plans filled : List Plan) (last : Cursor),
      stage.repetition = .once ∧ Pattern.ofText "@1_3,4;1,[b]5;9" = .ok pattern ∧
      stage.primary.beatmap.beatCount ≤ pattern.size ∧
      stage.plan pattern (.ofSeed 2) = (.ok plans, last) ∧
      plans.map (·.leaves.length) = [1, 2, 2] ∧ filled.map (·.leaves.length) = [1, 1] ∧
      List.Forall₂ (fun plan requests => List.Forall₂ Leaf.Answers plan.leaves requests) plans
        (stage.requestsByStep pattern (.ofSeed 2)) ∧
      stage.filling.plan pattern (.ofSeed 2) = (.ok filled, last) := by
  have htext : Pattern.ofText "@1_3,4;1,[b]5;9" = .ok
      ⟨[.single ⟨none, { ref := .random 1 3 1 }⟩,
        .mix .sum [⟨none, { ref := .literal 4 }⟩, ⟨none, { ref := .literal 1 }⟩],
        .mix .sum [⟨some "b", { ref := .literal 5 }⟩, ⟨none, { ref := .literal 9 }⟩]]⟩ := by
    decide +kernel
  have hplan : ∃ plans, (plan ⟨⟨⟨[[0, 1, 0]], 1⟩, ⟨[0, 1, 2, 3], 3⟩⟩,
      SongTable.empty.insert "b" ⟨⟨[[0, 0]], 1⟩, ⟨[0, 1, 2], 2⟩⟩, .once⟩
      ⟨[.single ⟨none, { ref := .random 1 3 1 }⟩,
        .mix .sum [⟨none, { ref := .literal 4 }⟩, ⟨none, { ref := .literal 1 }⟩],
        .mix .sum [⟨some "b", { ref := .literal 5 }⟩, ⟨none, { ref := .literal 9 }⟩]]⟩
      (.ofSeed 2)).1 = .ok plans ∧ plans.map (·.leaves.length) = [1, 2, 2] ∧
      (List.zipWith Plan.within plans (requestsByStep ⟨⟨⟨[[0, 1, 0]], 1⟩, ⟨[0, 1, 2, 3], 3⟩⟩,
        SongTable.empty.insert "b" ⟨⟨[[0, 0]], 1⟩, ⟨[0, 1, 2], 2⟩⟩, .once⟩
        ⟨[.single ⟨none, { ref := .random 1 3 1 }⟩,
          .mix .sum [⟨none, { ref := .literal 4 }⟩, ⟨none, { ref := .literal 1 }⟩],
          .mix .sum [⟨some "b", { ref := .literal 5 }⟩, ⟨none, { ref := .literal 9 }⟩]]⟩
        (.ofSeed 2))).reduceOption.map (·.leaves.length) = [1, 1] :=
    ⟨[.single (.extract none ⟨[[0, 1, 0]], 1⟩ 2 3 []),
      .mix .sum [.extract none ⟨[[0, 1, 0]], 1⟩ 1 2 [], .extract none ⟨[[0, 1, 0]], 1⟩ 0 1 []],
      .mix .sum [.extract (some "b") ⟨[[0, 0]], 1⟩ 0 1 [], .extract none ⟨[[0, 1, 0]], 1⟩ 0 1 []]],
      by decide +kernel⟩
  obtain ⟨plans, hplans, hlengths, hfilled⟩ := hplan
  obtain ⟨hanswers, hfill⟩ :=
    plan_singleTile rfl htext (.inr (by decide)) (Prod.ext hplans rfl)
  exact ⟨_, _, plans, _, _, rfl, htext, by decide, Prod.ext hplans rfl, hlengths, hfilled, hanswers,
    hfill⟩

end Stage

end Arranger
