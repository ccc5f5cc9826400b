import Arranger.Pattern.Compiling
import Arranger.Proofs.Fallible
import Arranger.Proofs.Plan.References
import Arranger.Proofs.Plan.Room

/-!
# A step between others

A step that does not count, has no group and draws no random number can be put between the steps of
a pattern without disturbing them: they are played in the same order, for the same beats and from
the same random words. Only steps that name positions would notice that one more step is played.

## Main definitions

* `Arranger.Stage.planBySlot` — the plans of a pattern, each with the slot of its step.

## Main results

* `Arranger.collect_filter` — members that leave the others alone.
* `Arranger.Stage.plan_eq_planBySlot` — the plans of a pattern are those that come with the slots.
* `Arranger.Stage.plan_insertIdx` — the plan of steps with another between them.
-/

namespace Arranger

/-! ## Plans with the slots of their steps -/

section Collecting

variable {α β γ σ ε : Type} {f : α → σ → Except ε (Option β) × σ}

/-- What is collected if something is made of each result. -/
lemma collect_mapResult {g : α → σ → Except ε (Option γ) × σ} (made : β → γ)
    (h : ∀ x state, g x state = ((f x state).1.map (Option.map made), (f x state).2)) (xs : List α)
    (state : σ) :
    collect g xs state = ((collect f xs state).1.map (List.map made), (collect f xs state).2) := by
  induction xs generalizing state with
  | nil => rfl
  | cons x xs ih =>
    rw [collect, collect, h]
    rcases f x state with ⟨_ | result, state'⟩
    · rfl
    · dsimp only [Except.map]
      rw [ih]
      rcases collect f xs state' with ⟨_ | results, last⟩
      · rfl
      · cases result <;> rfl

/-- Members that leave the state alone leave it alone together. -/
lemma collect_state {xs : List α} (h : ∀ x ∈ xs, ∀ state, (f x state).2 = state) (state : σ) :
    (collect f xs state).2 = state := by
  induction xs with
  | nil => rfl
  | cons x xs ih =>
    rw [List.forall_mem_cons] at h
    have hx := h.1 state
    have hxs := ih h.2
    rw [collect]
    rcases hfirst : f x state with ⟨_ | result, state'⟩
    · rwa [hfirst] at hx
    · rw [hfirst] at hx
      rw [← show state' = state from hx] at hxs ⊢
      dsimp only
      rcases hrest : collect f xs state' with ⟨_ | results, last⟩
      · rwa [hrest] at hxs
      · rwa [hrest] at hxs

/-- **Members that leave the others alone.** Some members are left out. Those do not change the part
of the state on which the results of the others depend, and so these are collected from the others
alone.

**Proof sketch.** By induction on the list. The run without the members is in a state with the same
part whenever it comes to one of the others. -/
lemma collect_filter {ρ : Type} (part : σ → ρ) {keep : α → Bool} {kept : β → Bool} {xs : List α}
    (hskip : ∀ x ∈ xs, keep x = false → ∀ state, part (f x state).2 = part state)
    (hkeep : ∀ x ∈ xs, keep x = true → ∀ state other, part state = part other →
      (f x state).1 = (f x other).1 ∧ part (f x state).2 = part (f x other).2)
    (hkept : ∀ x state result, (f x state).1 = .ok (some result) → kept result = keep x)
    {state other last : σ} {ys : List β} (hpart : part state = part other)
    (hrun : collect f xs state = (.ok ys, last)) :
    ∃ last', collect f (xs.filter keep) other = (.ok (ys.filter kept), last') ∧
      part last' = part last := by
  induction xs generalizing state other ys with
  | nil =>
    cases hrun
    exact ⟨other, rfl, hpart.symm⟩
  | cons x xs ih =>
    rw [List.forall_mem_cons] at hskip hkeep
    rw [collect] at hrun
    split at hrun
    · cases hrun
    · next result state' hfirst =>
      split at hrun
      · cases hrun
      · next results last' hrest =>
        cases hrun
        have hresult : result.toList.filter kept = if keep x then result.toList else [] := by
          cases result with
          | none => simp
          | some result => simp [List.filter_cons, hkept x state result (by rw [hfirst])]
        rw [List.filter_append, hresult]
        cases hx : keep x with
        | false =>
          have hafter := hskip.1 hx state
          rw [hfirst] at hafter
          rw [List.filter_cons_of_neg (by simp [hx])]
          exact ih hskip.2 hkeep.2 (hafter.trans hpart) hrest
        | true =>
          obtain ⟨hsame, hafter⟩ := hkeep.1 hx state other hpart
          rw [hfirst] at hsame hafter
          obtain ⟨last', hothers, hlast⟩ := ih hskip.2 hkeep.2 hafter hrest
          have hfirst' : f x other = (.ok result, (f x other).2) := Prod.ext hsame.symm rfl
          refine ⟨last', ?_, hlast⟩
          rw [List.filter_cons_of_pos hx, collect, hfirst']
          dsimp only
          rw [hothers]
          rfl

end Collecting

/-- The steps as they are due in each of `count` repetitions of an order of play, each with its
slot. -/
def Pattern.slotCues (pattern : Pattern) (count : ℕ) (order : List ℕ) : List (ℕ × Cue) :=
  (List.range count).flatMap fun k => order.filterMap fun slot =>
    pattern.steps[slot]?.map fun step =>
      (slot, ⟨step, pattern.size, Binary.ofNat (k * pattern.size)⟩)

/-- The cues are those of the steps in the order of play. -/
lemma Pattern.map_snd_slotCues (pattern : Pattern) (count : ℕ) (order : List ℕ) :
    (pattern.slotCues count order).map Prod.snd =
      Stage.cues pattern.size count (order.filterMap (pattern.steps[·]?)) := by
  rw [slotCues, Stage.cues, List.map_flatMap]
  refine List.flatMap_congr fun k _ => ?_
  rw [List.map_filterMap, List.map_filterMap]
  refine List.filterMap_congr fun slot _ => ?_
  rw [Option.map_map]
  rfl

/-- A cue of a slot plays the step of the slot. -/
lemma Pattern.getElem?_of_mem_slotCues {pattern : Pattern} {count : ℕ} {order : List ℕ}
    {due : ℕ × Cue} (h : due ∈ pattern.slotCues count order) :
    pattern.steps[due.1]? = some due.2.step := by
  obtain ⟨k, -, hdue⟩ := List.mem_flatMap.mp h
  obtain ⟨slot, -, hslot⟩ := List.mem_filterMap.mp hdue
  obtain ⟨step, hstep, rfl⟩ := Option.map_eq_some_iff.mp hslot
  exact hstep

namespace Stage

/-- What the cue of a slot plays, with the slot. -/
def planSlot (stage : Stage) (due : ℕ × Cue) (cursor : Cursor) :
    Except Fault (Option (ℕ × Plan)) × Cursor :=
  let (plan, cursor) := stage.planCue due.2 cursor
  (plan.map (Option.map (Prod.mk due.1)), cursor)

/-- The plans of a pattern from a cursor on, each with the slot of its step, and the cursor behind
them. -/
def planBySlot (stage : Stage) (pattern : Pattern) (cursor : Cursor) :
    Except Fault (List (ℕ × Plan)) × Cursor :=
  let (order, random) := pattern.playOrder cursor.random
  collect stage.planSlot (pattern.slotCues (stage.repetitions pattern.size) order)
    { cursor with random }

/-- Cues play the same without their slots. -/
lemma collect_planSlot (stage : Stage) (dues : List (ℕ × Cue)) (cursor : Cursor) :
    collect stage.planCue (dues.map Prod.snd) cursor =
      ((collect stage.planSlot dues cursor).1.map (List.map Prod.snd),
        (collect stage.planSlot dues cursor).2) := by
  have hslot : ∀ due cursor, stage.planCue (Prod.snd due) cursor =
      ((stage.planSlot due cursor).1.map (Option.map Prod.snd), (stage.planSlot due cursor).2) := by
    intro due cursor
    rw [planSlot]
    rcases stage.planCue due.2 cursor with ⟨_ | _ | plan, cursor'⟩ <;> rfl
  rw [collect_map, collect_mapResult Prod.snd hslot]

/-- The plans of a pattern are those that come with the slots. -/
lemma plan_eq_planBySlot (stage : Stage) (pattern : Pattern) (cursor : Cursor) :
    stage.plan pattern cursor =
      ((stage.planBySlot pattern cursor).1.map (List.map Prod.snd),
        (stage.planBySlot pattern cursor).2) := by
  rw [plan, Pattern.rearranged]
  dsimp only
  rw [← Pattern.map_snd_slotCues, collect_planSlot]
  rfl

/-- A plan comes with the slot of its cue. -/
lemma fst_of_planSlot {stage : Stage} {due : ℕ × Cue} {cursor : Cursor} {result : ℕ × Plan}
    (h : (stage.planSlot due cursor).1 = .ok (some result)) : result.1 = due.1 := by
  obtain ⟨plan, -, hplan⟩ := map_eq_ok_iff.mp h
  obtain ⟨plan, -, rfl⟩ := Option.map_eq_some_iff.mp hplan
  rfl

/-- A step without position references does not notice how many steps were played before. -/
lemma planCue_position {stage : Stage} {cue : Cue}
    (hrefs : ∀ term ∈ cue.step.terms, ∀ offset, term.beat.ref ≠ .position offset)
    {cursor other : Cursor} (halike : cursor.random = other.random) :
    (stage.planCue cue cursor).1 = (stage.planCue cue other).1 ∧
      (stage.planCue cue cursor).2.random = (stage.planCue cue other).2.random := by
  have hsame : ∀ term ∈ cue.step.terms, ∀ beatCount stream,
      (id term.beat.ref).resolve ⟨cue.size, cue.offset, cursor.position⟩ beatCount stream =
        term.beat.ref.resolve ⟨cue.size, cue.offset, other.position⟩ beatCount stream := by
    intro term hterm beatCount stream
    cases href : term.beat.ref with
    | literal number => rfl
    | position offset => exact absurd href (hrefs term hterm offset)
    | random low high step => rfl
  have hstep : stage.planStep ⟨cue.size, cue.offset, cursor.position⟩ (cue.step.mapRefs id)
      other.random = stage.planStep ⟨cue.size, cue.offset, other.position⟩ cue.step other.random :=
    planStep_mapRefs (by rintro -; rfl) hsame other.random
  rw [Step.mapRefs_id] at hstep
  rw [planCue, planCue, halike, hstep]
  rcases stage.planStep _ cue.step other.random with ⟨_ | plan, random⟩
  · exact ⟨rfl, rfl⟩
  · exact ⟨rfl, rfl⟩

/-- A term with a literal reference draws no random number. -/
lemma stream_planTerm_of_literal {stage : Stage} {place : Place} {term : Term} {number : Double}
    (hliteral : term.beat.ref = .literal number) (stream : Stream) :
    (stage.planTerm place term stream).2 = stream := by
  rw [planTerm, hliteral]
  cases stage.songOf term <;> rfl

/-- A step with literal references only draws no random number. -/
lemma stream_planStep_of_literal {stage : Stage} {place : Place} {step : Step}
    (hliteral : ∀ term ∈ step.terms, ∃ number, term.beat.ref = .literal number) (stream : Stream) :
    (stage.planStep place step stream).2 = stream := by
  cases step with
  | single term =>
    obtain ⟨number, hnumber⟩ := hliteral term (List.mem_singleton_self term)
    exact stream_planTerm_of_literal hnumber stream
  | mix mode parts =>
    refine collect_state (fun term hterm stream => ?_) stream
    obtain ⟨number, hnumber⟩ := hliteral term hterm
    exact stream_planTerm_of_literal hnumber stream

/-- A cue with literal references only draws no random number. -/
lemma random_planCue_of_literal {stage : Stage} {cue : Cue}
    (hliteral : ∀ term ∈ cue.step.terms, ∃ number, term.beat.ref = .literal number)
    (cursor : Cursor) : (stage.planCue cue cursor).2.random = cursor.random := by
  have hstep : (stage.planStep ⟨cue.size, cue.offset, cursor.position⟩ cue.step
      cursor.random).2 = cursor.random := stream_planStep_of_literal hliteral cursor.random
  rw [planCue]
  rcases hplanned : stage.planStep _ cue.step cursor.random with ⟨_ | plan, random⟩
  · rwa [hplanned] at hstep
  · rwa [hplanned] at hstep

/-- What is due in the order of play around a place, apart from the step in it, is what is due
without it. -/
lemma filter_slotCues_insertIdx {pattern : Pattern} {step : Step} {place : ℕ}
    (hsize : Pattern.size ⟨pattern.steps.insertIdx place step⟩ = pattern.size)
    (count : ℕ) (order : List ℕ) :
    (Pattern.slotCues ⟨pattern.steps.insertIdx place step⟩ count
        (makeRoom place order)).filter (·.1 ≠ place) =
      (pattern.slotCues count order).map (Prod.map (shiftFrom place) id) := by
  rw [Pattern.slotCues, Pattern.slotCues, List.filter_flatMap, List.map_flatMap, hsize]
  refine List.flatMap_congr fun k _ => ?_
  rw [List.filter_filterMap, makeRoom, filterMap_insertIdx (by simp), List.filterMap_map,
    List.map_filterMap]
  refine List.filterMap_congr fun slot _ => ?_
  rw [Function.comp_apply, getElem?_insertIdx_shiftFrom]
  cases pattern.steps[slot]? with
  | none => rfl
  | some other => simp [shiftFrom_ne]

section Insertion

variable {stage : Stage} {pattern : Pattern} {step : Step} {place : ℕ}

/-- The step in the place draws no random number. -/
lemma random_planSlot_of_place (hplace : place ≤ pattern.steps.length)
    (hliteral : ∀ term ∈ step.terms, ∃ number, term.beat.ref = .literal number) {count : ℕ}
    {order : List ℕ} {due : ℕ × Cue}
    (hdue : due ∈ Pattern.slotCues ⟨pattern.steps.insertIdx place step⟩ count order)
    (hslot : due.1 = place) (cursor : Cursor) :
    (stage.planSlot due cursor).2.random = cursor.random := by
  have hstep := Pattern.getElem?_of_mem_slotCues hdue
  rw [hslot, List.getElem?_insertIdx_self, if_pos hplace] at hstep
  cases hstep
  exact random_planCue_of_literal hliteral cursor

/-- The steps around the place do not notice how many steps were played before. -/
lemma planSlot_position (hrefs : ∀ term ∈ pattern.terms, ∀ offset,
    term.beat.ref ≠ .position offset) {count : ℕ} {order : List ℕ} {due : ℕ × Cue}
    (hdue : due ∈ Pattern.slotCues ⟨pattern.steps.insertIdx place step⟩ count order)
    (hslot : due.1 ≠ place) {cursor other : Cursor} (halike : cursor.random = other.random) :
    (stage.planSlot due cursor).1 = (stage.planSlot due other).1 ∧
      (stage.planSlot due cursor).2.random = (stage.planSlot due other).2.random := by
  have hmem := Pattern.mem_steps_of_insertIdx (Pattern.getElem?_of_mem_slotCues hdue) hslot
  have hcue : ∀ term ∈ due.2.step.terms, ∀ offset, term.beat.ref ≠ .position offset :=
    fun term hterm => hrefs term (List.mem_flatMap.mpr ⟨due.2.step, hmem, hterm⟩)
  have hsame : (stage.planCue due.2 cursor).1 = (stage.planCue due.2 other).1 ∧
      (stage.planCue due.2 cursor).2.random = (stage.planCue due.2 other).2.random :=
    planCue_position hcue halike
  exact ⟨congrArg (Except.map (Option.map (Prod.mk due.1))) hsame.1, hsame.2⟩

end Insertion

/-- **A step between others.** Put a step that does not count, has no group and has literal
references only between the steps of a pattern that has no position references. If the longer
pattern can be planned, then the plans that do not come of the step in its place are those of the
pattern without it, and the same random words are drawn.

**Proof sketch.** The size of the pattern is the same, and so is the number of repetitions. The
slots behind the place are shifted by one, and so the shuffles exchange the same steps. The longer
pattern plays what the shorter one does, with the step in its place once in each repetition: there
it changes only the number of steps that were played. -/
theorem plan_insertIdx {stage : Stage} {pattern : Pattern} {place : ℕ}
    (hplace : place ≤ pattern.steps.length) {step : Step}
    (hliteral : ∀ term ∈ step.terms, ∃ number, term.beat.ref = .literal number)
    (hcounts : step.counts = false) (hgroup : step.group? = none)
    (hrefs : ∀ term ∈ pattern.terms, ∀ offset, term.beat.ref ≠ .position offset)
    {cursor last' : Cursor} {plans' : List Plan}
    (hplan' : stage.plan ⟨pattern.steps.insertIdx place step⟩ cursor = (.ok plans', last')) :
    ∃ sourced last,
      stage.planBySlot ⟨pattern.steps.insertIdx place step⟩ cursor = (.ok sourced, last') ∧
      plans' = sourced.map Prod.snd ∧
      stage.plan pattern cursor = (.ok ((sourced.filter (·.1 ≠ place)).map Prod.snd), last) ∧
      last.random = last'.random := by
  have hsize := pattern.size_insertIdx hcounts place
  rw [plan_eq_planBySlot] at hplan'
  obtain ⟨hmap, hlast⟩ := Prod.mk.inj hplan'
  obtain ⟨sourced, hsourced, rfl⟩ := map_eq_ok_iff.mp hmap
  have hrun : stage.planBySlot ⟨pattern.steps.insertIdx place step⟩ cursor =
      (.ok sourced, last') := Prod.ext hsourced hlast
  have hcollect := hrun
  rw [planBySlot, pattern.playOrder_insertIdx hgroup hplace, hsize] at hcollect
  obtain ⟨last, hothers, hrandom⟩ := collect_filter Cursor.random
    (fun due hdue hslot state =>
      random_planSlot_of_place hplace hliteral hdue (by simpa using hslot) state)
    (fun due hdue hslot state other halike =>
      planSlot_position hrefs hdue (of_decide_eq_true hslot) halike)
    (fun due state result hresult => congrArg (fun slot => decide (slot ≠ place))
      (fst_of_planSlot hresult))
    rfl hcollect
  refine ⟨sourced, last, hrun, rfl, ?_, hrandom⟩
  have hcues : ((Pattern.slotCues ⟨pattern.steps.insertIdx place step⟩
      (stage.repetitions pattern.size) (makeRoom place (pattern.playOrder cursor.random).1)).filter
        fun due => decide (due.1 ≠ place)).map Prod.snd =
      cues pattern.size (stage.repetitions pattern.size) (pattern.rearranged cursor.random).1 := by
    rw [filter_slotCues_insertIdx hsize, List.map_map]
    exact pattern.map_snd_slotCues _ _
  rw [plan]
  dsimp only
  rw [← hcues]
  exact (collect_planSlot stage _ _).trans
    (congrArg (fun run => (run.1.map (List.map Prod.snd), run.2)) hothers)

/-- A group whose members change places around the step, and a random beat. The song of five beats
is filled in two repetitions, where the last random beat is off its end. -/
theorem plan_insertIdx_three_steps :
    ∃ (stage : Stage) (pattern : Pattern) (step : Step) (plans' : List Plan) (last' : Cursor),
      stage.repetition = .fill ∧ Pattern.ofText "1#x,@1_3,2#x" = .ok pattern ∧
      Pattern.ofText "1#x,2?,@1_3,2#x" = .ok ⟨pattern.steps.insertIdx 1 step⟩ ∧
      stage.plan ⟨pattern.steps.insertIdx 1 step⟩ (.ofSeed 3) = (.ok plans', last') ∧
      plans'.length = 7 ∧
      ∃ sourced last,
        stage.planBySlot ⟨pattern.steps.insertIdx 1 step⟩ (.ofSeed 3) = (.ok sourced, last') ∧
        plans' = sourced.map Prod.snd ∧
        stage.plan pattern (.ofSeed 3) = (.ok ((sourced.filter (·.1 ≠ 1)).map Prod.snd), last) ∧
        last.random = last'.random := by
  have htext : Pattern.ofText "1#x,@1_3,2#x" = .ok
      ⟨[.single ⟨none, { ref := .literal 1, group := some "x" }⟩,
        .single ⟨none, { ref := .random 1 3 1 }⟩,
        .single ⟨none, { ref := .literal 2, group := some "x" }⟩]⟩ := by
    decide +kernel
  have htext' : Pattern.ofText "1#x,2?,@1_3,2#x" = .ok
      ⟨[.single ⟨none, { ref := .literal 1, group := some "x" }⟩,
        .single ⟨none, { ref := .literal 2, uncounted := true }⟩,
        .single ⟨none, { ref := .random 1 3 1 }⟩,
        .single ⟨none, { ref := .literal 2, group := some "x" }⟩]⟩ := by
    decide +kernel
  have hplan' : ∃ plans', (plan ⟨⟨⟨[List.replicate 5 0], 1⟩, ⟨List.range 6, 5⟩⟩, .empty, .fill⟩
      ⟨[.single ⟨none, { ref := .literal 1, group := some "x" }⟩,
        .single ⟨none, { ref := .literal 2, uncounted := true }⟩,
        .single ⟨none, { ref := .random 1 3 1 }⟩,
        .single ⟨none, { ref := .literal 2, group := some "x" }⟩]⟩ (.ofSeed 3)).1 = .ok plans' ∧
      plans'.length = 7 :=
    ⟨[(1, 2), (1, 2), (2, 3), (0, 1), (4, 5), (4, 5), (3, 4)].map fun window =>
      .single (.extract none ⟨[List.replicate 5 0], 1⟩ window.1 window.2 []), by decide +kernel⟩
  have hrefs : ∀ term ∈ Pattern.terms
      ⟨[.single ⟨none, { ref := .literal 1, group := some "x" }⟩,
        .single ⟨none, { ref := .random 1 3 1 }⟩,
        .single ⟨none, { ref := .literal 2, group := some "x" }⟩]⟩,
      ∀ offset, term.beat.ref ≠ .position offset := by
    simp [Pattern.terms, Step.terms]
  obtain ⟨plans', hplans', hlength⟩ := hplan'
  exact ⟨_, _, .single ⟨none, { ref := .literal 2, uncounted := true }⟩, plans', _, rfl, htext,
    htext', Prod.ext hplans' rfl, hlength,
    plan_insertIdx (by decide) (by simp [Step.terms]) (by decide) rfl hrefs
      (Prod.ext hplans' rfl)⟩

end Stage

end Arranger
