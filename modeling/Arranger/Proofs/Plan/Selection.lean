import Arranger.Proofs.Pattern.Bounds
import Arranger.Proofs.Plan.Origins
import Arranger.Proofs.Plan.Visits

/-!
# No step is lost

Where a pattern plays once, every step has a plan and every part of a mix a leaf. Where it fills a
song, a part of them is left out in each repetition: the terms whose beat number is not on the map,
and the steps that have no other terms. So nothing is left out without a reason, and nothing comes
in.

## Main definitions

* `Arranger.Round` — one repetition of a pattern.

## Main results

* `Arranger.exists_rounds` — a list that runs in rounds, and what is kept of it.
* `Arranger.Stage.plan_selects` — which steps and parts have plans and leaves.
-/

namespace Arranger

/-- One repetition of a pattern: the steps that come up, and what is played. -/
structure Round where
  /-- The steps that come up. -/
  turns : List Turn
  /-- What is played. -/
  plans : List Plan

/-- A list that runs in rounds does so also in what there is for the members that are kept. -/
lemma exists_rounds {β ι : Type} {turns : List Turn} {plans : List Plan} {key : Turn → β}
    {row : ι → List β} {keep : Turn → Bool} {R : Turn → Plan → Prop} {indices : List ι}
    (hrows : turns.map key = indices.flatMap row)
    (hkept : List.Forall₂ R (turns.filter keep) plans) :
    ∃ rounds : List Round, rounds.flatMap Round.turns = turns ∧
      rounds.flatMap Round.plans = plans ∧
      List.Forall₂ (fun index round => round.turns.map key = row index ∧
        List.Forall₂ R (round.turns.filter keep) round.plans) indices rounds := by
  induction indices generalizing turns plans with
  | nil =>
    obtain rfl := List.map_eq_nil_iff.mp hrows
    cases hkept
    exact ⟨[], rfl, rfl, .nil⟩
  | cons index indices ih =>
    obtain ⟨first, others, rfl, hfirst, hothers⟩ := List.map_eq_append_iff.mp hrows
    rw [List.filter_append] at hkept
    set kept := first.filter keep
    have hkeptFirst := (List.forall₂_take_append _ _ _ hkept.flip).flip
    have hkeptOthers := (List.forall₂_drop_append _ _ _ hkept.flip).flip
    obtain ⟨rounds, rfl, hplans, hrounds⟩ := ih hothers hkeptOthers
    refine ⟨⟨first, plans.take kept.length⟩ :: rounds, rfl, ?_, .cons ⟨hfirst, hkeptFirst⟩ hrounds⟩
    rw [List.flatMap_cons, hplans, List.take_append_drop]

namespace Stage

variable {stage : Stage} {pattern : Pattern} {cursor last : Cursor} {plans : List Plan}

/-- No mix is without leaves. -/
lemma mix_nil_not_mem (hplan : stage.plan pattern cursor = (.ok plans, last)) (mode : MixMode) :
    Plan.mix mode [] ∉ plans := by
  intro hmem
  have hsome : List.SublistForall₂ (fun plan turn => turn.Yields stage plan) plans
      ((stage.turns pattern cursor).filter stage.hasPlayed) :=
    List.sublistForall₂_iff.mpr ⟨_, (plan_yields hplan).flip, .refl _⟩
  obtain ⟨turn, hturn, hyields⟩ := exists_of_mem_of_sublistForall₂ hsome _ hmem
  have hplayed := (List.mem_filter.mp hturn).2
  rw [hasPlayed, any_eq_of_forall₂_filter hyields.leaves] at hplayed
  cases hplayed

/-- In a pattern of a text, there is a term to visit at every turn. -/
lemma visitsAt_ne_nil {text : String} (htext : Pattern.ofText text = .ok pattern)
    (hplan : stage.plan pattern cursor = (.ok plans, last)) {turn : Turn}
    (hturn : turn ∈ stage.turns pattern cursor) : stage.visitsAt turn ≠ [] := by
  have hcue : turn.cue ∈ stage.cuesOf pattern cursor.random := by
    rw [← map_cue_turns hplan]
    exact List.mem_map_of_mem hturn
  have hterms := Pattern.terms_ne_nil_of_ofText htext _ (Pattern.step_mem_of_mem_cues hcue)
  rw [← map_term_visitsAt hplan hturn] at hterms
  exact fun hnil => hterms (by rw [hnil, List.map_nil])

/-- The steps come up in the order of play, over and over. -/
lemma map_step_turns (hplan : stage.plan pattern cursor = (.ok plans, last)) :
    (stage.turns pattern cursor).map (fun turn => turn.cue.step) =
      (List.range (stage.repetitions pattern.size)).flatMap
        fun _ => (pattern.rearranged cursor.random).1 := by
  have hcues := congrArg (List.map Cue.step) (map_cue_turns hplan)
  rw [List.map_map, cuesOf, cues, List.map_flatMap] at hcues
  simp only [List.map_map, Function.comp_def, List.map_id'] at hcues
  exact hcues

/-- **No step and no part is lost or invented.** Take a pattern of a text that is planned.

Where it plays once, its steps come up in the order of play, and there is one plan for each of them:
of a term a leaf, and of a mix a mix of the same mode with one leaf for each of its parts, in
written order. Where it fills a song, the plans fall into repetitions. In each of them the same
steps come up, and left out are only the terms whose beat number is not on the map of their song,
and the steps that have no other terms. Either way no mix is without leaves.

**Proof sketch.** A term plays a leaf unless the song is filled and its beat number is not on the
map. A step plays a leaf if one of its terms does, and a step of a text has a term. So it is known
of every turn whether there is a plan. -/
theorem plan_selects {text : String} (htext : Pattern.ofText text = .ok pattern)
    (hplan : stage.plan pattern cursor = (.ok plans, last)) :
    (∀ turn ∈ stage.turns pattern cursor,
        (stage.visitsAt turn).map Visit.term = turn.cue.step.terms) ∧
      (stage.repetition = .once →
        (stage.turns pattern cursor).map (fun turn => turn.cue.step) =
            (pattern.rearranged cursor.random).1 ∧
          List.Forall₂ (fun turn plan => turn.cue.step.SameKind plan ∧
              List.Forall₂ (Visit.Yields stage) (stage.visitsAt turn) plan.leaves)
            (stage.turns pattern cursor) plans) ∧
      (stage.repetition = .fill → ∃ rounds : List Round,
        rounds.length = stage.repetitions pattern.size ∧
          rounds.flatMap Round.turns = stage.turns pattern cursor ∧
          rounds.flatMap Round.plans = plans ∧
          ∀ round ∈ rounds,
            round.turns.map (fun turn => turn.cue.step) = (pattern.rearranged cursor.random).1 ∧
              List.Forall₂ (fun turn plan => turn.cue.step.SameKind plan ∧
                  List.Forall₂ (Visit.Yields stage)
                    ((stage.visitsAt turn).filter stage.isInside) plan.leaves)
                (round.turns.filter fun turn => (stage.visitsAt turn).any stage.isInside)
                round.plans) ∧
      ∀ mode, Plan.mix mode [] ∉ plans := by
  have hyields := plan_yields hplan
  refine ⟨fun turn hturn => map_term_visitsAt hplan hturn, fun honce => ?_, fun hfill => ?_,
    mix_nil_not_mem hplan⟩
  · have hplayed := isPlayed_of_once honce
    have hall : (stage.turns pattern cursor).filter stage.hasPlayed =
        stage.turns pattern cursor := by
      refine List.filter_eq_self.mpr fun turn hturn => ?_
      obtain ⟨visit, hvisit⟩ := List.exists_mem_of_ne_nil _ (visitsAt_ne_nil htext hplan hturn)
      exact List.any_eq_true.mpr ⟨visit, hvisit, by rw [hplayed]⟩
    rw [hall] at hyields
    refine ⟨?_, hyields.imp fun turn plan h => ⟨h.sameKind, ?_⟩⟩
    · rw [map_step_turns hplan, repetitions_eq_one (.inl honce), List.range_one,
        List.flatMap_singleton]
    · have hleaves := h.leaves
      rwa [hplayed, List.filter_true] at hleaves
  · have hplayed := isPlayed_of_fill hfill
    obtain ⟨rounds, hturns, hplans, hrounds⟩ := exists_rounds (map_step_turns hplan) hyields
    refine ⟨rounds, by rw [← hrounds.length_eq, List.length_range], hturns, hplans, ?_⟩
    intro round hround
    obtain ⟨k, -, hsteps, hkept⟩ := exists_of_mem_of_sublistForall₂
      (List.sublistForall₂_iff.mpr ⟨_, hrounds.flip, .refl _⟩) round hround
    unfold hasPlayed at hkept
    rw [hplayed] at hkept
    refine ⟨hsteps, hkept.imp fun turn plan h => ⟨h.sameKind, ?_⟩⟩
    have hleaves := h.leaves
    rwa [hplayed] at hleaves

/-- A mix with a part that is not on the map, and a second beat, which in the second repetition is
not on the map either. -/
theorem plan_selects_two_rounds :
    ∃ (stage : Stage) (pattern : Pattern) (plans : List Plan) (last : Cursor),
      Pattern.ofText "1;9,2" = .ok pattern ∧ stage.repetition = .fill ∧
        stage.plan pattern (.ofSeed 3) = (.ok plans, last) ∧ plans.length = 3 ∧
        ∃ rounds : List Round, rounds.length = 2 ∧ rounds.flatMap Round.plans = plans ∧
          ∀ round ∈ rounds,
            round.turns.map (fun turn => turn.cue.step) =
                (pattern.rearranged (Cursor.ofSeed 3).random).1 ∧
              List.Forall₂ (fun turn plan => turn.cue.step.SameKind plan ∧
                  List.Forall₂ (Visit.Yields stage)
                    ((stage.visitsAt turn).filter stage.isInside) plan.leaves)
                (round.turns.filter fun turn => (stage.visitsAt turn).any stage.isInside)
                round.plans := by
  have htext : Pattern.ofText "1;9,2" = .ok
      ⟨[.mix .sum [⟨none, { ref := .literal 1 }⟩, ⟨none, { ref := .literal 9 }⟩],
        .single ⟨none, { ref := .literal 2 }⟩]⟩ := by
    decide +kernel
  have hplan : (plan ⟨⟨⟨[[0, 1, 0]], 1⟩, ⟨[0, 1, 2, 3], 3⟩⟩, .empty, .fill⟩
      ⟨[.mix .sum [⟨none, { ref := .literal 1 }⟩, ⟨none, { ref := .literal 9 }⟩],
        .single ⟨none, { ref := .literal 2 }⟩]⟩ (.ofSeed 3)).1 =
      .ok [.mix .sum [.extract none ⟨[[0, 1, 0]], 1⟩ 0 1 []],
        .single (.extract none ⟨[[0, 1, 0]], 1⟩ 1 2 []),
        .mix .sum [.extract none ⟨[[0, 1, 0]], 1⟩ 2 3 []]] := by
    decide +kernel
  obtain ⟨-, -, hfill, -⟩ := plan_selects htext (Prod.ext hplan rfl)
  obtain ⟨rounds, hlength, -, hplans, hrounds⟩ := hfill rfl
  exact ⟨_, _, _, _, htext, rfl, Prod.ext hplan rfl, rfl, rounds, hlength.trans (by decide +kernel),
    hplans, hrounds⟩

end Stage

end Arranger
