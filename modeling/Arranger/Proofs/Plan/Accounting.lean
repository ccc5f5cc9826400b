import Arranger.Pattern.Compiling
import Arranger.Proofs.Plan.Order
import Arranger.Proofs.Plan.Results
import Arranger.Proofs.Plan.Tiling
import Arranger.Proofs.Plan.Twins

/-!
# Steps that are counted

The position goes up by one with each step that is planned, whether the step plays something or not.
So behind the plans it has gone up by the number of steps of all repetitions, and where planning
fails by the number of steps in front of the one that fails.

## Main results

* `Arranger.Stage.length_cuesOf` — the number of steps that are due.
* `Arranger.Stage.plan_accounts` — how far the position goes up.
-/

namespace Arranger.Stage

/-- The steps are due once in each repetition. -/
lemma length_cuesOf (stage : Stage) (pattern : Pattern) (stream : Stream) :
    (stage.cuesOf pattern stream).length =
      pattern.steps.length * stage.repetitions pattern.size := by
  rw [cuesOf, cues, List.length_flatMap]
  simp only [List.length_map, (pattern.rearranged_perm stream).length_eq, List.map_const',
    List.length_range, List.sum_replicate_nat]
  exact Nat.mul_comm _ _

/-- Steps that are planned raise the position by their number. -/
lemma position_of_collect {stage : Stage} {cues : List Cue} {cursor last : Cursor}
    {plans : List Plan} (h : collect stage.planCue cues cursor = (.ok plans, last)) :
    last.position = cursor.position + cues.length :=
  count_of_collect Cursor.position h fun _ _ _ _ hcue => position_of_planCue hcue

/-- **How far the position goes up.** A pattern has one repetition where it plays once or counts no
step. Where it fills a song, it has as many as it takes to cover the beats, and at least one.

Behind the plans, the position has gone up by the number of steps of all repetitions. Where planning
fails, there is a step that fails, and all steps in front of it are planned: the position has gone
up by their number, which is less.

**Proof sketch.** A step raises the position by one if it is planned and not at all if it fails. A
list of steps fails at the first that does. -/
theorem plan_accounts (stage : Stage) (pattern : Pattern) (cursor : Cursor) :
    (stage.repetition = .once ∨ pattern.size = 0 → stage.repetitions pattern.size = 1) ∧
      (stage.repetition = .fill → 0 < pattern.size →
        stage.repetitions pattern.size =
          max 1 (stage.primary.beatmap.beatCount ⌈/⌉ pattern.size)) ∧
      (∀ plans last, stage.plan pattern cursor = (.ok plans, last) →
        last.position =
          cursor.position + pattern.steps.length * stage.repetitions pattern.size) ∧
      ∀ fault last, stage.plan pattern cursor = (.error fault, last) →
        ∃ before cue after plans middle,
          stage.cuesOf pattern cursor.random = before ++ cue :: after ∧
            collect stage.planCue before
              { cursor with random := (pattern.rearranged cursor.random).2 } =
                (.ok plans, middle) ∧
            stage.planCue cue middle = (.error fault, last) ∧
            last.position = cursor.position + before.length ∧
            before.length < pattern.steps.length * stage.repetitions pattern.size := by
  have hlength := stage.length_cuesOf pattern cursor.random
  rw [plan_eq_collect]
  refine ⟨repetitions_eq_one, fun hfill hsize => repetitions_of_fill hfill hsize,
    fun plans last hplan => ?_, fun fault last hplan => ?_⟩
  · have hcount := position_of_collect hplan
    rwa [hlength] at hcount
  · obtain ⟨before, cue, after, plans, middle, hcues, hbefore, hfails⟩ :=
      exists_split_of_collect_error hplan
    rw [hcues, List.length_append, List.length_cons] at hlength
    have hcount := position_of_collect hbefore
    refine ⟨before, cue, after, plans, middle, hcues, hbefore, hfails, ?_, by omega⟩
    rw [position_of_planCue_error hfails, hcount]

/-- Two repetitions of two steps, of which the first is not on the map, and three steps of which the
second has no song. -/
theorem plan_accounts_two_runs :
    (∃ (stage : Stage) (pattern : Pattern) (plans : List Plan) (last : Cursor),
      Pattern.ofText "9,1" = .ok pattern ∧ stage.repetition = .fill ∧
        stage.primary.beatmap.beatCount = 3 ∧
        stage.plan pattern (.ofSeed 3) = (.ok plans, last) ∧ plans.length = 2 ∧
        stage.repetitions pattern.size =
          max 1 (stage.primary.beatmap.beatCount ⌈/⌉ pattern.size) ∧
        last.position = 0 + 2 * stage.repetitions pattern.size) ∧
      ∃ (stage : Stage) (pattern : Pattern) (last : Cursor),
        Pattern.ofText "1,[b]1,2" = .ok pattern ∧ stage.repetition = .once ∧
          stage.plan pattern (.ofSeed 3) = (.error (.unknownAlias "b"), last) ∧
          ∃ before cue after plans middle,
            stage.cuesOf pattern (Cursor.ofSeed 3).random = before ++ cue :: after ∧
              collect stage.planCue before
                ⟨(pattern.rearranged (Cursor.ofSeed 3).random).2, 0⟩ = (.ok plans, middle) ∧
              stage.planCue cue middle = (.error (.unknownAlias "b"), last) ∧
              last.position = 0 + before.length ∧
              before.length < 3 * stage.repetitions pattern.size := by
  have htext : Pattern.ofText "9,1" = .ok
      ⟨[.single ⟨none, { ref := .literal 9 }⟩, .single ⟨none, { ref := .literal 1 }⟩]⟩ := by
    decide +kernel
  have htext' : Pattern.ofText "1,[b]1,2" = .ok
      ⟨[.single ⟨none, { ref := .literal 1 }⟩, .single ⟨some "b", { ref := .literal 1 }⟩,
        .single ⟨none, { ref := .literal 2 }⟩]⟩ := by
    decide +kernel
  have hplan : (plan ⟨⟨⟨[[0, 1, 0]], 1⟩, ⟨[0, 1, 2, 3], 3⟩⟩, .empty, .fill⟩
      ⟨[.single ⟨none, { ref := .literal 9 }⟩, .single ⟨none, { ref := .literal 1 }⟩]⟩
      (.ofSeed 3)).1 = .ok [.single (.extract none ⟨[[0, 1, 0]], 1⟩ 0 1 []),
        .single (.extract none ⟨[[0, 1, 0]], 1⟩ 2 3 [])] := by
    decide +kernel
  have hfails : (plan ⟨⟨⟨[[0, 1, 0]], 1⟩, ⟨[0, 1, 2, 3], 3⟩⟩, .empty, .once⟩
      ⟨[.single ⟨none, { ref := .literal 1 }⟩, .single ⟨some "b", { ref := .literal 1 }⟩,
        .single ⟨none, { ref := .literal 2 }⟩]⟩ (.ofSeed 3)).1 = .error (.unknownAlias "b") := by
    decide +kernel
  obtain ⟨-, hrepetitions, hsucceeds, -⟩ := plan_accounts
    ⟨⟨⟨[[0, 1, 0]], 1⟩, ⟨[0, 1, 2, 3], 3⟩⟩, .empty, .fill⟩
    ⟨[.single ⟨none, { ref := .literal 9 }⟩, .single ⟨none, { ref := .literal 1 }⟩]⟩ (.ofSeed 3)
  exact ⟨⟨_, _, _, _, htext, rfl, rfl, Prod.ext hplan rfl, rfl,
      hrepetitions rfl (by decide +kernel), hsucceeds _ _ (Prod.ext hplan rfl)⟩,
    ⟨_, _, _, htext', rfl, Prod.ext hfails rfl,
      (plan_accounts _ _ _).2.2.2 _ _ (Prod.ext hfails rfl)⟩⟩

end Arranger.Stage
