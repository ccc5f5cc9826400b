import Arranger.Pattern.Compiling
import Arranger.Proofs.Plan.Twins

/-!
# Slices, effects and silence

A slice, an effect or a mark of silence changes what is heard of a beat. It does not change which
beat that is, and it has no effect on the steps around it: on their draws, on the positions and on
the faults.

## Main definitions

* `Arranger.Term.Redressed` — terms that differ in slices, effects and marks of silence only.

## Main results

* `Arranger.Stage.plan_redressed` — patterns of such terms are planned in step.
-/

namespace Arranger

/-- Terms that differ in their slices, effects and marks of silence only. -/
structure Term.Redressed (term other : Term) : Prop extends term.SameBeat other where
  /-- The aliases are the same. -/
  source_eq : other.source = term.source

namespace Stage

/-- Terms that differ in their slices, effects and marks of silence only have the same song. -/
lemma songOf_redressed (stage : Stage) {term other : Term} (h : term.Redressed other) :
    stage.songOf other = stage.songOf term := by
  rw [songOf, songOf, h.source_eq]

/-- **Slices, effects and marks of silence have an effect on their own leaves only.** Patterns of
one shape whose terms differ in these only are planned in step: both have the same fault, or plans
of one shape. The cursors behind them are the same, and leaves at the same place are of the same
beat of the same song, each with the slice, the effects and the mark of its own term. -/
theorem plan_redressed (stage : Stage) {pattern other : Pattern}
    (h : pattern.Rel Term.Redressed other) (cursor : Cursor) :
    EndAlike
      (InStep (fun cue cue' => Plan.Twin stage Term.Redressed cue.step cue'.step)
        (stage.cuesOf pattern cursor.random) (stage.cuesOf other cursor.random))
      (stage.plan pattern cursor) (stage.plan other cursor) :=
  plan_twin rfl rfl (fun _ _ h => ⟨h.toSameBeat, stage.songOf_redressed h⟩) h cursor

/-- Two shuffled beats and a mix with a random beat of another song, which fill three beats. Dressed
up, the first beat is halved, the second one is silent, and the mix has an effect and a silent
part. -/
theorem plan_redressed_three_beats :
    ∃ (stage : Stage) (pattern other : Pattern), stage.repetition = .fill ∧
      stage.primary.beatmap.beatCount = 3 ∧
      Pattern.ofText "1#a,2#a,[b]@1_2;i" = .ok pattern ∧
      Pattern.ofText "1>0.5#a,2!#a,[b]@1_2r;i!" = .ok other ∧
      pattern.Rel Term.Redressed other ∧
      EndAlike
        (InStep (fun cue cue' => Plan.Twin stage Term.Redressed cue.step cue'.step)
          (stage.cuesOf pattern (.ofSeed 3)) (stage.cuesOf other (.ofSeed 3)))
        (stage.plan pattern (.ofSeed 3)) (stage.plan other (.ofSeed 3)) := by
  have htext : Pattern.ofText "1#a,2#a,[b]@1_2;i" = .ok
      ⟨[.single ⟨none, { ref := .literal 1, group := some "a" }⟩,
        .single ⟨none, { ref := .literal 2, group := some "a" }⟩,
        .mix .sum [⟨some "b", { ref := .random 1 2 1 }⟩, ⟨none, { ref := .position 0 }⟩]]⟩ := by
    decide +kernel
  have hother : Pattern.ofText "1>0.5#a,2!#a,[b]@1_2r;i!" = .ok
      ⟨[.single ⟨none, { ref := .literal 1, slice := some (.head (1 / 2)), group := some "a" }⟩,
        .single ⟨none, { ref := .literal 2, silent := true, group := some "a" }⟩,
        .mix .sum [⟨some "b", { ref := .random 1 2 1, effects := [.reverse] }⟩,
          ⟨none, { ref := .position 0, silent := true }⟩]]⟩ := by
    decide +kernel
  have hrel : Pattern.Rel Term.Redressed
      ⟨[.single ⟨none, { ref := .literal 1, group := some "a" }⟩,
        .single ⟨none, { ref := .literal 2, group := some "a" }⟩,
        .mix .sum [⟨some "b", { ref := .random 1 2 1 }⟩, ⟨none, { ref := .position 0 }⟩]]⟩
      ⟨[.single ⟨none, { ref := .literal 1, slice := some (.head (1 / 2)), group := some "a" }⟩,
        .single ⟨none, { ref := .literal 2, silent := true, group := some "a" }⟩,
        .mix .sum [⟨some "b", { ref := .random 1 2 1, effects := [.reverse] }⟩,
          ⟨none, { ref := .position 0, silent := true }⟩]]⟩ :=
    .cons (.single ⟨⟨rfl, rfl, rfl⟩, rfl⟩) <| .cons (.single ⟨⟨rfl, rfl, rfl⟩, rfl⟩) <|
      .cons (.mix .sum (.cons ⟨⟨rfl, rfl, rfl⟩, rfl⟩ (.cons ⟨⟨rfl, rfl, rfl⟩, rfl⟩ .nil))) .nil
  have hplan := plan_redressed ⟨⟨⟨[[0, 0, 0]], 1⟩, ⟨[0, 1, 2, 3], 3⟩⟩,
    SongTable.empty.insert "b" ⟨⟨[[0, 0]], 1⟩, ⟨[0, 1, 2], 2⟩⟩, .fill⟩ hrel (.ofSeed 3)
  exact ⟨_, _, _, rfl, by decide, htext, hother, hrel, hplan⟩

end Stage

end Arranger
