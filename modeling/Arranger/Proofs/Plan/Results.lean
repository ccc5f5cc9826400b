import Mathlib.Data.Int.Notation
import Mathlib.Data.List.Forall2
import Mathlib.Data.Nat.Notation
import Arranger.Plan.Planning
import Arranger.Proofs.Fallible

/-!
# When planning succeeds

Planning is a chain of computations that may fail, each of which goes on from where the one before
it has left off. What is known of a chain that succeeds, and of one that fails, is known of its
links.

## Main results

* `Arranger.collect_cons_eq_ok_iff` — when a list is collected.
* `Arranger.exists_split_of_collect_error` — a list fails at the first member that does.
* `Arranger.count_of_collect` — a count that goes up by one with each member.
* `Arranger.collect_of_forall₂` — two lists that are collected in step.
* `Arranger.movedStep?_eq_some_iff` — when the number of a step can be moved.
* `Arranger.BeatRef.resolve_of_not_random` — only a random reference takes words of the stream.
* `Arranger.Stage.source_of_songOf` — the song of a term.
* `Arranger.Stage.planTerm_eq_ok_iff`, `planStep_mix_eq_ok_iff`, `planCue_eq_ok_iff` — when a term,
  a mix and a cue are planned.
* `Arranger.Stage.position_of_planCue` — every step that is planned is counted.
-/

namespace Arranger

/-! ## Collecting -/

section Collecting

variable {α β σ ε : Type} {f : α → σ → Except ε (Option β) × σ} {xs : List α} {ys : List β}
  {state last : σ}

/-- A list is collected if its first member succeeds and the others are collected behind it. -/
lemma collect_cons_eq_ok_iff {x : α} :
    collect f (x :: xs) state = (.ok ys, last) ↔
      ∃ result middle results, f x state = (.ok result, middle) ∧
        collect f xs middle = (.ok results, last) ∧ result.toList ++ results = ys := by
  rw [collect]
  constructor
  · intro h
    split at h
    · cases h
    · next result middle hfirst =>
      split at h
      · cases h
      · next results last' hrest =>
        cases h
        exact ⟨result, middle, results, hfirst, hrest, rfl⟩
  · rintro ⟨result, middle, results, hfirst, hrest, rfl⟩
    rw [hfirst]
    dsimp only
    rw [hrest]

/-- **A list fails at the first member that does**: those before it are collected. -/
lemma exists_split_of_collect_error {fault : ε} (h : collect f xs state = (.error fault, last)) :
    ∃ before x after results middle, xs = before ++ x :: after ∧
      collect f before state = (.ok results, middle) ∧ f x middle = (.error fault, last) := by
  induction xs generalizing state with
  | nil => cases h
  | cons x xs ih =>
    rw [collect] at h
    split at h
    · next fault' state' hfirst =>
      cases h
      exact ⟨[], x, xs, [], state, rfl, rfl, hfirst⟩
    · next result state' hfirst =>
      split at h
      · next fault' state'' hrest =>
        cases h
        obtain ⟨before, x', after, results, middle, rfl, hbefore, hfails⟩ := ih hrest
        exact ⟨x :: before, x', after, _, middle, rfl,
          collect_cons_eq_ok_iff.mpr ⟨result, state', results, hfirst, hbefore, rfl⟩, hfails⟩
      · cases h

/-- A count that every member raises by one is raised by the length of the list. -/
lemma count_of_collect (count : σ → ℕ) (hrun : collect f xs state = (.ok ys, last))
    (h : ∀ x state result state', f x state = (.ok result, state') →
      count state' = count state + 1) :
    count last = count state + xs.length := by
  induction xs generalizing state ys with
  | nil =>
    cases hrun
    rfl
  | cons x xs ih =>
    obtain ⟨result, middle, results, hfirst, hrest, -⟩ := collect_cons_eq_ok_iff.mp hrun
    have hfirstCount := h x state result middle hfirst
    have hrestCount := ih hrest
    rw [List.length_cons]
    omega

/-- **Members with related results are collected in step**, if the second of a pair succeeds
wherever the first one does and leaves the same state. -/
lemma collect_of_forall₂ {α' β' : Type} {g : α' → σ → Except ε (Option β') × σ}
    {Q : β → β' → Prop} {xs' : List α'}
    (h : List.Forall₂ (fun x x' => ∀ state result last, f x state = (.ok result, last) →
      ∃ result', g x' state = (.ok result', last) ∧ Option.Rel Q result result') xs xs')
    (hrun : collect f xs state = (.ok ys, last)) :
    ∃ ys', collect g xs' state = (.ok ys', last) ∧ List.Forall₂ Q ys ys' := by
  induction h generalizing state ys with
  | nil =>
    cases hrun
    exact ⟨[], rfl, .nil⟩
  | cons hfirst _ ih =>
    obtain ⟨result, middle, results, hrunFirst, hrunRest, rfl⟩ := collect_cons_eq_ok_iff.mp hrun
    obtain ⟨result', hfirst', hresult⟩ := hfirst _ _ _ hrunFirst
    obtain ⟨results', hrest', hresults⟩ := ih hrunRest
    refine ⟨result'.toList ++ results',
      collect_cons_eq_ok_iff.mpr ⟨result', middle, results', hfirst', hrest', rfl⟩, ?_⟩
    cases hresult with
    | none => exact hresults
    | some hresult => exact .cons hresult hresults

end Collecting

/-! ## References -/

/-- **When the number of a step can be moved**: the position and the moved number are in range. -/
lemma movedStep?_eq_some_iff {position : ℕ} {offset number : ℤ} :
    movedStep? position offset = some number ↔
      number = position + 1 + offset ∧ position < maxStepNumber ∧
        -(maxStepNumber : ℤ) - 1 ≤ number ∧ number ≤ maxStepNumber := by
  simp only [movedStep?, stepNumber?, bind, Option.bind_eq_some_iff, Option.ite_none_right_eq_some,
    Option.some.injEq]
  constructor
  · rintro ⟨_, ⟨hposition, rfl⟩, _, ⟨hnumber, rfl⟩, hmoved, rfl⟩
    omega
  · rintro ⟨rfl, hposition, hlow, hhigh⟩
    exact ⟨position, by omega, position + 1, by omega, ⟨hlow, hhigh⟩, rfl⟩

/-- The largest number is one more than the largest position. -/
example : movedStep? 0 9223372036854775806 = some 9223372036854775807 ∧
    movedStep? 1 9223372036854775807 = none ∧ movedStep? 9223372036854775807 (-9) = none := by
  decide

/-- The number of a step that is not among the last can be moved by any offset that can be
written. -/
lemma movedStep?_of_le {position : ℕ} {offset : ℤ} (hoffset : offset.natAbs ≤ maxOffset)
    (hposition : position + 1 + maxOffset ≤ maxStepNumber) :
    movedStep? position offset = some (position + 1 + offset) := by
  have hmax : maxOffset ≤ maxStepNumber := by decide
  exact movedStep?_eq_some_iff.mpr ⟨rfl, by omega, by omega, by omega⟩

/-- A position stands for the moved number of its step. -/
lemma BeatRef.resolve_position {place : Place} {offset number : ℤ}
    (h : movedStep? place.position offset = some number) (beatCount : ℕ) (stream : Stream) :
    (position offset).resolve place beatCount stream = (.ok (Binary.ofInt number), stream) := by
  rw [resolve, h]

/-- Only a random reference takes words of the stream. -/
lemma BeatRef.resolve_of_not_random {ref : BeatRef}
    (href : ∀ low high step, ref ≠ .random low high step) (place : Place) (beatCount : ℕ) :
    ∃ outcome, ∀ stream, ref.resolve place beatCount stream = (outcome, stream) := by
  cases ref with
  | literal number => exact ⟨_, fun _ => rfl⟩
  | position offset =>
    cases hnumber : movedStep? place.position offset with
    | none => exact ⟨_, fun stream => by rw [resolve, hnumber]⟩
    | some number => exact ⟨_, resolve_position hnumber beatCount⟩
  | random low high step => exact absurd rfl (href low high step)

/-! ## Songs -/

/-- A table with one song. -/
lemma SongTable.get?_insert_empty (name other : String) (song : Song) :
    (empty.insert name song).get? other = if other = name then some song else none := by
  show List.lookup other [(name, song)] = _
  by_cases heq : other = name
  · simp [heq]
  · simp [heq, List.lookup_cons, beq_false_of_ne heq]

namespace Stage

variable {stage : Stage}

/-- **The song of a term** is the one that its alias has in the table, and without an alias the
primary one. -/
lemma source_of_songOf {term : Term} {song : Song} (h : stage.songOf term = .ok song) :
    (term.source = none → song = stage.primary) ∧
      ∀ name, term.source = some name → stage.table.get? name = some song := by
  unfold songOf at h
  cases hsource : term.source with
  | none =>
    rw [hsource] at h
    cases h
    exact ⟨fun _ => rfl, by simp⟩
  | some name =>
    rw [hsource] at h
    dsimp only [SongTable.resolve] at h
    cases hget : stage.table.get? name with
    | none => rw [hget] at h; cases h
    | some other =>
      rw [hget] at h
      cases h
      refine ⟨by simp, fun name' hname => ?_⟩
      rw [← Option.some.inj hname]
      exact hget

/-- What is known of the songs on hand is known of the song of a term. -/
lemma forall_songOf {property : Song → Prop} (hprimary : property stage.primary)
    (htable : ∀ name song, stage.table.get? name = some song → property song) (term : Term)
    (song : Song) (h : stage.songOf term = .ok song) : property song := by
  obtain ⟨hnone, hsome⟩ := source_of_songOf h
  cases hsource : term.source with
  | none => exact hnone hsource ▸ hprimary
  | some name => exact htable name song (hsome name hsource)

/-! ## Terms and cues -/

/-- A term is planned if it has a song and a number, and the number has a leaf or none. -/
lemma planTerm_eq_ok_iff {place : Place} {term : Term} {random random' : Stream}
    {result : Option Leaf} :
    stage.planTerm place term random = (.ok result, random') ↔
      ∃ song requested, stage.songOf term = .ok song ∧
        term.beat.ref.resolve place song.beatmap.beatCount random = (.ok requested, random') ∧
        stage.leafFor place.size song term requested = .ok result := by
  rw [planTerm]
  constructor
  · intro h
    cases hsong : stage.songOf term with
    | error fault =>
      rw [hsong] at h
      cases h
    | ok song =>
      rw [hsong] at h
      obtain ⟨hbound, hrandom⟩ := Prod.mk.inj h
      obtain ⟨requested, hresolve, hleaf⟩ := bind_eq_ok_iff.mp hbound
      exact ⟨song, requested, rfl, Prod.ext hresolve hrandom, hleaf⟩
  · rintro ⟨song, requested, hsong, hresolve, hleaf⟩
    rw [hsong]
    dsimp only
    rw [hresolve]
    exact Prod.ext hleaf rfl

/-- A term that draws no random number is planned alike from any stream, and leaves it as it is. -/
lemma planTerm_of_not_random {term : Term}
    (href : ∀ low high step, term.beat.ref ≠ .random low high step) {place : Place}
    {random random' : Stream} {result : Option Leaf}
    (h : stage.planTerm place term random = (.ok result, random')) :
    random' = random ∧ ∀ other, stage.planTerm place term other = (.ok result, other) := by
  obtain ⟨song, requested, hsong, hresolve, hleaf⟩ := planTerm_eq_ok_iff.mp h
  obtain ⟨outcome, houtcome⟩ := BeatRef.resolve_of_not_random href place song.beatmap.beatCount
  rw [houtcome random] at hresolve
  cases hresolve
  exact ⟨rfl, fun other => planTerm_eq_ok_iff.mpr ⟨song, requested, hsong, houtcome other, hleaf⟩⟩

/-- A mix is planned if its parts are. -/
lemma planStep_mix_eq_ok_iff {place : Place} {mode : MixMode} {parts : List Term}
    {random random' : Stream} {result : Option Plan} :
    stage.planStep place (.mix mode parts) random = (.ok result, random') ↔
      ∃ leaves, collect (stage.planTerm { place with size := countedTerms parts }) parts random =
        (.ok leaves, random') ∧ mixOf? mode leaves = result := by
  rw [planStep]
  constructor
  · intro h
    obtain ⟨hmap, hrandom⟩ := Prod.mk.inj h
    obtain ⟨leaves, hleaves, hmix⟩ := map_eq_ok_iff.mp hmap
    exact ⟨leaves, Prod.ext hleaves hrandom, hmix⟩
  · rintro ⟨leaves, hleaves, rfl⟩
    rw [hleaves]
    rfl

/-- A cue is planned if its step is, and then it is counted. -/
lemma planCue_eq_ok_iff {cue : Cue} {cursor cursor' : Cursor} {result : Option Plan} :
    stage.planCue cue cursor = (.ok result, cursor') ↔
      ∃ random, stage.planStep ⟨cue.size, cue.offset, cursor.position⟩ cue.step cursor.random =
          (.ok result, random) ∧ cursor' = ⟨random, cursor.position + 1⟩ := by
  rw [planCue]
  constructor
  · intro h
    split at h
    · cases h
    · next plan random hstep =>
      cases h
      exact ⟨random, hstep, rfl⟩
  · rintro ⟨random, hstep, rfl⟩
    rw [hstep]

/-- **Every step that is planned is counted.** -/
lemma position_of_planCue {cue : Cue} {cursor cursor' : Cursor} {plan : Option Plan}
    (h : stage.planCue cue cursor = (.ok plan, cursor')) :
    cursor'.position = cursor.position + 1 := by
  obtain ⟨random, -, rfl⟩ := planCue_eq_ok_iff.mp h
  rfl

/-- A step that is not planned is not counted. -/
lemma position_of_planCue_error {cue : Cue} {cursor cursor' : Cursor} {fault : Fault}
    (h : stage.planCue cue cursor = (.error fault, cursor')) :
    cursor'.position = cursor.position := by
  rw [planCue] at h
  split at h
  · cases h
    rfl
  · cases h

end Stage

end Arranger
