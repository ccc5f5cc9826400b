import Arranger.Plan.Planning
import Arranger.Proofs.Pattern.Bounds
import Arranger.Proofs.Plan.Accounting
import Arranger.Proofs.Plan.Order
import Arranger.Proofs.Plan.Results

/-!
# What can go wrong in planning

Planning fails because of a single term. Either the table lacks its song, or it asks for a beat that
is not on the map of its song and that nothing stands for. Where a pattern fills a song such beats
are left out, and so the second can only happen to a reference that stands for no beat number at
all: a random one with nothing to choose from, or a position behind so many steps that its number is
too large. The text of a pattern has no reference of the first kind, and of the second only if there
are more steps to play than numbers.

## Main definitions

* `Arranger.BeatRef.Lost` — references that stand for no beat number.
* `Arranger.Stage.FailsOn` — the faults that a term can have.

## Main results

* `Arranger.Beatmap.containsBeat_of_wrapBeat` — what a beat number is wrapped into is on the map.
* `Arranger.BeatRef.Bounded.not_lost` — a reference that can be written stands for a beat number.
* `Arranger.Stage.exists_failsOn_of_plan` — a pattern fails because of a term.
-/

namespace Arranger

/-! ## Beats -/

namespace Beatmap

variable {map : Beatmap} {size : ℕ} {beat : Double}

/-- **What a beat number is wrapped into is on the map.** -/
lemma containsBeat_of_wrapBeat {wrapped : Double} (h : map.wrapBeat size beat = .ok wrapped) :
    map.containsBeat wrapped = true := by
  unfold wrapBeat at h
  split_ifs at h with hinside hlost hlevel hcount
  · cases h
    exact hinside
  · cases h
    exact (Bool.and_eq_true_iff.mp hlevel).2
  · cases h
    exact hcount

/-- The fault of a beat number that cannot be wrapped names it and the number of beats. -/
lemma eq_of_wrapBeat_error {fault : Fault} (h : map.wrapBeat size beat = .error fault) :
    fault = .beatOutOfRange beat map.beatCount := by
  unfold wrapBeat at h
  split_ifs at h
  · cases h
    rfl
  · cases h
    rfl

/-- A beat on the map has frames. -/
lemma exists_window?_of_containsBeat (h : map.containsBeat beat = true) :
    ∃ window, map.window? beat = some window := by
  unfold window?
  rw [if_pos h]
  exact ⟨_, rfl⟩

end Beatmap

/-! ## References -/

/-- References that stand for no beat number behind `played` steps: a random one with nothing to
choose from, and a position whose number is too large or too small. -/
inductive BeatRef.Lost (played : ℕ) : BeatRef → Prop where
  /-- There is nothing to choose from. -/
  | random {low high step : Double} (h : choices? low high step = none) :
      Lost played (.random low high step)
  /-- The number of the step cannot be moved. -/
  | position {offset : ℤ} (h : movedStep? played offset = none) : Lost played (.position offset)

/-- A reference fails only if it stands for no beat number, and the fault names the number of
beats. -/
lemma BeatRef.lost_of_resolve_error {ref : BeatRef} {place : Place} {beatCount : ℕ}
    {stream : Stream} {fault : Fault} (h : (ref.resolve place beatCount stream).1 = .error fault) :
    ref.Lost place.position ∧ ∃ beat, fault = .beatOutOfRange beat beatCount := by
  cases ref with
  | literal number => cases h
  | position offset =>
    cases hnumber : movedStep? place.position offset with
    | none =>
      rw [resolve, hnumber] at h
      exact ⟨.position hnumber, _, (Except.error.inj h).symm⟩
    | some number =>
      rw [resolve_position hnumber] at h
      cases h
  | random low high step =>
    rw [resolve] at h
    cases hchoices : choices? low high step with
    | none =>
      rw [hchoices] at h
      exact ⟨.random hchoices, high, (Except.error.inj h).symm⟩
    | some choices =>
      rw [hchoices] at h
      simp only [reduceCtorEq] at h

/-- **A reference that can be written stands for a beat number**, as long as the steps can be
numbered. -/
lemma BeatRef.Bounded.not_lost {ref : BeatRef} (h : ref.Bounded) {played : ℕ}
    (hplayed : played + 1 + maxOffset ≤ maxStepNumber) : ¬ref.Lost played := by
  intro hlost
  cases hlost with
  | random hnone =>
    obtain ⟨-, -, -, -, -, count, hcount, -⟩ := h
    rw [hnone] at hcount
    cases hcount
  | position hnone =>
    rw [movedStep?_of_le h hplayed] at hnone
    cases hnone

/-! ## Terms, steps and patterns -/

namespace Stage

/-- The faults that a term can have behind `played` steps. Its song is missing, or it has one, and a
beat is out of range there; the latter only where the pattern plays once, or of a reference that
stands for no beat number. -/
inductive FailsOn (stage : Stage) (played : ℕ) (term : Term) : Fault → Prop where
  /-- The song of the term is missing. -/
  | unknownSong {fault : Fault} (hsong : stage.songOf term = .error fault) :
      FailsOn stage played term fault
  /-- A beat is out of range. -/
  | outOfRange {song : Song} (beat : Double) (hsong : stage.songOf term = .ok song)
      (h : stage.repetition = .once ∨ term.beat.ref.Lost played) :
      FailsOn stage played term (.beatOutOfRange beat song.beatmap.beatCount)

variable {stage : Stage} {term : Term} {fault : Fault}

/-- The beat that is played for a beat number is on the map. -/
lemma containsBeat_of_beatFor {map : Beatmap} {size : ℕ} {requested beat : Double}
    (h : stage.beatFor map size requested = .ok (some beat)) : map.containsBeat beat = true := by
  unfold beatFor at h
  cases hrepetition : stage.repetition with
  | once =>
    rw [hrepetition] at h
    obtain ⟨wrapped, hwrapped, heq⟩ := map_eq_ok_iff.mp h
    cases heq
    exact Beatmap.containsBeat_of_wrapBeat hwrapped
  | fill =>
    rw [hrepetition] at h
    dsimp only at h
    split_ifs at h with hinside
    · cases h
      exact hinside
    · cases h

/-- There is a beat for every number or none where a pattern fills a song, and where it plays once
the number and the number of beats are named. -/
lemma eq_of_beatFor_error {map : Beatmap} {size : ℕ} {requested : Double}
    (h : stage.beatFor map size requested = .error fault) :
    stage.repetition = .once ∧ fault = .beatOutOfRange requested map.beatCount := by
  unfold beatFor at h
  cases hrepetition : stage.repetition with
  | once =>
    rw [hrepetition] at h
    exact ⟨rfl, Beatmap.eq_of_wrapBeat_error (map_eq_error_iff.mp h)⟩
  | fill =>
    rw [hrepetition] at h
    cases h

/-- A beat on the map can be played. -/
lemma exists_leafOf_of_containsBeat {song : Song} {beat : Double}
    (h : song.beatmap.containsBeat beat = true) : ∃ leaf, leafOf song term beat = .ok leaf := by
  obtain ⟨window, hwindow⟩ := Beatmap.exists_window?_of_containsBeat h
  unfold leafOf
  rw [hwindow]
  exact ⟨_, rfl⟩

/-- What a term plays for a beat number fails only where the number cannot be wrapped. -/
lemma eq_of_leafFor_error {song : Song} {size : ℕ} {requested : Double}
    (h : stage.leafFor size song term requested = .error fault) :
    stage.repetition = .once ∧ fault = .beatOutOfRange requested song.beatmap.beatCount := by
  rcases bind_eq_error_iff.mp h with h | ⟨beat?, hbeat, h⟩
  · exact eq_of_beatFor_error h
  · cases beat? with
    | none => cases h
    | some beat =>
      obtain ⟨leaf, hleaf⟩ : ∃ leaf, leafOf song term beat = .ok leaf :=
        exists_leafOf_of_containsBeat (containsBeat_of_beatFor hbeat)
      rcases bind_eq_error_iff.mp h with h | ⟨leaf', -, h⟩
      · rw [hleaf] at h
        cases h
      · cases h

/-- The fault of a term is one that it can have. -/
lemma failsOn_of_planTerm {place : Place} {stream : Stream}
    (h : (stage.planTerm place term stream).1 = .error fault) :
    stage.FailsOn place.position term fault := by
  unfold planTerm at h
  cases hsong : stage.songOf term with
  | error fault' =>
    rw [hsong] at h
    cases h
    exact .unknownSong hsong
  | ok song =>
    rw [hsong] at h
    rcases bind_eq_error_iff.mp h with h | ⟨requested, -, h⟩
    · obtain ⟨hlost, beat, rfl⟩ := BeatRef.lost_of_resolve_error h
      exact .outOfRange beat hsong (.inr hlost)
    · obtain ⟨honce, rfl⟩ := eq_of_leafFor_error h
      exact .outOfRange requested hsong (.inl honce)

/-- A step fails because of one of its terms. -/
lemma exists_failsOn_of_planStep {place : Place} {step : Step} {stream : Stream}
    (h : (stage.planStep place step stream).1 = .error fault) :
    ∃ term ∈ step.terms, stage.FailsOn place.position term fault := by
  cases step with
  | single term =>
    exact ⟨term, List.mem_singleton_self term, failsOn_of_planTerm (map_eq_error_iff.mp h)⟩
  | mix mode parts =>
    obtain ⟨before, term, after, results, middle, hparts, -, hfails⟩ :=
      exists_split_of_collect_error (Prod.ext (map_eq_error_iff.mp h) rfl)
    have hterm : term ∈ parts := hparts ▸ List.mem_append_right before List.mem_cons_self
    have hfault := failsOn_of_planTerm (congrArg Prod.fst hfails)
    exact ⟨term, hterm, hfault⟩

/-- A cue fails because of a term of its step. -/
lemma exists_failsOn_of_planCue {cue : Cue} {cursor : Cursor}
    (h : (stage.planCue cue cursor).1 = .error fault) :
    ∃ term ∈ cue.step.terms, stage.FailsOn cursor.position term fault := by
  unfold planCue at h
  split at h
  · next fault' random hstep =>
    cases h
    exact exists_failsOn_of_planStep (congrArg Prod.fst hstep)
  · cases h

/-- **A pattern fails because of one of its terms**, whatever the order in which its steps are
played and however often, behind fewer steps than there are in all repetitions.

**Proof sketch.** The steps are planned up to the first that fails, and each of them was counted.
The one that fails is one of the steps of the pattern, since shuffling loses and invents none. -/
theorem exists_failsOn_of_plan {pattern : Pattern} {cursor : Cursor}
    (h : (stage.plan pattern cursor).1 = .error fault) :
    ∃ term ∈ pattern.terms, ∃ played,
      played < cursor.position + pattern.steps.length * stage.repetitions pattern.size ∧
        stage.FailsOn played term fault := by
  rw [plan_eq_collect] at h
  obtain ⟨before, cue, after, plans, middle, hcues, hbefore, hfails⟩ :=
    exists_split_of_collect_error (Prod.ext h rfl)
  obtain ⟨term, hterm, hfails⟩ := exists_failsOn_of_planCue (congrArg Prod.fst hfails)
  have hcue : cue ∈ stage.cuesOf pattern cursor.random :=
    hcues ▸ List.mem_append_right before List.mem_cons_self
  refine ⟨term, List.mem_flatMap.mpr ⟨cue.step, Pattern.step_mem_of_mem_cues hcue, hterm⟩,
    middle.position, ?_, hfails⟩
  have hlength := stage.length_cuesOf pattern cursor.random
  rw [hcues, List.length_append, List.length_cons] at hlength
  have hcount := position_of_collect hbefore
  dsimp only at hcount
  omega

end Stage

end Arranger
