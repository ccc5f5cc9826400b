import Arranger.Proofs.Plan.Order
import Arranger.Proofs.Plan.Results

/-!
# What happens while planning

Planning goes through terms one after another, each at a place and with what is left of the random
stream. What is to be known of the terms on the way is noted down, up to the first failure, and
everything that is noted comes of a term of the pattern.

## Main definitions

* `Arranger.collectNotes` — what is noted while a list is collected.
* `Arranger.Stage.stepNotes`, `cueNotes`, `planNotes` — what is noted while a step, a cue and a
  pattern are planned.

## Main results

* `Arranger.collect_map_of_notes` — members that do the same wherever what is noted has a property
  collect the same.
* `Arranger.Stage.exists_place_of_mem_planNotes` — what is noted comes of a term of the pattern, at
  the offset of a step that is due.
-/

namespace Arranger

/-! ## Collecting -/

section Collecting

variable {α β γ σ ε : Type} {f : α → σ → Except ε (Option β) × σ} {note : α → σ → List γ}

/-- What is noted of the members of a list on the way, each in the state in which it is met, up to
the first failure. -/
def collectNotes (f : α → σ → Except ε (Option β) × σ) (note : α → σ → List γ) :
    List α → σ → List γ
  | [], _ => []
  | x :: xs, state =>
    note x state ++ match f x state with
      | (.error _, _) => []
      | (.ok _, state) => collectNotes f note xs state

/-- What is noted comes of a member, in some state. -/
lemma exists_of_mem_collectNotes {xs : List α} {state : σ} {a : γ}
    (h : a ∈ collectNotes f note xs state) : ∃ x ∈ xs, ∃ state, a ∈ note x state := by
  induction xs generalizing state with
  | nil => cases h
  | cons x xs ih =>
    rcases List.mem_append.mp h with h | h
    · exact ⟨x, List.mem_cons_self, state, h⟩
    · split at h
      · cases h
      · obtain ⟨x', hx', hnoted⟩ := ih h
        exact ⟨x', List.mem_cons_of_mem x hx', hnoted⟩

/-- Members in the place of others collect the same, if they do the same wherever all that is noted
has a property, and all that is noted on the way has it. -/
lemma collect_map_of_notes {P : γ → Prop} {g : α → α} {xs : List α} {state : σ}
    (hf : ∀ x ∈ xs, ∀ state, (∀ a ∈ note x state, P a) → f (g x) state = f x state)
    (hall : ∀ a ∈ collectNotes f note xs state, P a) :
    collect f (xs.map g) state = collect f xs state := by
  induction xs generalizing state with
  | nil => rfl
  | cons x xs ih =>
    rw [List.forall_mem_cons] at hf
    rw [collectNotes, List.forall_mem_append] at hall
    rw [List.map_cons, collect, collect, hf.1 state hall.1]
    cases hfirst : f x state with
    | mk outcome state' =>
      cases outcome with
      | error fault => rfl
      | ok result =>
        have hrest := hall.2
        rw [hfirst] at hrest
        dsimp only
        rw [ih hf.2 hrest]

/-- Two lists one after another collect what they collect one after another. -/
lemma collect_append {xs xs' : List α} {ys ys' : List β} {state middle last : σ}
    (h : collect f xs state = (.ok ys, middle)) (h' : collect f xs' middle = (.ok ys', last)) :
    collect f (xs ++ xs') state = (.ok (ys ++ ys'), last) := by
  induction xs generalizing state ys with
  | nil =>
    cases h
    exact h'
  | cons x xs ih =>
    obtain ⟨result, state', results, hfirst, hrest, rfl⟩ := collect_cons_eq_ok_iff.mp h
    rw [List.cons_append, List.append_assoc]
    exact collect_cons_eq_ok_iff.mpr ⟨result, state', results ++ ys', hfirst, ih hrest, rfl⟩

end Collecting

/-! ## Planning -/

namespace Stage

variable {γ : Type}

/-- What is noted of the terms of a step, at a place. In a mix the place has the size of the mix. -/
def stepNotes (stage : Stage) (note : Place → Term → Stream → List γ) (place : Place)
    (step : Step) (stream : Stream) : List γ :=
  match step with
  | .single term => note place term stream
  | .mix _ parts =>
    let place := { place with size := countedTerms parts }
    collectNotes (stage.planTerm place) (note place) parts stream

/-- What is noted of the terms of a cue. -/
def cueNotes (stage : Stage) (note : Place → Term → Stream → List γ) (cue : Cue)
    (cursor : Cursor) : List γ :=
  stage.stepNotes note ⟨cue.size, cue.offset, cursor.position⟩ cue.step cursor.random

/-- What is noted of the terms of a pattern while it is planned. -/
def planNotes (stage : Stage) (note : Place → Term → Stream → List γ) (pattern : Pattern)
    (cursor : Cursor) : List γ :=
  let (steps, random) := pattern.rearranged cursor.random
  collectNotes stage.planCue (stage.cueNotes note)
    (cues pattern.size (stage.repetitions pattern.size) steps) { cursor with random }

variable {stage : Stage} {note : Place → Term → Stream → List γ} {a : γ}

/-- What is noted of a step comes of one of its terms, at the place of the step but for the size. -/
lemma exists_term_of_mem_stepNotes {place : Place} {step : Step} {stream : Stream}
    (h : a ∈ stage.stepNotes note place step stream) :
    ∃ term ∈ step.terms, ∃ size stream, a ∈ note { place with size } term stream := by
  cases step with
  | single term => exact ⟨term, List.mem_singleton_self term, place.size, stream, h⟩
  | mix mode parts =>
    obtain ⟨term, hterm, stream', hnoted⟩ := exists_of_mem_collectNotes h
    exact ⟨term, hterm, countedTerms parts, stream', hnoted⟩

/-- **What is noted comes of a term of the pattern**, at a place with the offset of one of the
cues. -/
lemma exists_place_of_mem_planNotes {pattern : Pattern} {cursor : Cursor}
    (h : a ∈ stage.planNotes note pattern cursor) :
    ∃ cue ∈ cues pattern.size (stage.repetitions pattern.size)
        (pattern.rearranged cursor.random).1,
      ∃ term ∈ pattern.terms, ∃ size position stream,
        a ∈ note ⟨size, cue.offset, position⟩ term stream := by
  obtain ⟨cue, hcue, cursor', hnoted⟩ := exists_of_mem_collectNotes h
  obtain ⟨term, hterm, size, stream, hnoted⟩ := exists_term_of_mem_stepNotes hnoted
  exact ⟨cue, hcue, term, List.mem_flatMap.mpr ⟨cue.step, Pattern.step_mem_of_mem_cues hcue, hterm⟩,
    size, cursor'.position, stream, hnoted⟩

/-- What is noted comes of a term of the pattern, at some place and in some state of the random
stream. -/
lemma exists_term_of_mem_planNotes {pattern : Pattern} {cursor : Cursor}
    (h : a ∈ stage.planNotes note pattern cursor) :
    ∃ term ∈ pattern.terms, ∃ place stream, a ∈ note place term stream := by
  obtain ⟨_, _, term, hterm, _, _, stream, hnoted⟩ := exists_place_of_mem_planNotes h
  exact ⟨term, hterm, _, stream, hnoted⟩

end Stage

end Arranger
