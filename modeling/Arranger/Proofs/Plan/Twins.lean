import Mathlib.Data.List.Forall2
import Arranger.Plan.Planning

/-!
# Two runs of planning

Planning reads of a term its reference, whether it counts, its group and its song. What the term
makes of the frames of its beat is settled behind that, and has no effect on the draws, the position
and the faults. So patterns of one shape whose terms agree in this respect are planned in step, also
with other songs on hand, and their plans play the same beats.

## Main definitions

* `Arranger.EndAlike` — two runs with related results and the same state behind them.
* `Arranger.InStep` — results of two lists of members, of which some have none.
* `Arranger.Term.SameBeat`, `Step.Rel`, `Pattern.Rel` — terms for the same beat, and steps and
  patterns of one shape with related terms.
* `Arranger.Leaf.Plays` — what a term makes of the frames of a beat.
* `Arranger.Leaf.Twin`, `Plan.Twin` — what two terms or steps make of the same beats.
* `Arranger.Stage.cuesOf` — the steps of a pattern as they are due.

## Main results

* `Arranger.collect_endAlike` — members whose runs end alike are collected in step.
* `Arranger.Stage.cuesOf_of_forall₂` — patterns whose steps count alike and are in the same groups
  have their steps due alike.
* `Arranger.Stage.plan_twin` — patterns of one shape are planned in step.
-/

namespace Arranger

/-! ## Runs that end alike -/

section Runs

variable {α α' β β' γ γ' σ ε : Type}

/-- Two runs that end alike: with the same fault or with related results, and in the same state. -/
inductive EndAlike (Q : β → β' → Prop) : Except ε β × σ → Except ε β' × σ → Prop where
  /-- Both fail, and with the same fault. -/
  | error (fault : ε) (state : σ) : EndAlike Q (.error fault, state) (.error fault, state)
  /-- Both succeed. -/
  | ok {y : β} {y' : β'} (state : σ) (h : Q y y') : EndAlike Q (.ok y, state) (.ok y', state)

/-- What is made of the results of runs that end alike. -/
lemma EndAlike.map {Q : β → β' → Prop} {S : γ → γ' → Prop} {run : Except ε β × σ}
    {run' : Except ε β' × σ} (h : EndAlike Q run run') {f : β → γ} {g : β' → γ'}
    (hfg : ∀ y y', Q y y' → S (f y) (g y')) :
    EndAlike S (run.1.map f, run.2) (run'.1.map g, run'.2) := by
  cases h with
  | error fault state => exact .error fault state
  | ok state h => exact .ok state (hfg _ _ h)

/-- Two lists of members and the results that they have, gone through in step: a pair of members
has a pair of results, or neither of the two has one. -/
inductive InStep (Q : α → α' → β → β' → Prop) : List α → List α' → List β → List β' → Prop where
  /-- No members have no results. -/
  | nil : InStep Q [] [] [] []
  /-- The first members have results. -/
  | keep {x : α} {x' : α'} {y : β} {y' : β'} {xs : List α} {xs' : List α'} {ys : List β}
      {ys' : List β'} (h : Q x x' y y') (hrest : InStep Q xs xs' ys ys') :
      InStep Q (x :: xs) (x' :: xs') (y :: ys) (y' :: ys')
  /-- The first members have none. -/
  | drop {x : α} {x' : α'} {xs : List α} {xs' : List α'} {ys : List β} {ys' : List β'}
      (hrest : InStep Q xs xs' ys ys') : InStep Q (x :: xs) (x' :: xs') ys ys'

/-- What holds of the results of every pair of members holds of the results pair by pair. -/
lemma InStep.forall₂ {Q : α → α' → β → β' → Prop} {S : β → β' → Prop} {xs : List α}
    {xs' : List α'} {ys : List β} {ys' : List β'} (h : InStep Q xs xs' ys ys')
    (hQ : ∀ x x' y y', Q x x' y y' → S y y') : List.Forall₂ S ys ys' := by
  induction h with
  | nil => exact .nil
  | keep h _ ih => exact .cons (hQ _ _ _ _ h) ih
  | drop _ ih => exact ih

/-- If the results of every pair of members have the same image, then so have all results. -/
lemma InStep.map_eq {Q : α → α' → β → β' → Prop} {xs : List α} {xs' : List α'} {ys : List β}
    {ys' : List β'} (h : InStep Q xs xs' ys ys') {f : β → γ} {g : β' → γ}
    (hQ : ∀ x x' y y', Q x x' y y' → g y' = f y) : ys'.map g = ys.map f := by
  induction h with
  | nil => rfl
  | keep h _ ih => rw [List.map_cons, List.map_cons, hQ _ _ _ _ h, ih]
  | drop _ ih => exact ih

/-- **Members whose runs end alike are collected in step.**

**Proof sketch.** By induction on the members. The first two fail with the same fault, or they pass
the same state on to the others. -/
lemma collect_endAlike {f : α → σ → Except ε (Option β) × σ}
    {g : α' → σ → Except ε (Option β') × σ} {Q : α → α' → β → β' → Prop} {xs : List α}
    {xs' : List α'}
    (h : List.Forall₂ (fun x x' => ∀ state, EndAlike (Option.Rel (Q x x')) (f x state) (g x' state))
      xs xs') (state : σ) :
    EndAlike (InStep Q xs xs') (collect f xs state) (collect g xs' state) := by
  induction h generalizing state with
  | nil => exact .ok state .nil
  | @cons x x' xs xs' hfirst _ ih =>
    rw [collect, collect]
    specialize hfirst state
    generalize f x state = run, g x' state = run' at hfirst ⊢
    cases hfirst with
    | error fault state => exact .error fault state
    | ok state hresult =>
      specialize ih state
      dsimp only
      generalize collect f xs state = run, collect g xs' state = run' at ih ⊢
      cases ih with
      | error fault state => exact .error fault state
      | ok state hrest =>
        cases hresult with
        | none => exact .ok state (.drop hrest)
        | some hresult => exact .ok state (.keep hresult hrest)

end Runs

/-! ## Patterns of related steps -/

section Steps

variable {S : Step → Step → Prop}

/-- Members at the same place of related lists are related. -/
lemma getElem?_of_forall₂ {α β : Type} {Q : α → β → Prop} {xs : List α} {ys : List β}
    (h : List.Forall₂ Q xs ys) (index : ℕ) : Option.Rel Q xs[index]? ys[index]? := by
  have hlength := List.Forall₂.length_eq h
  rcases Nat.lt_or_ge index xs.length with hlt | hge
  · rw [List.getElem?_eq_getElem hlt, List.getElem?_eq_getElem (hlength ▸ hlt)]
    exact .some (List.Forall₂.get h hlt (hlength ▸ hlt))
  · rw [List.getElem?_eq_none hge, List.getElem?_eq_none (hlength ▸ hge)]
    exact .none

/-- Patterns whose steps count alike, pair by pair, have the same size. -/
lemma Pattern.size_of_forall₂ (hcounts : ∀ step other, S step other → other.counts = step.counts)
    {pattern other : Pattern} (h : List.Forall₂ S pattern.steps other.steps) :
    other.size = pattern.size := by
  have hsize : ∀ {steps others : List Step}, List.Forall₂ S steps others →
      (others.filter Step.counts).length = (steps.filter Step.counts).length := by
    intro steps others hsteps
    induction hsteps with
    | nil => rfl
    | cons hstep _ ih =>
      rw [List.filter_cons, List.filter_cons, hcounts _ _ hstep]
      split_ifs
      · exact congrArg (· + 1) ih
      · exact ih
  exact hsize h

section Groups

variable (hgroup : ∀ step other, S step other → other.group? = step.group?)

include hgroup

/-- Patterns whose steps are in the same groups, pair by pair, have the same shuffle groups. -/
lemma Pattern.groups_of_forall₂ {pattern other : Pattern}
    (h : List.Forall₂ S pattern.steps other.steps) : other.groups = pattern.groups := by
  have hjoin : ∀ {steps others : List Step}, List.Forall₂ S steps others →
      ∀ groups slot, joinGroups groups slot others = joinGroups groups slot steps := by
    intro steps others hsteps
    induction hsteps with
    | nil => exact fun _ _ => rfl
    | cons hstep _ ih =>
      intro groups slot
      rw [joinGroups, joinGroups, hgroup _ _ hstep]
      split
      · exact ih _ _
      · exact ih _ _
  exact hjoin h [] 0

/-- **Patterns whose steps are in the same groups are shuffled alike.** -/
lemma Pattern.rearranged_of_forall₂ {pattern other : Pattern}
    (h : List.Forall₂ S pattern.steps other.steps) (stream : Stream) :
    List.Forall₂ S (pattern.rearranged stream).1 (other.rearranged stream).1 ∧
      (other.rearranged stream).2 = (pattern.rearranged stream).2 := by
  have horder : other.playOrder stream = pattern.playOrder stream := by
    rw [playOrder, playOrder, groups_of_forall₂ hgroup h, List.Forall₂.length_eq h]
  unfold Pattern.rearranged
  rw [horder]
  refine ⟨List.rel_filterMap (R := Eq) ?_ (List.forall₂_refl _), rfl⟩
  rintro index _ rfl
  exact getElem?_of_forall₂ h index

end Groups

namespace Stage

/-- The cues of a pattern that is planned from a stream on: its steps as they are due. -/
def cuesOf (stage : Stage) (pattern : Pattern) (stream : Stream) : List Cue :=
  cues pattern.size (stage.repetitions pattern.size) (pattern.rearranged stream).1

/-- The cues are planned one after another, behind the shuffling. -/
lemma plan_eq_collect (stage : Stage) (pattern : Pattern) (cursor : Cursor) :
    stage.plan pattern cursor = collect stage.planCue (stage.cuesOf pattern cursor.random)
      { cursor with random := (pattern.rearranged cursor.random).2 } :=
  rfl

/-- **Patterns whose steps count alike and are in the same groups have their steps due alike**, where
they play as often. -/
lemma cuesOf_of_forall₂ {stage other : Stage}
    (hrepetitions : ∀ size, other.repetitions size = stage.repetitions size)
    (hcounts : ∀ step other, S step other → other.counts = step.counts)
    (hgroup : ∀ step other, S step other → other.group? = step.group?)
    {pattern pattern' : Pattern} (h : List.Forall₂ S pattern.steps pattern'.steps)
    (stream : Stream) :
    List.Forall₂ (fun cue cue' : Cue => S cue.step cue'.step ∧ cue'.size = cue.size ∧
        cue'.offset = cue.offset)
      (stage.cuesOf pattern stream) (other.cuesOf pattern' stream) := by
  rw [cuesOf, cuesOf, Pattern.size_of_forall₂ hcounts h, hrepetitions]
  refine List.rel_flatMap (R := Eq) (List.forall₂_refl _) ?_
  rintro k _ rfl
  exact List.rel_map (fun _ _ hstep => ⟨hstep, rfl, rfl⟩)
    (Pattern.rearranged_of_forall₂ hgroup h stream).1

end Stage

end Steps

/-! ## Patterns of one shape -/

/-- Terms for the same beat: they have the same reference, count alike and are in the same group. -/
structure Term.SameBeat (term other : Term) : Prop where
  /-- The references are the same. -/
  ref_eq : other.beat.ref = term.beat.ref
  /-- Both count, or neither does. -/
  uncounted_eq : other.beat.uncounted = term.beat.uncounted
  /-- The groups are the same. -/
  group_eq : other.beat.group = term.beat.group

/-- Steps of one shape with related terms. -/
inductive Step.Rel (R : Term → Term → Prop) : Step → Step → Prop where
  /-- Single terms. -/
  | single {term other : Term} (h : R term other) : Rel R (.single term) (.single other)
  /-- Mixes of the same kind with as many parts. -/
  | mix (mode : MixMode) {parts others : List Term} (h : List.Forall₂ R parts others) :
      Rel R (.mix mode parts) (.mix mode others)

/-- Patterns of one shape with related terms. -/
def Pattern.Rel (R : Term → Term → Prop) (pattern other : Pattern) : Prop :=
  List.Forall₂ (Step.Rel R) pattern.steps other.steps

/-- Terms that are related to themselves make a pattern that is. -/
lemma Pattern.rel_self {R : Term → Term → Prop} {pattern : Pattern}
    (h : ∀ term ∈ pattern.terms, R term term) : pattern.Rel R pattern := by
  have hstep : ∀ step ∈ pattern.steps, Step.Rel R step step := by
    intro step hstep
    have hterms : ∀ term ∈ step.terms, R term term := fun term hterm =>
      h term (List.mem_flatMap.mpr ⟨step, hstep, hterm⟩)
    cases step with
    | single term => exact .single (hterms term (List.mem_singleton_self term))
    | mix mode parts => exact .mix mode (List.forall₂_same.mpr hterms)
  exact List.forall₂_same.mpr hstep

/-- What implies a relation of terms implies that of patterns. -/
lemma Pattern.Rel.imp {R S : Term → Term → Prop} {pattern other : Pattern}
    (h : pattern.Rel R other) (hRS : ∀ term term', R term term' → S term term') :
    pattern.Rel S other := by
  refine List.Forall₂.imp (fun step step' hstep => ?_) h
  cases hstep with
  | single h => exact .single (hRS _ _ h)
  | mix mode h => exact .mix mode (h.imp hRS)

section Shape

variable {R : Term → Term → Prop} (hR : ∀ term other, R term other → term.SameBeat other)

/-- Related terms of patterns of one shape. -/
lemma Pattern.Rel.terms {pattern other : Pattern} (h : pattern.Rel R other) :
    List.Forall₂ R pattern.terms other.terms := by
  refine List.rel_flatMap h fun step step' hstep => ?_
  cases hstep with
  | single h => exact .cons h .nil
  | mix mode h => exact h

include hR

/-- Terms for the same beats count alike. -/
lemma counts_eq_of_rel {term other : Term} (h : R term other) : other.counts = term.counts := by
  rw [Term.counts, Term.counts, (hR _ _ h).uncounted_eq]

/-- Which of the terms count is the same for terms for the same beats. -/
lemma map_counts_of_forall₂ {parts others : List Term} (h : List.Forall₂ R parts others) :
    others.map Term.counts = parts.map Term.counts := by
  induction h with
  | nil => rfl
  | cons h _ ih => rw [List.map_cons, List.map_cons, counts_eq_of_rel hR h, ih]

/-- As many of the parts of related mixes count. -/
lemma countedTerms_of_forall₂ {parts others : List Term} (h : List.Forall₂ R parts others) :
    countedTerms others = countedTerms parts := by
  have hcount : ∀ terms, countedTerms terms = (terms.map Term.counts).countP id := fun terms => by
    rw [countedTerms, ← List.countP_eq_length_filter, List.countP_map, Function.id_comp]
  rw [hcount, hcount, map_counts_of_forall₂ hR h]

/-- Steps of one shape with terms for the same beats count alike. -/
lemma Step.Rel.counts_eq {step other : Step} (h : step.Rel R other) :
    other.counts = step.counts := by
  cases h with
  | single h => exact congrArg (· || false) (counts_eq_of_rel hR h)
  | @mix mode parts others h =>
    show others.any Term.counts = parts.any Term.counts
    have hany : ∀ terms : List Term, terms.any Term.counts = (terms.map Term.counts).any id :=
      fun terms => by rw [List.any_map, Function.id_comp]
    rw [hany, hany, map_counts_of_forall₂ hR h]

/-- Steps of one shape with terms for the same beats are in the same group. -/
lemma Step.Rel.group?_eq {step other : Step} (h : step.Rel R other) :
    other.group? = step.group? := by
  cases h with
  | single h => exact (hR _ _ h).group_eq
  | mix mode h => rfl

end Shape

/-! ## Leaves and plans for the same beats -/

/-- What a term makes of frames of a recording: silence as long as the part that it keeps of them if
it is marked as silent, and else this part with its effects. -/
inductive Leaf.Plays (term : Term) (recording : Recording) (start stop : ℕ) : Leaf → Prop where
  /-- Silence, for a term that is marked as silent. -/
  | silence (hsilent : term.beat.silent = true) :
      Plays term recording start stop
        (.silence ((term.beat.cut start stop).2 - (term.beat.cut start stop).1))
  /-- Frames of the recording, for a term that is not. -/
  | extract (hsilent : term.beat.silent = false) :
      Plays term recording start stop
        (.extract term.source recording (term.beat.cut start stop).1 (term.beat.cut start stop).2
          term.beat.effects)

/-- What a term plays of frames. -/
lemma Leaf.plays_cut (term : Term) (recording : Recording) (start stop : ℕ) :
    Leaf.Plays term recording start stop
      (if term.beat.silent then
        .silence ((term.beat.cut start stop).2 - (term.beat.cut start stop).1)
      else .extract term.source recording (term.beat.cut start stop).1 (term.beat.cut start stop).2
        term.beat.effects) := by
  split_ifs with hsilent
  · exact .silence hsilent
  · exact .extract (Bool.eq_false_iff.mpr hsilent)

/-- What two related terms make of the same frames: those of a beat of the song of the first one. -/
inductive Leaf.Twin (stage : Stage) (R : Term → Term → Prop) (term other : Term)
    (leaf leaf' : Leaf) : Prop where
  /-- Both leaves are made of the frames of the beat. -/
  | intro {song : Song} {beat : Double} {start stop : ℕ} (hterm : R term other)
      (hsong : stage.songOf term = .ok song)
      (hwindow : song.beatmap.window? beat = some (start, stop))
      (hleaf : leaf.Plays term song.recording start stop)
      (hleaf' : leaf'.Plays other song.recording start stop)

/-- What two steps of one shape make of the same beats. -/
inductive Plan.Twin (stage : Stage) (R : Term → Term → Prop) :
    Step → Step → Plan → Plan → Prop where
  /-- The leaves of single terms. -/
  | single {term other : Term} {leaf leaf' : Leaf} (h : leaf.Twin stage R term other leaf') :
      Twin stage R (.single term) (.single other) (.single leaf) (.single leaf')
  /-- The leaves of the parts of mixes, where a part of one mix has a leaf if the part of the other
  one has. -/
  | mix (mode : MixMode) {parts others : List Term} {leaves leaves' : List Leaf}
      (h : InStep (Leaf.Twin stage R) parts others leaves leaves') :
      Twin stage R (.mix mode parts) (.mix mode others) (.mix mode leaves) (.mix mode leaves')

/-! ## Planning -/

namespace Stage

variable {stage other : Stage} {R : Term → Term → Prop}

/-- What two terms play on the same beat of the same song. -/
lemma leafOf_twin {song : Song} {term term' : Term} (hterm : R term term')
    (hsong : stage.songOf term = .ok song) (beat : Double) (stream : Stream) :
    EndAlike (Option.Rel (Leaf.Twin stage R term term')) ((leafOf song term beat).map some, stream)
      ((leafOf song term' beat).map some, stream) := by
  rw [leafOf, leafOf]
  cases hwindow : song.beatmap.window? beat with
  | none => exact .error _ stream
  | some window =>
    exact .ok stream (.some ⟨hterm, hsong, hwindow, Leaf.plays_cut .., Leaf.plays_cut ..⟩)

variable (hprimary : other.primary = stage.primary)
  (hrepetition : other.repetition = stage.repetition)
  (hR : ∀ term term', R term term' → term.SameBeat term' ∧ other.songOf term' = stage.songOf term)

include hrepetition hR

/-- Terms for the same beat of the same song are planned alike. -/
lemma planTerm_twin {term term' : Term} (h : R term term') (place : Place) (stream : Stream) :
    EndAlike (Option.Rel (Leaf.Twin stage R term term')) (stage.planTerm place term stream)
      (other.planTerm place term' stream) := by
  obtain ⟨hterm, hsong⟩ := hR _ _ h
  rw [planTerm, planTerm, hsong, hterm.ref_eq]
  cases hfound : stage.songOf term with
  | error fault => exact .error fault stream
  | ok song =>
    dsimp only
    obtain ⟨requested, stream⟩ := term.beat.ref.resolve place song.beatmap.beatCount stream
    cases requested with
    | error fault => exact .error fault stream
    | ok number =>
      show EndAlike _ (stage.leafFor place.size song term number, stream)
        (other.leafFor place.size song term' number, stream)
      have hbeat : other.beatFor song.beatmap place.size number =
          stage.beatFor song.beatmap place.size number := by rw [beatFor, beatFor, hrepetition]
      rw [leafFor, leafFor, hbeat]
      cases stage.beatFor song.beatmap place.size number with
      | error fault => exact .error fault stream
      | ok beat? =>
        cases beat? with
        | none => exact .ok stream .none
        | some beat => exact leafOf_twin h hfound beat stream

/-- Steps of one shape with terms for the same beats of the same songs are planned alike. -/
lemma planStep_twin {step step' : Step} (h : step.Rel R step') (place : Place) (stream : Stream) :
    EndAlike (Option.Rel (Plan.Twin stage R step step')) (stage.planStep place step stream)
      (other.planStep place step' stream) := by
  cases h with
  | single h =>
    refine (planTerm_twin hrepetition hR h place stream).map fun leaf? leaf'? hleaf => ?_
    cases hleaf with
    | none => exact .none
    | some hleaf => exact .some (.single hleaf)
  | @mix mode parts others h =>
    rw [planStep, planStep, countedTerms_of_forall₂ (fun _ _ h => (hR _ _ h).1) h]
    have hcollect := collect_endAlike (h.imp fun term term' hterm stream =>
      planTerm_twin hrepetition hR hterm { place with size := countedTerms parts } stream) stream
    refine hcollect.map fun leaves leaves' hleaves => ?_
    -- Only the number of leaves decides whether there is a mix.
    cases hleaves.forall₂ fun _ _ _ _ _ => trivial with
    | nil => exact .none
    | cons _ _ => exact .some (.mix mode hleaves)

/-- Cues for steps of one shape are planned alike. -/
lemma planCue_twin {cue cue' : Cue} (hstep : cue.step.Rel R cue'.step)
    (hsize : cue'.size = cue.size) (hoffset : cue'.offset = cue.offset) (cursor : Cursor) :
    EndAlike (Option.Rel (Plan.Twin stage R cue.step cue'.step)) (stage.planCue cue cursor)
      (other.planCue cue' cursor) := by
  have h := planStep_twin hrepetition hR hstep ⟨cue.size, cue.offset, cursor.position⟩ cursor.random
  rw [planCue, planCue, hsize, hoffset]
  generalize stage.planStep _ _ _ = run, other.planStep _ _ _ = run' at h ⊢
  cases h with
  | error fault random => exact .error fault _
  | ok random h => exact .ok _ h

include hprimary in
/-- **Patterns of one shape are planned in step**, if their terms are for the same beats of the same
songs: their plans are for the same beats, or both have the same fault, and the cursors behind them
are the same.

**Proof sketch.** Both patterns are shuffled alike, so their cues are those of steps of one shape
and can be gone through in step. -/
theorem plan_twin {pattern pattern' : Pattern} (h : pattern.Rel R pattern') (cursor : Cursor) :
    EndAlike
      (InStep (fun cue cue' => Plan.Twin stage R cue.step cue'.step)
        (stage.cuesOf pattern cursor.random) (other.cuesOf pattern' cursor.random))
      (stage.plan pattern cursor) (other.plan pattern' cursor) := by
  have hbeats : ∀ term term', R term term' → term.SameBeat term' := fun _ _ h => (hR _ _ h).1
  have hgroup : ∀ step step', Step.Rel R step step' → step'.group? = step.group? :=
    fun _ _ h => h.group?_eq hbeats
  have hrepetitions : ∀ size, other.repetitions size = stage.repetitions size := fun size => by
    rw [repetitions, repetitions, hrepetition, hprimary]
  have hcues := cuesOf_of_forall₂ hrepetitions (fun _ _ h => h.counts_eq hbeats) hgroup h
    cursor.random
  have hrandom := (Pattern.rearranged_of_forall₂ hgroup h cursor.random).2
  -- Shuffling takes as many random words of both, so the cues are gone through from one cursor on.
  rw [plan_eq_collect, plan_eq_collect, hrandom]
  exact collect_endAlike (hcues.imp fun cue cue' hcue cursor =>
    planCue_twin hrepetition hR hcue.1 hcue.2.1 hcue.2.2 cursor) _

end Stage

end Arranger
