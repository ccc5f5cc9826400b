import Arranger.Proofs.Plan.Results
import Arranger.Proofs.Plan.SingleTile
import Arranger.Proofs.Plan.Twins

/-!
# Turns and visits

While a pattern is planned, its steps come up in turn, and at each turn the terms of the step are
visited. A term that is visited plays a leaf, or nothing where the pattern fills a song and the beat
number of the term is not on the map. So the plans are told by the turns and the visits.

## Main definitions

* `Arranger.Turn`, `Visit` — a step that comes up, and a term that is visited.
* `Arranger.Stage.turns`, `visitsAt`, `visits` — those of a pattern that is planned.
* `Arranger.Stage.isPlayed` — whether a term that is visited plays a leaf.
* `Arranger.Visit.Yields`, `Turn.Yields` — what is played.

## Main results

* `Arranger.forall₂_of_collect` — what is collected, by the members whose result is due.
* `Arranger.Stage.due_planTerm`, `due_planCue` — what a term and a step play.
* `Arranger.Stage.plan_yields` — the plans of a pattern, by its turns.
* `Arranger.Stage.leaves_yields` — the leaves of the plans, by the visits.
-/

namespace Arranger

/-! ## Collecting -/

section Collecting

variable {α β γ σ ε : Type} {f : α → σ → Except ε (Option β) × σ} {note : α → σ → γ}
  {xs : List α} {ys : List β} {state last : σ}

/-- Where a list is collected, all its members are come to, in their order. -/
lemma map_collectNotes {key : γ → α} (hkey : ∀ x state, key (note x state) = x)
    (hrun : collect f xs state = (.ok ys, last)) :
    (collectNotes f (fun x state => [note x state]) xs state).map key = xs := by
  induction xs generalizing state ys with
  | nil => rfl
  | cons x xs ih =>
    obtain ⟨result, middle, results, hfirst, hrest, -⟩ := collect_cons_eq_ok_iff.mp hrun
    rw [collectNotes, hfirst, List.singleton_append, List.map_cons, hkey, ih hrest]

/-- Where a list is collected, every member that is come to succeeds. -/
lemma exists_ok_of_mem_collectNotes (hrun : collect f xs state = (.ok ys, last)) {a : γ}
    (h : a ∈ collectNotes f (fun x state => [note x state]) xs state) :
    ∃ x ∈ xs, ∃ state result state', a = note x state ∧ f x state = (.ok result, state') := by
  induction xs generalizing state ys with
  | nil => cases h
  | cons x xs ih =>
    obtain ⟨result, middle, results, hfirst, hrest, -⟩ := collect_cons_eq_ok_iff.mp hrun
    rw [collectNotes, hfirst, List.singleton_append] at h
    rcases List.mem_cons.mp h with rfl | h
    · exact ⟨x, List.mem_cons_self, state, result, middle, rfl, hfirst⟩
    · obtain ⟨x', hx', hmember⟩ := ih hrest h
      exact ⟨x', List.mem_cons_of_mem x hx', hmember⟩

/-- A result that is there if it is due, and has a property then. -/
inductive Due (P : β → Prop) : Bool → Option β → Prop where
  /-- The result is due. -/
  | some {y : β} (h : P y) : Due P true (some y)
  /-- No result is due. -/
  | none : Due P false none

/-- **What is collected, by the members whose result is due**: one result for each of them, in their
order. -/
lemma forall₂_of_collect {isDue : γ → Bool} {R : γ → β → Prop}
    (h : ∀ x state result state', f x state = (.ok result, state') →
      Due (R (note x state)) (isDue (note x state)) result)
    (hrun : collect f xs state = (.ok ys, last)) :
    List.Forall₂ R ((collectNotes f (fun x state => [note x state]) xs state).filter isDue) ys := by
  induction xs generalizing state ys with
  | nil =>
    cases hrun
    exact .nil
  | cons x xs ih =>
    obtain ⟨result, middle, results, hfirst, hrest, rfl⟩ := collect_cons_eq_ok_iff.mp hrun
    have hresult := h x state result middle hfirst
    rw [collectNotes, hfirst, List.singleton_append, List.filter_cons]
    generalize isDue (note x state) = due at hresult ⊢
    cases hresult with
    | some hvalue => exact .cons hvalue (ih hrest)
    | none => exact ih hrest

/-- Some member passes if there is something for each that does. -/
lemma any_eq_of_forall₂_filter {p : α → Bool} {R : α → β → Prop}
    (h : List.Forall₂ R (xs.filter p) ys) : xs.any p = !ys.isEmpty := by
  rw [Bool.eq_iff_iff, List.any_eq_true, Bool.not_eq_true', List.isEmpty_eq_false_iff,
    ← List.length_pos_iff, ← h.length_eq, List.length_filter_pos_iff]

/-- The members of lists that pass are those of the lists with a member that does. -/
lemma filter_flatMap_eq {p : β → Bool} {f : α → List β} (xs : List α) :
    (xs.flatMap f).filter p =
      (xs.filter fun x => (f x).any p).flatMap fun x => (f x).filter p := by
  induction xs with
  | nil => rfl
  | cons x xs ih =>
    rw [List.flatMap_cons, List.filter_append, ih, List.filter_cons]
    split_ifs with hany
    · rw [List.flatMap_cons]
    · have hnone : (f x).filter p = [] := by
        rw [List.filter_eq_nil_iff]
        exact List.any_eq_false.mp (Bool.eq_false_iff.mpr hany)
      rw [hnone, List.nil_append]

end Collecting

/-! ## Turns and visits -/

/-- A step that comes up while a pattern is planned. -/
structure Turn where
  /-- The step as it is due. -/
  cue : Cue
  /-- How far the playing has come. -/
  cursor : Cursor
deriving DecidableEq

/-- A term that is visited while a pattern is planned. -/
structure Visit where
  /-- Where in the playing the term stands. -/
  place : Place
  /-- The term. -/
  term : Term
  /-- The random words that are left. -/
  random : Stream
deriving DecidableEq

namespace Stage

/-- The steps that come up while a pattern is planned, in the order of play, up to the first one
that cannot be planned. -/
def turns (stage : Stage) (pattern : Pattern) (cursor : Cursor) : List Turn :=
  collectNotes stage.planCue (fun cue cursor => [⟨cue, cursor⟩])
    (stage.cuesOf pattern cursor.random)
    { cursor with random := (pattern.rearranged cursor.random).2 }

/-- The terms that are visited at a turn, in written order, up to the first one that cannot be
planned. -/
def visitsAt (stage : Stage) (turn : Turn) : List Visit :=
  stage.cueNotes (fun place term random => [⟨place, term, random⟩]) turn.cue turn.cursor

/-- The terms that are visited while a pattern is planned, in the order of play. -/
def visits (stage : Stage) (pattern : Pattern) (cursor : Cursor) : List Visit :=
  (stage.turns pattern cursor).flatMap stage.visitsAt

/-- Whether the beat number of a term that is visited is on the map of the term's song. -/
def isInside (stage : Stage) (visit : Visit) : Bool :=
  (stage.termRequests visit.place visit.term visit.random).any Request.isInside

/-- Whether a term that is visited plays a leaf: it always does where the pattern plays once, and
where the pattern fills a song if the beat number is on the map. -/
def isPlayed (stage : Stage) (visit : Visit) : Bool :=
  match stage.repetition with
  | .once => true
  | .fill => stage.isInside visit

/-- Whether a step that comes up has a term that plays a leaf. -/
def hasPlayed (stage : Stage) (turn : Turn) : Bool :=
  (stage.visitsAt turn).any stage.isPlayed

variable {stage : Stage} {pattern : Pattern} {cursor : Cursor} {visit : Visit}

/-- Where a pattern plays once, every term that is visited plays a leaf. -/
lemma isPlayed_of_once (honce : stage.repetition = .once) : stage.isPlayed = fun _ => true := by
  funext visit
  rw [isPlayed, honce]

/-- Where a pattern fills a song, the terms play a leaf whose beat number is on the map. -/
lemma isPlayed_of_fill (hfill : stage.repetition = .fill) : stage.isPlayed = stage.isInside := by
  funext visit
  rw [isPlayed, hfill]

/-! ## Where visits come from -/

/-- A term that is visited at a turn is one of the step, with the offset of the step. -/
lemma visit_spec {turn : Turn} (h : visit ∈ stage.visitsAt turn) :
    visit.term ∈ turn.cue.step.terms ∧ visit.place.offset = turn.cue.offset := by
  obtain ⟨⟨step, size, offset⟩, cursor⟩ := turn
  cases step with
  | single term =>
    obtain rfl := List.mem_singleton.mp h
    exact ⟨List.mem_singleton_self term, rfl⟩
  | mix mode parts =>
    obtain ⟨term, hterm, random, hvisit⟩ := exists_of_mem_collectNotes h
    obtain rfl := List.mem_singleton.mp hvisit
    exact ⟨hterm, rfl⟩

/-- A term that is visited is visited at the turn of a cue. -/
lemma exists_turn_of_mem_visits (h : visit ∈ stage.visits pattern cursor) :
    ∃ turn, turn.cue ∈ stage.cuesOf pattern cursor.random ∧ visit ∈ stage.visitsAt turn := by
  obtain ⟨turn, hturn, hvisit⟩ := List.mem_flatMap.mp h
  obtain ⟨cue, hcue, cursor', hsame⟩ := exists_of_mem_collectNotes hturn
  obtain rfl := List.mem_singleton.mp hsame
  exact ⟨_, hcue, hvisit⟩

/-- **A term that is visited is one of the pattern.** -/
lemma term_mem_of_mem_visits (h : visit ∈ stage.visits pattern cursor) :
    visit.term ∈ pattern.terms := by
  obtain ⟨turn, hcue, hvisit⟩ := exists_turn_of_mem_visits h
  exact List.mem_flatMap.mpr ⟨_, Pattern.step_mem_of_mem_cues hcue, (visit_spec hvisit).1⟩

/-- Where a pattern plays once, nothing is added to its numbers. -/
lemma offset_of_mem_visits (honce : stage.repetition = .once)
    (h : visit ∈ stage.visits pattern cursor) : visit.place.offset = Binary.ofNat 0 := by
  obtain ⟨turn, hcue, hvisit⟩ := exists_turn_of_mem_visits h
  rw [(visit_spec hvisit).2]
  rw [cuesOf, repetitions_eq_one (.inl honce), cues, List.range_one, List.flatMap_singleton] at hcue
  obtain ⟨step, -, hstep⟩ := List.mem_map.mp hcue
  rw [← hstep, Nat.zero_mul]

end Stage

/-! ## What is played -/

/-- What a term plays that is visited: it makes a leaf of the frames of a beat of its song, the one
that is played for the number of its reference. -/
inductive Visit.Yields (stage : Stage) (visit : Visit) (leaf : Leaf) : Prop where
  /-- The leaf is made of the frames of the beat. -/
  | intro {song : Song} {requested beat : Double} {start stop : ℕ}
      (hsong : stage.songOf visit.term = .ok song)
      (hnumber : (visit.term.beat.ref.resolve visit.place song.beatmap.beatCount visit.random).1 =
        .ok requested)
      (hbeat : stage.beatFor song.beatmap visit.place.size requested = .ok (some beat))
      (hwindow : song.beatmap.window? beat = some (start, stop))
      (hleaf : leaf.Plays visit.term song.recording start stop)

/-- A plan of the kind of a step: a leaf for a term, and a mix for a mix of the same mode. -/
inductive Step.SameKind : Step → Plan → Prop where
  /-- A term and a leaf. -/
  | single (term : Term) (leaf : Leaf) : SameKind (.single term) (.single leaf)
  /-- Two mixes of the same mode. -/
  | mix (mode : MixMode) (parts : List Term) (leaves : List Leaf) :
      SameKind (.mix mode parts) (.mix mode leaves)

/-- What a step plays that comes up: a plan of its kind, with one leaf for each of its terms that
plays one, in their order. -/
structure Turn.Yields (stage : Stage) (turn : Turn) (plan : Plan) : Prop where
  /-- The plan is of the kind of the step. -/
  sameKind : turn.cue.step.SameKind plan
  /-- The leaves are those of the terms. -/
  leaves : List.Forall₂ (Visit.Yields stage) ((stage.visitsAt turn).filter stage.isPlayed)
    plan.leaves

namespace Stage

variable {stage : Stage}

/-- What a term plays on a beat is made of the frames of the beat. -/
lemma leafOf_eq_ok_iff {song : Song} {term : Term} {beat : Double} {leaf : Leaf} :
    leafOf song term beat = .ok leaf ↔ ∃ start stop,
      song.beatmap.window? beat = some (start, stop) ∧
        leaf.Plays term song.recording start stop := by
  rw [leafOf]
  cases hwindow : song.beatmap.window? beat with
  | none => simp
  | some window =>
    obtain ⟨start, stop⟩ := window
    dsimp only
    constructor
    · intro h
      cases h
      exact ⟨start, stop, rfl, Leaf.plays_cut _ _ _ _⟩
    · rintro ⟨start', stop', hsame, hplays⟩
      cases hsame
      cases hplays with
      | silence hsilent => rw [if_pos hsilent]
      | extract hsilent => rw [if_neg (Bool.eq_false_iff.mp hsilent)]

/-- A beat is played for a beat number where the pattern plays once, and where it fills the song if
the number is on the map. -/
lemma due_beatFor {map : Beatmap} {size : ℕ} {requested : Double} {beat? : Option Double}
    (h : stage.beatFor map size requested = .ok beat?) :
    Due (fun beat => stage.beatFor map size requested = .ok (some beat))
      (match stage.repetition with
        | .once => true
        | .fill => map.containsBeat requested) beat? := by
  have hsame := h
  rw [beatFor] at h
  cases hrepetition : stage.repetition with
  | once =>
    rw [hrepetition] at h
    obtain ⟨beat, -, rfl⟩ := map_eq_ok_iff.mp h
    exact .some hsame
  | fill =>
    rw [hrepetition] at h
    dsimp only at h ⊢
    split_ifs at h with hinside
    · cases h
      rw [hinside]
      exact .some hsame
    · cases h
      rw [Bool.eq_false_iff.mpr hinside]
      exact .none

/-- **What a term plays.** -/
lemma due_planTerm {place : Place} {term : Term} {random random' : Stream} {result : Option Leaf}
    (h : stage.planTerm place term random = (.ok result, random')) :
    Due (Visit.Yields stage ⟨place, term, random⟩) (stage.isPlayed ⟨place, term, random⟩)
      result := by
  obtain ⟨song, requested, hsong, hresolve, hleaf⟩ := planTerm_eq_ok_iff.mp h
  obtain ⟨beat?, hbeat, hleaf⟩ := bind_eq_ok_iff.mp hleaf
  have hinside : stage.isInside ⟨place, term, random⟩ = song.beatmap.containsBeat requested := by
    rw [isInside, termRequests, hsong]
    dsimp only
    rw [hresolve]
    exact Bool.or_false _
  have hdue := due_beatFor hbeat
  rw [isPlayed, hinside]
  generalize (match stage.repetition with
    | .once => true
    | .fill => song.beatmap.containsBeat requested) = due at hdue ⊢
  cases hdue with
  | some hbeat =>
    obtain ⟨leaf, hmade, hresult⟩ := bind_eq_ok_iff.mp hleaf
    cases hresult
    obtain ⟨start, stop, hwindow, hplays⟩ := leafOf_eq_ok_iff.mp hmade
    exact .some ⟨hsong, by rw [hresolve], hbeat, hwindow, hplays⟩
  | none =>
    cases hleaf
    exact .none

/-- A number with a beat plays what the term plays on the beat. -/
lemma leafFor_of_beatFor {song : Song} {term : Term} {size : ℕ} {requested beat : Double}
    {leaf : Leaf} (hbeat : stage.beatFor song.beatmap size requested = .ok (some beat))
    (hleaf : leafOf song term beat = .ok leaf) :
    stage.leafFor size song term requested = .ok (some leaf) := by
  refine bind_eq_ok_iff.mpr ⟨some beat, hbeat, ?_⟩
  exact bind_eq_ok_iff.mpr ⟨leaf, hleaf, rfl⟩

/-- What a term plays is told by the frames of its beat. -/
lemma planTerm_of_yields {visit : Visit} {leaf : Leaf} (h : visit.Yields stage leaf) :
    (stage.planTerm visit.place visit.term visit.random).1 = .ok (some leaf) := by
  obtain ⟨hsong, hnumber, hbeat, hwindow, hleaf⟩ := h
  have hplayed := leafFor_of_beatFor hbeat (leafOf_eq_ok_iff.mpr ⟨_, _, hwindow, hleaf⟩)
  rw [planTerm_eq_ok_iff.mpr ⟨_, _, hsong, Prod.ext hnumber rfl, hplayed⟩]

/-- **What a step plays.** -/
lemma due_planCue {cue : Cue} {cursor cursor' : Cursor} {result : Option Plan}
    (h : stage.planCue cue cursor = (.ok result, cursor')) :
    Due (Turn.Yields stage ⟨cue, cursor⟩) (stage.hasPlayed ⟨cue, cursor⟩) result := by
  obtain ⟨random, hstep, -⟩ := planCue_eq_ok_iff.mp h
  obtain ⟨step, size, offset⟩ := cue
  cases step with
  | single term =>
    obtain ⟨hmap, hrandom⟩ := Prod.mk.inj hstep
    obtain ⟨leaf?, hleaf, rfl⟩ := map_eq_ok_iff.mp hmap
    have hvisits : stage.visitsAt ⟨⟨.single term, size, offset⟩, cursor⟩ =
      [⟨⟨size, offset, cursor.position⟩, term, cursor.random⟩] := rfl
    have hdue := due_planTerm (Prod.ext hleaf hrandom)
    rw [hasPlayed, hvisits, List.any_cons, List.any_nil, Bool.or_false]
    generalize hplayed : stage.isPlayed _ = due at hdue ⊢
    cases hdue with
    | some hyields =>
      refine .some ⟨.single term _, ?_⟩
      rw [hvisits, List.filter_cons_of_pos hplayed]
      exact .cons hyields .nil
    | none => exact .none
  | mix mode parts =>
    obtain ⟨hmap, hrandom⟩ := Prod.mk.inj hstep
    obtain ⟨leaves, hleaves, rfl⟩ := map_eq_ok_iff.mp hmap
    have hyields : List.Forall₂ (Visit.Yields stage)
        ((stage.visitsAt ⟨⟨.mix mode parts, size, offset⟩, cursor⟩).filter stage.isPlayed) leaves :=
      forall₂_of_collect (fun _ _ _ _ hterm => due_planTerm hterm) (Prod.ext hleaves hrandom)
    rw [hasPlayed, any_eq_of_forall₂_filter hyields, mixOf?]
    cases leaves with
    | nil => exact .none
    | cons leaf leaves => exact .some ⟨.mix mode parts _, hyields⟩

/-! ## Patterns -/

section Plan

variable {pattern : Pattern} {cursor last : Cursor} {plans : List Plan}
  (hplan : stage.plan pattern cursor = (.ok plans, last))

include hplan

/-- Where a pattern is planned, all its steps come up, in the order of play. -/
lemma map_cue_turns : (stage.turns pattern cursor).map Turn.cue =
    stage.cuesOf pattern cursor.random :=
  map_collectNotes (fun _ _ => rfl) hplan

/-- Where a pattern is planned, all terms of a step that comes up are visited, in written order. -/
lemma map_term_visitsAt {turn : Turn} (hturn : turn ∈ stage.turns pattern cursor) :
    (stage.visitsAt turn).map Visit.term = turn.cue.step.terms := by
  obtain ⟨cue, -, cursor', result, cursor'', rfl, hcue⟩ :=
    exists_ok_of_mem_collectNotes hplan hturn
  obtain ⟨random, hstep, -⟩ := planCue_eq_ok_iff.mp hcue
  obtain ⟨step, size, offset⟩ := cue
  cases step with
  | single term => rfl
  | mix mode parts =>
    obtain ⟨hmap, hrandom⟩ := Prod.mk.inj hstep
    obtain ⟨leaves, hleaves, rfl⟩ := map_eq_ok_iff.mp hmap
    exact map_collectNotes (fun _ _ => rfl) (Prod.ext hleaves hrandom)

/-- **The plans of a pattern** are those of the steps with a term that plays a leaf, one for each
and in the order of play. -/
theorem plan_yields :
    List.Forall₂ (Turn.Yields stage) ((stage.turns pattern cursor).filter stage.hasPlayed) plans :=
  forall₂_of_collect (fun _ _ _ _ hcue => due_planCue hcue) hplan

/-- **The leaves of the plans** are those of the terms that play one, one for each and in the order
of play. -/
theorem leaves_yields :
    List.Forall₂ (Visit.Yields stage) ((stage.visits pattern cursor).filter stage.isPlayed)
      (plans.flatMap Plan.leaves) := by
  have hleaves := List.rel_flatMap (plan_yields hplan) fun turn plan hturn => hturn.leaves
  rw [visits, filter_flatMap_eq]
  exact hleaves

end Plan

end Stage

end Arranger
