import Arranger.Proofs.Pattern.Commas
import Arranger.Proofs.Plan.Notes
import Arranger.Proofs.Plan.References

/-!
# Patterns one after another

To plan two patterns one after another is to plan the pattern that has a comma between them, where
both play once, nothing is shuffled, and no beat has to be wrapped. The position and the random
stream are carried on, and a beat that is not wrapped does not ask for the size of its pattern.

## Main definitions

* `Arranger.Request` — a beat number that is looked up on a map.
* `Arranger.Stage.requests` — what is looked up while a pattern is planned.

## Main results

* `Arranger.Stage.planCue_resize` — a cue with no beat to wrap does not depend on its size.
* `Arranger.Stage.plan_append_comma` — two patterns one after another.
-/

namespace Arranger

/-- A beat number that is looked up on a map. -/
structure Request where
  /-- The map. -/
  map : Beatmap
  /-- The beat number. -/
  beat : Double
deriving DecidableEq

/-- Whether the beat is on the map. -/
def Request.isInside (request : Request) : Bool :=
  request.map.containsBeat request.beat

/-- A pattern without shuffle groups has no step with a group. -/
lemma Pattern.group?_eq_none_of_groups_eq_nil {pattern : Pattern} (h : pattern.groups = []) :
    ∀ step ∈ pattern.steps, step.group? = none := by
  intro step hstep
  obtain ⟨slot, hslot⟩ := List.mem_iff_getElem?.mp hstep
  by_contra hgroup
  have hmem : slot ∈ groupedSlots 0 pattern.steps := by
    refine List.mem_map.mpr ⟨(step, slot), List.mem_filter.mpr ⟨?_, ?_⟩, rfl⟩
    · exact List.mem_zipIdx_iff_getElem?.mpr hslot
    · simpa [Option.isSome_iff_ne_none] using hgroup
  have hslots := pattern.slots_groups.symm.subset hmem
  rw [h] at hslots
  cases hslots

namespace Stage

/-! ## What is looked up -/

/-- What is looked up for a term: the number of its reference on the map of its song. -/
def termRequests (stage : Stage) (place : Place) (term : Term) (stream : Stream) : List Request :=
  match stage.songOf term with
  | .error _ => []
  | .ok song =>
    match (term.beat.ref.resolve place song.beatmap.beatCount stream).1 with
    | .error _ => []
    | .ok requested => [⟨song.beatmap, requested⟩]

/-- What is looked up while a pattern is planned, in the order of play. -/
def requests (stage : Stage) (pattern : Pattern) (cursor : Cursor) : List Request :=
  stage.planNotes stage.termRequests pattern cursor

/-! ## Sizes -/

section Resize

variable {stage : Stage} (size : ℕ)

/-- A beat that is on the map is played for itself, whatever the size. -/
lemma beatFor_of_containsBeat {map : Beatmap} {requested : Double}
    (h : map.containsBeat requested = true) :
    stage.beatFor map size requested = .ok (some requested) := by
  unfold beatFor
  cases stage.repetition with
  | once => simp [Beatmap.wrapBeat, h, Except.map]
  | fill => simp [h]

/-- A term with no beat to wrap does not depend on the size. -/
lemma planTerm_resize {place : Place} {term : Term} {stream : Stream}
    (h : ∀ request ∈ stage.termRequests place term stream, request.isInside = true) :
    stage.planTerm { place with size } term stream = stage.planTerm place term stream := by
  unfold termRequests at h
  rw [planTerm, planTerm]
  cases hsong : stage.songOf term with
  | error fault => rfl
  | ok song =>
    rw [hsong] at h
    dsimp only at h ⊢
    rw [BeatRef.resolve_size]
    cases hresolve : term.beat.ref.resolve place song.beatmap.beatCount stream with
    | mk outcome rest =>
      rw [hresolve] at h
      cases outcome with
      | error fault => rfl
      | ok requested =>
        have hinside := h _ (List.mem_singleton_self _)
        show (stage.leafFor size song term requested, rest) =
          (stage.leafFor place.size song term requested, rest)
        rw [leafFor, leafFor, beatFor_of_containsBeat size hinside,
          beatFor_of_containsBeat place.size hinside]

/-- A step with no beat to wrap does not depend on the size. The parts of a mix have its own size
anyway. -/
lemma planStep_resize {place : Place} {step : Step} {stream : Stream}
    (h : ∀ request ∈ stage.stepNotes stage.termRequests place step stream,
      request.isInside = true) :
    stage.planStep { place with size } step stream = stage.planStep place step stream := by
  cases step with
  | single term =>
    rw [planStep, planStep]
    rw [planTerm_resize size h]
  | mix mode parts => rfl

/-- **A cue with no beat to wrap does not depend on the size** of its pattern. -/
lemma planCue_resize {cue : Cue} {cursor : Cursor}
    (h : ∀ request ∈ stage.cueNotes stage.termRequests cue cursor, request.isInside = true) :
    stage.planCue { cue with size } cursor = stage.planCue cue cursor := by
  have hstep := planStep_resize size h
  dsimp only at hstep
  rw [planCue, planCue]
  dsimp only
  rw [hstep]

end Resize

/-! ## Patterns one after another -/

section Once

variable {stage : Stage} {pattern : Pattern} (honce : stage.repetition = .once)
  (hgroups : pattern.groups = [])

include honce hgroups

/-- A pattern that plays once and shuffles nothing goes through its steps in written order. -/
lemma plan_of_once (cursor : Cursor) :
    stage.plan pattern cursor = collect stage.planCue
        (pattern.steps.map fun step => ⟨step, pattern.size, Binary.ofNat 0⟩) cursor ∧
      stage.requests pattern cursor = collectNotes stage.planCue (stage.cueNotes stage.termRequests)
        (pattern.steps.map fun step => ⟨step, pattern.size, Binary.ofNat 0⟩) cursor := by
  have hrearranged := Pattern.rearranged_of_ungrouped
    (Pattern.group?_eq_none_of_groups_eq_nil hgroups) cursor.random
  have hcues : cues pattern.size (stage.repetitions pattern.size) pattern.steps =
      pattern.steps.map fun step => ⟨step, pattern.size, Binary.ofNat 0⟩ := by
    rw [repetitions, honce]
    simp [cues]
  constructor
  · rw [plan, hrearranged]
    dsimp only
    rw [hcues]
  · rw [requests, planNotes, hrearranged]
    dsimp only
    rw [hcues]

/-- Its steps can be planned with another size, where no beat has to be wrapped. -/
lemma collect_resize (size : ℕ) {cursor : Cursor}
    (h : ∀ request ∈ stage.requests pattern cursor, request.isInside = true) :
    collect stage.planCue (pattern.steps.map fun step => ⟨step, size, Binary.ofNat 0⟩) cursor =
      stage.plan pattern cursor := by
  obtain ⟨hplan, hrequests⟩ := plan_of_once honce hgroups cursor
  rw [hrequests] at h
  rw [hplan, ← collect_map_of_notes (g := fun cue => { cue with size })
    (fun cue _ cursor hinside => planCue_resize size hinside) h, List.map_map]
  rfl

end Once

/-- **Patterns one after another.** Take two texts that are read as patterns without shuffle groups,
and plan the patterns where they play once, the second from the cursor on that the first leaves. If
both succeed and look up only beats that are on the maps of their songs, the text with a comma
between the two is read as a pattern with the steps of both, and its plans are those of the first
and then those of the second, with the same cursor behind them.

**Proof sketch.** The pattern of the joined text is planned in one row, which is the row of the
first pattern and then that of the second, only that the steps are of another size. But where no
beat is wrapped, nothing asks for it. -/
theorem plan_append_comma {text other : String} {first second : Pattern} {stage : Stage}
    {cursor middle last : Cursor} {plans plans' : List Plan}
    (hfirst : Pattern.ofText text = .ok first) (hsecond : Pattern.ofText other = .ok second)
    (hgroups : first.groups = []) (hgroups' : second.groups = [])
    (honce : stage.repetition = .once)
    (hplan : stage.plan first cursor = (.ok plans, middle))
    (hplan' : stage.plan second middle = (.ok plans', last))
    (hinside : ∀ request ∈ stage.requests first cursor ++ stage.requests second middle,
      request.isInside = true) :
    ∃ whole, Pattern.ofText (text ++ "," ++ other) = .ok whole ∧
      whole.steps = first.steps ++ second.steps ∧
      stage.plan whole cursor = (.ok (plans ++ plans'), last) := by
  refine ⟨_, Pattern.ofText_append_comma hfirst hsecond, rfl, ?_⟩
  rw [List.forall_mem_append] at hinside
  have hwhole : Pattern.groups ⟨first.steps ++ second.steps⟩ = [] := by
    refine joinGroups_eq_nil fun step hstep => ?_
    rcases List.mem_append.mp hstep with hstep | hstep
    · exact Pattern.group?_eq_none_of_groups_eq_nil hgroups step hstep
    · exact Pattern.group?_eq_none_of_groups_eq_nil hgroups' step hstep
  rw [(plan_of_once honce hwhole cursor).1, List.map_append]
  set size := Pattern.size ⟨first.steps ++ second.steps⟩
  have hplanned := collect_resize honce hgroups size hinside.1
  have hplanned' := collect_resize honce hgroups' size hinside.2
  exact collect_append (hplanned.trans hplan) (hplanned'.trans hplan')

/-- From the second position on, a position and a random beat, and then a mix and a random beat with
an effect, on a song of five beats. -/
theorem plan_append_comma_four_steps :
    ∃ (stage : Stage) (first second : Pattern) (plans plans' : List Plan) (middle last : Cursor),
      Pattern.ofText "i,@1_3" = .ok first ∧ Pattern.ofText "i;2,@2_4_2r" = .ok second ∧
      stage.plan first ⟨.ofSeed 5, 1⟩ = (.ok plans, middle) ∧
      stage.plan second middle = (.ok plans', last) ∧ plans.length = 2 ∧ plans'.length = 2 ∧
      ∃ whole, Pattern.ofText ("i,@1_3" ++ "," ++ "i;2,@2_4_2r") = .ok whole ∧
        whole.steps = first.steps ++ second.steps ∧
        stage.plan whole ⟨.ofSeed 5, 1⟩ = (.ok (plans ++ plans'), last) := by
  have hfirst : Pattern.ofText "i,@1_3" = .ok
      ⟨[.single ⟨none, { ref := .position 0 }⟩, .single ⟨none, { ref := .random 1 3 1 }⟩]⟩ := by
    decide +kernel
  have hsecond : Pattern.ofText "i;2,@2_4_2r" = .ok
      ⟨[.mix .sum [⟨none, { ref := .position 0 }⟩, ⟨none, { ref := .literal 2 }⟩],
        .single ⟨none, { ref := .random 2 4 2, effects := [.reverse] }⟩]⟩ := by
    decide +kernel
  have hplan : ∃ plans, (plan ⟨⟨⟨[[0, 1, 0, 1, 0]], 1⟩, ⟨[0, 1, 2, 3, 4, 5], 5⟩⟩, .empty, .once⟩
      ⟨[.single ⟨none, { ref := .position 0 }⟩, .single ⟨none, { ref := .random 1 3 1 }⟩]⟩
      ⟨.ofSeed 5, 1⟩).1 = .ok plans ∧ plans.length = 2 :=
    ⟨[.single (.extract none ⟨[[0, 1, 0, 1, 0]], 1⟩ 1 2 []),
      .single (.extract none ⟨[[0, 1, 0, 1, 0]], 1⟩ 0 1 [])], by decide +kernel⟩
  -- the second pattern goes on where the first one left off
  have hplan' : ∃ plans, (plan ⟨⟨⟨[[0, 1, 0, 1, 0]], 1⟩, ⟨[0, 1, 2, 3, 4, 5], 5⟩⟩, .empty, .once⟩
      ⟨[.mix .sum [⟨none, { ref := .position 0 }⟩, ⟨none, { ref := .literal 2 }⟩],
        .single ⟨none, { ref := .random 2 4 2, effects := [.reverse] }⟩]⟩
      (plan ⟨⟨⟨[[0, 1, 0, 1, 0]], 1⟩, ⟨[0, 1, 2, 3, 4, 5], 5⟩⟩, .empty, .once⟩
        ⟨[.single ⟨none, { ref := .position 0 }⟩, .single ⟨none, { ref := .random 1 3 1 }⟩]⟩
        ⟨.ofSeed 5, 1⟩).2).1 = .ok plans ∧ plans.length = 2 :=
    ⟨[.mix .sum [.extract none ⟨[[0, 1, 0, 1, 0]], 1⟩ 3 4 [],
        .extract none ⟨[[0, 1, 0, 1, 0]], 1⟩ 1 2 []],
      .single (.extract none ⟨[[0, 1, 0, 1, 0]], 1⟩ 3 4 [.reverse])], by decide +kernel⟩
  obtain ⟨plans, hplans, hlength⟩ := hplan
  obtain ⟨plans', hplans', hlength'⟩ := hplan'
  exact ⟨_, _, _, plans, plans', _, _, hfirst, hsecond, Prod.ext hplans rfl, Prod.ext hplans' rfl,
    hlength, hlength', plan_append_comma hfirst hsecond (by decide) (by decide) rfl
      (Prod.ext hplans rfl) (Prod.ext hplans' rfl) (by decide +kernel)⟩

end Stage

end Arranger
