import Arranger.Proofs.Plan.Tiling

/-!
# Patterns with other references

A pattern whose beat references are exchanged for others is planned alike, if the references stand
for the same beat numbers where they are due.

## Main definitions

* `Arranger.Term.mapRef`, `Arranger.Step.mapRefs` — terms and steps with other references.

## Main results

* `Arranger.Stage.planStep_mapRefs` — steps whose references stand for the same beat numbers.
* `Arranger.Stage.planCue_mapRefs` — the same for cues.
-/

namespace Arranger

/-! ## Exchanging references -/

/-- The term with another reference in the place of its own. -/
def Term.mapRef (f : BeatRef → BeatRef) (term : Term) : Term :=
  { term with beat := { term.beat with ref := f term.beat.ref } }

/-- The step with other references in the place of its own, also in a mix. -/
def Step.mapRefs (f : BeatRef → BeatRef) : Step → Step
  | single term => single (term.mapRef f)
  | mix mode parts => mix mode (parts.map (Term.mapRef f))

/-- A step with its own references. -/
@[simp] lemma Step.mapRefs_id (step : Step) : step.mapRefs id = step := by
  cases step with
  | single term => rfl
  | mix mode parts => exact congrArg (mix mode) (List.map_id parts)

section Marks

variable (f : BeatRef → BeatRef)

/-- Other references leave the number of counted terms as it is. -/
@[simp] lemma countedTerms_map_mapRef (terms : List Term) :
    countedTerms (terms.map (Term.mapRef f)) = countedTerms terms := by
  rw [countedTerms, List.filter_map, List.length_map]
  rfl

/-- Other references leave it open whether a step counts. -/
@[simp] lemma Step.counts_mapRefs (step : Step) : (step.mapRefs f).counts = step.counts := by
  cases step with
  | single term => rfl
  | mix mode parts =>
    show (parts.map (Term.mapRef f)).any Term.counts = parts.any Term.counts
    rw [List.any_map]
    rfl

/-- Other references leave the shuffle group as it is. -/
@[simp] lemma Step.group?_mapRefs (step : Step) : (step.mapRefs f).group? = step.group? := by
  cases step <;> rfl

end Marks

/-! ## Planning -/

/-- The number of siblings does not change what a reference stands for. -/
lemma BeatRef.resolve_size (ref : BeatRef) (place : Place) (size beatCount : ℕ) (stream : Stream) :
    ref.resolve { place with size } beatCount stream = ref.resolve place beatCount stream := by
  cases ref <;> rfl

namespace Stage

variable {stage : Stage} {f : BeatRef → BeatRef} {place place' : Place}

/-- Where a pattern fills a song, the number of siblings does not matter. -/
lemma leafFor_size (hfill : stage.repetition = .fill) (size size' : ℕ) (song : Song) (term : Term)
    (requested : Double) :
    stage.leafFor size song term requested = stage.leafFor size' song term requested := by
  unfold leafFor beatFor
  rw [hfill]

section Places

variable (hsize : stage.repetition = .once → place.size = place'.size)

include hsize

/-- A term whose reference stands for the same beat numbers is planned alike. -/
lemma planTerm_mapRef {term : Term}
    (href : ∀ beatCount stream, (f term.beat.ref).resolve place beatCount stream =
      term.beat.ref.resolve place' beatCount stream) (stream : Stream) :
    stage.planTerm place (term.mapRef f) stream = stage.planTerm place' term stream := by
  have hleaf : ∀ song, stage.leafFor place.size song (term.mapRef f) =
      stage.leafFor place'.size song term := by
    intro song
    funext requested
    cases hrepetition : stage.repetition with
    | once => rw [hsize hrepetition]; rfl
    | fill => exact leafFor_size hrepetition _ _ song term requested
  unfold planTerm
  rw [show stage.songOf (term.mapRef f) = stage.songOf term from rfl]
  cases stage.songOf term with
  | error fault => rfl
  | ok song =>
    dsimp only
    rw [hleaf, show (term.mapRef f).beat.ref = f term.beat.ref from rfl, href]

/-- **A step whose references stand for the same beat numbers is planned alike.** -/
lemma planStep_mapRefs {step : Step}
    (href : ∀ term ∈ step.terms, ∀ beatCount stream,
      (f term.beat.ref).resolve place beatCount stream =
        term.beat.ref.resolve place' beatCount stream) (stream : Stream) :
    stage.planStep place (step.mapRefs f) stream = stage.planStep place' step stream := by
  cases step with
  | single term =>
    rw [Step.mapRefs, planStep, planTerm_mapRef hsize (href term (List.mem_singleton_self _))]
    rfl
  | mix mode parts =>
    have hterm : ∀ term ∈ parts, ∀ stream,
        stage.planTerm { place with size := countedTerms parts } (term.mapRef f) stream =
          stage.planTerm { place' with size := countedTerms parts } term stream := by
      intro term hmem
      refine planTerm_mapRef ?_ fun beatCount stream => ?_
      · exact fun _ => rfl
      · rw [BeatRef.resolve_size _ place, BeatRef.resolve_size _ place', href term hmem]
    rw [Step.mapRefs, planStep, planStep, countedTerms_map_mapRef]
    dsimp only
    rw [collect_map, collect_congr hterm]

end Places

/-- **A cue whose references stand for the same beat numbers is planned alike.** -/
lemma planCue_mapRefs {step : Step} {size size' : ℕ} {offset offset' : Double} {cursor : Cursor}
    (hsize : stage.repetition = .once → size = size')
    (href : ∀ term ∈ step.terms, ∀ beatCount stream,
      (f term.beat.ref).resolve ⟨size, offset, cursor.position⟩ beatCount stream =
        term.beat.ref.resolve ⟨size', offset', cursor.position⟩ beatCount stream) :
    stage.planCue ⟨step.mapRefs f, size, offset⟩ cursor =
      stage.planCue ⟨step, size', offset'⟩ cursor := by
  rw [planCue, planCue, planStep_mapRefs hsize href]

end Stage

end Arranger
