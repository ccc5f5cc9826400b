import Arranger.Proofs.Audio.Peak
import Arranger.Proofs.Beatmap.Window
import Arranger.Proofs.Plan.Extent
import Arranger.Proofs.Plan.Origins
import Arranger.Proofs.Render.Shape
import Arranger.Proofs.Render.Strict

/-!
# Renderings do nothing that is not defined

The numbers in the text of a pattern are within bounds, the frames of a beat lie within its
recording, and a limiter has a positive ceiling. So all operations of a rendering are defined, and a
strict rendering does not stop.

## Main results

* `Arranger.Stage.planOperations_defined` — planning does nothing that is not defined.
* `Arranger.Plan.ComesOf.operations_defined` — nor does performing a plan.
* `Arranger.render_defined` — nor does a rendering of a pattern that is read from a text, and a
  strict rendering of it goes through.
-/

namespace Arranger

/-! ## Planning is defined -/

/-- There is a choice for a reference within bounds. -/
lemma BeatRef.Bounded.operations_defined {ref : BeatRef} (h : ref.Bounded) :
    ∀ operation ∈ ref.operations, operation.Defined := by
  cases ref with
  | literal number => simp [operations]
  | position offset => simp [operations]
  | random low high step =>
    obtain ⟨-, -, -, -, -, count, hcount, hone, -⟩ := h
    rw [operations, hcount, List.forall_mem_singleton]
    exact hone

/-- The part of a window that a beat keeps is taken from it. -/
lemma Beat.cutOperations_defined {beat : Beat} (hslice : ∀ slice ∈ beat.slice, slice.Bounded)
    {start stop : ℕ} (hle : start ≤ stop) (hstop : stop ≤ 2 ^ Format.double.precision) :
    ∀ operation ∈ beat.cutOperations start stop, operation.Defined := by
  rw [cutOperations, List.forall_mem_cons, List.forall_mem_append]
  refine ⟨hle, ?_, ?_⟩
  · cases hkept : beat.slice with
    | none => simp
    | some slice =>
      cases slice with
      | head fraction => simp
      | tail fraction =>
        obtain ⟨hpos, hone⟩ := hslice _ hkept
        have hframes : stop - start ≤ 2 ^ Format.double.precision := by omega
        have hpart := framesOf_le_of_bounds hpos hone hframes
        rw [List.forall_mem_singleton]
        exact hpart.trans (Nat.sub_le _ _)
  · split_ifs
    · rw [List.forall_mem_singleton]
      exact (Beat.cut_within hslice hle hstop).2.1
    · simp

section Terms

variable {stage : Stage} {term : Term} (hbounded : term.Bounded)
  (hsongs : ∀ song, stage.songOf term = .ok song →
    song.WellFormed ∧ song.recording.frames ≤ 2 ^ Format.double.precision)

include hbounded hsongs

/-- **Planning a term does nothing that is not defined.** -/
lemma Stage.termOperations_defined (place : Place) (stream : Stream) :
    ∀ operation ∈ stage.termOperations place term stream, operation.Defined := by
  unfold termOperations
  cases hsong : stage.songOf term with
  | error fault => simp
  | ok song =>
    obtain ⟨hwellFormed, hshort⟩ := hsongs song hsong
    rw [← hwellFormed.sourceLength_eq] at hshort
    dsimp only
    rw [List.forall_mem_append]
    refine ⟨hbounded.ref.operations_defined, ?_⟩
    split
    · next beat _ =>
      rw [Term.windowOperations, List.forall_mem_cons]
      refine ⟨Binary.zero_le_ofNat .double _, ?_⟩
      split
      · next start stop hwindow =>
        obtain ⟨-, hle, hlast⟩ := hwellFormed.beatmap.window?_within hshort hwindow
        have hstop := hlast.trans hwellFormed.beatmap.lastBoundary_le
        exact Beat.cutOperations_defined hbounded.slice hle (hstop.trans hshort)
      · simp
    · simp

end Terms

/-- There is a choice for each member that is shuffled. -/
lemma shuffleOperations_defined (n : ℕ) :
    ∀ operation ∈ shuffleOperations n, operation.Defined := by
  induction n with
  | zero => simp [shuffleOperations]
  | succ n ih => exact List.forall_mem_cons.mpr ⟨Nat.succ_pos _, ih⟩

/-- **Planning does nothing that is not defined**, where the terms keep within bounds and no
recording is too long. -/
theorem Stage.planOperations_defined {stage : Stage} {pattern : Pattern}
    (hbounded : ∀ term ∈ pattern.terms, term.Bounded)
    (hsongs : ∀ term song, stage.songOf term = .ok song →
      song.WellFormed ∧ song.recording.frames ≤ 2 ^ Format.double.precision) (cursor : Cursor) :
    ∀ operation ∈ stage.planOperations pattern cursor, operation.Defined := by
  rw [planOperations, List.forall_mem_append]
  constructor
  · intro operation hmem
    obtain ⟨group, -, hmem⟩ := List.mem_flatMap.mp hmem
    exact shuffleOperations_defined _ operation hmem
  · intro operation hmem
    obtain ⟨term, hterm, place, stream, hmem⟩ := exists_term_of_mem_planNotes hmem
    exact termOperations_defined (hbounded term hterm) (hsongs term) place stream operation hmem

/-! ## Performing is defined -/

/-- A stretch of a well-formed recording can be cut out of its channels. -/
lemma Recording.WellFormed.windowOperations_defined {recording : Recording}
    (h : recording.WellFormed) (start stop : ℕ) :
    ∀ operation ∈ recording.windowOperations start stop, operation.Defined := by
  intro operation hmem
  obtain ⟨channel, hchannel, rfl⟩ := List.mem_map.mp hmem
  refine ⟨min_le_right _ _, ?_⟩
  rw [h.length_eq channel hchannel]
  exact min_le_right _ _

/-- An effect within bounds can be applied. -/
lemma Effect.Bounded.operations_defined {effect : Effect} (h : effect.Bounded) :
    ∀ operation ∈ effect.operations, operation.Defined := by
  cases effect with
  | downsample hold =>
    rw [operations, List.forall_mem_singleton]
    exact h
  | bitcrush depth =>
    obtain ⟨hlow, hhigh⟩ := h
    rw [operations, List.forall_mem_cons, List.forall_mem_singleton]
    refine ⟨hlow, ?_⟩
    show depth - 1 < 32
    omega
  | _ => simp [operations]

/-- A limiter has its bounds the right way round, whatever ceiling is requested. -/
lemma Limiter.operations_defined (requested : Sample) :
    ∀ operation ∈ (ofCeiling requested).operations, operation.Defined := by
  obtain ⟨hfinite, hpos, -⟩ := ofCeiling_spec requested
  rw [operations, List.forall_mem_singleton]
  show -(ofCeiling requested).ceiling ≤ (ofCeiling requested).ceiling
  rw [Binary.le_iff (by rwa [Binary.isFinite_neg]) hfinite, Binary.value_neg]
  linarith

section Plans

variable {stage : Stage} {term : Term} {step : Step} {leaf : Leaf} {plan : Plan}

/-- What a term plays can be performed. -/
lemma Leaf.ComesOf.operations_defined (h : leaf.ComesOf stage term) (hbounded : term.Bounded)
    (hsongs : ∀ song, stage.songOf term = .ok song → song.WellFormed) :
    ∀ operation ∈ leaf.operations, operation.Defined := by
  obtain ⟨hsong, -, hleaf⟩ := h
  cases hleaf with
  | silence _ => simp [operations]
  | extract _ =>
    rw [operations, List.forall_mem_append]
    refine ⟨(hsongs _ hsong).recording.windowOperations_defined _ _, ?_⟩
    intro operation hmem
    obtain ⟨effect, heffect, hmem⟩ := List.mem_flatMap.mp hmem
    exact (hbounded.effects effect heffect).operations_defined operation hmem

/-- **What a step plays can be performed**, under any ceiling. -/
theorem Plan.ComesOf.operations_defined (h : plan.ComesOf stage step)
    (hbounded : ∀ term ∈ step.terms, term.Bounded)
    (hsongs : ∀ term song, stage.songOf term = .ok song → song.WellFormed) (requested : Sample) :
    ∀ operation ∈ plan.operations (.ofCeiling requested), operation.Defined := by
  cases h with
  | @single term leaf hleaf =>
    exact hleaf.operations_defined (hbounded term (List.mem_singleton_self term)) (hsongs term)
  | @mix parts leaves mode hleaves =>
    rw [operations, List.forall_mem_append]
    refine ⟨fun operation hmem => ?_, Limiter.operations_defined requested⟩
    obtain ⟨leaf, hleaf, hmem⟩ := List.mem_flatMap.mp hmem
    obtain ⟨term, hterm, horigin⟩ := exists_of_mem_of_sublistForall₂ hleaves leaf hleaf
    exact horigin.operations_defined (hbounded term hterm) (hsongs term) operation hmem

end Plans

/-! ## Renderings are defined -/

section Renderings

variable {pattern : Pattern} {song : Song} {table : SongTable}
  (hbounded : ∀ term ∈ pattern.terms, term.Bounded)
  (hsong : song.WellFormed ∧ song.recording.frames ≤ 2 ^ 52)
  (htable : ∀ name other, table.get? name = some other →
    other.WellFormed ∧ other.recording.frames ≤ 2 ^ 52)

include hbounded hsong htable

/-- **All operations of a rendering are defined**, where the terms keep within bounds, the songs are
well formed and no recording is too long. -/
theorem renderOperations_defined (options : RenderOptions) (entropy : UInt64) :
    ∀ operation ∈ renderOperations pattern song table options entropy, operation.Defined := by
  have hall := @Stage.forall_songOf ⟨song, table, options.repetition⟩ _ hsong htable
  have hsongs : ∀ term other, Stage.songOf ⟨song, table, options.repetition⟩ term = .ok other →
      other.WellFormed ∧ other.recording.frames ≤ 2 ^ Format.double.precision := by
    intro term other hother
    obtain ⟨hwellFormed, hshort⟩ := hall term other hother
    exact ⟨hwellFormed, hshort.trans (by decide)⟩
  unfold renderOperations
  split
  · simp
  · dsimp only
    rw [List.forall_mem_append]
    refine ⟨Stage.planOperations_defined hbounded hsongs _, ?_⟩
    split
    · simp
    · next plans hplans =>
      rw [List.forall_mem_append]
      refine ⟨fun operation hmem => ?_, Limiter.operations_defined options.ceiling⟩
      obtain ⟨plan, hplan, hmem⟩ := List.mem_flatMap.mp hmem
      obtain ⟨step, hstep, horigin⟩ := Stage.exists_comesOf_of_plan hplans plan hplan
      have hterms : ∀ term ∈ step.terms, term.Bounded := fun term hterm =>
        hbounded term (List.mem_flatMap.mpr ⟨step, hstep, hterm⟩)
      exact horigin.operations_defined hterms (fun term other h => (hsongs term other h).1)
        options.ceiling operation hmem

end Renderings

/-- **A rendering does nothing that is not defined.** A pattern that is read from a text keeps its
numbers within bounds. And where the songs are well formed and no recording has more than `2 ^ 52`
frames, all operations of a rendering of the pattern are defined, whatever the ceiling, the seed and
the way of repeating. So a strict rendering goes through, and gives what the rendering gives.

**Proof sketch.** What is noted while the pattern is planned comes of a term and the frames of a
beat of its song, and every plan comes of a step. So it is enough to go through what is done for a
term within bounds and for the frames of a beat that lie within a recording. -/
theorem render_defined {text : String} {pattern : Pattern}
    (htext : Pattern.ofText text = .ok pattern) :
    (∀ term ∈ pattern.terms, term.Bounded) ∧
      ∀ (song : Song) (table : SongTable) (options : RenderOptions) (entropy : UInt64),
        song.WellFormed ∧ song.recording.frames ≤ 2 ^ 52 →
        (∀ name other, table.get? name = some other →
          other.WellFormed ∧ other.recording.frames ≤ 2 ^ 52) →
        (∀ operation ∈ renderOperations pattern song table options entropy, operation.Defined) ∧
          strictRender pattern song table options entropy =
            some (render pattern song table options entropy) := by
  have hbounded := Pattern.bounded_of_ofText htext
  refine ⟨hbounded, ?_⟩
  intro song table options entropy hsong htable
  have hdefined := renderOperations_defined hbounded hsong htable options entropy
  exact ⟨hdefined, strictRender_eq hdefined⟩

/-- The second half of a beat with its depth cut to 24 bits and held over chunks of three, and two
shuffled beats of which one is random and silent, on a song of two channels. The song is well formed
and short, and what is done is eighteen operations of all kinds, each of them defined. A strict
rendering goes through them. -/
theorem render_defined_three_steps :
    ∃ (pattern : Pattern) (song : Song),
      Pattern.ofText "1<0.5b24d3,@1_2!#x,2#x" = .ok pattern ∧ song.WellFormed ∧
      song.recording.frames ≤ 2 ^ 52 ∧ (∀ term ∈ pattern.terms, term.Bounded) ∧
      renderOperations pattern song .empty ⟨some 1, .once, 1 / 2⟩ 0 =
        [.draw 2, .clamp (0 : Double) 2, .subtract 2 0, .subtract 2 1, .draw 2,
          .clamp (0 : Double) 2, .subtract 2 0, .subtract 2 0, .clamp (0 : Double) 2,
          .subtract 4 2, .cut 1 2 4, .cut 1 2 4, .subtract 24 1, .shift 23 32, .chunk 3,
          .cut 2 4 4, .cut 2 4 4, .clamp (-(1 / 2) : Sample) (1 / 2)] ∧
      (∀ operation ∈ renderOperations pattern song .empty ⟨some 1, .once, 1 / 2⟩ 0,
        operation.Defined) ∧
      strictRender pattern song .empty ⟨some 1, .once, 1 / 2⟩ 0 =
        some (render pattern song .empty ⟨some 1, .once, 1 / 2⟩ 0) := by
  have hrecording : Recording.ofChannels [[1, 0, 1, 0], [0, 0, 1, 1]] 2 =
      .ok ⟨[[1, 0, 1, 0], [0, 0, 1, 1]], 2⟩ := by
    decide +kernel
  have hsong : Song.Made ⟨⟨[[1, 0, 1, 0], [0, 0, 1, 1]], 2⟩, ⟨[0, 2, 4], 4⟩⟩ :=
    .ofBoundaries (.ofChannels hrecording)
      (show Song.ofBoundaries _ [0, 2, 4] = _ by decide +kernel)
  have htext : Pattern.ofText "1<0.5b24d3,@1_2!#x,2#x" = .ok
      ⟨[.single ⟨none, ⟨.literal 1, some (.tail (1 / 2)), [.bitcrush 24, .downsample 3], false,
          false, none⟩⟩,
        .single ⟨none, { ref := .random 1 2 1, silent := true, group := some "x" }⟩,
        .single ⟨none, { ref := .literal 2, group := some "x" }⟩]⟩ := by
    decide +kernel
  have hshort : Recording.frames ⟨[[1, 0, 1, 0], [0, 0, 1, 1]], 2⟩ ≤ 2 ^ 52 := by decide
  obtain ⟨hbounded, hdefined⟩ := render_defined htext
  refine ⟨_, _, htext, hsong.wellFormed, hshort, hbounded, by decide +kernel, ?_⟩
  exact hdefined _ .empty _ 0 ⟨hsong.wellFormed, hshort⟩ fun name other hget => by cases hget

end Arranger
