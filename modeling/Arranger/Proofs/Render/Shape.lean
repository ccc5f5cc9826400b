import Mathlib.Algebra.BigOperators.Group.List.Basic
import Arranger.Proofs.Effect.Shape
import Arranger.Proofs.Plan.Origins
import Arranger.Proofs.Plan.Results
import Arranger.Proofs.Song.Reachable
import Arranger.Render.Basic

/-!
# The shape of what is rendered

What is performed has the channels of the song, all of one length, whatever the effects are.

## Main results

* `Arranger.performAll_hasShape` — the shape of plans performed one after another.
* `Arranger.Plan.ComesOf.exists_hasShape` — the shape of a plan that comes of a step.
* `Arranger.perform_wellFormed` — what is performed is a well-formed recording.
* `Arranger.exists_plan_of_render` — what is rendered is what is performed of plans.
-/

namespace Arranger

/-! ## One after another -/

/-- One more plan is performed behind the others. -/
lemma performAll_concat (limiter : Limiter) (channelCount : ℕ) (plans : List Plan) (plan : Plan) :
    performAll limiter channelCount (plans ++ [plan]) =
      (performAll limiter channelCount plans).append (plan.perform limiter channelCount) := by
  rw [performAll, List.foldl_append]
  rfl

/-- **Plans performed one after another are as long as all of them.** -/
lemma performAll_hasShape {α : Type} (limiter : Limiter) {channelCount : ℕ} {plan : α → Plan}
    {frames : α → ℕ} {xs : List α}
    (h : ∀ x ∈ xs, ((plan x).perform limiter channelCount).HasShape channelCount (frames x)) :
    (performAll limiter channelCount (xs.map plan)).HasShape channelCount (xs.map frames).sum := by
  induction xs using List.reverseRecOn with
  | nil => exact Segment.silent_hasShape channelCount 0
  | append_singleton xs x ih =>
    rw [List.forall_mem_append, List.forall_mem_singleton] at h
    rw [List.map_append, List.map_append, List.map_singleton, List.map_singleton, performAll_concat,
      List.sum_append, List.sum_singleton]
    exact (ih h.1).append h.2

/-! ## Leaves, mixes and plans -/

/-- A segment with another laid over it keeps its shape. -/
lemma Segment.HasShape.combine {segment : Segment} {channelCount frames : ℕ}
    (h : segment.HasShape channelCount frames) (mode : MixMode) (length : ℕ) (other : Segment) :
    (Segment.combine mode length segment other).HasShape channelCount frames := by
  refine ⟨(length_overlay _ _ _).trans h.channelCount_eq, ?_⟩
  refine forall_mem_overlay (fun x y hx _ => ?_) (fun _ _ hx => hx) h.length_eq fun _ _ => trivial
  exact (length_overlay _ _ _).trans hx

/-- A mix is as long as the longest part. -/
lemma mixDown_hasShape (mode : MixMode) (channelCount : ℕ) (parts : List Segment) :
    (mixDown mode channelCount parts).HasShape channelCount (longest parts) := by
  have hfold : ∀ (rest : List Segment) (segment : Segment),
      segment.HasShape channelCount (longest parts) →
      (rest.foldl (Segment.combine mode (longest parts)) segment).HasShape channelCount
        (longest parts) := by
    intro rest
    induction rest with
    | nil => exact fun segment h => h
    | cons part rest ih => exact fun segment h => ih _ (h.combine mode _ part)
  refine hfold parts _ ⟨List.length_replicate, fun channel hmem => ?_⟩
  rw [List.eq_of_mem_replicate hmem, List.length_replicate]

variable {stage : Stage}

/-- A leaf that comes of a term has a shape. -/
lemma Leaf.ComesOf.exists_hasShape {term : Term} {leaf : Leaf} (h : leaf.ComesOf stage term)
    (hsongs : ∀ song, stage.songOf term = .ok song → song.WellFormed) (channelCount : ℕ) :
    ∃ frames, (leaf.perform channelCount).HasShape channelCount frames := by
  obtain ⟨hsong, -, hleaf⟩ := h
  cases hleaf with
  | silence hsilent => exact ⟨_, Segment.silent_hasShape channelCount _⟩
  | extract hsilent =>
    have hrecording := (hsongs _ hsong).recording
    obtain ⟨frames, hframes⟩ :=
      (hrecording.window_hasShape _ _).exists_transformAll term.beat.effects
    have hchannels := List.length_pos_iff.mpr hrecording.channels_ne_nil
    exact ⟨frames, hframes.conform hchannels channelCount⟩

/-- **A plan that comes of a step has a shape.** -/
lemma Plan.ComesOf.exists_hasShape {step : Step} {plan : Plan} (h : plan.ComesOf stage step)
    (hsongs : ∀ term song, stage.songOf term = .ok song → song.WellFormed) (limiter : Limiter)
    (channelCount : ℕ) :
    ∃ frames, (plan.perform limiter channelCount).HasShape channelCount frames := by
  cases h with
  | single hleaf => exact hleaf.exists_hasShape (hsongs _) channelCount
  | mix mode hleaves => exact ⟨_, (mixDown_hasShape mode channelCount _).mapSamples _⟩

/-- **What is performed is a well-formed recording.** -/
lemma perform_wellFormed {song : Song} (h : song.WellFormed) {limiter : Limiter} {plans : List Plan}
    (hplans : ∀ plan ∈ plans, ∃ frames,
      (plan.perform limiter song.recording.channelCount).HasShape song.recording.channelCount
        frames) : (perform song limiter plans).WellFormed := by
  have hchannels : 0 < song.recording.channelCount :=
    List.length_pos_iff.mpr h.recording.channels_ne_nil
  have hjoined : (performAll limiter song.recording.channelCount (plans.map id)).HasShape
      song.recording.channelCount
      (plans.map fun plan =>
        (plan.perform limiter song.recording.channelCount).frames).sum := by
    refine performAll_hasShape limiter fun plan hmem => ?_
    obtain ⟨frames, hframes⟩ := hplans plan hmem
    rw [hframes.frames_eq hchannels]
    exact hframes
  rw [List.map_id] at hjoined
  have hlimited := hjoined.mapSamples limiter.clampSample
  have hcount : 0 < (perform song limiter plans).channels.length :=
    hchannels.trans_eq hlimited.channelCount_eq.symm
  refine ⟨List.length_pos_iff.mp hcount, ?_, h.recording.rate_pos⟩
  intro channel hmem
  exact (hlimited.length_eq channel hmem).trans (hlimited.frames_eq hchannels).symm

/-- What is rendered is what is performed of the plans of the pattern. -/
lemma exists_plan_of_render {pattern : Pattern} {song : Song} {table : SongTable}
    {options : RenderOptions} {entropy : UInt64} {recording : Recording}
    (h : render pattern song table options entropy = .ok recording) :
    ∃ plans, (Stage.plan ⟨song, table, options.repetition⟩ pattern
        (.ofSeed (options.seed.getD entropy))).1 = .ok plans ∧
      recording = perform song (.ofCeiling options.ceiling) plans := by
  obtain ⟨_, -, h⟩ := bind_eq_ok_iff.mp h
  obtain ⟨plans, hplans, h⟩ := bind_eq_ok_iff.mp h
  cases h
  exact ⟨plans, hplans, rfl⟩

end Arranger
