import Arranger.Proofs.Plan.Order
import Arranger.Proofs.Plan.Twins

/-!
# Where plans come from

Planning leaves terms out that are not on the map, and says of the others what they play. So every
plan comes of a step of the pattern, and the leaves of a plan come of terms of the step, in the
order of the terms.

## Main definitions

* `Arranger.Leaf.ComesOf` — what a term can play.
* `Arranger.Plan.ComesOf` — what a step can play.

## Main results

* `Arranger.InStep.sublistForall₂` — results that are gone through in step are of some members.
* `Arranger.Stage.exists_comesOf_of_plan` — every plan comes of a step of the pattern.
-/

namespace Arranger

/-! ## Results of some of the members -/

section Results

variable {α β : Type} {R : β → α → Prop}

/-- Results that are gone through in step are those of some of the members, in their order. -/
lemma InStep.sublistForall₂ {Q : α → α → β → β → Prop} {xs xs' : List α} {ys ys' : List β}
    (h : InStep Q xs xs' ys ys') (hQ : ∀ x x' y y', Q x x' y y' → R y x) :
    List.SublistForall₂ R ys xs := by
  induction h with
  | nil => exact .nil
  | keep h _ ih => exact .cons (hQ _ _ _ _ h) ih
  | drop _ ih => exact .cons_right ih

/-- What comes of some of the members comes of one of them. -/
lemma exists_of_mem_of_sublistForall₂ {values : List β} {xs : List α}
    (h : List.SublistForall₂ R values xs) : ∀ value ∈ values, ∃ x ∈ xs, R value x := by
  induction h with
  | nil => simp
  | cons hR _ ih =>
    refine List.forall_mem_cons.mpr ⟨⟨_, List.mem_cons_self, hR⟩, fun value hvalue => ?_⟩
    obtain ⟨x, hx, hvalue⟩ := ih value hvalue
    exact ⟨x, List.mem_cons_of_mem _ hx, hvalue⟩
  | cons_right _ ih =>
    intro value hvalue
    obtain ⟨x, hx, hvalue⟩ := ih value hvalue
    exact ⟨x, List.mem_cons_of_mem _ hx, hvalue⟩

end Results

/-! ## What terms and steps can play -/

/-- What a term can play: it makes a leaf of the frames of a beat of its song. -/
inductive Leaf.ComesOf (stage : Stage) (term : Term) (leaf : Leaf) : Prop where
  /-- The leaf is made of the frames of the beat. -/
  | intro {song : Song} {beat : Double} {start stop : ℕ} (hsong : stage.songOf term = .ok song)
      (hwindow : song.beatmap.window? beat = some (start, stop))
      (hleaf : leaf.Plays term song.recording start stop)

/-- What a step can play: what its term can, or a mix of what some of its parts can. -/
inductive Plan.ComesOf (stage : Stage) : Step → Plan → Prop where
  /-- What a single term plays. -/
  | single {term : Term} {leaf : Leaf} (hleaf : leaf.ComesOf stage term) :
      ComesOf stage (.single term) (.single leaf)
  /-- What parts of a mix play. -/
  | mix {parts : List Term} {leaves : List Leaf} (mode : MixMode)
      (hleaves : List.SublistForall₂ (fun leaf term => leaf.ComesOf stage term) leaves parts) :
      ComesOf stage (.mix mode parts) (.mix mode leaves)

variable {stage : Stage}

/-- What two steps make of the same beats comes of the first one. -/
lemma Plan.Twin.comesOf {R : Term → Term → Prop} {step other : Step} {plan plan' : Plan}
    (h : plan.Twin stage R step other plan') : plan.ComesOf stage step := by
  cases h with
  | single h =>
    obtain ⟨-, hsong, hwindow, hleaf, -⟩ := h
    exact .single ⟨hsong, hwindow, hleaf⟩
  | mix mode h =>
    refine .mix mode (h.sublistForall₂ fun term term' leaf leaf' h => ?_)
    obtain ⟨-, hsong, hwindow, hleaf, -⟩ := h
    exact ⟨hsong, hwindow, hleaf⟩

/-- **Every plan comes of a step of the pattern.**

**Proof sketch.** The pattern is planned in step with itself, and so every plan is for the beats of
a step. -/
theorem Stage.exists_comesOf_of_plan {pattern : Pattern} {cursor : Cursor} {plans : List Plan}
    (h : (stage.plan pattern cursor).1 = .ok plans) :
    ∀ plan ∈ plans, ∃ step ∈ pattern.steps, plan.ComesOf stage step := by
  have hself : pattern.Rel Eq pattern := Pattern.rel_self fun _ _ => rfl
  have hbeats : ∀ term term' : Term, term = term' →
      term.SameBeat term' ∧ stage.songOf term' = stage.songOf term := by
    rintro term _ rfl
    exact ⟨⟨rfl, rfl, rfl⟩, rfl⟩
  have htwin := plan_twin rfl rfl hbeats hself cursor
  generalize stage.plan pattern cursor = run at h htwin
  obtain ⟨outcome, last⟩ := run
  obtain rfl : outcome = .ok plans := h
  cases htwin with
  | ok last h =>
    have hsublist := h.sublistForall₂ (R := fun plan cue => plan.ComesOf stage cue.step)
      fun _ _ _ _ h => h.comesOf
    intro plan hplan
    obtain ⟨cue, hcue, horigin⟩ := exists_of_mem_of_sublistForall₂ hsublist plan hplan
    exact ⟨cue.step, Pattern.step_mem_of_mem_cues hcue, horigin⟩

end Arranger
