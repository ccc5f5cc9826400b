import Arranger.Proofs.Number.Magnitude
import Arranger.Proofs.Plan.Results
import Arranger.Proofs.Render.Faults

/-!
# The order of two parts

Two parts that sound together are combined with what changes nothing first, and behind that they can
change places. So a mix of two parts sounds the same the other way round. Where neither part draws a
random number, nothing else about the rendering changes.

## Main definitions

* `Arranger.Step.Flips`, `Plan.Flips` — steps and plans whose two parts may have changed places.

## Main results

* `Arranger.mixDown_commutes` — two segments are mixed alike in either order.
* `Arranger.Stage.plan_flips` — patterns with flipped mixes have flipped plans.
* `Arranger.render_flipped` — a mix of two parts is rendered alike in either order.
-/

namespace Arranger

open List (Forall₂)

/-! ## Sound -/

/-- Behind the sample that changes nothing, two samples can change places. -/
lemma MixMode.combine_commutes (mode : MixMode) (x y : Sample) :
    mode.combine (mode.combine mode.identity x) y =
      mode.combine (mode.combine mode.identity y) x := by
  cases mode with
  | sum => exact Binary.zero_add_add_commutes x y
  | product =>
    show 1 * x * y = 1 * y * x
    rw [Binary.mul_commutes 1 x, Binary.mul_one_eq, Binary.mul_commutes 1 y, Binary.mul_one_eq,
      Binary.mul_commutes]

/-- Two lists can be laid over a third one in either order if this holds of their members. -/
lemma overlay_commutes {α : Type} {f : α → α → α} {xs : List α}
    (h : ∀ x ∈ xs, ∀ a b, f (f x a) b = f (f x b) a) (as bs : List α) :
    overlay f (overlay f xs as) bs = overlay f (overlay f xs bs) as := by
  induction xs generalizing as bs with
  | nil => rfl
  | cons x xs ih =>
    rw [List.forall_mem_cons] at h
    cases as with
    | nil => cases bs <;> rfl
    | cons a as =>
      cases bs with
      | nil => rfl
      | cons b bs => rw [overlay, overlay, overlay, overlay, h.1, ih h.2]

/-- **Two segments are mixed alike in either order**, whatever their lengths and channels are. -/
lemma mixDown_commutes (mode : MixMode) (channelCount : ℕ) (first second : Segment) :
    mixDown mode channelCount [second, first] = mixDown mode channelCount [first, second] := by
  have hlongest : longest [second, first] = longest [first, second] := by
    simp only [longest, List.foldl_cons, List.foldl_nil, Nat.zero_max]
    exact Nat.max_comm ..
  rw [mixDown, mixDown, hlongest]
  refine congrArg Segment.mk (overlay_commutes (fun channel hchannel as bs => ?_) _ _)
  rw [List.eq_of_mem_replicate hchannel]
  refine overlay_commutes (fun sample hsample x y => ?_) as bs
  rw [List.eq_of_mem_replicate hsample]
  exact mode.combine_commutes x y

/-! ## Plans and steps -/

/-- Two plans that are the same, or mixes of two leaves that have changed places. -/
inductive Plan.Flips : Plan → Plan → Prop where
  /-- The plans are the same. -/
  | same (plan : Plan) : Flips plan plan
  /-- The leaves have changed places. -/
  | flip (mode : MixMode) (first second : Leaf) :
      Flips (.mix mode [first, second]) (.mix mode [second, first])

/-- Flipped plans sound alike. -/
lemma Plan.Flips.perform_eq {plan other : Plan} (h : plan.Flips other) (limiter : Limiter)
    (channelCount : ℕ) : other.perform limiter channelCount = plan.perform limiter channelCount := by
  cases h with
  | same => rfl
  | flip mode first second => exact congrArg limiter.clampSegment (mixDown_commutes mode channelCount ..)

/-- Flipped plans have the same segments. -/
lemma Plan.map_perform_of_flips {plans others : List Plan} (h : Forall₂ Plan.Flips plans others)
    (limiter : Limiter) (channelCount : ℕ) :
    others.map (Plan.perform limiter channelCount) =
      plans.map (Plan.perform limiter channelCount) := by
  induction h with
  | nil => rfl
  | cons hplan _ ih => rw [List.map_cons, List.map_cons, hplan.perform_eq, ih]

/-- Two steps that are the same, or mixes of two terms that have changed places and draw no random
number. -/
inductive Step.Flips : Step → Step → Prop where
  /-- The steps are the same. -/
  | same (step : Step) : Flips step step
  /-- The terms have changed places. -/
  | flip (mode : MixMode) {first second : Term}
      (hfirst : ∀ low high step, first.beat.ref ≠ .random low high step)
      (hsecond : ∀ low high step, second.beat.ref ≠ .random low high step) :
      Flips (.mix mode [first, second]) (.mix mode [second, first])

namespace Step.Flips

variable {step other : Step} (h : step.Flips other)

include h

/-- Flipped steps have the same terms. -/
lemma terms_perm : other.terms.Perm step.terms := by
  cases h with
  | same => exact .refl _
  | flip => exact .swap ..

/-- Flipped steps count alike. -/
lemma counts_eq : other.counts = step.counts := by
  rw [counts, counts]
  exact h.terms_perm.any_eq

/-- Flipped steps are in the same group. -/
lemma group?_eq : other.group? = step.group? := by
  cases h with
  | same => rfl
  | flip => rfl

end Step.Flips

/-! ## Planning -/

namespace Stage

variable {stage : Stage}

/-- **A flipped step has a flipped plan.**

**Proof sketch.** Both terms are planned from the stream at hand in either order. If both have a
leaf, the leaves change places with them, and if only one has, it is the one part of either mix. -/
lemma planStep_flips {step other : Step} (h : step.Flips other) {place : Place}
    {random random' : Stream} {result : Option Plan}
    (hplan : stage.planStep place step random = (.ok result, random')) :
    ∃ result', stage.planStep place other random = (.ok result', random') ∧
      Option.Rel Plan.Flips result result' := by
  cases h with
  | same =>
    refine ⟨result, hplan, ?_⟩
    cases result with
    | none => exact .none
    | some plan => exact .some (.same plan)
  | @flip mode first second hfirst hsecond =>
    obtain ⟨leaves, hleaves, rfl⟩ := planStep_mix_eq_ok_iff.mp hplan
    obtain ⟨leaf, middle, others, hleaf, hothers, rfl⟩ := collect_cons_eq_ok_iff.mp hleaves
    obtain ⟨leaf', last, none', hleaf', hnone, rfl⟩ := collect_cons_eq_ok_iff.mp hothers
    cases hnone
    obtain ⟨rfl, hanywhere⟩ := planTerm_of_not_random hfirst hleaf
    obtain ⟨rfl, hanywhere'⟩ := planTerm_of_not_random hsecond hleaf'
    have hcounted : countedTerms [second, first] = countedTerms [first, second] :=
      ((List.Perm.swap first second []).filter _).length_eq
    -- neither term draws, so each is planned from the stream that the other one left
    refine ⟨mixOf? mode (leaf'.toList ++ (leaf.toList ++ [])), ?_, ?_⟩
    · refine planStep_mix_eq_ok_iff.mpr ⟨_, ?_, rfl⟩
      rw [hcounted]
      exact collect_cons_eq_ok_iff.mpr ⟨leaf', _, _, hanywhere' _,
        collect_cons_eq_ok_iff.mpr ⟨leaf, _, _, hanywhere _, rfl, rfl⟩, rfl⟩
    · cases leaf with
      | none =>
        cases leaf' with
        | none => exact .none
        | some leaf' => exact .some (.same _)
      | some leaf =>
        cases leaf' with
        | none => exact .some (.same _)
        | some leaf' => exact .some (.flip mode leaf leaf')

/-- A cue for a flipped step has a flipped plan. -/
lemma planCue_flips {cue cue' : Cue} (hstep : cue.step.Flips cue'.step)
    (hsize : cue'.size = cue.size) (hoffset : cue'.offset = cue.offset) {cursor last : Cursor}
    {result : Option Plan} (hplan : stage.planCue cue cursor = (.ok result, last)) :
    ∃ result', stage.planCue cue' cursor = (.ok result', last) ∧
      Option.Rel Plan.Flips result result' := by
  obtain ⟨random, hplanned, rfl⟩ := planCue_eq_ok_iff.mp hplan
  obtain ⟨result', hplanned', hresult⟩ := planStep_flips hstep hplanned
  exact ⟨result', planCue_eq_ok_iff.mpr ⟨random, by rw [hsize, hoffset]; exact hplanned', rfl⟩,
    hresult⟩

/-- **Patterns with flipped mixes have flipped plans.** -/
lemma plan_flips {pattern other : Pattern} (h : Forall₂ Step.Flips pattern.steps other.steps)
    {cursor last : Cursor} {plans : List Plan}
    (hplan : stage.plan pattern cursor = (.ok plans, last)) :
    ∃ plans', stage.plan other cursor = (.ok plans', last) ∧ Forall₂ Plan.Flips plans plans' := by
  have hgroup : ∀ step step', Step.Flips step step' → step'.group? = step.group? :=
    fun _ _ h => h.group?_eq
  have hrepetitions : ∀ size, stage.repetitions size = stage.repetitions size := fun _ => rfl
  have hcues := cuesOf_of_forall₂ hrepetitions (fun _ _ h => h.counts_eq) hgroup h cursor.random
  rw [plan_eq_collect] at hplan
  rw [plan_eq_collect, (Pattern.rearranged_of_forall₂ hgroup h cursor.random).2]
  exact collect_of_forall₂ (hcues.imp fun cue cue' hcue cursor result last hrun =>
    planCue_flips hcue.1 hcue.2.1 hcue.2.2 hrun) hplan

end Stage

/-! ## Rendering -/

/-- Patterns with flipped mixes have the same terms in another order. -/
lemma Pattern.terms_perm {pattern other : Pattern}
    (h : Forall₂ Step.Flips pattern.steps other.steps) : other.terms.Perm pattern.terms := by
  have hperm : ∀ {steps others : List Step}, Forall₂ Step.Flips steps others →
      (others.flatMap Step.terms).Perm (steps.flatMap Step.terms) := by
    intro steps others hsteps
    induction hsteps with
    | nil => exact .refl _
    | cons hstep _ ih =>
      rw [List.flatMap_cons, List.flatMap_cons]
      exact hstep.terms_perm.append ih
  exact hperm h

/-- A pattern with flipped mixes is rendered as the same recording. -/
lemma render_of_flips {pattern other : Pattern} {song : Song} {table : SongTable}
    {options : RenderOptions} {entropy : UInt64} {recording : Recording}
    (h : Forall₂ Step.Flips pattern.steps other.steps)
    (hrender : render pattern song table options entropy = .ok recording) :
    render other song table options entropy = .ok recording := by
  obtain ⟨⟨⟩, hcheck, hrender⟩ := bind_eq_ok_iff.mp hrender
  obtain ⟨plans, hplans, hperform⟩ := bind_eq_ok_iff.mp hrender
  obtain ⟨plans', hplans', hflips⟩ := Stage.plan_flips h (Prod.ext hplans rfl)
  have hcheck' : checkAliases table other.aliases = .ok () := by
    rw [checkAliases_aliases, checkAliases_eq_ok_iff] at hcheck ⊢
    exact fun name hname => hcheck name (((Pattern.terms_perm h).filterMap _).mem_iff.mp hname)
  refine bind_eq_ok_iff.mpr ⟨(), hcheck', bind_eq_ok_iff.mpr ⟨plans', by rw [hplans'], ?_⟩⟩
  rw [← hperform]
  exact congrArg Except.ok (perform_congr (Plan.map_perform_of_flips hflips _ _))

/-- **The order of two parts does not matter.** If neither part of a mix of two draws a random
number, then the pattern with the two in the other order is rendered as the same recording, or
neither of the two patterns is rendered. The parts may be of different songs, lengths and numbers of
channels, and one of them or both may play nothing where the pattern fills the song.

**Proof sketch.** The parts are planned from one stream in either order, and the same is played
behind them. Two segments are laid over samples that change nothing, so no zero with a minus sign is
left of the first one, and behind that sums and products do not depend on the order. -/
theorem render_flipped (before after : List Step) (mode : MixMode) {first second : Term}
    (hfirst : ∀ low high step, first.beat.ref ≠ .random low high step)
    (hsecond : ∀ low high step, second.beat.ref ≠ .random low high step) (song : Song)
    (table : SongTable) (options : RenderOptions) (entropy : UInt64) (recording : Recording) :
    render ⟨before ++ .mix mode [first, second] :: after⟩ song table options entropy =
        .ok recording ↔
      render ⟨before ++ .mix mode [second, first] :: after⟩ song table options entropy =
        .ok recording := by
  have hsame : ∀ steps, Forall₂ Step.Flips steps steps := fun steps =>
    List.forall₂_same.mpr fun step _ => .same step
  constructor
  · exact render_of_flips
      (List.rel_append (hsame before) (.cons (.flip mode hfirst hsecond) (hsame after)))
  · exact render_of_flips
      (List.rel_append (hsame before) (.cons (.flip mode hsecond hfirst) (hsame after)))

/-- A mix of a short part and a longer one of another song, between two shuffled beats of which one
is random. -/
theorem render_flipped_two_songs :
    ∃ (pattern other : Pattern) (song : Song) (table : SongTable),
      Pattern.ofText "1#x,1v;[b]2,@1_2#x" = .ok pattern ∧
      Pattern.ofText "1#x,[b]2;1v,@1_2#x" = .ok other ∧
      render pattern song table ⟨some 5, .once, 1⟩ 0 = .ok ⟨[[1, 3 / 4, 1, 1]], 1⟩ ∧
      render other song table ⟨some 5, .once, 1⟩ 0 = .ok ⟨[[1, 3 / 4, 1, 1]], 1⟩ := by
  have htext : Pattern.ofText "1#x,1v;[b]2,@1_2#x" = .ok
      ⟨[.single ⟨none, { ref := .literal 1, group := some "x" }⟩] ++
        .mix .sum [⟨none, { ref := .literal 1, effects := [.volume (1 / 2)] }⟩,
          ⟨some "b", { ref := .literal 2 }⟩] ::
        [.single ⟨none, { ref := .random 1 2 1, group := some "x" }⟩]⟩ := by
    decide +kernel
  have hother : Pattern.ofText "1#x,[b]2;1v,@1_2#x" = .ok
      ⟨[.single ⟨none, { ref := .literal 1, group := some "x" }⟩] ++
        .mix .sum [⟨some "b", { ref := .literal 2 }⟩,
          ⟨none, { ref := .literal 1, effects := [.volume (1 / 2)] }⟩] ::
        [.single ⟨none, { ref := .random 1 2 1, group := some "x" }⟩]⟩ := by
    decide +kernel
  have hrender : render
      ⟨[.single ⟨none, { ref := .literal 1, group := some "x" }⟩] ++
        .mix .sum [⟨none, { ref := .literal 1, effects := [.volume (1 / 2)] }⟩,
          ⟨some "b", { ref := .literal 2 }⟩] ::
        [.single ⟨none, { ref := .random 1 2 1, group := some "x" }⟩]⟩
      ⟨⟨[[1, 0]], 1⟩, ⟨[0, 1, 2], 2⟩⟩
      (SongTable.empty.insert "b" ⟨⟨[[0, 1 / 4, 1], [0, 1, 1]], 1⟩, ⟨[0, 1, 3], 3⟩⟩)
      ⟨some 5, .once, 1⟩ 0 = .ok ⟨[[1, 3 / 4, 1, 1]], 1⟩ := by
    decide +kernel
  have hflipped := (render_flipped _ _ .sum (by rintro low high step ⟨⟩)
    (by rintro low high step ⟨⟩) _ _ _ _ _).mp hrender
  exact ⟨_, _, _, _, htext, hother, hrender, hflipped⟩

end Arranger
