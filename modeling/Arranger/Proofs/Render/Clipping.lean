import Arranger.Pattern.Compiling
import Arranger.Proofs.Render.Peak

/-!
# Clipping

What is rendered has no number beyond the ceiling. It can have samples that are not a number, as
limiting lets these pass: a gain that is infinite as a sample makes them of silence. They are the
only samples that a recording may not have, and a pattern with headroom makes none.

## Main results

* `Arranger.Recording.ofChannels_eq_ok_iff` — which well-formed recordings pass the check.
* `Arranger.perform_clipped`, `perform_admits` — the samples of a performance.
* `Arranger.render_clipped` — which samples a rendering has.
* `Arranger.render_eq_nan` — silence that is rendered to what is not a number.
-/

namespace Arranger

/-! ## The check on recordings -/

namespace Recording

/-- The search for an uneven channel finds none if all channels have the expected length. -/
lemma firstUneven?_eq_none {expected : ℕ} {channels : List (List Sample)}
    (h : ∀ channel ∈ channels, channel.length = expected) (index : ℕ) :
    firstUneven? expected channels index = none := by
  induction channels generalizing index with
  | nil => rfl
  | cons first rest ih =>
    rw [List.forall_mem_cons] at h
    rw [firstUneven?, if_pos h.1]
    exact ih h.2 _

/-- A well-formed recording passes the check just if all its samples are finite. -/
lemma ofChannels_eq_ok_iff {recording : Recording} (h : recording.WellFormed) :
    ofChannels recording.channels recording.rate = .ok recording ↔
      recording.All (·.isFinite = true) := by
  obtain ⟨first, rest, hchannels⟩ := List.exists_cons_of_ne_nil h.channels_ne_nil
  have hframes : recording.frames = first.length := by rw [frames, hchannels, List.headD_cons]
  have hlength : ∀ channel ∈ recording.channels, channel.length = first.length :=
    fun channel hmem => (h.length_eq channel hmem).trans hframes
  have hall : recording.channels.all (·.all Binary.isFinite) = true ↔
      recording.All (·.isFinite = true) := by
    simp only [List.all_eq_true]
    rfl
  rw [← hall, ofChannels.eq_def]
  rw [hchannels] at hlength ⊢
  dsimp only
  rw [if_neg h.rate_pos.ne', firstUneven?_eq_none hlength]
  dsimp only
  rw [← hchannels]
  split_ifs with hfinite
  · exact iff_of_true rfl hfinite
  · exact iff_of_false (by rintro ⟨⟩) hfinite

end Recording

/-! ## Joining and limiting -/

/-- What holds of the samples of all plans holds of the samples of the plans together. -/
lemma performAll_all {p : Sample → Prop} {limiter : Limiter} {channelCount : ℕ} {plans : List Plan}
    (h : ∀ plan ∈ plans, (plan.perform limiter channelCount).All p) :
    (performAll limiter channelCount plans).All p := by
  induction plans using List.reverseRecOn with
  | nil =>
    intro channel hchannel sample hsample
    rw [List.eq_of_mem_replicate hchannel] at hsample
    cases hsample
  | append_singleton plans plan ih =>
    rw [List.forall_mem_append, List.forall_mem_singleton] at h
    rw [performAll_concat]
    exact (ih h.1).append h.2

/-- **No sample of a performance is beyond the ceiling**, but some may not be a number. -/
lemma perform_clipped (song : Song) (requested : Sample) (plans : List Plan) :
    (perform song (.ofCeiling requested) plans).All fun sample =>
      sample = .nan ∨ (Limiter.ofCeiling requested).Admits sample := by
  obtain ⟨hceiling, hpositive, -⟩ := Limiter.ofCeiling_spec requested
  have hany : (performAll (.ofCeiling requested) song.recording.channelCount plans).All
      fun _ => True := fun _ _ _ _ => trivial
  refine hany.mapSamples fun sample _ => ?_
  rcases eq_or_ne sample .nan with rfl | hne
  · exact .inl (Limiter.clampSample_nan _)
  · exact .inr (Limiter.admits_clampSample hceiling hpositive hne)

/-- **The samples of a performance are numbers within the ceiling** if those of its plans are
finite. -/
lemma perform_admits {song : Song} {requested : Sample} {plans : List Plan}
    (h : ∀ plan ∈ plans, (plan.perform (.ofCeiling requested)
      song.recording.channelCount).All (·.isFinite = true)) :
    (perform song (.ofCeiling requested) plans).All (Limiter.ofCeiling requested).Admits := by
  obtain ⟨hceiling, hpositive, -⟩ := Limiter.ofCeiling_spec requested
  exact (performAll_all h).mapSamples fun sample hsample =>
    Limiter.admits_clampSample hceiling hpositive (Binary.ne_nan hsample)

variable {pattern : Pattern} {song : Song} {table : SongTable} {options : RenderOptions}
  {entropy : UInt64} {recording : Recording}

/-- What is rendered is what is performed of plans that come of the steps of the pattern. -/
lemma exists_plans_of_render (h : render pattern song table options entropy = .ok recording) :
    ∃ plans, recording = perform song (.ofCeiling options.ceiling) plans ∧
      ∀ plan ∈ plans, ∃ step ∈ pattern.steps,
        plan.ComesOf ⟨song, table, options.repetition⟩ step := by
  obtain ⟨plans, hplans, heq⟩ := exists_plan_of_render h
  exact ⟨plans, heq, Stage.exists_comesOf_of_plan hplans⟩

/-- **What is rendered is clipped.** A sample is not a number, or it is a finite one that is not
beyond the ceiling. The rendering passes the check on recordings just if it has no sample that is
not a number, and it has none where the pattern overflows nowhere at the peak of the songs.

**Proof sketch.** Limiting takes every number into the range of the ceiling, and lets pass what is
not a number. A bound on the samples is computed with the operations of the effects and mixes;
rounding keeps the order, so the samples stay below it, and if it is finite they are. -/
theorem render_clipped (hsong : song.WellFormed)
    (htable : ∀ name other, table.get? name = some other → other.WellFormed)
    (hrender : render pattern song table options entropy = .ok recording) :
    (recording.All fun sample =>
        sample = .nan ∨ (Limiter.ofCeiling options.ceiling).Admits sample) ∧
      (Recording.ofChannels recording.channels recording.rate = .ok recording ↔
        recording.All (· ≠ .nan)) ∧
      ∀ peak, 0 ≤ peak → pattern.HasHeadroom peak → song.AtMost peak →
        (∀ name other, table.get? name = some other → other.AtMost peak) →
        recording.All (Limiter.ofCeiling options.ceiling).Admits := by
  obtain ⟨plans, rfl, horigins⟩ := exists_plans_of_render hrender
  have hclipped := perform_clipped song options.ceiling plans
  have hwellFormed : (perform song (.ofCeiling options.ceiling) plans).WellFormed := by
    refine perform_wellFormed hsong fun plan hplan => ?_
    obtain ⟨step, -, horigin⟩ := horigins plan hplan
    exact horigin.exists_hasShape (Stage.forall_songOf hsong htable) _ _
  refine ⟨hclipped, ?_, ?_⟩
  · rw [Recording.ofChannels_eq_ok_iff hwellFormed]
    constructor
    · rintro hfinite channel hchannel sample hsample rfl
      cases hfinite channel hchannel _ hsample
    · intro hne channel hchannel sample hsample
      exact ((hclipped channel hchannel sample hsample).resolve_left
        (hne channel hchannel sample hsample)).finite
  · intro peak hpeak hheadroom hprimary hothers
    refine perform_admits fun plan hplan => ?_
    obtain ⟨hceiling, hpositive, -⟩ := Limiter.ofCeiling_spec options.ceiling
    obtain ⟨step, hstep, horigin⟩ := horigins plan hplan
    exact horigin.all_isFinite (Stage.forall_songOf hprimary hothers)
      (Binary.zero_atMost_of_le hpeak) (hheadroom step hstep) hceiling hpositive _

/-- Two beats of samples up to one, the first one doubled, mixed and clipped at a half, and then
the first one played faster. -/
theorem render_clipped_two_beats :
    ∃ (song : Song) (pattern : Pattern) (recording : Recording), song.Made ∧ song.AtMost 1 ∧
      Pattern.ofText "1v2;2,1s" = .ok pattern ∧ pattern.HasHeadroom 1 ∧
      render pattern song .empty ⟨some 0, .once, 1 / 2⟩ 0 = .ok recording ∧
      recording.All (Limiter.ofCeiling (1 / 2)).Admits ∧
      (Recording.ofChannels recording.channels recording.rate = .ok recording ↔
        recording.All (· ≠ .nan)) := by
  have hrecording : Recording.mono [0, 1, 1 / 2, 1] 2 = .ok ⟨[[0, 1, 1 / 2, 1]], 2⟩ := by
    decide +kernel
  have hsong : Song.ofBoundaries ⟨[[0, 1, 1 / 2, 1]], 2⟩ [0, 2, 4] =
      .ok ⟨⟨[[0, 1, 1 / 2, 1]], 2⟩, ⟨[0, 2, 4], 4⟩⟩ := by
    decide +kernel
  have hmade : Song.Made ⟨⟨[[0, 1, 1 / 2, 1]], 2⟩, ⟨[0, 2, 4], 4⟩⟩ :=
    .ofBoundaries (.mono hrecording) hsong
  have hatMost : Song.AtMost ⟨⟨[[0, 1, 1 / 2, 1]], 2⟩, ⟨[0, 2, 4], 4⟩⟩ 1 :=
    ⟨hmade.wellFormed, by decide, by decide +kernel⟩
  have htext : Pattern.ofText "1v2;2,1s" = .ok
      ⟨[.mix .sum [⟨none, { ref := .literal 1, effects := [.volume 2] }⟩,
          ⟨none, { ref := .literal 2 }⟩],
        .single ⟨none, { ref := .literal 1, effects := [.speed 2] }⟩]⟩ := by
    decide +kernel
  have hrender : render
      ⟨[.mix .sum [⟨none, { ref := .literal 1, effects := [.volume 2] }⟩,
          ⟨none, { ref := .literal 2 }⟩],
        .single ⟨none, { ref := .literal 1, effects := [.speed 2] }⟩]⟩
      ⟨⟨[[0, 1, 1 / 2, 1]], 2⟩, ⟨[0, 2, 4], 4⟩⟩ .empty ⟨some 0, .once, 1 / 2⟩ 0 =
        .ok ⟨[[1 / 2, 1 / 2, 0]], 2⟩ := by
    decide +kernel
  have hheadroom : Pattern.HasHeadroom 1
      ⟨[.mix .sum [⟨none, { ref := .literal 1, effects := [.volume 2] }⟩,
          ⟨none, { ref := .literal 2 }⟩],
        .single ⟨none, { ref := .literal 1, effects := [.speed 2] }⟩]⟩ := by
    decide +kernel
  have htable : ∀ (property : Song → Prop) (name : String) (other : Song),
      SongTable.empty.get? name = some other → property other := by
    rintro property name other ⟨⟩
  obtain ⟨-, hcheck, hclipped⟩ := render_clipped hmade.wellFormed (htable _) hrender
  exact ⟨_, _, _, hmade, hatMost, htext, hheadroom, hrender,
    hclipped 1 (by decide +kernel) hheadroom hatMost (htable _), hcheck⟩

/-- Silence times a gain that is finite as a 64-bit number, but infinite as a sample, is not a
number, and limiting lets it pass. -/
theorem render_eq_nan :
    ∃ (song : Song) (pattern : Pattern) (recording : Recording), song.Made ∧
      Pattern.ofText "1v999999999999999999999999999999999999999" = .ok pattern ∧
      render pattern song .empty ⟨some 0, .once, 1⟩ 0 = .ok recording ∧
      ¬ recording.All (Limiter.ofCeiling 1).Admits ∧
      Recording.ofChannels recording.channels recording.rate = .error .notFinite := by
  have hrecording : Recording.mono [0] 2 = .ok ⟨[[0]], 2⟩ := by decide +kernel
  have hsong : Song.ofBoundaries ⟨[[0]], 2⟩ [0, 1] = .ok ⟨⟨[[0]], 2⟩, ⟨[0, 1], 1⟩⟩ := by
    decide +kernel
  have htext : Pattern.ofText "1v999999999999999999999999999999999999999" =
      .ok ⟨[.single ⟨none, { ref := .literal 1, effects := [.volume (.infinite false)] }⟩]⟩ := by
    decide +kernel
  have hrender : render
      ⟨[.single ⟨none, { ref := .literal 1, effects := [.volume (.infinite false)] }⟩]⟩
      ⟨⟨[[0]], 2⟩, ⟨[0, 1], 1⟩⟩ .empty ⟨some 0, .once, 1⟩ 0 = .ok ⟨[[.nan]], 2⟩ := by
    decide +kernel
  refine ⟨_, _, _, .ofBoundaries (.mono hrecording) hsong, htext, hrender, ?_, by decide +kernel⟩
  intro hall
  cases (hall [.nan] (List.mem_singleton_self _) .nan (List.mem_singleton_self _)).finite

end Arranger
