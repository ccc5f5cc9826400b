import Arranger.Proofs.Beatmap.Window
import Arranger.Proofs.Effect.Growth
import Arranger.Proofs.Plan.Extent
import Arranger.Proofs.Render.Shape

/-!
# The length of a rendering

A rendering is as long as its plans together, and a plan says how long it is: silence lasts a number
of frames, an extract as many as its effects make of those between its start and its stop, and a mix
as many as its longest part. Nothing is cut off where parts have different numbers of channels.

## Main definitions

* `Arranger.Leaf.frames`, `Plan.frames` — the number of frames of a leaf and of a plan.
* `Arranger.Leaf.clipped`, `Plan.clipped` — a leaf and a plan, as far as the recordings go.

## Main results

* `Arranger.Plan.ComesOf.hasShape` — what a step plays is as long as its plan says.
* `Arranger.Plan.ComesOf.clipped_eq` — what a step plays lies within recordings that are not too
  long.
* `Arranger.render_length` — a rendering is as long as its plans.
-/

namespace Arranger

/-! ## Lengths of plans -/

/-- The number of frames of a leaf: those of the silence, or those between start and stop after the
effects. -/
def Leaf.frames : Leaf → ℕ
  | extract _ _ start stop effects => framesAfterAll (stop - start) effects
  | silence frames => frames

/-- The number of frames of a plan: those of its leaf, or of the longest of its leaves. -/
def Plan.frames : Plan → ℕ
  | single leaf => leaf.frames
  | mix _ leaves => (leaves.map Leaf.frames).foldl max 0

/-- The leaf, where an extract starts and stops at the end of its recording at the latest. -/
def Leaf.clipped : Leaf → Leaf
  | extract source recording start stop effects =>
    extract source recording (min start (min stop recording.frames)) (min stop recording.frames)
      effects
  | silence frames => silence frames

/-- The plan with its leaves as far as the recordings go. -/
def Plan.clipped : Plan → Plan
  | single leaf => single leaf.clipped
  | mix mode leaves => mix mode (leaves.map Leaf.clipped)

variable {stage : Stage} {term : Term} {step : Step} {leaf : Leaf} {plan : Plan}

/-- **What a term plays is as long as its leaf says.** -/
lemma Leaf.ComesOf.hasShape (h : leaf.ComesOf stage term)
    (hsongs : ∀ song, stage.songOf term = .ok song → song.WellFormed)
    (hplayable : ∀ effect ∈ term.beat.effects, effect.IsPlayable) (channelCount : ℕ) :
    (leaf.perform channelCount).HasShape channelCount leaf.clipped.frames := by
  obtain ⟨hsong, -, hleaf⟩ := h
  cases hleaf with
  | silence hsilent => exact Segment.silent_hasShape channelCount _
  | extract hsilent =>
    have hrecording := (hsongs _ hsong).recording
    have hchannels := List.length_pos_iff.mpr hrecording.channels_ne_nil
    exact ((hrecording.window_hasShape _ _).transformAll_playable hplayable).conform hchannels
      channelCount

/-- The longest of segments that are as long as numbers say. -/
lemma longest_map {α : Type} {segment : α → Segment} {frames : α → ℕ} {xs : List α}
    (h : ∀ x ∈ xs, (segment x).frames = frames x) :
    longest (xs.map segment) = (xs.map frames).foldl max 0 := by
  rw [longest, List.foldl_map, List.foldl_map]
  exact List.foldl_ext _ _ _ fun longest x hx => by rw [h x hx]

/-- **What a step plays is as long as its plan says.** -/
lemma Plan.ComesOf.hasShape (h : plan.ComesOf stage step)
    (hsongs : ∀ term song, stage.songOf term = .ok song → song.WellFormed)
    (hplayable : ∀ term ∈ step.terms, ∀ effect ∈ term.beat.effects, effect.IsPlayable)
    (limiter : Limiter) {channelCount : ℕ} (hcount : 0 < channelCount) :
    (plan.perform limiter channelCount).HasShape channelCount plan.clipped.frames := by
  cases h with
  | @single term leaf hleaf =>
    exact hleaf.hasShape (hsongs term) (hplayable term (List.mem_singleton_self term)) channelCount
  | @mix parts leaves mode hleaves =>
    have hframes : ∀ leaf ∈ leaves,
        (leaf.perform channelCount).frames = (Leaf.frames ∘ Leaf.clipped) leaf := by
      intro leaf hmem
      obtain ⟨term, hterm, hleaf⟩ := exists_of_mem_of_sublistForall₂ hleaves leaf hmem
      exact (hleaf.hasShape (hsongs term) (hplayable term hterm) channelCount).frames_eq hcount
    have hmix := mixDown_hasShape mode channelCount (leaves.map (Leaf.perform channelCount))
    rw [longest_map hframes, ← List.map_map] at hmix
    exact hmix.mapSamples _

/-! ## Plans within the recordings -/

/-- What a term plays lies within a recording that is not too long. -/
lemma Leaf.ComesOf.clipped_eq (h : leaf.ComesOf stage term)
    (hsongs : ∀ song, stage.songOf term = .ok song →
      song.WellFormed ∧ song.recording.frames ≤ 2 ^ Format.double.precision)
    (hslice : ∀ slice ∈ term.beat.slice, slice.Bounded) : leaf.clipped = leaf := by
  obtain ⟨hsong, hwindow, hleaf⟩ := h
  cases hleaf with
  | silence hsilent => rfl
  | extract hsilent =>
    obtain ⟨hwellFormed, hshort⟩ := hsongs _ hsong
    rw [← hwellFormed.sourceLength_eq] at hshort
    obtain ⟨-, hle, hlast⟩ := hwellFormed.beatmap.window?_within hshort hwindow
    have hstop := hlast.trans hwellFormed.beatmap.lastBoundary_le
    obtain ⟨-, hcut, hcutStop⟩ := Beat.cut_within hslice hle (hstop.trans hshort)
    have hend := hcutStop.trans (hwellFormed.sourceLength_eq ▸ hstop)
    rw [clipped, min_eq_left hend, min_eq_left hcut]

/-- **What a step plays lies within recordings that are not too long.** -/
lemma Plan.ComesOf.clipped_eq (h : plan.ComesOf stage step)
    (hsongs : ∀ term song, stage.songOf term = .ok song →
      song.WellFormed ∧ song.recording.frames ≤ 2 ^ Format.double.precision)
    (hslices : ∀ term ∈ step.terms, ∀ slice ∈ term.beat.slice, slice.Bounded) :
    plan.clipped = plan := by
  cases h with
  | @single term leaf hleaf =>
    exact congrArg Plan.single
      (hleaf.clipped_eq (hsongs term) (hslices term (List.mem_singleton_self term)))
  | @mix parts leaves mode hleaves =>
    have hleaf : ∀ leaf ∈ leaves, leaf.clipped = id leaf := by
      intro leaf hmem
      obtain ⟨term, hterm, hleaf⟩ := exists_of_mem_of_sublistForall₂ hleaves leaf hmem
      exact hleaf.clipped_eq (hsongs term) (hslices term hterm)
    rw [clipped, List.map_congr_left hleaf, List.map_id]

/-! ## Renderings -/

/-- The effects of a pattern that is read from a text can be played. -/
lemma Pattern.isPlayable_of_mem {text : String} {pattern : Pattern}
    (h : ofText text = .ok pattern) (hterm : term ∈ pattern.terms) :
    ∀ effect ∈ term.beat.effects, effect.IsPlayable :=
  fun effect hmem => ((bounded_of_ofText h term hterm).effects effect hmem).isPlayable

/-- **A rendering is as long as its plans.** It has the channels and the sample rate of the song at
hand, and each of its channels is as long as the plans say, one after another, as far as the
recordings go. Where no recording has more than `2 ^ 53` frames, the plans lie within them: a longer
one has boundaries that no 64-bit number is equal to.

**Proof sketch.** Effects, mixes, and changes of the number of channels make a segment with channels
of one length out of such segments, and the speed effects of a pattern of a text have factors that
are positive numbers. -/
theorem render_length {text : String} {pattern : Pattern} {song : Song} {table : SongTable}
    {options : RenderOptions} {entropy : UInt64} {recording : Recording}
    (htext : Pattern.ofText text = .ok pattern) (hsong : song.WellFormed)
    (htable : ∀ name other, table.get? name = some other → other.WellFormed)
    (hrender : render pattern song table options entropy = .ok recording) :
    ∃ plans, (Stage.plan ⟨song, table, options.repetition⟩ pattern
        (.ofSeed (options.seed.getD entropy))).1 = .ok plans ∧
      recording.channelCount = song.recording.channelCount ∧
      recording.rate = song.recording.rate ∧
      (∀ channel ∈ recording.channels,
        channel.length = (plans.map fun plan => plan.clipped.frames).sum) ∧
      (song.recording.frames ≤ 2 ^ 53 →
        (∀ name other, table.get? name = some other → other.recording.frames ≤ 2 ^ 53) →
        ∀ channel ∈ recording.channels, channel.length = (plans.map Plan.frames).sum) := by
  obtain ⟨plans, hplans, rfl⟩ := exists_plan_of_render hrender
  have horigins := Stage.exists_comesOf_of_plan hplans
  have hcount : 0 < song.recording.channelCount :=
    List.length_pos_iff.mpr hsong.recording.channels_ne_nil
  have hshapes : ∀ plan ∈ plans, ((id plan).perform (.ofCeiling options.ceiling)
      song.recording.channelCount).HasShape song.recording.channelCount plan.clipped.frames := by
    intro plan hplan
    obtain ⟨step, hstep, horigin⟩ := horigins plan hplan
    refine horigin.hasShape (Stage.forall_songOf hsong htable) (fun term hterm => ?_) _ hcount
    exact Pattern.isPlayable_of_mem htext (List.mem_flatMap.mpr ⟨step, hstep, hterm⟩)
  have hjoined := performAll_hasShape _ hshapes
  rw [List.map_id] at hjoined
  have hlimited := hjoined.mapSamples (Limiter.ofCeiling options.ceiling).clampSample
  refine ⟨plans, hplans, hlimited.channelCount_eq, rfl, hlimited.length_eq, ?_⟩
  intro hshort hothers channel hchannel
  have hsongs : ∀ term other, Stage.songOf ⟨song, table, options.repetition⟩ term = .ok other →
      other.WellFormed ∧ other.recording.frames ≤ 2 ^ 53 :=
    Stage.forall_songOf ⟨hsong, hshort⟩
      fun name other hget => ⟨htable name other hget, hothers name other hget⟩
  have hframes : ∀ plan ∈ plans, plan.clipped.frames = plan.frames := by
    intro plan hplan
    obtain ⟨step, hstep, horigin⟩ := horigins plan hplan
    rw [horigin.clipped_eq hsongs fun term hterm slice hslice => ?_]
    have hbounded := Pattern.bounded_of_ofText htext term
      (List.mem_flatMap.mpr ⟨step, hstep, hterm⟩)
    exact hbounded.slice slice hslice
  rw [hlimited.length_eq channel hchannel, List.map_congr_left hframes]

/-- A stretched beat of two channels laid over a beat of one channel, half a beat of silence, and a
beat of one channel played faster: four frames, one and two. -/
theorem render_length_two_songs :
    ∃ (song other : Song) (pattern : Pattern) (recording : Recording) (plans : List Plan),
      song.Made ∧ other.Made ∧ song.recording.channelCount = 2 ∧
      other.recording.channelCount = 1 ∧
      Pattern.ofText "1s0.5;[b]2,2>0.5!,[b]1s2" = .ok pattern ∧
      (Stage.plan ⟨song, SongTable.empty.insert "b" other, .once⟩ pattern (.ofSeed 0)).1 =
        .ok plans ∧
      plans.map Plan.frames = [4, 1, 2] ∧
      render pattern song (SongTable.empty.insert "b" other) ⟨some 0, .once, 1⟩ 0 =
        .ok recording ∧
      recording.channelCount = 2 ∧ recording.rate = 2 ∧
      ∀ channel ∈ recording.channels, channel.length = (plans.map Plan.frames).sum := by
  have hstereo : Recording.ofChannels [[1, 0, 1, 0], [0, 0, 1, 1]] 2 =
      .ok ⟨[[1, 0, 1, 0], [0, 0, 1, 1]], 2⟩ := by
    decide +kernel
  have hmono : Recording.mono [1, 0, 1, 0, 1, 0] 3 = .ok ⟨[[1, 0, 1, 0, 1, 0]], 3⟩ := by
    decide +kernel
  have hsong : Song.Made ⟨⟨[[1, 0, 1, 0], [0, 0, 1, 1]], 2⟩, ⟨[0, 2, 4], 4⟩⟩ :=
    .ofBoundaries (.ofChannels hstereo) (show Song.ofBoundaries _ [0, 2, 4] = _ by decide +kernel)
  have hother : Song.Made ⟨⟨[[1, 0, 1, 0, 1, 0]], 3⟩, ⟨[0, 3, 6], 6⟩⟩ :=
    .ofBoundaries (.mono hmono) (show Song.ofBoundaries _ [0, 3, 6] = _ by decide +kernel)
  have htext : Pattern.ofText "1s0.5;[b]2,2>0.5!,[b]1s2" = .ok
      ⟨[.mix .sum [⟨none, { ref := .literal 1, effects := [.speed (1 / 2)] }⟩,
          ⟨some "b", { ref := .literal 2 }⟩],
        .single ⟨none, { ref := .literal 2, slice := some (.head (1 / 2)), silent := true }⟩,
        .single ⟨some "b", { ref := .literal 1, effects := [.speed 2] }⟩]⟩ := by
    decide +kernel
  have hrender : render
      ⟨[.mix .sum [⟨none, { ref := .literal 1, effects := [.speed (1 / 2)] }⟩,
          ⟨some "b", { ref := .literal 2 }⟩],
        .single ⟨none, { ref := .literal 2, slice := some (.head (1 / 2)), silent := true }⟩,
        .single ⟨some "b", { ref := .literal 1, effects := [.speed 2] }⟩]⟩
      ⟨⟨[[1, 0, 1, 0], [0, 0, 1, 1]], 2⟩, ⟨[0, 2, 4], 4⟩⟩
      (SongTable.empty.insert "b" ⟨⟨[[1, 0, 1, 0, 1, 0]], 3⟩, ⟨[0, 3, 6], 6⟩⟩)
      ⟨some 0, .once, 1⟩ 0 =
        .ok ⟨[[1, 1, 0, 0, 0, 1, 1], [0, 1, 0, 0, 0, 1, 1]], 2⟩ := by
    decide +kernel
  have hplan : (Stage.plan
      ⟨⟨⟨[[1, 0, 1, 0], [0, 0, 1, 1]], 2⟩, ⟨[0, 2, 4], 4⟩⟩,
        SongTable.empty.insert "b" ⟨⟨[[1, 0, 1, 0, 1, 0]], 3⟩, ⟨[0, 3, 6], 6⟩⟩, .once⟩
      ⟨[.mix .sum [⟨none, { ref := .literal 1, effects := [.speed (1 / 2)] }⟩,
          ⟨some "b", { ref := .literal 2 }⟩],
        .single ⟨none, { ref := .literal 2, slice := some (.head (1 / 2)), silent := true }⟩,
        .single ⟨some "b", { ref := .literal 1, effects := [.speed 2] }⟩]⟩ (.ofSeed 0)).1 =
      .ok [.mix .sum [.extract none ⟨[[1, 0, 1, 0], [0, 0, 1, 1]], 2⟩ 0 2 [.speed (1 / 2)],
          .extract (some "b") ⟨[[1, 0, 1, 0, 1, 0]], 3⟩ 3 6 []],
        .single (.silence 1),
        .single (.extract (some "b") ⟨[[1, 0, 1, 0, 1, 0]], 3⟩ 0 3 [.speed 2])] := by
    decide +kernel
  have htable : ∀ {property : Song → Prop},
      property ⟨⟨[[1, 0, 1, 0, 1, 0]], 3⟩, ⟨[0, 3, 6], 6⟩⟩ → ∀ (name : String) (other : Song),
        (SongTable.empty.insert "b" ⟨⟨[[1, 0, 1, 0, 1, 0]], 3⟩, ⟨[0, 3, 6], 6⟩⟩).get? name =
          some other → property other := by
    intro property hproperty name other hget
    rw [SongTable.get?_insert_empty] at hget
    split_ifs at hget
    cases hget
    exact hproperty
  obtain ⟨plans, hplans, hcount, hrate, -, hlength⟩ :=
    render_length htext hsong.wellFormed (htable hother.wellFormed) hrender
  obtain rfl := Except.ok.inj (hplan.symm.trans hplans)
  exact ⟨_, _, _, _, _, hsong, hother, rfl, rfl, htext, hplan, by decide +kernel, hrender, hcount,
    hrate, hlength (by decide) (htable (by decide))⟩

end Arranger
