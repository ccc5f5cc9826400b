import Arranger.Pattern.Compiling
import Arranger.Proofs.Plan.Blocks
import Arranger.Proofs.Render.Shape

/-!
# Reordered beats, rendered

The beats number one up to any number, reordered, with any effects and shuffled within groups, play
each beat of a song once where they fill it. Without speed effects the result is as long as the
song from its first boundary to its last.

## Main results

* `Arranger.Song.reorders_playsInBlocks` — reordered beats fill a song block by block.
-/

namespace Arranger

namespace Song

variable {song : Song}

/-- The lengths of the beats add up to the frames from the first boundary on. -/
lemma sum_lengths (h : song.beatmap.WellFormed) {n : ℕ} (hn : n ≤ song.beatmap.beatCount) :
    ((List.range n).map fun k => song.beatmap.boundary (k + 1) - song.beatmap.boundary k).sum =
      song.beatmap.boundary n - song.beatmap.boundary 0 := by
  induction n with
  | zero => simp
  | succ n ih =>
    have hfirst := h.boundary_mono (Nat.zero_le n) (by omega)
    have hlast := h.boundary_lt (i := n) (by omega)
    rw [List.range_succ, List.map_append, List.sum_append, ih (by omega), List.map_singleton,
      List.sum_singleton]
    omega

/-- A whole beat without a speed effect is performed over the length of the beat. -/
lemma perform_markedPlan_hasShape (h : song.WellFormed) (limiter : Limiter) {beat : Beat}
    (hspeed : ∀ factor, .speed factor ∉ beat.effects) {k : ℕ} (hk : k < song.beatmap.beatCount) :
    ((song.markedPlan beat k).perform limiter song.recording.channelCount).HasShape
      song.recording.channelCount
      (song.beatmap.boundary (k + 1) - song.beatmap.boundary k) := by
  have hend : song.beatmap.boundary (k + 1) ≤ song.recording.frames :=
    h.sourceLength_eq ▸ h.beatmap.boundary_le (k + 1)
  have hrising := (h.beatmap.boundary_lt hk).le
  have hchannels : 0 < song.recording.channelCount :=
    List.length_pos_iff.mpr h.recording.channels_ne_nil
  rw [markedPlan, Plan.perform]
  split_ifs
  · exact Segment.silent_hasShape _ _
  · have hwindow := h.recording.window_hasShape (song.beatmap.boundary k)
      (song.beatmap.boundary (k + 1))
    rw [min_eq_left hend, min_eq_left hrising] at hwindow
    exact (hwindow.transformAll hspeed).conform hchannels _

/-- Plans that come in blocks without speed effects are performed over the frames from the first
boundary to the last. -/
lemma PlaysInBlocks.frames_perform (h : song.WellFormed) {beat : ℕ → Beat} {size : ℕ}
    (hsize : 0 < size) (hspeed : ∀ n < size, ∀ factor, .speed factor ∉ (beat n).effects)
    {plans : List Plan} (hplans : song.PlaysInBlocks beat size plans) (limiter : Limiter) :
    (perform song limiter plans).frames =
      song.beatmap.boundary song.beatmap.beatCount - song.beatmap.boundary 0 := by
  obtain ⟨order, horder, rfl⟩ := exists_perm_of_perm_map (hplans.perm hsize)
  have hchannels : 0 < song.recording.channelCount :=
    List.length_pos_iff.mpr h.recording.channels_ne_nil
  have hjoined := performAll_hasShape limiter fun n hn =>
    perform_markedPlan_hasShape h limiter (hspeed (n % size) (Nat.mod_lt n hsize))
      (List.mem_range.mp (horder.subset hn))
  have hframes := (hjoined.mapSamples limiter.clampSample).frames_eq hchannels
  rw [(horder.map _).sum_eq, sum_lengths h.beatmap le_rfl] at hframes
  exact hframes

/-- **Reordered beats fill a song block by block.** The beats number one up to `size` in any order,
with any effects, silent or not and in any shuffle groups, are planned so that each beat of the song
plays once: first those of the first repetition in some order, then those of the second, and the
last repetition ends with the last beat. Without speed effects the rendering is as long as the song
from its first boundary to its last.

The recording has fewer than `2 ^ 53` frames: a longer one has boundaries that no 64-bit number
stands for.

**Proof sketch.** Planning plays the same permutation of the steps in every repetition, with
offsets that move it along the song. Each beat is performed over its own length, and the lengths of
all beats in any order add up to the whole. -/
theorem reorders_playsInBlocks (h : song.Reachable) (hcount : 1 ≤ song.beatmap.beatCount)
    (hlength : song.beatmap.sourceLength < 2 ^ 53) {size : ℕ} (hsize : 1 ≤ size)
    {pattern : Pattern} {beat : ℕ → Beat} (hpattern : pattern.Reorders size beat)
    (table : SongTable) (seed : Option UInt64) (ceiling : Sample) (entropy : UInt64) :
    ∃ plans,
      (Stage.plan ⟨song, table, .fill⟩ pattern (.ofSeed (seed.getD entropy))).1 = .ok plans ∧
      song.PlaysInBlocks beat size plans ∧
      plans.Perm ((List.range song.beatmap.beatCount).map fun n =>
        song.markedPlan (beat (n % size)) n) ∧
      ((∀ n < size, ∀ factor, .speed factor ∉ (beat n).effects) →
        ∃ recording,
          render pattern song table ⟨seed, .fill, ceiling⟩ entropy = .ok recording ∧
          recording.frames =
            song.beatmap.boundary song.beatmap.beatCount - song.beatmap.boundary 0) := by
  have hwell := h.wellFormed
  obtain ⟨plans, hplan, hblocks⟩ :
      ∃ plans,
        (Stage.plan ⟨song, table, .fill⟩ pattern (.ofSeed (seed.getD entropy))).1 = .ok plans ∧
        song.PlaysInBlocks beat size plans :=
    Stage.plan_reorders ⟨song, table, .fill⟩ hwell hlength rfl hsize hpattern hcount _
  refine ⟨plans, hplan, hblocks, hblocks.perm hsize, fun hspeed => ?_⟩
  refine ⟨_, ?_, hblocks.frames_perform hwell hsize hspeed (.ofCeiling ceiling)⟩
  rw [render, hpattern.aliases_eq_nil, checkAliases]
  exact bind_eq_ok_iff.mpr ⟨(), rfl, bind_eq_ok_iff.mpr ⟨plans, hplan, rfl⟩⟩

/-- Three beats of four frames together, filled by two beats that change places: the second one
backwards, and the first one silent. The last beat is the first of the second repetition. -/
theorem reorders_playsInBlocks_three_beats :
    ∃ (song : Song) (pattern : Pattern) (beat : ℕ → Beat), song.Reachable ∧
      song.beatmap.beatCount = 3 ∧ song.beatmap.sourceLength < 2 ^ 53 ∧
      Pattern.ofText "2r#a,1!#a" = .ok pattern ∧ pattern.Reorders 2 beat ∧
      (∀ n < 2, ∀ factor, .speed factor ∉ (beat n).effects) ∧
      ∃ plans, (Stage.plan ⟨song, .empty, .fill⟩ pattern (.ofSeed 7)).1 = .ok plans ∧
        song.PlaysInBlocks beat 2 plans ∧
        plans.Perm ((List.range 3).map fun n => song.markedPlan (beat (n % 2)) n) ∧
        ∃ recording, render pattern song .empty ⟨some 7, .fill, 1⟩ 0 = .ok recording ∧
          recording.frames = 4 := by
  have hrecording : Recording.mono [0, 1, 0, 1 / 4, 1] 2 = .ok ⟨[[0, 1, 0, 1 / 4, 1]], 2⟩ := by
    decide +kernel
  have hsong : ofBoundaries ⟨[[0, 1, 0, 1 / 4, 1]], 2⟩ [1, 3, 4, 5] =
      .ok ⟨⟨[[0, 1, 0, 1 / 4, 1]], 2⟩, ⟨[1, 3, 4, 5], 5⟩⟩ := by
    decide +kernel
  have hreachable : Reachable ⟨⟨[[0, 1, 0, 1 / 4, 1]], 2⟩, ⟨[1, 3, 4, 5], 5⟩⟩ :=
    ⟨_, [], .ofBoundaries (.mono hrecording) hsong, rfl⟩
  have htext : Pattern.ofText "2r#a,1!#a" = .ok
      ⟨[.single ⟨none, { ref := .literal 2, effects := [.reverse], group := some "a" }⟩,
        .single ⟨none, { ref := .literal 1, silent := true, group := some "a" }⟩]⟩ := by
    decide +kernel
  set beat : ℕ → Beat := fun n =>
    if n = 0 then { ref := .literal 1, silent := true, group := some "a" }
    else { ref := .literal 2, effects := [.reverse], group := some "a" } with hbeat
  have hreorders : Pattern.Reorders
      ⟨[.single ⟨none, { ref := .literal 2, effects := [.reverse], group := some "a" }⟩,
        .single ⟨none, { ref := .literal 1, silent := true, group := some "a" }⟩]⟩ 2 beat :=
    ⟨.swap _ _ _, by decide +kernel, by decide, by decide⟩
  have hspeed : ∀ n < 2, ∀ factor, .speed factor ∉ (beat n).effects := by
    intro n hn factor
    rcases (by omega : n = 0 ∨ n = 1) with rfl | rfl <;> simp [hbeat]
  obtain ⟨plans, hplan, hblocks, hperm, hrender⟩ := reorders_playsInBlocks hreachable (by decide)
    (by decide) (by decide) hreorders .empty (some 7) 1 0
  exact ⟨_, _, beat, hreachable, by decide, by decide, htext, hreorders, hspeed, plans, hplan,
    hblocks, hperm, hrender hspeed⟩

end Song

end Arranger
