import Arranger.Preset.Basic
import Arranger.Proofs.Beatmap.Scaling
import Arranger.Proofs.Song.Reachable
import Arranger.Settings.Basic

/-!
# Changes that change nothing

A song scaled by one, shifted by zero or resampled to its own rate is the same song. Scaling is
computed for any factor, also for one: the number of beats is counted anew, a step is derived, and
each boundary is interpolated, rounded and compared with the one before it. All of this is exact for
whole numbers of beats. A preset always has its changes made, while the settings of a user leave out
those that change nothing, and so both agree.

## Main results

* `Arranger.Beatmap.effectiveFactor_of_neutral` — factors that stand for one.
* `Arranger.Preset.prepare_eq`, `Settings.prepare_eq` — what presets and settings prepare.
* `Arranger.Song.neutral_changes` — **changes that change nothing**.
-/

namespace Arranger

namespace Beatmap

/-- Minus one and what is not finite stand for one as well. -/
lemma effectiveFactor_of_neutral {factor : Double}
    (h : factor = 1 ∨ factor = -1 ∨ factor.isFinite = false) : effectiveFactor factor = 1 := by
  rcases h with rfl | rfl | hinfinite
  · decide +kernel
  · decide +kernel
  · rw [effectiveFactor, hinfinite, if_neg Bool.false_ne_true]

/-- Shifting by zero, or by what is not finite, keeps any map. -/
lemma shift_of_neutral (map : Beatmap) {amount : Double}
    (h : amount.numEq 0 = true ∨ amount.isFinite = false) : map.shift amount = map := by
  rw [shift, if_pos]
  rcases h with hzero | hinfinite
  · rw [hzero, Bool.or_true]
  · rw [hinfinite]
    rfl

end Beatmap

/-! ## Presets and settings -/

section Prepare

variable {song : Song}

/-- A preset has its changes made, with one and zero for those it does not have. -/
lemma Preset.prepare_eq {map : Beatmap} (hone : map.scale 1 = map) (preset : Preset) :
    preset.prepare map = (map.scale ((preset.scale.map ScaleSetting.factor).getD 1)).shift
      (preset.shift.getD 0) := by
  have hzero := Binary.numEq_self (Binary.zero_spec .double).1
  unfold Preset.prepare
  cases preset.scale <;> cases preset.shift <;>
    simp only [Option.map_none, Option.map_some, Option.getD_none, Option.getD_some, hone,
      Beatmap.shift_of_neutral _ (.inl hzero)]

/-- Settings have their changes made, also those that they leave out. -/
lemma Settings.prepare_eq (hone : song.scaled 1 = song) (settings : Settings) :
    settings.prepare song = (song.scaled settings.scale).shifted settings.shift := by
  have hscale : (if settings.scale.numEq 1 then song else song.scaled settings.scale) =
      song.scaled settings.scale := by
    split_ifs with hneutral
    · rw [Binary.eq_one_of_numEq hneutral, hone]
    · rfl
  rw [Settings.prepare, hscale]
  split_ifs with hneutral
  · rw [Song.shifted, Beatmap.shift_of_neutral _ (.inl hneutral)]
  · rfl

end Prepare

namespace Song

/-- **Changes that change nothing.** Take a reachable song with at most `2 ^ 52` frames, at a rate
of a 32-bit word. Its beatmap may have any number of boundaries, also none. Scaling the song by one,
by minus one or by what is not finite returns the song, with the same boundaries and the same sound.
So does shifting it by zero, by minus zero or by what is not finite, and resampling it to its rate.

So settings and a preset that ask for the same scale and the same shift prepare the same beatmap of
the song, and the settings keep the sound. A preset without a scale asks for one, and without a
shift for zero.

**Proof sketch.** Such factors stand for one. One times the number of beats is exact, the slack that
is added is rounded down, and there are no more beats than frames. So the step is one, and each
coordinate is the number of a boundary, whose position is the boundary. What rises already is kept
as it is. Settings leave out scaling by one and shifting by zero only. -/
theorem neutral_changes {song : Song} (h : song.Reachable) (hframes : song.recording.frames ≤ 2 ^ 52)
    (hrate : song.recording.rate < 2 ^ 32) :
    (∀ factor : Double, factor = 1 ∨ factor = -1 ∨ factor.isFinite = false →
      song.scaled factor = song) ∧
    (∀ amount : Double, amount = 0 ∨ amount = -0 ∨ amount.isFinite = false →
      song.shifted amount = song) ∧
    song.resampled song.recording.rate = .ok song ∧
    ∀ (settings : Settings) (preset : Preset),
      (preset.scale.map ScaleSetting.factor).getD 1 = settings.scale →
        preset.shift.getD 0 = settings.shift →
          (settings.prepare song).beatmap = preset.prepare song.beatmap ∧
            (settings.prepare song).recording = song.recording := by
  have hwell := h.wellFormed
  have hlength : song.beatmap.sourceLength ≤ 2 ^ 52 := hwell.sourceLength_eq.trans_le hframes
  have hscale : ∀ factor : Double, factor = 1 ∨ factor = -1 ∨ factor.isFinite = false →
      song.beatmap.scale factor = song.beatmap := fun factor hneutral =>
    hwell.beatmap.scale_of_effectiveFactor_eq_one hlength
      (Beatmap.effectiveFactor_of_neutral hneutral)
  have hscaled : ∀ factor : Double, factor = 1 ∨ factor = -1 ∨ factor.isFinite = false →
      song.scaled factor = song := fun factor hneutral => by
    rw [scaled, hscale factor hneutral]
  refine ⟨hscaled, fun amount hneutral => ?_, ?_, fun settings preset hfactor hamount => ?_⟩
  · have hkept : amount.numEq 0 = true ∨ amount.isFinite = false := by
      rcases hneutral with rfl | rfl | hinfinite
      · exact .inl (by decide +kernel)
      · exact .inl (by decide +kernel)
      · exact .inr hinfinite
    rw [shifted, Beatmap.shift_of_neutral _ hkept]
  · have hpos := hwell.recording.rate_pos
    have hshort : song.recording.rate ≤ 2 ^ Format.double.precision := hrate.le.trans (by decide)
    have hmap := hwell.beatmap.resampled_one hlength
    rw [hwell.sourceLength_eq] at hmap
    rw [resampled, Recording.resampled_rate hpos, Binary.ofNat_div_self hpos hshort]
    show Except.ok (⟨song.recording, song.beatmap.resampled 1 song.recording.frames⟩ : Song) = _
    rw [hmap]
  · rw [Settings.prepare_eq (hscaled 1 (.inl rfl)), Preset.prepare_eq (hscale 1 (.inl rfl)),
      hfactor, hamount]
    exact ⟨rfl, rfl⟩

/-- Beats of unequal length, and a preset with a list of factors of which the first is one. -/
theorem neutral_changes_one_beat_later :
    Reachable ⟨⟨[[0, 1, 2, 3, 4]], 2⟩, ⟨[1, 2, 5], 5⟩⟩ ∧
      (⟨[[0, 1, 2, 3, 4]], 2⟩ : Recording).frames ≤ 2 ^ 52 ∧ 2 < 2 ^ 32 ∧
      scaled ⟨⟨[[0, 1, 2, 3, 4]], 2⟩, ⟨[1, 2, 5], 5⟩⟩ .nan =
        ⟨⟨[[0, 1, 2, 3, 4]], 2⟩, ⟨[1, 2, 5], 5⟩⟩ ∧
      shifted ⟨⟨[[0, 1, 2, 3, 4]], 2⟩, ⟨[1, 2, 5], 5⟩⟩ (-0) =
        ⟨⟨[[0, 1, 2, 3, 4]], 2⟩, ⟨[1, 2, 5], 5⟩⟩ ∧
      resampled ⟨⟨[[0, 1, 2, 3, 4]], 2⟩, ⟨[1, 2, 5], 5⟩⟩ 2 =
        .ok ⟨⟨[[0, 1, 2, 3, 4]], 2⟩, ⟨[1, 2, 5], 5⟩⟩ ∧
      (Settings.prepare ⟨none, .once, 1, 1, 1⟩
          ⟨⟨[[0, 1, 2, 3, 4]], 2⟩, ⟨[1, 2, 5], 5⟩⟩).beatmap =
        Preset.prepare ⟨"1", some (.list [1, 4]), some 1, none, none⟩ ⟨[1, 2, 5], 5⟩ ∧
      (Settings.prepare ⟨none, .once, 1, 1, 1⟩
          ⟨⟨[[0, 1, 2, 3, 4]], 2⟩, ⟨[1, 2, 5], 5⟩⟩).recording = ⟨[[0, 1, 2, 3, 4]], 2⟩ := by
  have hrecording : Recording.mono [0, 1, 2, 3, 4] 2 = .ok ⟨[[0, 1, 2, 3, 4]], 2⟩ := by
    decide +kernel
  have hsong : Reachable ⟨⟨[[0, 1, 2, 3, 4]], 2⟩, ⟨[1, 2, 5], 5⟩⟩ :=
    ⟨_, [], .ofBoundaries (.mono hrecording)
      (show ofBoundaries _ [1, 2, 5] = _ by decide +kernel), rfl⟩
  obtain ⟨hscale, hshift, hresample, hprepare⟩ := neutral_changes hsong (by decide) (by decide)
  obtain ⟨hbeatmap, hkept⟩ := hprepare ⟨none, .once, 1, 1, 1⟩
    ⟨"1", some (.list [1, 4]), some 1, none, none⟩ rfl rfl
  exact ⟨hsong, by decide, by decide, hscale .nan (.inr (.inr rfl)), hshift (-0) (.inr (.inl rfl)),
    hresample, hbeatmap, hkept⟩

end Song

end Arranger
