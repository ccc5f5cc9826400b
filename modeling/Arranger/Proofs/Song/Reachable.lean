import Arranger.Song.Basic
import Arranger.Proofs.Audio.WellFormed
import Arranger.Proofs.Beatmap.WellFormed

/-!
# Reachable songs

A song is made by a checked constructor and may then be scaled, shifted and resampled any number
of times. None of these changes goes through the checks again, and still every song on the way
would pass them.

## Main definitions

* `Arranger.Song.WellFormed` — a well-formed recording with a well-formed beatmap of its length.
* `Arranger.Song.Made` — the songs of the checked constructors.
* `Arranger.Song.Change`, `change`, `run` — one change of a song, and several in a row.
* `Arranger.Song.Reachable` — the songs that come of changing a made one.

## Main results

* `Arranger.Song.run_wellFormed` — changes of a well-formed song succeed and keep it well formed.
* `Arranger.Song.made_run_rebuild` — the songs that come of a made one are well formed and can be
  put together again out of their parts.
-/

namespace Arranger

namespace Song

/-- What a song has to meet: its recording and its beatmap are well formed, and the beatmap is
made for the length of the recording. -/
structure WellFormed (song : Song) : Prop where
  /-- There is a channel, the channels have one length, and the sample rate is positive. -/
  recording : song.recording.WellFormed
  /-- The boundaries rise and do not go past the end. -/
  beatmap : song.beatmap.WellFormed
  /-- The beatmap is made for the length of the recording. -/
  sourceLength_eq : song.beatmap.sourceLength = song.recording.frames

/-- The songs that the checked constructors return for recordings and beatmaps that can be
made. -/
inductive Made : Song → Prop where
  /-- Made of a recording and a beatmap. -/
  | ofBeatmap {recording : Recording} {map : Beatmap} {song : Song} :
      recording.Made → map.Made → ofBeatmap recording map = .ok song → Made song
  /-- Made of a recording and boundaries on it. -/
  | ofBoundaries {recording : Recording} {boundaries : List ℕ} {song : Song} :
      recording.Made → ofBoundaries recording boundaries = .ok song → Made song

/-- A change of a song. -/
inductive Change where
  /-- Scale the beatmap. -/
  | scale (factor : Double)
  /-- Shift the beatmap. -/
  | shift (amount : Double)
  /-- Resample the song to a positive rate. -/
  | resample (rate : ℕ) (rate_pos : 0 < rate)

/-- The song with a change made. -/
def change (song : Song) : Change → Except Recording.Defect Song
  | .scale factor => .ok (song.scaled factor)
  | .shift amount => .ok (song.shifted amount)
  | .resample rate _ => song.resampled rate

/-- The song with changes made one after the other. -/
def run (song : Song) : List Change → Except Recording.Defect Song
  | [] => .ok song
  | step :: steps => do (← song.change step).run steps

/-- The songs that come of a made one by changes. -/
def Reachable (song : Song) : Prop :=
  ∃ (start : Song) (changes : List Change), start.Made ∧ start.run changes = .ok song

/-! ## Checked constructors -/

/-- **The checked constructors return well-formed songs.** -/
theorem Made.wellFormed {song : Song} (h : song.Made) : song.WellFormed := by
  cases h with
  | ofBeatmap hrecording hmap hsong =>
    unfold Song.ofBeatmap at hsong
    split_ifs at hsong with hlength
    cases hsong
    exact ⟨hrecording.wellFormed, hmap.wellFormed, hlength⟩
  | @ofBoundaries recording boundaries _ hrecording hsong =>
    unfold Song.ofBoundaries at hsong
    cases hmap : Beatmap.build boundaries recording.frames with
    | error defect => rw [hmap] at hsong; cases hsong
    | ok map =>
      rw [hmap] at hsong
      cases hsong
      exact ⟨hrecording.wellFormed, Beatmap.wellFormed_of_build hmap,
        Beatmap.sourceLength_of_build hmap⟩

/-- The parts of a song pass the check on lengths if the beatmap is made for the recording. -/
lemma ofBeatmap_parts {song : Song} (h : song.beatmap.sourceLength = song.recording.frames) :
    ofBeatmap song.recording song.beatmap = .ok song := by
  unfold ofBeatmap
  rw [if_pos h]

/-! ## Changes -/

/-- **A change of a well-formed song succeeds and keeps it well formed.** -/
theorem change_wellFormed {song : Song} (h : song.WellFormed) (step : Change) :
    ∃ result, song.change step = .ok result ∧ result.WellFormed := by
  cases step with
  | scale factor =>
    refine ⟨song.scaled factor, rfl, h.recording, h.beatmap.scale factor, ?_⟩
    exact (song.beatmap.sourceLength_scale factor).trans h.sourceLength_eq
  | shift amount =>
    refine ⟨song.shifted amount, rfl, h.recording, h.beatmap.shift amount, ?_⟩
    exact (song.beatmap.sourceLength_shift amount).trans h.sourceLength_eq
  | resample rate rate_pos =>
    obtain ⟨recording, hrecording⟩ := song.recording.exists_resampled rate_pos
    have hresult : song.change (.resample rate rate_pos) = .ok ⟨recording, song.beatmap.resampled
        (Binary.ofNat rate / Binary.ofNat song.recording.rate) recording.frames⟩ := by
      rw [change, resampled, hrecording]
      rfl
    exact ⟨_, hresult, h.recording.resampled hrecording, Beatmap.ofPositions_wellFormed _ _, rfl⟩

/-- **Changes of a well-formed song succeed and keep it well formed.** -/
theorem run_wellFormed {song : Song} (h : song.WellFormed) (changes : List Change) :
    ∃ result, song.run changes = .ok result ∧ result.WellFormed := by
  induction changes generalizing song with
  | nil => exact ⟨song, rfl, h⟩
  | cons step steps ih =>
    obtain ⟨next, hnext, hwell⟩ := change_wellFormed h step
    obtain ⟨result, hresult, hresultWell⟩ := ih hwell
    refine ⟨result, ?_, hresultWell⟩
    rw [run, hnext]
    exact hresult

/-- Reachable songs are well formed. -/
theorem Reachable.wellFormed {song : Song} (h : song.Reachable) : song.WellFormed := by
  obtain ⟨start, changes, hmade, hrun⟩ := h
  obtain ⟨result, hresult, hwell⟩ := run_wellFormed hmade.wellFormed changes
  rw [hrun] at hresult
  cases hresult
  exact hwell

/-- **Songs stay well formed.** Any changes of a song that a checked constructor has returned
succeed. The result is well formed, and the checked constructor puts it together again out of its
parts.

**Proof sketch.** The checks make a song well formed. Each change keeps that: scaling and shifting
choose new boundaries on the same recording, resampling gives all channels the same new length,
and every choice of boundaries leaves out what does not rise or is past the end. The run lemma
carries it over any sequence of changes. -/
theorem made_run_rebuild {song : Song} (h : song.Made) (changes : List Change) :
    ∃ result, song.run changes = .ok result ∧ result.WellFormed ∧
      ofBeatmap result.recording result.beatmap = .ok result := by
  obtain ⟨result, hrun, hwell⟩ := run_wellFormed h.wellFormed changes
  exact ⟨result, hrun, hwell, ofBeatmap_parts hwell.sourceLength_eq⟩

/-- Four frames with two beats, scaled by not-a-number, shifted by a beat and resampled. -/
theorem made_run_rebuild_two_beats :
    Made ⟨⟨[[0, 1, 0, 1]], 2⟩, ⟨[0, 2, 4], 4⟩⟩ ∧
      ∃ result, run ⟨⟨[[0, 1, 0, 1]], 2⟩, ⟨[0, 2, 4], 4⟩⟩
          [.scale .nan, .shift 1, .resample 3 (by decide)] = .ok result ∧
        result.WellFormed ∧ ofBeatmap result.recording result.beatmap = .ok result :=
  have hrecording : Recording.mono [0, 1, 0, 1] 2 = .ok ⟨[[0, 1, 0, 1]], 2⟩ := by decide +kernel
  have hboundaries : ofBoundaries ⟨[[0, 1, 0, 1]], 2⟩ [0, 2, 4] =
      .ok ⟨⟨[[0, 1, 0, 1]], 2⟩, ⟨[0, 2, 4], 4⟩⟩ := by decide +kernel
  have hmade := Made.ofBoundaries (.mono hrecording) hboundaries
  ⟨hmade, made_run_rebuild hmade _⟩

end Song

end Arranger
