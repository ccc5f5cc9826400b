import Arranger.Audio.Recording
import Arranger.Beatmap.Transform

/-!
# Songs

A song is a recording with a beatmap made for it.

## Main definitions

* `Arranger.Song` — a recording and its beatmap.
* `Arranger.Song.ofBeatmap`, `ofBoundaries` — the checked constructors.
* `Arranger.Song.scaled`, `shifted`, `resampled` — songs made of a song.
* `Arranger.Song.sliceBeats?` — the recording between two beats.
-/

namespace Arranger

/-- A recording with its beatmap. -/
structure Song where
  /-- The sound. -/
  recording : Recording
  /-- The beats. -/
  beatmap : Beatmap
deriving DecidableEq

namespace Song

/-- The recording with a beatmap that was made for its length. -/
def ofBeatmap (recording : Recording) (beatmap : Beatmap) : Except Beatmap.Defect Song :=
  if beatmap.sourceLength = recording.frames then .ok ⟨recording, beatmap⟩
  else .error (.lengthMismatch beatmap.sourceLength recording.frames)

/-- The recording with beats at the given boundaries. -/
def ofBoundaries (recording : Recording) (boundaries : List Nat) :
    Except Beatmap.Defect Song := do
  return ⟨recording, ← Beatmap.build boundaries recording.frames⟩

/-- The song with more or fewer beats. -/
def scaled (song : Song) (factor : Double) : Song :=
  { song with beatmap := song.beatmap.scale factor }

/-- The song with its beats counted from another place. -/
def shifted (song : Song) (amount : Double) : Song :=
  { song with beatmap := song.beatmap.shift amount }

/-- The recording from the start of one beat up to the start of another. -/
def sliceBeats? (song : Song) (first last : Double) : Option Recording := do
  let (start, stop) ← song.beatmap.slice? first last
  return .ofSegment (song.recording.window start stop) song.recording.rate

/-- The song at another sample rate. -/
def resampled (song : Song) (rate : Nat) : Except Recording.Defect Song := do
  let recording ← song.recording.resampled rate
  let ratio : Double := Binary.ofNat rate / Binary.ofNat song.recording.rate
  return ⟨recording, song.beatmap.resampled ratio recording.frames⟩

end Song

end Arranger
