import Arranger.Proofs.Audio.Windows
import Arranger.Proofs.Beatmap.Window
import Arranger.Proofs.Song.Reachable

/-!
# Slices of songs

The frames between two beats start and end at the frames nearest to the positions of the beats. The
position of a beat does not depend on the other one, and positions keep the order. So adjoining
slices are one slice: no frame is lost where one ends and the other begins, and none comes twice.

## Main results

* `Arranger.Song.WellFormed.sliceBeats?_eq` — a slice is a window of the recording.
* `Arranger.Song.slices_append` — **adjoining slices are one slice**.
-/

namespace Arranger

namespace Song

/-- The slice between two beats is the window between the frames nearest to them. -/
lemma WellFormed.sliceBeats?_eq {song : Song} (h : song.WellFormed)
    (hlength : song.beatmap.sourceLength ≤ 2 ^ Format.double.precision) {first last : Double}
    (hfirst : song.beatmap.containsBeat first = true) (hlt : first < last) :
    song.sliceBeats? first last = some ⟨(song.recording.window
      (song.beatmap.nearestFrame (first - 1)) (song.beatmap.nearestFrame (last - 1))).channels,
        song.recording.rate⟩ := by
  rw [sliceBeats?, (h.beatmap.slice?_eq hlength hfirst hlt).1]
  rfl

/-- **Adjoining slices are one slice.** Take a reachable song with at most `2 ^ 52` frames and three
beats in order. The first two are on the map, the last may be any greater number, also infinity.
Then there are slices from the first to the middle one, from there to the last one, and from the
first to the last one. They have the sample rate and the number of channels of the song, and each
channel of the third is that of the first followed by that of the second.

**Proof sketch.** Both of the shorter slices round the position of the middle beat to the same frame.
It is not before the frame of the first beat and not past that of the last one, as positions keep
the order. So the three slices are windows of which the first two adjoin. -/
theorem slices_append {song : Song} (h : song.Reachable)
    (hframes : song.recording.frames ≤ 2 ^ 52) {first middle last : Double}
    (hfirst : song.beatmap.containsBeat first = true)
    (hmiddle : song.beatmap.containsBeat middle = true) (hbefore : first < middle)
    (hbehind : middle < last) :
    ∃ front back whole, song.sliceBeats? first middle = some front ∧
      song.sliceBeats? middle last = some back ∧ song.sliceBeats? first last = some whole ∧
      front.channelCount = song.recording.channelCount ∧
      back.channelCount = song.recording.channelCount ∧
      whole.channelCount = song.recording.channelCount ∧
      front.rate = song.recording.rate ∧ back.rate = song.recording.rate ∧
      whole.rate = song.recording.rate ∧
      whole.channels = List.zipWith (· ++ ·) front.channels back.channels := by
  have hwell := h.wellFormed
  have hlength : song.beatmap.sourceLength ≤ 2 ^ Format.double.precision := by
    rw [hwell.sourceLength_eq]
    exact hframes.trans (by decide)
  obtain ⟨-, hstart, -⟩ := hwell.beatmap.slice?_eq hlength hfirst hbefore
  obtain ⟨-, hstop, hlast⟩ := hwell.beatmap.slice?_eq hlength hmiddle hbehind
  have hend := hlast.trans (hwell.beatmap.lastBoundary_le.trans_eq hwell.sourceLength_eq)
  exact ⟨_, _, _, hwell.sliceBeats?_eq hlength hfirst hbefore,
    hwell.sliceBeats?_eq hlength hmiddle hbehind,
    hwell.sliceBeats?_eq hlength hfirst (Binary.lt_trans hbefore hbehind),
    Recording.channelCount_window, Recording.channelCount_window, Recording.channelCount_window,
    rfl, rfl, rfl, (Recording.window_append hstart hstop hend).symm⟩

/-- Two channels with beats of unequal length, cut in the middle of the first beat and at a quarter
of the second one. -/
theorem slices_append_to_infinity :
    ∃ (song : Song) (front back whole : Recording), song.Reachable ∧
      song.recording.frames ≤ 2 ^ 52 ∧ song.beatmap.containsBeat (3 / 2) = true ∧
      song.beatmap.containsBeat (9 / 4) = true ∧ (3 / 2 : Double) < 9 / 4 ∧
      (9 / 4 : Double) < .infinite false ∧ song.sliceBeats? (3 / 2) (9 / 4) = some front ∧
      song.sliceBeats? (9 / 4) (.infinite false) = some back ∧
      song.sliceBeats? (3 / 2) (.infinite false) = some whole ∧
      front.channels = [[1, 1, 2, 2], [0, 0, 0, 1]] ∧
      whole.channels = List.zipWith (· ++ ·) front.channels back.channels := by
  have hrecording : Recording.ofChannels
      [[0, 0, 1, 1, 2, 2, 3, 3, 4, 4], [0, 0, 0, 0, 0, 1, 1, 1, 1, 1]] 2 =
      .ok ⟨[[0, 0, 1, 1, 2, 2, 3, 3, 4, 4], [0, 0, 0, 0, 0, 1, 1, 1, 1, 1]], 2⟩ := by
    decide +kernel
  have hsong : Song.Reachable
      ⟨⟨[[0, 0, 1, 1, 2, 2, 3, 3, 4, 4], [0, 0, 0, 0, 0, 1, 1, 1, 1, 1]], 2⟩,
        ⟨[0, 4, 10], 10⟩⟩ :=
    ⟨_, [], .ofBoundaries (.ofChannels hrecording)
      (show ofBoundaries _ [0, 4, 10] = _ by decide +kernel), rfl⟩
  have hfront : sliceBeats? ⟨⟨[[0, 0, 1, 1, 2, 2, 3, 3, 4, 4], [0, 0, 0, 0, 0, 1, 1, 1, 1, 1]], 2⟩,
      ⟨[0, 4, 10], 10⟩⟩ (3 / 2) (9 / 4) = some ⟨[[1, 1, 2, 2], [0, 0, 0, 1]], 2⟩ := by
    decide +kernel
  have hfirst : Beatmap.containsBeat ⟨[0, 4, 10], 10⟩ (3 / 2) = true := by decide +kernel
  have hmiddle : Beatmap.containsBeat ⟨[0, 4, 10], 10⟩ (9 / 4) = true := by decide +kernel
  have hbefore : (3 / 2 : Double) < 9 / 4 := by decide +kernel
  have hbehind : (9 / 4 : Double) < .infinite false := by decide +kernel
  obtain ⟨front, back, whole, hslice, hback, hwhole, -, -, -, -, -, -, happend⟩ :=
    slices_append hsong (by decide) hfirst hmiddle hbefore hbehind
  obtain rfl := Option.some.inj (hfront.symm.trans hslice)
  exact ⟨_, _, back, whole, hsong, by decide, hfirst, hmiddle, hbefore, hbehind, hslice, hback,
    hwhole, rfl, happend⟩

end Song

end Arranger
