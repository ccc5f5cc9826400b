import Arranger.Proofs.Audio.WellFormed
import Arranger.Proofs.Rows

/-!
# Interleaving

The samples of a recording frame by frame are one row in which the channels take turns: with `n`
channels, place number `i` has the sample of channel `i % n` at frame `i / n`. Every `n`-th sample is
of one channel, so the channels can be told apart again, and nothing but their number is needed for
it.

## Main results

* `Arranger.Recording.interleaved_eq` — the samples frame by frame as one row.
* `Arranger.Recording.WellFormed.everyNth_interleaved` — every so many samples are a channel.
* `Arranger.Recording.ofInterleaved_inverts_interleaved` — **interleaving loses nothing**, in either
  direction.
-/

namespace Arranger

namespace Recording

variable {recording : Recording} {samples : List Sample} {channelCount rate : ℕ}

/-! ## From channels to frames -/

/-- **The samples frame by frame are one row**, in which the channels take turns. -/
lemma interleaved_eq (recording : Recording) : recording.interleaved =
    (List.range (recording.frames * recording.channelCount)).map fun i =>
      (recording.channels.getD (i % recording.channelCount) []).getD
        (i / recording.channelCount) 0 := by
  rw [channelCount, ← flatMap_range recording.channels.length recording.frames fun frame channel =>
    (recording.channels.getD channel []).getD frame 0]
  refine List.flatMap_congr fun frame _ => ?_
  rw [List.map_map, map_getD_range (fun channel : List Sample => channel.getD frame 0)]
  exact List.map_congr_left fun channel _ => toArray_getD channel frame 0

/-- There is a sample for each frame and channel. -/
lemma length_interleaved (recording : Recording) :
    recording.interleaved.length = recording.frames * recording.channelCount := by
  rw [interleaved_eq, List.length_map, List.length_range]

/-- The sample of a channel at a frame. -/
lemma interleaved_getD {frame channel : ℕ} (hframe : frame < recording.frames)
    (hchannel : channel < recording.channelCount) :
    recording.interleaved.getD (frame * recording.channelCount + channel) 0 =
      (recording.channels.getD channel []).getD frame 0 := by
  obtain ⟨hdiv, hmod⟩ := place_div_mod hchannel frame
  have hplace : frame * recording.channelCount + channel <
      recording.frames * recording.channelCount := by
    refine Nat.lt_of_lt_of_le (Nat.add_lt_add_left hchannel _) ?_
    rw [← Nat.succ_mul]
    exact Nat.mul_le_mul_right _ hframe
  rw [interleaved_eq, List.getD_eq_getElem _ _ (by simpa using hplace), List.getElem_map,
    List.getElem_range, hdiv, hmod]

/-- **Every so many samples are a channel.** -/
lemma WellFormed.everyNth_interleaved (h : recording.WellFormed) {channel : ℕ}
    (hchannel : channel < recording.channelCount) :
    everyNth recording.interleaved.toArray recording.frames recording.channelCount channel =
      recording.channels.getD channel [] := by
  have hlength : (recording.channels.getD channel []).length = recording.frames := by
    rw [List.getD_eq_getElem _ _ hchannel]
    exact h.length_eq _ (List.getElem_mem hchannel)
  have hrow := getD_range (recording.channels.getD channel []) 0
  rw [hlength] at hrow
  rw [← hrow, everyNth]
  refine List.map_congr_left fun frame hframe => ?_
  rw [toArray_getD, interleaved_getD (List.mem_range.mp hframe) hchannel]

/-- **The samples frame by frame are divided into the channels again**, which are then checked. -/
lemma WellFormed.ofInterleaved_interleaved (h : recording.WellFormed) (rate : ℕ) :
    ofInterleaved recording.interleaved recording.channelCount rate =
      ofChannels recording.channels rate := by
  have hpos : 0 < recording.channelCount := List.length_pos_iff.mpr h.channels_ne_nil
  have hchannels : (List.range recording.channelCount).map (everyNth recording.interleaved.toArray
      recording.frames recording.channelCount) = recording.channels := by
    refine Eq.trans (List.map_congr_left fun channel hchannel => ?_)
      (getD_range recording.channels [])
    exact h.everyNth_interleaved (List.mem_range.mp hchannel)
  simp only [ofInterleaved]
  rw [if_neg (Nat.ne_of_gt hpos), length_interleaved, if_neg (not_not.mpr (Nat.mul_mod_left _ _)),
    Nat.mul_div_left _ hpos, hchannels]

/-! ## From frames to channels -/

section OfInterleaved

variable (h : ofInterleaved samples channelCount rate = .ok recording)

include h

/-- What interleaved samples are divided into: there is a channel, each frame has a sample for each
of them, and every so many samples are a channel. -/
lemma ofInterleaved_spec : 0 < channelCount ∧
    samples.length / channelCount * channelCount = samples.length ∧
    recording = ⟨(List.range channelCount).map
      (everyNth samples.toArray (samples.length / channelCount) channelCount), rate⟩ := by
  unfold ofInterleaved at h
  split_ifs at h with hzero hpart
  exact ⟨Nat.pos_of_ne_zero hzero, Nat.div_mul_cancel (Nat.dvd_of_mod_eq_zero (not_not.mp hpart)),
    eq_of_ofChannels h⟩

/-- The number of frames that interleaved samples are divided into. -/
lemma frames_of_ofInterleaved : recording.frames = samples.length / channelCount := by
  obtain ⟨hpos, -, rfl⟩ := ofInterleaved_spec h
  obtain ⟨more, rfl⟩ := Nat.exists_eq_add_of_lt hpos
  simp [frames, List.range_succ_eq_map, everyNth]

/-- The number of channels that interleaved samples are divided into. -/
lemma channelCount_of_ofInterleaved : recording.channelCount = channelCount := by
  obtain ⟨-, -, rfl⟩ := ofInterleaved_spec h
  simp [Recording.channelCount]

/-- A channel of what interleaved samples are divided into. -/
lemma channel_of_ofInterleaved {channel : ℕ} (hchannel : channel < channelCount) :
    recording.channels.getD channel [] =
      everyNth samples.toArray (samples.length / channelCount) channelCount channel := by
  obtain ⟨-, -, rfl⟩ := ofInterleaved_spec h
  have hplace : channel < ((List.range channelCount).map (everyNth samples.toArray
      (samples.length / channelCount) channelCount)).length := by simpa using hchannel
  rw [List.getD_eq_getElem _ _ hplace, List.getElem_map, List.getElem_range]

/-- **The frames one after another are the interleaved samples.** -/
lemma interleaved_of_ofInterleaved : recording.interleaved = samples := by
  obtain ⟨hpos, hlength, -⟩ := ofInterleaved_spec h
  refine Eq.trans ?_ (getD_range samples 0)
  rw [interleaved_eq, frames_of_ofInterleaved h, channelCount_of_ofInterleaved h, hlength]
  refine List.map_congr_left fun i hi => ?_
  have hframe : i / channelCount < samples.length / channelCount := by
    rw [Nat.div_lt_iff_lt_mul hpos, hlength]
    exact List.mem_range.mp hi
  rw [channel_of_ofInterleaved h (Nat.mod_lt _ hpos), everyNth,
    List.getD_eq_getElem _ _ (by simpa using hframe), List.getElem_map, List.getElem_range,
    toArray_getD, Nat.div_add_mod']

end OfInterleaved

/-! ## Both ways -/

/-- **Interleaving loses nothing.** A recording that passes the check of its channels comes back out
of its samples frame by frame, also when it has no frame, and samples that are divided into channels
come back out of them as they were.

**Proof sketch.** Either way the sample at a place of the one row is the sample of a channel at a
frame: the place is the frame times the number of channels, plus the channel. Quotient and remainder
by the number of channels give frame and channel back. -/
theorem ofInterleaved_inverts_interleaved :
    (∀ recording : Recording, ofChannels recording.channels recording.rate = .ok recording →
      ofInterleaved recording.interleaved recording.channelCount recording.rate =
        .ok recording) ∧
    ∀ (samples : List Sample) (channelCount rate : ℕ) (recording : Recording),
      ofInterleaved samples channelCount rate = .ok recording →
        recording.interleaved = samples ∧ recording.channelCount = channelCount ∧
          recording.rate = rate := by
  constructor
  · intro recording h
    rw [(wellFormed_of_ofChannels h).ofInterleaved_interleaved, h]
  · intro samples channelCount rate recording h
    obtain ⟨-, -, hrecording⟩ := ofInterleaved_spec h
    exact ⟨interleaved_of_ofInterleaved h, channelCount_of_ofInterleaved h,
      congrArg Recording.rate hrecording⟩

/-- Two channels of three frames come back out of their six samples, and two channels without a
frame come back out of no sample. -/
theorem ofInterleaved_inverts_interleaved_stereo :
    ofInterleaved (Recording.mk [[0, 1, 2], [3, 4, 5]] 8000).interleaved 2 8000 =
        .ok ⟨[[0, 1, 2], [3, 4, 5]], 8000⟩ ∧
      ofInterleaved (Recording.mk [[], []] 8000).interleaved 2 8000 = .ok ⟨[[], []], 8000⟩ ∧
      (Recording.mk [[0, 1, 2], [3, 4, 5]] 8000).interleaved = [0, 3, 1, 4, 2, 5] :=
  ⟨ofInterleaved_inverts_interleaved.1 ⟨[[0, 1, 2], [3, 4, 5]], 8000⟩ (by decide +kernel),
    ofInterleaved_inverts_interleaved.1 ⟨[[], []], 8000⟩ (by decide +kernel),
    (ofInterleaved_inverts_interleaved.2 [0, 3, 1, 4, 2, 5] 2 8000 ⟨[[0, 1, 2], [3, 4, 5]], 8000⟩
      (by decide +kernel)).1⟩

end Recording

end Arranger
