import Arranger.Proofs.Beatmap.Window
import Arranger.Proofs.Number.Sum
import Arranger.Proofs.Plan.Results
import Arranger.Proofs.Plan.Tiling
import Arranger.Proofs.Song.Reachable

/-!
# Planning whole beats

A pattern whose step number `i` asks for beat `i + 1` of a song is planned as the beats of the song
in order, and what it asks for behind the last beat is left out.

## Main definitions

* `Arranger.Song.beatPlan`, `markedPlan` — what plays a whole beat of a song, as it is or with
  effects and marks.
* `Arranger.Song.keptPlan` — what plays the part of a beat of a song that is kept.

## Main results

* `Arranger.Stage.plan_counting` — the plans of a pattern of numbers that count up.
* `Arranger.Stage.plan_positions` — the plans of a pattern of positions.
-/

namespace Arranger

/-! ## Numbers that count up -/

/-- The number of a step and the offset of its repetition make the number of the cue. -/
lemma ofNat_add_offset {size k n : ℕ} (hn : n < size)
    (h : k * size ≤ 2 ^ Format.double.precision) :
    (Binary.ofNat (n + 1) + Binary.ofNat (k * size) : Double) =
      Binary.ofNat (k * size + n + 1) := by
  rcases Nat.eq_zero_or_pos k with rfl | hk
  · -- the number of a step may be too long for the format, and then nothing may be added to it
    rw [Nat.zero_mul, Binary.add_ofNat_zero (Binary.isNegative_ofNat _), Nat.zero_add]
  · have hle : size ≤ k * size := Nat.le_mul_of_pos_left size hk
    rw [Binary.ofNat_add (by omega) h]
    congr 1
    omega

/-- The number of the cue at a place in the row of all repetitions. -/
lemma ofNat_mod_add_div {size i : ℕ} (hsize : 0 < size)
    (h : i / size * size ≤ 2 ^ Format.double.precision) :
    (Binary.ofNat (i % size + 1) + Binary.ofNat (i / size * size) : Double) =
      Binary.ofNat (i + 1) := by
  rw [ofNat_add_offset (Nat.mod_lt i hsize) h, Nat.div_add_mod']

/-! ## Beats in order -/

/-- What plays a whole beat of a song, counted from zero. -/
def Song.beatPlan (song : Song) (k : ℕ) : Plan :=
  .single (.extract none song.recording (song.beatmap.boundary k) (song.beatmap.boundary (k + 1)) [])

/-- What plays a whole beat of a song, and nothing behind the last beat. -/
def Song.beatPlan? (song : Song) (k : ℕ) : Option Plan :=
  if k < song.beatmap.beatCount then some (song.beatPlan k) else none

/-- What plays a whole beat of a song, counted from zero, with the effects and marks of a beat of a
pattern. -/
def Song.markedPlan (song : Song) (beat : Beat) (k : ℕ) : Plan :=
  .single (if beat.silent then
      .silence (song.beatmap.boundary (k + 1) - song.beatmap.boundary k)
    else
      .extract none song.recording (song.beatmap.boundary k) (song.beatmap.boundary (k + 1))
        beat.effects)

/-- What plays a whole beat with effects and marks, and nothing behind the last beat. -/
def Song.markedPlan? (song : Song) (beat : Beat) (k : ℕ) : Option Plan :=
  if k < song.beatmap.beatCount then some (song.markedPlan beat k) else none

/-- What plays the part of a beat of a song, counted from zero, that a beat of a pattern keeps, with
its effects and marks. -/
def Song.keptPlan (song : Song) (beat : Beat) (k : ℕ) : Plan :=
  let (start, stop) := beat.cut (song.beatmap.boundary k) (song.beatmap.boundary (k + 1))
  .single (if beat.silent then .silence (stop - start)
    else .extract none song.recording start stop beat.effects)

/-- What plays the part of a beat that is kept, and nothing behind the last beat. -/
def Song.keptPlan? (song : Song) (beat : Beat) (k : ℕ) : Option Plan :=
  if k < song.beatmap.beatCount then some (song.keptPlan beat k) else none

/-- A beat that is not sliced keeps the whole beat of the song. -/
lemma Song.keptPlan?_of_whole (song : Song) {beat : Beat} (hslice : beat.slice = none) (k : ℕ) :
    song.keptPlan? beat k = song.markedPlan? beat k := by
  rw [keptPlan?, markedPlan?, keptPlan, Beat.cut, hslice]
  rfl

/-- The members of a row below a limit. -/
lemma filterMap_range_lt {α : Type} (f : ℕ → α) (start count limit : ℕ) :
    ((List.range count).filterMap fun i =>
        if start + i < limit then some (f (start + i)) else none) =
      (List.range' start (min count (limit - start))).map f := by
  obtain ⟨more, hmore⟩ := Nat.exists_eq_add_of_le (Nat.min_le_left count (limit - start))
  set inside := min count (limit - start) with hinside
  have hbefore : ((List.range inside).filterMap fun i =>
      if start + i < limit then some (f (start + i)) else none) =
        (List.range' start inside).map f := by
    rw [List.range'_eq_map_range, List.map_map, ← List.filterMap_eq_map]
    refine List.filterMap_congr fun i hi => ?_
    have hlt := List.mem_range.mp hi
    exact if_pos (by omega)
  have hbehind : (((List.range more).map (inside + ·)).filterMap fun i =>
      if start + i < limit then some (f (start + i)) else none) = [] := by
    refine List.filterMap_eq_nil_iff.mpr fun i hi => ?_
    obtain ⟨j, hj, rfl⟩ := List.mem_map.mp hi
    have hlt := List.mem_range.mp hj
    exact if_neg (by omega)
  rw [hmore, List.range_add, List.filterMap_append, hbefore, hbehind, List.append_nil]

/-- The plans of the whole beats up to beyond the last one. -/
lemma Song.filterMap_beatPlan? (song : Song) {n : ℕ} (h : song.beatmap.beatCount ≤ n) :
    (List.range n).filterMap song.beatPlan? =
      (List.range song.beatmap.beatCount).map song.beatPlan := by
  have hrow := filterMap_range_lt song.beatPlan 0 n song.beatmap.beatCount
  rw [Nat.sub_zero, min_eq_right h, ← List.range_eq_range'] at hrow
  rw [← hrow]
  exact List.filterMap_congr fun k _ => by rw [Nat.zero_add]; rfl

namespace Stage

variable {stage : Stage}

/-- A term without alias that asks for a whole beat of the song is planned as what it keeps of
it. -/
lemma leafFor_ofNat (hsong : stage.primary.WellFormed)
    (hlength : stage.primary.beatmap.sourceLength < 2 ^ Format.double.precision) (size : ℕ)
    (beat : Beat) {i : ℕ}
    (honce : stage.repetition = .once → i < stage.primary.beatmap.beatCount) :
    (stage.leafFor size stage.primary ⟨none, beat⟩ (Binary.ofNat (i + 1))).map
      (Option.map Plan.single) = .ok (stage.primary.keptPlan? beat i) := by
  have hcount := hsong.beatmap.beatCount_le.trans_lt hlength
  have hcontains := Beatmap.containsBeat_ofNat hcount (m := i + 1)
  have hbeat : stage.beatFor stage.primary.beatmap size (Binary.ofNat (i + 1)) =
      .ok (if i < stage.primary.beatmap.beatCount then some (Binary.ofNat (i + 1)) else none) := by
    unfold beatFor
    cases hrepetition : stage.repetition with
    | once =>
      have hi := honce hrepetition
      rw [Beatmap.wrapBeat, if_pos (hcontains.mpr ⟨by omega, hi⟩), if_pos hi]
      rfl
    | fill =>
      by_cases hi : i < stage.primary.beatmap.beatCount
      · rw [if_pos hi, if_pos (hcontains.mpr ⟨by omega, hi⟩)]
      · rw [if_neg hi, if_neg fun h => hi (hcontains.mp h).2]
  rw [leafFor, hbeat, Song.keptPlan?]
  by_cases hi : i < stage.primary.beatmap.beatCount
  · rw [if_pos hi, if_pos hi]
    show (((leafOf _ _ _).map some).map _ : Except Fault (Option Plan)) = _
    rw [leafOf, hsong.beatmap.window?_ofNat hlength hi]
    rfl
  · rw [if_neg hi, if_neg hi]
    rfl

section PlanCue

variable (hsong : stage.primary.WellFormed)
  (hlength : stage.primary.beatmap.sourceLength < 2 ^ Format.double.precision) {beat : Beat}
  {size position i : ℕ} {offset : Double} {random : Stream}
  (href : beat.ref.resolve ⟨size, offset, position⟩ stage.primary.beatmap.beatCount random =
    (.ok (Binary.ofNat (i + 1)), random))
  (honce : stage.repetition = .once → i < stage.primary.beatmap.beatCount)

include hsong hlength href honce

/-- A cue that asks for a whole beat of the song is planned as what it keeps of it. -/
lemma planCue_kept :
    stage.planCue ⟨.single ⟨none, beat⟩, size, offset⟩ ⟨random, position⟩ =
      (.ok (stage.primary.keptPlan? beat i), ⟨random, position + 1⟩) := by
  have hterm : stage.planTerm ⟨size, offset, position⟩ ⟨none, beat⟩ random =
      (stage.leafFor size stage.primary ⟨none, beat⟩ (Binary.ofNat (i + 1)), random) := by
    rw [planTerm, songOf]
    dsimp only
    rw [href]
    rfl
  have hstep : stage.planStep ⟨size, offset, position⟩ (.single ⟨none, beat⟩) random =
      (.ok (stage.primary.keptPlan? beat i), random) := by
    rw [planStep, hterm]
    exact congrArg (·, random) (leafFor_ofNat hsong hlength size beat honce)
  rw [planCue, hstep]

/-- A cue without a slice that asks for a whole beat of the song is planned as it. -/
lemma planCue_single (hslice : beat.slice = none) :
    stage.planCue ⟨.single ⟨none, beat⟩, size, offset⟩ ⟨random, position⟩ =
      (.ok (stage.primary.markedPlan? beat i), ⟨random, position + 1⟩) := by
  rw [planCue_kept hsong hlength href honce, Song.keptPlan?_of_whole _ hslice]

end PlanCue

/-- A pattern whose cues ask for the whole beats in order is planned as the beats. -/
lemma plan_of_resolve (hsong : stage.primary.WellFormed)
    (hlength : stage.primary.beatmap.sourceLength < 2 ^ Format.double.precision) {size : ℕ}
    {ref : ℕ → BeatRef} {random : Stream}
    (hcover : stage.primary.beatmap.beatCount ≤ stage.repetitions size * size)
    (href : ∀ i < stage.repetitions size * size,
      (ref (i % size)).resolve ⟨size, Binary.ofNat (i / size * size), i⟩
        stage.primary.beatmap.beatCount random = (.ok (Binary.ofNat (i + 1)), random))
    (honce : stage.repetition = .once →
      stage.repetitions size * size = stage.primary.beatmap.beatCount) :
    (stage.plan (plainPattern size ref) ⟨random, 0⟩).1 =
      .ok ((List.range stage.primary.beatmap.beatCount).map stage.primary.beatPlan) := by
  rw [plan_plainPattern, ← Song.filterMap_beatPlan? _ hcover]
  refine congrArg Prod.fst (collect_range (fun i => Cue.mk (plainStep (ref (i % size))) size
    (Binary.ofNat (i / size * size))) (Cursor.mk random) stage.primary.beatPlan? fun i hi => ?_)
  exact planCue_single hsong hlength (href i hi) (fun hrepetition => honce hrepetition ▸ hi) rfl

/-! ## Counting and positions -/

/-- Repetitions that fill a song begin within it and cover it. -/
lemma repetitions_fill (hfill : stage.repetition = .fill) {size : ℕ} (hsize : 0 < size)
    (hcount : 0 < stage.primary.beatmap.beatCount) :
    stage.primary.beatmap.beatCount ≤ stage.repetitions size * size ∧
      ∀ i < stage.repetitions size * size,
        i / size * size < stage.primary.beatmap.beatCount := by
  refine ⟨beatCount_le_repetitions_mul hfill hsize, fun i hi => ?_⟩
  have hrow : i / size < stage.repetitions size :=
    Nat.div_lt_of_lt_mul (by rwa [Nat.mul_comm])
  rcases Nat.eq_zero_or_pos (i / size) with hzero | hpos
  · rw [hzero, Nat.zero_mul]
    exact hcount
  · exact mul_lt_beatCount hfill hsize hrow hpos

/-- A number of a step that repetitions fill a song with stands for the beat that many behind those
of the repetitions before. -/
lemma resolve_ofNat (hsong : stage.primary.WellFormed)
    (hlength : stage.primary.beatmap.sourceLength < 2 ^ Format.double.precision)
    (hfill : stage.repetition = .fill) {size k n : ℕ} (hk : k < stage.repetitions size)
    (hn : n < size) (position beatCount : ℕ) (random : Stream) :
    (BeatRef.literal (Binary.ofNat (n + 1))).resolve ⟨size, Binary.ofNat (k * size), position⟩
      beatCount random = (.ok (Binary.ofNat (k * size + n + 1)), random) := by
  have hshort : k * size ≤ 2 ^ Format.double.precision := by
    rcases Nat.eq_zero_or_pos k with rfl | hpos
    · rw [Nat.zero_mul]
      exact Nat.zero_le _
    · have hwithin := mul_lt_beatCount hfill (Nat.zero_lt_of_lt hn) hk hpos
      exact hwithin.le.trans (hsong.beatmap.beatCount_le.trans hlength.le)
  rw [BeatRef.resolve, ofNat_add_offset hn hshort]

/-- Once through a pattern that is as long as the song is one row of cues. -/
lemma repetitions_once (honce : stage.repetition = .once) (size : ℕ) :
    stage.repetitions size * size = size ∧ ∀ i < size, i / size * size = 0 := by
  refine ⟨by rw [repetitions_eq_one (.inl honce), Nat.one_mul], fun i hi => ?_⟩
  rw [Nat.div_eq_of_lt hi, Nat.zero_mul]

/-- **Numbers that count up are planned as the beats of the song**: once if there are as many as
beats, and filling the song however many there are.

**Proof sketch.** The number of a step and the offset of its repetition make the number of the cue.
A repetition begins within the song, so the sum is exact, and the numbers behind the last beat are
left out. -/
theorem plan_counting (stage : Stage) (hsong : stage.primary.WellFormed)
    (hlength : 2 * stage.primary.beatmap.sourceLength ≤ 2 ^ Format.double.precision)
    (hcount : 0 < stage.primary.beatmap.beatCount) {size : ℕ} (hsize : 0 < size)
    (honce : stage.repetition = .once → size = stage.primary.beatmap.beatCount) (random : Stream) :
    (stage.plan (plainPattern size fun n => .literal (Binary.ofNat (n + 1))) ⟨random, 0⟩).1 =
      .ok ((List.range stage.primary.beatmap.beatCount).map stage.primary.beatPlan) := by
  have hbeats := hsong.beatmap.beatCount_le
  have hrows : stage.primary.beatmap.beatCount ≤ stage.repetitions size * size ∧
      ∀ i < stage.repetitions size * size,
        i / size * size < stage.primary.beatmap.beatCount := by
    cases hrepetition : stage.repetition with
    | once =>
      obtain ⟨hlong, hoffset⟩ := repetitions_once hrepetition size
      rw [hlong]
      exact ⟨(honce hrepetition).ge, fun i hi => by rw [hoffset i hi]; exact hcount⟩
    | fill => exact repetitions_fill hrepetition hsize hcount
  refine plan_of_resolve hsong (by omega) hrows.1 (fun i hi => ?_) fun hrepetition => ?_
  · have hoffset := hrows.2 i hi
    rw [BeatRef.resolve, ofNat_mod_add_div hsize (by omega)]
  · rw [(repetitions_once hrepetition size).1, honce hrepetition]

/-- **Positions are planned as the beats of the song**, once if there are as many as beats. -/
theorem plan_positions (stage : Stage) (hsong : stage.primary.WellFormed)
    (hlength : stage.primary.beatmap.sourceLength < 2 ^ Format.double.precision)
    (honce : stage.repetition = .once) (random : Stream) :
    (stage.plan (plainPattern stage.primary.beatmap.beatCount fun _ => .position 0)
        ⟨random, 0⟩).1 =
      .ok ((List.range stage.primary.beatmap.beatCount).map stage.primary.beatPlan) := by
  obtain ⟨hlong, _⟩ := repetitions_once honce stage.primary.beatmap.beatCount
  refine plan_of_resolve hsong hlength hlong.ge (fun i hi => ?_) fun _ => hlong
  have hbeats := hsong.beatmap.beatCount_le
  have hprecision : 2 ^ Format.double.precision + maxOffset ≤ maxStepNumber := by decide
  have hnumber : movedStep? i 0 = some (i + 1 + 0) :=
    movedStep?_of_le (Nat.zero_le _) (by omega)
  rw [BeatRef.resolve_position hnumber, add_zero]
  exact congrArg (fun x => (Except.ok x, random)) (Binary.ofInt_natCast (i + 1))

end Stage

end Arranger
