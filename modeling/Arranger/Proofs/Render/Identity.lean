import Arranger.Proofs.Pattern.Writing
import Arranger.Proofs.Render.Joining

/-!
# Patterns that change nothing

The numbers from one up to the number of beats, and as many positions, play a song from its first
boundary to its last as it is, but for the limiter. So do the numbers from one up to any number
where the pattern fills the song.

## Main definitions

* `Arranger.countingText`, `Arranger.positionText` — the patterns `1,2,…,n` and `i,i,…,i`.
* `Arranger.Song.limitedSpan` — the frames from the first boundary to the last, limited.
* `Arranger.Song.PlaysThrough` — a text that is rendered as these frames.

## Main results

* `Arranger.Song.playsThrough_counting_and_positions` — these patterns play a song through.
-/

namespace Arranger

open Grammar

/-! ## The patterns -/

/-- The numbers from one up to `n`, with commas. -/
def countingText (n : ℕ) : String :=
  ",".intercalate ((List.range n).map fun k => toString (k + 1))

/-- The position, `n` times, with commas. -/
def positionText (n : ℕ) : String :=
  ",".intercalate (List.replicate n "i")

/-- Pieces with commas are pieces with commas between their characters. -/
lemma intercalate_eq_joinWith (pieces : List String) :
    ",".intercalate pieces = String.ofList (joinWith ',' (pieces.map String.toList)) := by
  rw [← String.toList_inj, String.toList_ofList, String.toList_intercalate]
  induction pieces with
  | nil => rfl
  | cons piece pieces ih =>
    cases pieces with
    | nil => simp [joinWith]
    | cons second more =>
      rw [List.map_cons, List.map_cons, joinWith, ← List.map_cons, ← ih]
      · simp
      · simp

/-- Digits spell the step that plays their number. -/
lemma spelled_toDigits (n : ℕ) :
    Spelled (Nat.toDigits 10 n) (plainStep (.literal (Binary.ofNat n))) := by
  refine ⟨.single ⟨none, .number (Binary.ofNat n), []⟩, ?_, rfl, fun rest lexemes hrest h => ?_⟩
  · exact ⟨trivial, by rintro suffix ⟨⟩, Nat.zero_le _, Nat.zero_le _⟩
  · exact scans_toDigits n (fun c hc => (breaks_iff.mp (hrest c hc)).2.2) h

/-- The letter of the position spells the step that plays it. -/
lemma spelled_position : Spelled ['i'] (plainStep (.position 0)) := by
  refine ⟨.single ⟨none, .position none, []⟩, ?_, rfl, fun rest lexemes hrest h => ?_⟩
  · exact ⟨by rintro signed ⟨⟩, by rintro suffix ⟨⟩, Nat.zero_le _, Nat.zero_le _⟩
  · exact scans_word (List.cons_ne_nil _ _) (by simp; decide)
      (fun c hc => (breaks_iff.mp (hrest c hc)).2.1) h

/-- Numbers that count up are read as a pattern of them. -/
lemma ofText_countingText {n : ℕ} (h : 0 < n) :
    Pattern.ofText (countingText n) =
      .ok (plainPattern n fun k => .literal (Binary.ofNat (k + 1))) := by
  have hne : List.range n ≠ [] := by simpa using h.ne'
  have hread := Pattern.ofText_joinWith hne fun k _ => spelled_toDigits (k + 1)
  rw [countingText, intercalate_eq_joinWith, List.map_map]
  simpa [plainPattern, Function.comp_def] using hread

/-- Positions are read as a pattern of them. -/
lemma ofText_positionText {n : ℕ} (h : 0 < n) :
    Pattern.ofText (positionText n) = .ok (plainPattern n fun _ => .position 0) := by
  have hne : List.range n ≠ [] := by simpa using h.ne'
  have hread := Pattern.ofText_joinWith hne fun _ _ => spelled_position
  rw [positionText, intercalate_eq_joinWith, List.map_replicate]
  rw [List.map_const', List.length_range] at hread
  exact hread

/-! ## Rendering -/

namespace Song

variable {song : Song}

/-- The frames from the first boundary to the last, each sample limited. -/
def limitedSpan (song : Song) (limiter : Limiter) : Recording :=
  ⟨song.recording.channels.map fun channel =>
    ((channel.take (song.beatmap.boundary song.beatmap.beatCount)).drop
      (song.beatmap.boundary 0)).map limiter.clampSample, song.recording.rate⟩

/-- The text is a pattern that is rendered as the frames from the first boundary to the last, each
sample cut off at the ceiling. -/
def PlaysThrough (song : Song) (table : SongTable) (options : RenderOptions) (entropy : UInt64)
    (text : String) : Prop :=
  ∃ pattern, Pattern.ofText text = .ok pattern ∧
    render pattern song table options entropy =
      .ok (song.limitedSpan (.ofCeiling options.ceiling))

/-- The plans of the whole beats are performed as the limited frames. -/
lemma perform_beatPlans (h : song.WellFormed) (limiter : Limiter) :
    perform song limiter ((List.range song.beatmap.beatCount).map song.beatPlan) =
      song.limitedSpan limiter := by
  rw [perform, performAll_beatPlan h limiter le_rfl]
  simp [stretch, limitedSpan, Limiter.clampSegment, Segment.mapSamples, Segment.mapChannels,
    Recording.ofSegment, List.drop_take]

/-- A pattern without aliases that is planned as the whole beats is rendered as the limited
frames. -/
lemma render_of_plan (h : song.WellFormed) {table : SongTable} {options : RenderOptions}
    {entropy : UInt64} {pattern : Pattern} (haliases : pattern.aliases = [])
    (hplan : (Stage.plan ⟨song, table, options.repetition⟩ pattern
      (.ofSeed (options.seed.getD entropy))).1 =
        .ok ((List.range song.beatmap.beatCount).map song.beatPlan)) :
    render pattern song table options entropy =
      .ok (song.limitedSpan (.ofCeiling options.ceiling)) := by
  rw [render, haliases, checkAliases]
  refine bind_eq_ok_iff.mpr ⟨(), rfl, bind_eq_ok_iff.mpr ⟨_, hplan, ?_⟩⟩
  rw [perform_beatPlans h]
  rfl

/-- **Counting and positions play a song through.** For a song with beats, the numbers from one up
to the number of beats and as many positions, each played once, and the numbers from one up to any
number that fill the song, are rendered as the frames from the first boundary to the last.

**Proof sketch.** The texts are scanned number by number. Each step is planned as the beat at its
place in the row of all repetitions, or left out behind the last beat, and a whole beat is the
stretch between two boundaries. The stretches are joined end to end. -/
theorem playsThrough_counting_and_positions (h : song.Reachable)
    (hcount : 1 ≤ song.beatmap.beatCount) (hlength : song.beatmap.sourceLength ≤ 2 ^ 52)
    (table : SongTable) (seed : Option UInt64) (ceiling : Sample) (entropy : UInt64) :
    song.PlaysThrough table ⟨seed, .once, ceiling⟩ entropy (countingText song.beatmap.beatCount) ∧
      song.PlaysThrough table ⟨seed, .once, ceiling⟩ entropy
        (positionText song.beatmap.beatCount) ∧
      ∀ length, 1 ≤ length →
        song.PlaysThrough table ⟨seed, .fill, ceiling⟩ entropy (countingText length) := by
  have hwell := h.wellFormed
  have hshort : 2 * song.beatmap.sourceLength ≤ 2 ^ Format.double.precision := by
    show _ ≤ 2 ^ 53
    omega
  have hbelow : song.beatmap.sourceLength < 2 ^ Format.double.precision := by
    show _ < 2 ^ 53
    omega
  refine ⟨⟨_, ofText_countingText hcount, ?_⟩, ⟨_, ofText_positionText hcount, ?_⟩, ?_⟩
  · exact render_of_plan hwell (Pattern.aliases_plainPattern _ _)
      (Stage.plan_counting ⟨song, table, .once⟩ hwell hshort hcount hcount (fun _ => rfl) _)
  · exact render_of_plan hwell (Pattern.aliases_plainPattern _ _)
      (Stage.plan_positions ⟨song, table, .once⟩ hwell hbelow rfl _)
  · intro length hpositive
    exact ⟨_, ofText_countingText hpositive, render_of_plan hwell (Pattern.aliases_plainPattern _ _)
      (Stage.plan_counting ⟨song, table, .fill⟩ hwell hshort hcount hpositive (by rintro ⟨⟩) _)⟩

/-- Three beats behind a frame of no beat, cut off at one half. Two numbers fill them, the second
time with the first of the two only. -/
theorem playsThrough_three_beats :
    ∃ song : Song, song.Reachable ∧ 1 ≤ song.beatmap.beatCount ∧
      song.beatmap.sourceLength ≤ 2 ^ 52 ∧
        song.limitedSpan (.ofCeiling (1 / 2)) = ⟨[[1 / 2, 0, 1 / 4, 1 / 2]], 2⟩ ∧
        song.PlaysThrough .empty ⟨none, .once, 1 / 2⟩ 0 (countingText 3) ∧
        song.PlaysThrough .empty ⟨none, .once, 1 / 2⟩ 0 (positionText 3) ∧
        song.PlaysThrough .empty ⟨none, .fill, 1 / 2⟩ 0 (countingText 2) := by
  have hrecording : Recording.mono [0, 1, 0, 1 / 4, 1] 2 = .ok ⟨[[0, 1, 0, 1 / 4, 1]], 2⟩ := by
    decide +kernel
  have hsong : ofBoundaries ⟨[[0, 1, 0, 1 / 4, 1]], 2⟩ [1, 3, 4, 5] =
      .ok ⟨⟨[[0, 1, 0, 1 / 4, 1]], 2⟩, ⟨[1, 3, 4, 5], 5⟩⟩ := by
    decide +kernel
  have hreachable : Reachable ⟨⟨[[0, 1, 0, 1 / 4, 1]], 2⟩, ⟨[1, 3, 4, 5], 5⟩⟩ :=
    ⟨_, [], .ofBoundaries (.mono hrecording) hsong, rfl⟩
  obtain ⟨hcounting, hpositions, hfilling⟩ :=
    playsThrough_counting_and_positions hreachable (by decide) (by decide) .empty none (1 / 2) 0
  exact ⟨_, hreachable, by decide, by decide, by decide +kernel, hcounting, hpositions,
    hfilling 2 (by decide)⟩

end Song

end Arranger
