import Arranger.Proofs.Number.Sum
import Arranger.Proofs.Pattern.Bounds
import Arranger.Proofs.Plan.References
import Arranger.Proofs.Plan.Results

/-!
# Positions as literals

A position stands for the number of the step that is played, moved by an offset. If all steps count,
that is the number of its own step in the pattern and the offset of the repetition, and so it can be
written as a literal.

## Main definitions

* `Arranger.BeatRef.pin` — the literal in the place of a position.
* `Arranger.Pattern.pinned` — the pattern with literals in the place of its positions.

## Main results

* `Arranger.Stage.plan_pinned` — a pattern is planned like the one with its positions pinned.
-/

namespace Arranger

/-- The literal in the place of a position in step number `index`, which is counted from zero. -/
def BeatRef.pin (index : ℕ) : BeatRef → BeatRef
  | literal number => literal number
  | position offset => literal (Binary.ofInt (index + 1 + offset))
  | random low high step => random low high step

/-- The pattern with literals in the place of its positions, also in mixes and behind aliases. -/
def Pattern.pinned (pattern : Pattern) : Pattern :=
  ⟨pattern.steps.mapIdx fun index => Step.mapRefs (BeatRef.pin index)⟩

/-- A pinned position stands for the same beat number, where its step is played at the offset
`base`. -/
lemma BeatRef.resolve_pin {ref : BeatRef} {index base : ℕ} (hbounded : ref.Bounded)
    (hbase : base ≠ 0 → base ≤ 2 ^ 53 ∧ index + 1 + maxOffset ≤ 2 ^ 53)
    (hindex : index + 1 + maxOffset ≤ maxStepNumber) (size size' beatCount : ℕ) (stream : Stream) :
    (ref.pin index).resolve ⟨size', Binary.ofNat base, base + index⟩ beatCount stream =
      ref.resolve ⟨size, Binary.ofNat base, base + index⟩ beatCount stream := by
  cases ref with
  | literal number => rfl
  | position offset =>
    have hmagnitude : offset.natAbs ≤ maxOffset := hbounded
    have hmax : maxOffset ≤ 2 ^ 53 := by decide
    have hsum : (Binary.ofInt (index + 1 + offset) + Binary.ofNat base : Double) =
        Binary.ofInt (index + 1 + offset + base) := by
      rcases eq_or_ne base 0 with rfl | hne
      · rw [Nat.cast_zero, add_zero]
        exact Binary.ofInt_add_ofNat_zero (show -((2 ^ 53 : ℕ) : ℤ) ≤ _ by omega)
      · obtain ⟨hshort, hplace⟩ := hbase hne
        exact Binary.ofInt_add_ofNat (show _ ≤ 2 ^ 53 by omega) hshort
    have hplayed : base + index + 1 + maxOffset ≤ maxStepNumber := by
      have hroom : 2 ^ 53 + 2 ^ 53 ≤ maxStepNumber := by decide
      rcases eq_or_ne base 0 with rfl | hne
      · omega
      · obtain ⟨hshort, hplace⟩ := hbase hne
        omega
    have hnumber := movedStep?_of_le hmagnitude hplayed
    rw [pin, resolve, hsum, resolve_position hnumber]
    congr 3
    push_cast
    ring
  | random low high step => rfl

namespace Pattern

/-- Pinned positions count like positions. -/
lemma size_pinned (pattern : Pattern) (hcounts : ∀ step ∈ pattern.steps, step.counts = true) :
    pattern.pinned.size = pattern.size := by
  have hpinned : ∀ step ∈ pattern.pinned.steps, step.counts = true := by
    intro step hstep
    obtain ⟨index, hindex, rfl⟩ := List.mem_mapIdx.mp hstep
    rw [Step.counts_mapRefs]
    exact hcounts _ (List.getElem_mem hindex)
  rw [size, size, List.filter_eq_self.mpr hcounts, List.filter_eq_self.mpr hpinned, pinned,
    List.length_mapIdx]

/-- Pinned positions are in no groups, where there are none. -/
lemma group?_pinned {pattern : Pattern} (hungrouped : ∀ step ∈ pattern.steps, step.group? = none) :
    ∀ step ∈ pattern.pinned.steps, step.group? = none := by
  intro step hstep
  obtain ⟨index, hindex, rfl⟩ := List.mem_mapIdx.mp hstep
  rw [Step.group?_mapRefs]
  exact hungrouped _ (List.getElem_mem hindex)

/-- The steps of a pattern by their numbers, and the pinned ones by the same numbers. -/
lemma exists_numbered (pattern : Pattern) :
    ∃ step : ℕ → Step, pattern.steps = (List.range pattern.steps.length).map step ∧
      pattern.pinned.steps = (List.range pattern.steps.length).map fun n =>
        (step n).mapRefs (BeatRef.pin n) := by
  -- the default is never taken
  refine ⟨fun n => pattern.steps.getD n (.mix .sum []), ?_, ?_⟩
  · exact List.ext_getElem (by simp) fun n hn _ => by simp [hn]
  · refine List.ext_getElem (by simp [pinned]) fun n hn _ => ?_
    have hn' : n < pattern.steps.length := by simpa [pinned] using hn
    simp [pinned, hn']

end Pattern

namespace Stage

variable {stage : Stage}

/-- Behind the first repetition of a pattern, the offsets and the places in the pattern are small,
if the number of beats is. -/
lemma offset_le {size i : ℕ} (hi : i < stage.repetitions size * size)
    (hbeats : stage.repetition = .fill → stage.primary.beatmap.beatCount + maxOffset ≤ 2 ^ 53)
    (hbase : i / size * size ≠ 0) :
    i / size * size ≤ 2 ^ 53 ∧ i % size + 1 + maxOffset ≤ 2 ^ 53 := by
  have hsize : 0 < size := Nat.pos_of_mul_pos_left (Nat.zero_lt_of_lt hi)
  have hcount : i / size < stage.repetitions size := (Nat.div_lt_iff_lt_mul hsize).mpr hi
  have hpos : 0 < i / size := Nat.pos_of_mul_pos_right (Nat.pos_of_ne_zero hbase)
  have hplace : i % size < size := Nat.mod_lt i hsize
  have hle : size ≤ i / size * size := Nat.le_mul_of_pos_left size hpos
  cases hrepetition : stage.repetition with
  | once =>
    have honce := @repetitions_eq_one stage size (.inl hrepetition)
    omega
  | fill =>
    have hlt := mul_lt_beatCount hrepetition hsize hcount hpos
    have hbound := hbeats hrepetition
    omega

/-- **A pattern is planned like the one with its positions pinned.** In a pattern of a text, without
shuffle groups and with steps that all count, a literal can stand in the place of every position:
the plans, or the fault, and the cursor behind them are the same.

The numbers of the steps are taken to be ones that can be moved. Where the pattern fills a song, the
numbers of the beats are taken to be small enough that numbers next to each other are different
numbers.

**Proof sketch.** The steps are played in written order, over and over, and the position goes up by
one with each. So step number `index` of repetition `k` is at position `k * size + index`, and the
offset of the repetition is `k * size`. -/
theorem plan_pinned (stage : Stage) {text : String} {pattern : Pattern}
    (htext : Pattern.ofText text = .ok pattern)
    (hungrouped : ∀ step ∈ pattern.steps, step.group? = none)
    (hcounts : ∀ step ∈ pattern.steps, step.counts = true)
    (hlength : pattern.steps.length + maxOffset ≤ maxStepNumber)
    (hbeats : stage.repetition = .fill → stage.primary.beatmap.beatCount + maxOffset ≤ 2 ^ 53)
    (seed : UInt64) :
    stage.plan pattern.pinned (.ofSeed seed) = stage.plan pattern (.ofSeed seed) := by
  obtain ⟨step, hsteps, hpinned⟩ := pattern.exists_numbered
  have hsize : pattern.steps.length = pattern.size := by
    rw [Pattern.size, List.filter_eq_self.mpr hcounts]
  rw [hsize] at hsteps hpinned hlength
  rw [plan, plan, Pattern.rearranged_of_ungrouped hungrouped,
    Pattern.rearranged_of_ungrouped (Pattern.group?_pinned hungrouped),
    pattern.size_pinned hcounts]
  dsimp only
  rw [hpinned, hsteps, cues_range, cues_range, collect_map, collect_map, List.range_eq_range']
  refine collect_range_congr (fun i cursor => cursor.position = i) ?_ ?_ rfl
  · rintro i hi cursor rfl
    rw [Nat.zero_add] at hi
    refine planCue_mapRefs (fun _ => rfl) fun term hterm beatCount stream => ?_
    have hlt := Nat.mod_lt cursor.position (Nat.pos_of_mul_pos_left (Nat.zero_lt_of_lt hi))
    have hmem : term ∈ pattern.terms := by
      refine List.mem_flatMap.mpr ⟨_, ?_, hterm⟩
      rw [hsteps]
      exact List.mem_map_of_mem (List.mem_range.mpr hlt)
    have hbounded := (Pattern.bounded_of_ofText htext term hmem).ref
    have hresolve := BeatRef.resolve_pin hbounded (offset_le hi hbeats) (by omega) pattern.size
      pattern.size beatCount stream
    rwa [Nat.div_add_mod'] at hresolve
  · rintro i cursor result cursor' hposition hplan
    rw [position_of_planCue hplan, hposition]

/-- Two steps that fill three beats: a position, and another one in a mix with a random beat. Pinned
they are the second beat, and the second beat of the other song. -/
theorem plan_pinned_three_beats :
    ∃ (stage : Stage) (pattern : Pattern), stage.repetition = .fill ∧
      stage.primary.beatmap.beatCount = 3 ∧ Pattern.ofText "i+1,[b]i;@1_2" = .ok pattern ∧
      (∀ step ∈ pattern.steps, step.group? = none) ∧
      (∀ step ∈ pattern.steps, step.counts = true) ∧
      pattern.steps.length + maxOffset ≤ maxStepNumber ∧
      Pattern.ofText "2,[b]2;@1_2" = .ok pattern.pinned ∧
      stage.plan pattern.pinned (.ofSeed 7) = stage.plan pattern (.ofSeed 7) := by
  have htext : Pattern.ofText "i+1,[b]i;@1_2" = .ok ⟨[.single ⟨none, { ref := .position 1 }⟩,
      .mix .sum [⟨some "b", { ref := .position 0 }⟩, ⟨none, { ref := .random 1 2 1 }⟩]]⟩ := by
    decide +kernel
  have hplan := plan_pinned ⟨⟨⟨[[0, 0, 0]], 1⟩, ⟨[0, 1, 2, 3], 3⟩⟩,
    SongTable.empty.insert "b" ⟨⟨[[0, 0, 0]], 1⟩, ⟨[0, 1, 2, 3], 3⟩⟩, .fill⟩ htext (by decide)
      (by decide) (by decide) (fun _ => by decide) 7
  exact ⟨_, _, rfl, by decide, htext, by decide, by decide, by decide, by decide +kernel, hplan⟩

end Stage

end Arranger
