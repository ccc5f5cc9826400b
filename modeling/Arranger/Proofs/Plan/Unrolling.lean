import Arranger.Pattern.Compiling
import Arranger.Proofs.Number.Sum
import Arranger.Proofs.Plan.References

/-!
# Tiles written out

A pattern that fills a song is planned like the pattern in which its repetitions are written out,
each with the offset of the repetition added to the literals.

## Main definitions

* `Arranger.BeatRef.advance` — the reference with an offset added to a literal.
* `Arranger.Pattern.unrolled` — a number of repetitions written out.

## Main results

* `Arranger.Stage.plan_unrolled` — filling a song is playing the repetitions written out.
-/

namespace Arranger

/-- The reference with an offset added to a literal number. -/
def BeatRef.advance (offset : Double) : BeatRef → BeatRef
  | literal number => literal (number + offset)
  | position moved => position moved
  | random low high step => random low high step

namespace Pattern

/-- Repetition number `k` of a pattern, written out: its steps with `k` times its size added to the
literals, also in mixes and behind aliases. -/
def tile (pattern : Pattern) (k : ℕ) : List Step :=
  pattern.steps.map (Step.mapRefs (BeatRef.advance (Binary.ofNat (k * pattern.size))))

/-- A number of repetitions of a pattern, written out one after another. -/
def unrolled (pattern : Pattern) (count : ℕ) : Pattern :=
  ⟨(List.range count).flatMap pattern.tile⟩

variable {pattern : Pattern}

/-- A repetition written out has as many counted steps as the pattern. -/
lemma countP_tile (pattern : Pattern) (k : ℕ) :
    ((pattern.tile k).filter Step.counts).length = pattern.size := by
  rw [tile, List.filter_map, List.length_map, size]
  congr 1
  exact List.filter_congr fun step _ => Step.counts_mapRefs _ step

/-- The repetitions written out have as many counted steps as all of them together. -/
lemma size_unrolled (pattern : Pattern) (count : ℕ) :
    (pattern.unrolled count).size = count * pattern.size := by
  rw [size, unrolled, List.filter_flatMap, List.length_flatMap]
  simp [countP_tile]

/-- The repetitions of steps without a group have none written out. -/
lemma group?_unrolled (hungrouped : ∀ step ∈ pattern.steps, step.group? = none) (count : ℕ) :
    ∀ step ∈ (pattern.unrolled count).steps, step.group? = none := by
  intro step hstep
  obtain ⟨k, _, hstep⟩ := List.mem_flatMap.mp hstep
  obtain ⟨written, hwritten, rfl⟩ := List.mem_map.mp hstep
  rw [Step.group?_mapRefs, hungrouped written hwritten]

end Pattern

/-- A literal or a position written out in a repetition stands for the beat number that it stands
for with the offset of the repetition. -/
lemma BeatRef.resolve_advance {ref : BeatRef} (href : ∀ low high step, ref ≠ .random low high step)
    (size size' position k beatCount : ℕ) (stream : Stream) :
    (ref.advance (Binary.ofNat (k * size))).resolve ⟨size', Binary.ofNat 0, position⟩ beatCount
        stream =
      ref.resolve ⟨size, Binary.ofNat (k * size), position⟩ beatCount stream := by
  cases ref with
  | literal number =>
    -- the offset zero is added behind the sum, and changes no sum
    rw [advance, resolve, resolve, Binary.add_add_ofNat_zero (Binary.isNegative_ofNat _)]
  | position moved => rfl
  | random low high step => exact absurd rfl (href low high step)

namespace Stage

/-- **Filling a song is playing the repetitions written out.** A pattern without shuffle groups and
random references is planned like its repetitions written out: with the same plans or the same
fault, and with the same cursor behind them.

**Proof sketch.** The repetitions written out cover the song once, so they play once and with the
offset zero. Cue by cue, the literal with its offset already added stands for the same beat number.
-/
theorem plan_unrolled (stage : Stage) (hfill : stage.repetition = .fill) {pattern : Pattern}
    (hsize : 1 ≤ pattern.size) (hungrouped : ∀ step ∈ pattern.steps, step.group? = none)
    (hrefs : ∀ term ∈ pattern.terms, ∀ low high step, term.beat.ref ≠ .random low high step)
    (cursor : Cursor) :
    stage.plan (pattern.unrolled (max 1 (stage.primary.beatmap.beatCount ⌈/⌉ pattern.size)))
        cursor =
      stage.plan pattern cursor := by
  set count := max 1 (stage.primary.beatmap.beatCount ⌈/⌉ pattern.size) with hcount
  have hrepetitions : stage.repetitions pattern.size = count := repetitions_of_fill hfill hsize
  have honce : stage.repetitions (pattern.unrolled count).size = 1 := by
    have hcover := beatCount_le_repetitions_mul hfill hsize
    rw [hrepetitions] at hcover
    have hpos : 0 < count * pattern.size := Nat.mul_pos (by omega) hsize
    have hwhole : stage.primary.beatmap.beatCount ⌈/⌉ (count * pattern.size) ≤ 1 :=
      (ceilDiv_le_iff_le_mul hpos).mpr (by rwa [Nat.mul_one])
    rw [pattern.size_unrolled, repetitions_of_fill hfill hpos, max_eq_left hwhole]
  have hcues := cues_map pattern.size count id pattern.steps
  have hwritten : cues (pattern.unrolled count).size 1 (pattern.unrolled count).steps =
      ((List.range count).flatMap fun k => pattern.steps.map fun step => (k, step)).map fun place =>
        ⟨place.2.mapRefs (BeatRef.advance (Binary.ofNat (place.1 * pattern.size))),
          (pattern.unrolled count).size, Binary.ofNat 0⟩ := by
    simp [cues, Pattern.unrolled, Pattern.tile, List.map_flatMap, Function.comp_def]
  rw [List.map_id] at hcues
  rw [plan, plan, Pattern.rearranged_of_ungrouped hungrouped,
    Pattern.rearranged_of_ungrouped (Pattern.group?_unrolled hungrouped count), hrepetitions, honce]
  dsimp only
  rw [hcues, hwritten, collect_map, collect_map]
  refine collect_congr (fun place hplace cursor => ?_) _
  obtain ⟨k, _, hplace⟩ := List.mem_flatMap.mp hplace
  obtain ⟨step, hstep, rfl⟩ := List.mem_map.mp hplace
  refine planCue_mapRefs (by rw [hfill]; rintro ⟨⟩) fun term hterm beatCount stream => ?_
  exact BeatRef.resolve_advance (hrefs term (List.mem_flatMap.mpr ⟨step, hstep, hterm⟩)) _ _ _ _ _ _

/-- Two steps that fill five beats, with a position in a mix with a beat of another song. Written
out they are three times two steps. -/
theorem plan_unrolled_five_beats :
    ∃ (stage : Stage) (pattern : Pattern), stage.repetition = .fill ∧
      stage.primary.beatmap.beatCount = 5 ∧ Pattern.ofText "2,i;[b]3?" = .ok pattern ∧
      pattern.size = 2 ∧ (∀ step ∈ pattern.steps, step.group? = none) ∧
      (∀ term ∈ pattern.terms, ∀ low high step, term.beat.ref ≠ .random low high step) ∧
      Pattern.ofText "2,i;[b]3?,4,i;[b]5?,6,i;[b]7?" = .ok (pattern.unrolled 3) ∧
      stage.plan (pattern.unrolled 3) (.ofSeed 0) = stage.plan pattern (.ofSeed 0) := by
  have htext : Pattern.ofText "2,i;[b]3?" = .ok ⟨[.single ⟨none, { ref := .literal 2 }⟩,
      .mix .sum [⟨none, { ref := .position 0 }⟩,
        ⟨some "b", { ref := .literal 3, uncounted := true }⟩]]⟩ := by
    decide +kernel
  have hrefs : ∀ term ∈ Pattern.terms ⟨[.single ⟨none, { ref := .literal 2 }⟩,
      .mix .sum [⟨none, { ref := .position 0 }⟩,
        ⟨some "b", { ref := .literal 3, uncounted := true }⟩]]⟩,
      ∀ low high step, term.beat.ref ≠ .random low high step := by
    simp [Pattern.terms, Step.terms]
  have hplan := plan_unrolled ⟨⟨⟨[[0, 0, 0, 0, 0]], 1⟩, ⟨[0, 1, 2, 3, 4, 5], 5⟩⟩,
    SongTable.empty.insert "b" ⟨⟨[[0, 0, 0]], 1⟩, ⟨[0, 1, 2, 3], 3⟩⟩, .fill⟩ rfl (by decide)
      (by decide) hrefs (.ofSeed 0)
  exact ⟨_, _, rfl, by decide, htext, by decide, by decide, hrefs, by decide +kernel, hplan⟩

end Stage

end Arranger
