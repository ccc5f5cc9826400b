import Arranger.Proofs.Pattern.Bounds
import Arranger.Proofs.Plan.Faults
import Arranger.Proofs.Render.Sources

/-!
# When a rendering fails

The aliases of a pattern are looked up before anything is planned. So the first one that is missing
is the fault of the rendering, whatever else is wrong. Where none is missing, a pattern that is read
from a text can only fail because of a beat that is out of range, and only if it plays once or plays
more steps than can be numbered.

## Main results

* `Arranger.checkAliases_eq` — the first missing alias is the fault of the check.
* `Arranger.exists_failsOn_of_render_error` — a rendering with no missing alias fails because of a
  term.
* `Arranger.render_faults` — when and why a rendering fails.
-/

namespace Arranger

/-- The check of aliases fails because of the first one that is missing. -/
lemma checkAliases_eq (table : SongTable) (names : List String) :
    checkAliases table names =
      match names.find? fun name => !table.contains name with
      | some name => .error (.unknownAlias name)
      | none => .ok () := by
  induction names with
  | nil => rfl
  | cons name names ih =>
    cases hname : table.get? name with
    | none =>
      rw [checkAliases_cons_of_eq_none hname,
        List.find?_cons_of_pos (by simp [SongTable.contains, hname])]
    | some song =>
      rw [checkAliases_cons_of_isSome (Option.isSome_of_eq_some hname), ih,
        List.find?_cons_of_neg (by simp [SongTable.contains, hname])]

/-- The check of aliases succeeds if none is missing. -/
lemma checkAliases_eq_ok_iff (table : SongTable) (names : List String) :
    checkAliases table names = .ok () ↔ ∀ name ∈ names, table.contains name = true := by
  rw [checkAliases_eq]
  cases hfind : names.find? fun name => !table.contains name with
  | none => simpa using List.find?_eq_none.mp hfind
  | some name =>
    have hmissing := List.find?_some hfind
    have hmem := List.mem_of_find?_eq_some hfind
    simp only [reduceCtorEq, false_iff, not_forall]
    exact ⟨name, hmem, by simpa using hmissing⟩

/-- A term finds its song if its alias is in the table. -/
lemma Stage.exists_songOf {stage : Stage} {term : Term}
    (h : ∀ name ∈ term.source, stage.table.contains name = true) :
    ∃ song, stage.songOf term = .ok song := by
  unfold songOf
  cases hsource : term.source with
  | none => exact ⟨stage.primary, rfl⟩
  | some name =>
    obtain ⟨song, hsong⟩ := Option.isSome_iff_exists.mp (h name hsource)
    exact ⟨song, by simp [SongTable.resolve, hsong]⟩

/-- A term that has its song can only fail because of a beat that is out of range. -/
lemma Stage.FailsOn.eq_beatOutOfRange {stage : Stage} {played : ℕ} {term : Term} {fault : Fault}
    (h : stage.FailsOn played term fault) (hsong : ∃ song, stage.songOf term = .ok song) :
    ∃ song beat, stage.songOf term = .ok song ∧
      fault = .beatOutOfRange beat song.beatmap.beatCount := by
  cases h with
  | unknownSong hunknown =>
    obtain ⟨song, hsong⟩ := hsong
    rw [hunknown] at hsong
    cases hsong
  | outOfRange beat hsong h => exact ⟨_, beat, hsong, rfl⟩

/-- A term that has its song and keeps within bounds only fails where the pattern plays once, as
long as the steps can be numbered. -/
lemma Stage.FailsOn.repetition_eq_once {stage : Stage} {played : ℕ} {term : Term} {fault : Fault}
    (h : stage.FailsOn played term fault) (hsong : ∃ song, stage.songOf term = .ok song)
    (hbounded : term.Bounded) (hplayed : played + 1 + maxOffset ≤ maxStepNumber) :
    stage.repetition = .once := by
  cases h with
  | unknownSong hunknown =>
    obtain ⟨song, hsong⟩ := hsong
    rw [hunknown] at hsong
    cases hsong
  | outOfRange beat hsong h => exact h.resolve_right (hbounded.ref.not_lost hplayed)

/-- Where no alias is missing, a rendering fails because of a term that has its song, and it does so
behind fewer steps than there are in all repetitions. -/
lemma exists_failsOn_of_render_error {pattern : Pattern} {song : Song} {table : SongTable}
    {options : RenderOptions} {entropy : UInt64} {fault : Fault}
    (hdeclared : ∀ name ∈ pattern.terms.filterMap Term.source, table.contains name = true)
    (h : render pattern song table options entropy = .error fault) :
    ∃ term ∈ pattern.terms, ∃ played,
      played < pattern.steps.length *
        Stage.repetitions ⟨song, table, options.repetition⟩ pattern.size ∧
      Stage.FailsOn ⟨song, table, options.repetition⟩ played term fault ∧
      ∃ other, Stage.songOf ⟨song, table, options.repetition⟩ term = .ok other := by
  have hcheck : checkAliases table pattern.aliases = .ok () := by
    rw [checkAliases_aliases]
    exact (checkAliases_eq_ok_iff _ _).mpr hdeclared
  rw [render, hcheck] at h
  rcases bind_eq_error_iff.mp h with h | ⟨_, -, h⟩
  · cases h
  rcases bind_eq_error_iff.mp h with hplan | ⟨_, -, hperform⟩
  · obtain ⟨term, hterm, played, hplayed, hfails⟩ := Stage.exists_failsOn_of_plan hplan
    rw [Cursor.ofSeed, Nat.zero_add] at hplayed
    refine ⟨term, hterm, played, hplayed, hfails, ?_⟩
    exact Stage.exists_songOf fun name hname =>
      hdeclared name (List.mem_filterMap.mpr ⟨term, hterm, hname⟩)
  · cases hperform

/-- **When a rendering fails.** If a term has an alias that the table lacks, the fault is the first
such alias in written order. If no alias is missing, the only fault is a beat that is out of range
on the map of the song of one of the terms. And a pattern that fills its song is always rendered, if
the steps of all repetitions can be numbered.

**Proof sketch.** Aliases are checked first, and in written order. Afterwards every term has its
song, and planning fails because of a single term: for a random reference there is something to
choose from, a position has a number, and where a pattern fills a song the beats that are out of
range are left out. -/
theorem render_faults {text : String} {pattern : Pattern}
    (htext : Pattern.ofText text = .ok pattern) (song : Song) (table : SongTable)
    (options : RenderOptions) (entropy : UInt64) :
    (∀ name, (pattern.terms.filterMap Term.source).find? (fun name => !table.contains name) =
        some name →
      render pattern song table options entropy = .error (.unknownAlias name)) ∧
      ((∀ name ∈ pattern.terms.filterMap Term.source, table.contains name = true) →
        (options.repetition = .fill →
          pattern.steps.length *
              Stage.repetitions ⟨song, table, options.repetition⟩ pattern.size + maxOffset ≤
            maxStepNumber →
          ∃ recording, render pattern song table options entropy = .ok recording) ∧
        ∀ fault, render pattern song table options entropy = .error fault →
          ∃ term ∈ pattern.terms, ∃ other beat,
            Stage.songOf ⟨song, table, options.repetition⟩ term = .ok other ∧
              fault = .beatOutOfRange beat other.beatmap.beatCount) := by
  constructor
  · intro name hname
    rw [render, checkAliases_aliases, checkAliases_eq, hname]
    rfl
  intro hdeclared
  constructor
  · intro hfill hnumbered
    cases hrender : render pattern song table options entropy with
    | ok recording => exact ⟨recording, rfl⟩
    | error fault =>
      obtain ⟨term, hterm, played, hplayed, hfails, hsong⟩ :=
        exists_failsOn_of_render_error hdeclared hrender
      have hbounded := Pattern.bounded_of_ofText htext term hterm
      have honce := hfails.repetition_eq_once hsong hbounded (by omega)
      rw [hfill] at honce
      cases honce
  · intro fault hrender
    obtain ⟨term, hterm, _, _, hfails, hsong⟩ := exists_failsOn_of_render_error hdeclared hrender
    exact ⟨term, hterm, hfails.eq_beatOutOfRange hsong⟩

/-- Two shuffled steps and a mix, with three aliases and beats that are on no map. Where the table
lacks two aliases the first in written order is the fault, in either mode. Where all songs are there
but have no beats, the pattern fills the song at hand with nothing, and fails if it plays once. -/
theorem render_faults_three_aliases :
    ∃ (pattern : Pattern) (song : Song) (table full : SongTable),
      Pattern.ofText "[a]9#x,[b]@1_2#x,[c]i;[a]1" = .ok pattern ∧ song.beatmap.beatCount = 0 ∧
      table.aliases = ["a"] ∧ full.aliases = ["a", "b", "c"] ∧
      (∀ repetition, render pattern song table ⟨some 3, repetition, 1⟩ 0 =
        .error (.unknownAlias "b")) ∧
      pattern.steps.length * Stage.repetitions ⟨song, full, .fill⟩ pattern.size + maxOffset ≤
        maxStepNumber ∧
      (∃ recording, render pattern song full ⟨some 3, .fill, 1⟩ 0 = .ok recording) ∧
      ∃ fault, render pattern song full ⟨some 3, .once, 1⟩ 0 = .error fault ∧
        ∃ term ∈ pattern.terms, ∃ other beat, Stage.songOf ⟨song, full, .once⟩ term = .ok other ∧
          fault = .beatOutOfRange beat other.beatmap.beatCount := by
  have htext : Pattern.ofText "[a]9#x,[b]@1_2#x,[c]i;[a]1" = .ok
      ⟨[.single ⟨some "a", { ref := .literal 9, group := some "x" }⟩,
        .single ⟨some "b", { ref := .random 1 2 1, group := some "x" }⟩,
        .mix .sum [⟨some "c", { ref := .position 0 }⟩, ⟨some "a", { ref := .literal 1 }⟩]]⟩ := by
    decide +kernel
  have hfails : ∃ fault, render
      ⟨[.single ⟨some "a", { ref := .literal 9, group := some "x" }⟩,
        .single ⟨some "b", { ref := .random 1 2 1, group := some "x" }⟩,
        .mix .sum [⟨some "c", { ref := .position 0 }⟩, ⟨some "a", { ref := .literal 1 }⟩]]⟩
      ⟨⟨[[0]], 1⟩, ⟨[0], 1⟩⟩
      (((SongTable.empty.insert "a" ⟨⟨[[0]], 1⟩, ⟨[0], 1⟩⟩).insert "b"
        ⟨⟨[[0]], 1⟩, ⟨[0], 1⟩⟩).insert "c" ⟨⟨[[0]], 1⟩, ⟨[0], 1⟩⟩)
      ⟨some 3, .once, 1⟩ 0 = .error fault :=
    ⟨.beatOutOfRange 2 0, by decide +kernel⟩
  obtain ⟨fault, hfault⟩ := hfails
  have hfaults := render_faults htext ⟨⟨[[0]], 1⟩, ⟨[0], 1⟩⟩
  have hdeclared := fun repetition => (hfaults
    (((SongTable.empty.insert "a" ⟨⟨[[0]], 1⟩, ⟨[0], 1⟩⟩).insert "b"
      ⟨⟨[[0]], 1⟩, ⟨[0], 1⟩⟩).insert "c" ⟨⟨[[0]], 1⟩, ⟨[0], 1⟩⟩)
    ⟨some 3, repetition, 1⟩ 0).2 (by decide +kernel)
  refine ⟨_, _, SongTable.empty.insert "a" ⟨⟨[[0]], 1⟩, ⟨[0], 1⟩⟩, _, htext, rfl, by decide +kernel,
    by decide +kernel, ?_, by decide, (hdeclared .fill).1 rfl (by decide), fault, hfault,
    (hdeclared .once).2 fault hfault⟩
  intro repetition
  exact (hfaults _ ⟨some 3, repetition, 1⟩ 0).1 "b" (by decide +kernel)

end Arranger
