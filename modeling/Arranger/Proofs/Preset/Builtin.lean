import Arranger.Proofs.Plan.Coverage
import Arranger.Proofs.Preset.Book

/-!
# The presets that are always there

Each of these presets fills the song that it is prepared for. Four of them ask for as many beats as
they have counted steps, and so they use every beat of the prepared map. The preset `stutter` has
three counted steps but asks for two beats, the first of them twice. So it passes over every third
beat.

## Main definitions

* `Arranger.PresetBook.askedBy`, `patternOf` — the beats that these presets ask for.

## Main results

* `Arranger.Preset.prepare_wellFormed` — a preset prepares well-formed songs.
* `Arranger.PresetBook.asks_of_builtin` — what these presets ask for.
* `Arranger.PresetBook.builtin_uses_iff` — **the beats that these presets use**.
-/

namespace Arranger

/-- **A preset prepares a well-formed song** out of a well-formed one, on the same recording. -/
lemma Preset.prepare_wellFormed (preset : Preset) {song : Song} (h : song.WellFormed) :
    ({ song with beatmap := preset.prepare song.beatmap } : Song).WellFormed := by
  have hmap : (preset.prepare song.beatmap).WellFormed ∧
      (preset.prepare song.beatmap).sourceLength = song.beatmap.sourceLength := by
    unfold Preset.prepare
    cases preset.scale with
    | none =>
      cases preset.shift with
      | none => exact ⟨h.beatmap, rfl⟩
      | some amount => exact ⟨h.beatmap.shift _, Beatmap.sourceLength_shift _ _⟩
    | some scale =>
      cases preset.shift with
      | none => exact ⟨h.beatmap.scale _, Beatmap.sourceLength_scale _ _⟩
      | some amount =>
        exact ⟨(h.beatmap.scale _).shift _,
          (Beatmap.sourceLength_shift _ _).trans (Beatmap.sourceLength_scale _ _)⟩
  exact ⟨h.recording, hmap.1, hmap.2.trans h.sourceLength_eq⟩

namespace PresetBook

/-! ## What the presets ask for -/

/-- The beats that the preset of a name asks for, with their numbers counted from zero. -/
def askedBy : String → List (ℕ × Beat)
  | "reverse" => [(0, { ref := .literal 1, effects := [.reverse] })]
  | "half" => [(0, { ref := .literal 1 })]
  | "shuffle" => (List.range 4).map fun n =>
    (n, { ref := .literal (Binary.ofNat (n + 1)), group := some "a" })
  | "stutter" =>
    [(0, { ref := .literal 1, slice := some (.head (1 / 2)) }),
      (0, { ref := .literal 1, slice := some (.head (1 / 2)) }), (1, { ref := .literal 2 })]
  | "swap" => [(1, { ref := .literal 2 }), (0, { ref := .literal 1 })]
  | _ => []

/-- The pattern of the beats that the preset of a name asks for, in written order. -/
def patternOf (name : String) : Pattern :=
  ⟨(askedBy name).map fun ask => .single ⟨none, ask.2⟩⟩

/-- The table of the presets: each compiles to the pattern of its name and fills the song, each beat
that it asks for is heard and kept at least in half, and the places in a repetition that are asked
for are all but the third one of the preset `stutter`, which asks for the first beat twice. -/
lemma builtin_table : ∀ entry ∈ builtin.entries,
    entry.2.compile = .ok (patternOf entry.1) ∧ entry.2.repetition = some .fill ∧
      0 < (patternOf entry.1).size ∧
      (∀ ask ∈ askedBy entry.1, ask.1 < (patternOf entry.1).size ∧
        ask.2.ref = .literal (Binary.ofNat (ask.1 + 1)) ∧ ask.2.silent = false ∧
        ∀ slice ∈ ask.2.slice, slice.Ample) ∧
      ∀ n < (patternOf entry.1).size, n ∈ (askedBy entry.1).map Prod.fst ↔
        (entry.1 = "stutter" → n ≠ 2) := by
  decide +kernel

/-- **What the presets ask for.** -/
lemma asks_of_builtin {name : String} {preset : Preset} (h : builtin.get? name = some preset) :
    preset.compile = .ok (patternOf name) ∧ preset.repetition = some .fill ∧
      0 < (patternOf name).size ∧ (patternOf name).Asks (askedBy name) ∧
      ∀ n < (patternOf name).size, n ∈ (askedBy name).map Prod.fst ↔
        (name = "stutter" → n ≠ 2) := by
  have hmem : (name, preset) ∈ builtin.entries := by
    obtain ⟨before, behind, hentries, -⟩ := List.lookup_eq_some_iff.mp h
    rw [hentries]
    exact List.mem_append_right _ List.mem_cons_self
  obtain ⟨hcompile, hfill, hsize, hasked, hplaces⟩ := builtin_table _ hmem
  refine ⟨hcompile, hfill, hsize, ⟨rfl, ?_, ?_, ?_, ?_⟩, hplaces⟩
  · exact fun ask hask => (hasked ask hask).1
  · exact fun ask hask => (hasked ask hask).2.1
  · exact fun ask hask => (hasked ask hask).2.2.1
  · exact fun ask hask => (hasked ask hask).2.2.2

/-! ## What the presets use -/

/-- Three beats of two frames. -/
def threeBeats : Song :=
  ⟨⟨[[0, 1, 2, 3, 4, 5]], 2⟩, ⟨[0, 2, 4, 6], 6⟩⟩

/-- The song of three beats is reachable. -/
lemma threeBeats_reachable : threeBeats.Reachable := by
  have hrecording : Recording.mono [0, 1, 2, 3, 4, 5] 2 = .ok threeBeats.recording := by
    decide +kernel
  have hsong : Song.ofBoundaries threeBeats.recording [0, 2, 4, 6] = .ok threeBeats := by
    decide +kernel
  exact ⟨_, [], .ofBoundaries (.mono hrecording) hsong, rfl⟩

/-- **The beats that the presets use.** Take a reachable song of less than `2 ^ 53` frames and one of
the presets that are always there. Its pattern compiles, the map that it prepares makes a song with
the recording, and planning succeeds from any random words on and whatever the other options are.
Its plans use every beat of the prepared map, except that the preset `stutter` uses no beat of which
the number, counted from one, is a multiple of three.

**Proof sketch.** The presets ask for the beats of a repetition, and what a pattern that asks for
beats uses is known. In the pattern of `stutter` the first beat comes twice, and both steps count:
repetitions are three beats apart, and there is no step for the third. -/
theorem builtin_uses_iff {song : Song} (hsong : song.Reachable)
    (hframes : song.recording.frames < 2 ^ 53) {name : String} {preset : Preset}
    (hpreset : builtin.get? name = some preset) (base : RenderOptions) (table : SongTable)
    (cursor : Cursor) :
    ∃ pattern prepared plans, preset.compile = .ok pattern ∧
      Song.ofBeatmap song.recording (preset.prepare song.beatmap) = .ok prepared ∧
      (Stage.plan ⟨prepared, table, (preset.options base).repetition⟩ pattern cursor).1 =
        .ok plans ∧
      ∀ i < prepared.beatmap.beatCount, (∃ plan ∈ plans, plan.Uses prepared i) ↔
        (name = "stutter" → (i + 1) % 3 ≠ 0) := by
  obtain ⟨hcompile, hrepetition, hsize, hasks, hplaces⟩ := asks_of_builtin hpreset
  have hprepared := preset.prepare_wellFormed hsong.wellFormed
  have hlength : (preset.prepare song.beatmap).sourceLength < 2 ^ Format.double.precision :=
    hprepared.sourceLength_eq.trans_lt hframes
  have hfill : (preset.options base).repetition = .fill := by
    rw [Preset.options, hrepetition, Option.getD_some]
  obtain ⟨plans, hplans, huses⟩ := Stage.plan_asks
    ⟨{ song with beatmap := preset.prepare song.beatmap }, table, (preset.options base).repetition⟩
    hprepared hlength hfill hasks hsize cursor
  refine ⟨_, _, plans, hcompile, Song.ofBeatmap_parts hprepared.sourceLength_eq, hplans,
    fun i hi => ?_⟩
  rw [huses i hi, hplaces _ (Nat.mod_lt i hsize)]
  refine forall_congr' fun hstutter => ?_
  have hthree : (patternOf "stutter").size = 3 := rfl
  rw [hstutter, hthree]
  omega

/-- On three beats the preset `stutter` uses the second one, but not the third. -/
theorem builtin_uses_iff_three_beats : threeBeats.Reachable ∧
    threeBeats.recording.frames < 2 ^ 53 ∧ ∃ preset, builtin.get? "stutter" = some preset ∧
      ∃ pattern prepared plans, preset.compile = .ok pattern ∧
        Song.ofBeatmap threeBeats.recording (preset.prepare threeBeats.beatmap) = .ok prepared ∧
        (Stage.plan ⟨prepared, .empty, .fill⟩ pattern (.ofSeed 7)).1 = .ok plans ∧
        (∃ plan ∈ plans, plan.Uses prepared 1) ∧ ¬ ∃ plan ∈ plans, plan.Uses prepared 2 := by
  have hframes : threeBeats.recording.frames < 2 ^ 53 := by decide
  refine ⟨threeBeats_reachable, hframes, _, rfl, ?_⟩
  obtain ⟨pattern, prepared, plans, hpattern, hprepared, hplans, huses⟩ :=
    builtin_uses_iff threeBeats_reachable hframes (rfl : builtin.get? "stutter" = some _)
      ⟨some 7, .once, 1⟩ .empty (.ofSeed 7)
  cases hprepared
  refine ⟨pattern, _, plans, hpattern, rfl, hplans, ?_, ?_⟩
  · exact (huses 1 (by decide)).mpr fun _ => by decide
  · exact fun hused => absurd rfl ((huses 2 (by decide)).mp hused rfl)

/-- The preset `stutter` passes over the third of three beats: its plans are for half of the first
beat, the same again, and the second beat. -/
theorem stutter_passes_over_third_beat : ∃ preset pattern plans,
    builtin.get? "stutter" = some preset ∧ preset.compile = .ok pattern ∧
      preset.repetition = some .fill ∧ preset.prepare threeBeats.beatmap = threeBeats.beatmap ∧
      threeBeats.beatmap.beatCount = 3 ∧
      (Stage.plan ⟨threeBeats, .empty, .fill⟩ pattern (.ofSeed 0)).1 = .ok plans ∧
      ¬ ∃ plan ∈ plans, plan.Uses threeBeats 2 := by
  have huses : ∀ start stop, stop ≤ 4 →
      ¬ (Plan.single (.extract none threeBeats.recording start stop [])).Uses threeBeats 2 := by
    rintro start stop hstop ⟨leaf, hleaf, huses⟩
    rw [List.mem_singleton.mp hleaf] at huses
    cases huses with
    | extract hlow hhigh hstart hframe =>
      have hbeat : threeBeats.beatmap.boundary 2 = 4 := rfl
      omega
  refine ⟨_, patternOf "stutter", [.single (.extract none threeBeats.recording 0 1 []),
    .single (.extract none threeBeats.recording 0 1 []),
    .single (.extract none threeBeats.recording 2 4 [])], rfl, by decide +kernel, rfl, rfl, rfl,
    by decide +kernel, ?_⟩
  simp [huses]

end PresetBook

end Arranger
