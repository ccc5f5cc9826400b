import Arranger.Proofs.Audio.Windows
import Arranger.Proofs.Beatmap.Window
import Arranger.Proofs.Pattern.Bounds
import Arranger.Proofs.Plan.Extent
import Arranger.Proofs.Plan.Origins
import Arranger.Proofs.Plan.Visits
import Arranger.Proofs.Song.Reachable

/-!
# Extracts lie within their beats

Every extract in a plan is taken from the recording of the song of its term, and from the frames of
the beat that the term plays. So it ends within the recording, and to cut it off at the end of the
recording does nothing.

## Main results

* `Arranger.Visit.Yields.extract_within` — what a term plays lies within its beat.
* `Arranger.Stage.plan_within` — windows lie within the boundaries, and extracts within windows.
-/

namespace Arranger

/-- **What a term plays lies within its beat**, and the beat within the recording of its song. -/
lemma Visit.Yields.extract_within {stage : Stage} {visit : Visit} {source : Option String}
    {recording : Recording} {start stop : ℕ} {effects : List Effect}
    (h : visit.Yields stage (.extract source recording start stop effects))
    (hslice : ∀ slice ∈ visit.term.beat.slice, slice.Bounded)
    (hsongs : ∀ song, stage.songOf visit.term = .ok song →
      song.WellFormed ∧ song.beatmap.sourceLength ≤ 2 ^ Format.double.precision) :
    ∃ song requested beat first past,
      visit.term.source = source ∧ stage.songOf visit.term = .ok song ∧
      recording = song.recording ∧
      (visit.term.beat.ref.resolve visit.place song.beatmap.beatCount visit.random).1 =
        .ok requested ∧
      stage.beatFor song.beatmap visit.place.size requested = .ok (some beat) ∧
      song.beatmap.window? beat = some (first, past) ∧
      (start, stop) = visit.term.beat.cut first past ∧
      first ≤ start ∧ start ≤ stop ∧ stop ≤ past ∧ past ≤ recording.frames := by
  obtain ⟨hsong, hnumber, hbeat, hwindow, hleaf⟩ := h
  obtain ⟨hwell, hshort⟩ := hsongs _ hsong
  obtain ⟨-, hle, hlast⟩ := hwell.beatmap.window?_within hshort hwindow
  have hpast := hlast.trans hwell.beatmap.lastBoundary_le
  obtain ⟨hstart, hcut, hstop⟩ := Beat.cut_within hslice hle (hpast.trans hshort)
  cases hleaf with
  | extract hsilent =>
    exact ⟨_, _, _, _, _, rfl, hsong, rfl, hnumber, hbeat, hwindow, rfl, hstart, hcut, hstop,
      hwell.sourceLength_eq ▸ hpast⟩

namespace Stage

/-- **Windows lie within the boundaries, and extracts within windows.** A beat number has frames on
a map just if it is on the map, whatever the number is. The map is a reachable one of a recording
with at most `2 ^ 52` frames. The frames are in order and between the first boundary and the last,
which is not past the end.

Take a pattern of a text that is planned, with songs that are reachable and no longer than that.
Every extract in the plans is of a term that is visited: it is taken from the recording of the song
of the term's alias, or without an alias of the primary song, and lies within the frames of the beat
that the term plays, which lie within the recording. So nothing of it is cut off.

**Proof sketch.** A position is a boundary and a fraction of the interval behind it. Rounding keeps
the order, and boundaries have exact values, so that a position is between the first boundary and
the last. A slice keeps at most all frames of its beat, by the same argument. -/
theorem plan_within :
    (∀ (map : Beatmap) (beat : Double), map.Reachable → map.sourceLength ≤ 2 ^ 52 →
      (map.window? beat).isSome = map.containsBeat beat ∧
        ∀ start stop, map.window? beat = some (start, stop) →
          map.boundary 0 ≤ start ∧ start ≤ stop ∧ stop ≤ map.lastBoundary ∧
            map.lastBoundary ≤ map.sourceLength) ∧
      ∀ (stage : Stage) (text : String) (pattern : Pattern) (cursor last : Cursor)
        (plans : List Plan), Pattern.ofText text = .ok pattern →
        stage.primary.Reachable ∧ stage.primary.beatmap.sourceLength ≤ 2 ^ 52 →
        (∀ name song, stage.table.get? name = some song →
          song.Reachable ∧ song.beatmap.sourceLength ≤ 2 ^ 52) →
        stage.plan pattern cursor = (.ok plans, last) →
          ∀ plan ∈ plans, ∀ source recording start stop effects,
            Leaf.extract source recording start stop effects ∈ plan.leaves →
              ∃ visit ∈ stage.visits pattern cursor, ∃ song requested beat first past,
                visit.term.source = source ∧ (source = none → song = stage.primary) ∧
                (∀ name, source = some name → stage.table.get? name = some song) ∧
                recording = song.recording ∧
                (visit.term.beat.ref.resolve visit.place song.beatmap.beatCount visit.random).1 =
                  .ok requested ∧
                stage.beatFor song.beatmap visit.place.size requested = .ok (some beat) ∧
                song.beatmap.window? beat = some (first, past) ∧
                (start, stop) = visit.term.beat.cut first past ∧
                first ≤ start ∧ start ≤ stop ∧ stop ≤ past ∧ past ≤ recording.frames ∧
                recording.window start stop =
                  ⟨recording.channels.map fun channel =>
                    (channel.drop start).take (stop - start)⟩ := by
  have hprecision : 2 ^ 52 ≤ 2 ^ Format.double.precision := by decide
  refine ⟨fun map beat hreachable hlength => ⟨?_, fun start stop hwindow => ?_⟩, ?_⟩
  · rw [Beatmap.window?]
    split_ifs with hbeat
    · exact hbeat.symm
    · exact (Bool.eq_false_iff.mpr hbeat).symm
  · have hwell := hreachable.wellFormed
    obtain ⟨hlow, hle, hhigh⟩ := hwell.window?_within (hlength.trans hprecision) hwindow
    exact ⟨hlow, hle, hhigh, hwell.lastBoundary_le⟩
  · intro stage text pattern cursor last plans htext hprimary htable hplan plan hmem source
      recording start stop effects hleaf
    have hyields : List.SublistForall₂ (fun leaf visit => visit.Yields stage leaf)
        (plans.flatMap Plan.leaves) (stage.visits pattern cursor) :=
      List.sublistForall₂_iff.mpr ⟨_, (leaves_yields hplan).flip, List.filter_sublist⟩
    obtain ⟨visit, hvisit, hyields⟩ := exists_of_mem_of_sublistForall₂ hyields _
      (List.mem_flatMap.mpr ⟨plan, hmem, hleaf⟩)
    have hsongs := forall_songOf hprimary htable visit.term
    have hslice := (Pattern.bounded_of_ofText htext _ (term_mem_of_mem_visits hvisit)).slice
    obtain ⟨song, requested, beat, first, past, hsource, hsong, hrecording, hnumber, hbeat, hwindow,
      hcut, hstart, hle, hstop, hpast⟩ := hyields.extract_within hslice fun song hsong =>
        ⟨(hsongs song hsong).1.wellFormed, (hsongs song hsong).2.trans hprecision⟩
    obtain ⟨hnone, hsome⟩ := source_of_songOf hsong
    rw [hsource] at hnone hsome
    exact ⟨visit, hvisit, song, requested, beat, first, past, hsource, hnone, hsome, hrecording,
      hnumber, hbeat, hwindow, hcut, hstart, hle, hstop, hpast,
      Recording.window_eq hle (hstop.trans hpast)⟩

/-- Half of the beat that starts in the middle of the first one, laid over a beat of another
song. -/
theorem plan_within_two_songs :
    (∃ (map : Beatmap) (beat : Double), map.Reachable ∧ map.sourceLength ≤ 2 ^ 52 ∧
      map.window? beat = some (2, 7) ∧ (map.window? beat).isSome = map.containsBeat beat ∧
      map.boundary 0 ≤ 2 ∧ 2 ≤ 7 ∧ 7 ≤ map.lastBoundary ∧
      map.lastBoundary ≤ map.sourceLength) ∧
      ∃ (stage : Stage) (pattern : Pattern) (plans : List Plan) (last : Cursor),
        Pattern.ofText "1.5>0.5;[b]2" = .ok pattern ∧ stage.primary.Reachable ∧
        (∀ name song, stage.table.get? name = some song →
          song.Reachable ∧ song.beatmap.sourceLength ≤ 2 ^ 52) ∧
        stage.plan pattern (.ofSeed 3) = (.ok plans, last) ∧
        ∃ plan ∈ plans, .extract none stage.primary.recording 2 5 [] ∈ plan.leaves ∧
          ∃ visit ∈ stage.visits pattern (.ofSeed 3), ∃ song requested beat first past,
            visit.term.source = none ∧ song = stage.primary ∧
            (visit.term.beat.ref.resolve visit.place song.beatmap.beatCount visit.random).1 =
              .ok requested ∧
            stage.beatFor song.beatmap visit.place.size requested = .ok (some beat) ∧
            song.beatmap.window? beat = some (first, past) ∧
            (2, 5) = visit.term.beat.cut first past ∧
            first ≤ 2 ∧ 2 ≤ 5 ∧ 5 ≤ past ∧ past ≤ stage.primary.recording.frames ∧
            stage.primary.recording.window 2 5 = ⟨stage.primary.recording.channels.map
              fun channel => (channel.drop 2).take (5 - 2)⟩ := by
  have hrecording : Recording.mono [0, 1, 0, 1, 0, 1, 0, 1, 0, 1] 1 =
      .ok ⟨[[0, 1, 0, 1, 0, 1, 0, 1, 0, 1]], 1⟩ := by
    decide +kernel
  have hmap : Beatmap.build [0, 4, 10] 10 = .ok ⟨[0, 4, 10], 10⟩ := by decide +kernel
  have hsong : Song.Reachable ⟨⟨[[0, 1, 0, 1, 0, 1, 0, 1, 0, 1]], 1⟩, ⟨[0, 4, 10], 10⟩⟩ :=
    ⟨_, [], .ofBoundaries (.mono hrecording)
      (show Song.ofBoundaries _ [0, 4, 10] = _ by decide +kernel), rfl⟩
  have hother : Recording.mono [0, 1, 0] 1 = .ok ⟨[[0, 1, 0]], 1⟩ := by decide +kernel
  have htable : ∀ name song, (SongTable.empty.insert "b"
      ⟨⟨[[0, 1, 0]], 1⟩, ⟨[0, 1, 3], 3⟩⟩).get? name = some song →
        song.Reachable ∧ song.beatmap.sourceLength ≤ 2 ^ 52 := by
    intro name song hget
    rw [SongTable.get?_insert_empty] at hget
    split_ifs at hget
    cases hget
    exact ⟨⟨_, [], .ofBoundaries (.mono hother)
      (show Song.ofBoundaries _ [0, 1, 3] = _ by decide +kernel), rfl⟩, by decide⟩
  have htext : Pattern.ofText "1.5>0.5;[b]2" = .ok
      ⟨[.mix .sum [⟨none, { ref := .literal (3 / 2), slice := some (.head (1 / 2)) }⟩,
        ⟨some "b", { ref := .literal 2 }⟩]]⟩ := by
    decide +kernel
  have hplan : (plan ⟨⟨⟨[[0, 1, 0, 1, 0, 1, 0, 1, 0, 1]], 1⟩, ⟨[0, 4, 10], 10⟩⟩,
      SongTable.empty.insert "b" ⟨⟨[[0, 1, 0]], 1⟩, ⟨[0, 1, 3], 3⟩⟩, .once⟩
      ⟨[.mix .sum [⟨none, { ref := .literal (3 / 2), slice := some (.head (1 / 2)) }⟩,
        ⟨some "b", { ref := .literal 2 }⟩]]⟩ (.ofSeed 3)).1 =
      .ok [.mix .sum [.extract none ⟨[[0, 1, 0, 1, 0, 1, 0, 1, 0, 1]], 1⟩ 2 5 [],
        .extract (some "b") ⟨[[0, 1, 0]], 1⟩ 1 3 []]] := by
    decide +kernel
  have hwindow : (⟨[0, 4, 10], 10⟩ : Beatmap).window? (3 / 2) = some (2, 7) := by decide +kernel
  obtain ⟨hwindows, hextracts⟩ := plan_within
  obtain ⟨hcontains, hbounds⟩ :=
    hwindows ⟨[0, 4, 10], 10⟩ (3 / 2) (.made (.build hmap)) (by decide)
  obtain ⟨visit, hvisit, song, requested, beat, first, past, hsource, hprimary, -, -, hrest⟩ :=
    hextracts _ _ _ _ _ _ htext ⟨hsong, by decide⟩ htable (Prod.ext hplan rfl) _
      (List.mem_singleton_self _) _ _ _ _ _ List.mem_cons_self
  exact ⟨⟨_, _, .made (.build hmap), by decide, hwindow, hcontains, hbounds _ _ hwindow⟩,
    _, _, _, _, htext, hsong, htable, Prod.ext hplan rfl, _, List.mem_singleton_self _,
    List.mem_cons_self, visit, hvisit, song, requested, beat, first, past, hsource, hprimary rfl,
    hrest⟩

end Stage

end Arranger
