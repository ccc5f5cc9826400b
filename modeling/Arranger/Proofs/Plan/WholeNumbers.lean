import Arranger.Proofs.Beatmap.WholeWrapping
import Arranger.Proofs.Plan.Visits
import Arranger.Proofs.Song.Reachable

/-!
# Whole numbers play whole beats

Where a pattern plays once, a literal that is a whole number and a position always play a whole beat
of their song: the one that the number is wrapped into.

## Main definitions

* `Arranger.BeatRef.Names` — the whole number that a reference stands for.

## Main results

* `Arranger.BeatRef.resolve_of_names` — such a reference takes no random words.
* `Arranger.Stage.planTerm_of_names` — it plays a whole beat.
* `Arranger.Stage.plan_wholeNumbers` — whole numbers are wrapped as integers are, and play the
  frames between two boundaries.
-/

namespace Arranger

/-- The whole number that a reference stands for behind `played` steps, where nothing is added to
the numbers: a literal stands for its own, and a position for that of the step, moved by an offset,
as long as the steps can be numbered. -/
inductive BeatRef.Names (played : ℕ) : BeatRef → ℤ → Prop where
  /-- A literal that is a whole number. -/
  | literal {beat : Double} {number : ℤ} (hfinite : beat.isFinite = true)
      (hvalue : beat.value = number) : Names played (.literal beat) number
  /-- A position. -/
  | position {offset : ℤ} (hplayed : played < maxStepNumber) :
      Names played (.position offset) (played + 1 + offset)

/-- **A reference for a whole number takes no random words**, and the number is exact. -/
lemma BeatRef.resolve_of_names {ref : BeatRef} {place : Place} {number : ℤ}
    (hnames : ref.Names place.position number) (hoffset : place.offset = Binary.ofNat 0)
    (hshort : number.natAbs ≤ 2 ^ Format.double.precision) (beatCount : ℕ) (stream : Stream) :
    ∃ beat, ref.resolve place beatCount stream = (.ok beat, stream) ∧ beat.isFinite = true ∧
      beat.value = number := by
  cases hnames with
  | @literal beat number hfinite hvalue =>
    obtain ⟨hzero, hzeroValue, -⟩ := Binary.ofNat_spec Format.double (n := 0) (Nat.zero_le _)
    obtain ⟨hround, hroundValue, -⟩ := Binary.roundSigned_intCast Format.double
      (beat.isNegative && (Binary.ofNat 0 : Double).isNegative) hshort
    refine ⟨beat + place.offset, rfl, ?_⟩
    rw [hoffset, Binary.add_eq hfinite hzero, hvalue, hzeroValue, Nat.cast_zero, add_zero]
    exact ⟨hround, hroundValue⟩
  | @position offset hplayed =>
    obtain ⟨hround, hroundValue, -⟩ := Binary.roundSigned_intCast Format.double false hshort
    have hmax : 2 ^ Format.double.precision ≤ maxStepNumber := by decide
    have hnumber : movedStep? place.position offset = some (place.position + 1 + offset) :=
      movedStep?_eq_some_iff.mpr ⟨rfl, hplayed, by omega, by omega⟩
    exact ⟨_, BeatRef.resolve_position hnumber beatCount stream, hround, hroundValue⟩

namespace Stage

variable {stage : Stage}

/-- **A whole number plays a whole beat** where the pattern plays once. -/
lemma planTerm_of_names (honce : stage.repetition = .once) {place : Place} {term : Term}
    {song : Song} {number : ℤ} (hsong : stage.songOf term = .ok song)
    (hwell : song.beatmap.WellFormed) (hpos : 0 < song.beatmap.beatCount)
    (hlength : song.beatmap.sourceLength < 2 ^ Format.double.precision)
    (hsize : place.size ≤ 2 ^ Format.double.precision)
    (hnames : term.beat.ref.Names place.position number)
    (hoffset : place.offset = Binary.ofNat 0)
    (hshort : number.natAbs < 2 ^ Format.double.precision) (random : Stream) :
    ∃ k leaf, wholeBeat song.beatmap.beatCount place.size number = (k + 1 : ℕ) ∧
      stage.planTerm place term random = (.ok (some leaf), random) ∧
      leaf.Plays term song.recording (song.beatmap.boundary k) (song.beatmap.boundary (k + 1)) := by
  obtain ⟨hlow, hhigh⟩ := wholeBeat_spec hpos place.size number
  obtain ⟨k, hk⟩ : ∃ k : ℕ, wholeBeat song.beatmap.beatCount place.size number = (k + 1 : ℕ) :=
    ⟨(wholeBeat song.beatmap.beatCount place.size number - 1).toNat, by omega⟩
  obtain ⟨beat, hresolve, hfinite, hvalue⟩ :=
    BeatRef.resolve_of_names hnames hoffset hshort.le song.beatmap.beatCount random
  have hwrap := song.beatmap.wrapBeat_of_value_eq hfinite hvalue (by omega) hpos
    (hwell.beatCount_le.trans_lt hlength) hsize
  rw [hk, Binary.ofInt_natCast] at hwrap
  have hbeat : stage.beatFor song.beatmap place.size beat = .ok (some (Binary.ofNat (k + 1))) := by
    rw [beatFor, honce, hwrap]
    rfl
  have hwindow := hwell.window?_ofNat hlength (by omega : k < song.beatmap.beatCount)
  have hplays := Leaf.plays_cut term song.recording (song.beatmap.boundary k)
    (song.beatmap.boundary (k + 1))
  have hleaf := leafFor_of_beatFor hbeat (leafOf_eq_ok_iff.mpr ⟨_, _, hwindow, hplays⟩)
  exact ⟨k, _, hk, planTerm_eq_ok_iff.mpr ⟨song, beat, hsong, hresolve, hleaf⟩, hplays⟩

/-- **Whole numbers play whole beats.** A whole number of a magnitude up to `2 ^ 52` is wrapped into
a map as integers are. The map has from one to `2 ^ 52` beats, and the pattern or the mix that the
number stands in counts at most as many parts.

So where a pattern plays once, every term with a whole number is planned: it plays the frames from
the boundary before its beat to the one behind it, or what a slice keeps of them. Its song is
reachable, has a beat and at most `2 ^ 52` frames. The leaves of the plans are what the terms that
are visited play, one for each.

**Proof sketch.** All numbers on the way are integers that have an exact value, and a whole beat is
the stretch between two boundaries. -/
theorem plan_wholeNumbers :
    (∀ (map : Beatmap) (size : ℕ) (beat : Double) (number : ℤ), 1 ≤ map.beatCount →
      map.beatCount ≤ 2 ^ 52 → size ≤ 2 ^ 52 → beat.isFinite = true → beat.value = number →
      number.natAbs ≤ 2 ^ 52 →
        map.wrapBeat size beat = .ok (Binary.ofInt (wholeBeat map.beatCount size number))) ∧
      ∀ (stage : Stage) (pattern : Pattern) (cursor : Cursor), stage.repetition = .once →
        (∀ visit ∈ stage.visits pattern cursor, ∀ (song : Song) (number : ℤ),
          stage.songOf visit.term = .ok song → song.Reachable → 1 ≤ song.beatmap.beatCount →
          song.beatmap.sourceLength ≤ 2 ^ 52 → visit.place.size ≤ 2 ^ 52 →
          visit.term.beat.ref.Names visit.place.position number → number.natAbs ≤ 2 ^ 52 →
            ∃ k leaf,
              wholeBeat song.beatmap.beatCount visit.place.size number = (k + 1 : ℕ) ∧
              stage.planTerm visit.place visit.term visit.random =
                (.ok (some leaf), visit.random) ∧
              leaf.Plays visit.term song.recording (song.beatmap.boundary k)
                (song.beatmap.boundary (k + 1))) ∧
          ∀ plans last, stage.plan pattern cursor = (.ok plans, last) →
            List.Forall₂ (fun visit leaf =>
                (stage.planTerm visit.place visit.term visit.random).1 = .ok (some leaf))
              (stage.visits pattern cursor) (plans.flatMap Plan.leaves) := by
  have hprecision : 2 ^ 52 < 2 ^ Format.double.precision := by decide
  refine ⟨fun map size beat number hpos hcount hsize hfinite hvalue hshort => ?_,
    fun stage pattern cursor honce => ⟨?_, fun plans last hplan => ?_⟩⟩
  · exact map.wrapBeat_of_value_eq hfinite hvalue (by omega) hpos (by omega) (by omega)
  · intro visit hvisit song number hsong hreachable hpos hlength hsize hnames hshort
    exact planTerm_of_names honce hsong hreachable.wellFormed.beatmap hpos (by omega) (by omega)
      hnames (offset_of_mem_visits honce hvisit) (by omega) visit.random
  · have hleaves := leaves_yields hplan
    rw [isPlayed_of_once honce, List.filter_true] at hleaves
    exact hleaves.imp fun visit leaf hyields => planTerm_of_yields hyields

/-- Beat 9 on a map of three beats, in a pattern of two steps, and a position that is moved to the
beat number `-2`. -/
theorem plan_wholeNumbers_two_steps :
    (∃ (map : Beatmap) (beat : Double), map.beatCount = 3 ∧ beat.isFinite = true ∧
      beat.value = (9 : ℤ) ∧ wholeBeat 3 2 9 = 1 ∧
      map.wrapBeat 2 beat = .ok (Binary.ofInt (wholeBeat 3 2 9))) ∧
      ∃ (stage : Stage) (pattern : Pattern) (plans : List Plan) (last : Cursor),
        Pattern.ofText "9,i-4" = .ok pattern ∧ stage.repetition = .once ∧
          stage.primary.Reachable ∧ stage.plan pattern (.ofSeed 3) = (.ok plans, last) ∧
          (∃ visit ∈ stage.visits pattern (.ofSeed 3),
            visit.term.beat.ref.Names visit.place.position (-2) ∧ visit.place.size = 2 ∧
            ∃ k leaf, wholeBeat 3 2 (-2) = (k + 1 : ℕ) ∧
              stage.planTerm visit.place visit.term visit.random =
                (.ok (some leaf), visit.random) ∧
              leaf.Plays visit.term stage.primary.recording (stage.primary.beatmap.boundary k)
                (stage.primary.beatmap.boundary (k + 1))) ∧
          List.Forall₂ (fun visit leaf =>
              (stage.planTerm visit.place visit.term visit.random).1 = .ok (some leaf))
            (stage.visits pattern (.ofSeed 3)) (plans.flatMap Plan.leaves) := by
  have htext : Pattern.ofText "9,i-4" = .ok
      ⟨[.single ⟨none, { ref := .literal 9 }⟩, .single ⟨none, { ref := .position (-4) }⟩]⟩ := by
    decide +kernel
  have hrecording : Recording.mono [0, 1, 0] 1 = .ok ⟨[[0, 1, 0]], 1⟩ := by decide +kernel
  have hsong : Song.ofBoundaries ⟨[[0, 1, 0]], 1⟩ [0, 1, 2, 3] =
      .ok ⟨⟨[[0, 1, 0]], 1⟩, ⟨[0, 1, 2, 3], 3⟩⟩ := by
    decide +kernel
  have hreachable : Song.Reachable ⟨⟨[[0, 1, 0]], 1⟩, ⟨[0, 1, 2, 3], 3⟩⟩ :=
    ⟨_, [], .ofBoundaries (.mono hrecording) hsong, rfl⟩
  have hplan : ∃ plans, (plan ⟨⟨⟨[[0, 1, 0]], 1⟩, ⟨[0, 1, 2, 3], 3⟩⟩, .empty, .once⟩
      ⟨[.single ⟨none, { ref := .literal 9 }⟩, .single ⟨none, { ref := .position (-4) }⟩]⟩
      (.ofSeed 3)).1 = .ok plans :=
    ⟨[.single (.extract none ⟨[[0, 1, 0]], 1⟩ 0 1 []),
      .single (.extract none ⟨[[0, 1, 0]], 1⟩ 1 2 [])], by decide +kernel⟩
  have hvisit : (⟨⟨2, Binary.ofNat 0, 1⟩, ⟨none, { ref := .position (-4) }⟩,
      (Cursor.ofSeed 3).random⟩ : Visit) ∈
        visits ⟨⟨⟨[[0, 1, 0]], 1⟩, ⟨[0, 1, 2, 3], 3⟩⟩, .empty, .once⟩
          ⟨[.single ⟨none, { ref := .literal 9 }⟩, .single ⟨none, { ref := .position (-4) }⟩]⟩
          (.ofSeed 3) := by
    decide +kernel
  have hnumber : BeatRef.Names 1 (.position (-4)) (-2) := .position (by decide)
  obtain ⟨plans, hplans⟩ := hplan
  obtain ⟨hwraps, hplays⟩ := plan_wholeNumbers
  obtain ⟨hbeats, hleaves⟩ := hplays ⟨⟨⟨[[0, 1, 0]], 1⟩, ⟨[0, 1, 2, 3], 3⟩⟩, .empty, .once⟩
    ⟨[.single ⟨none, { ref := .literal 9 }⟩, .single ⟨none, { ref := .position (-4) }⟩]⟩
    (.ofSeed 3) rfl
  exact ⟨⟨⟨[0, 1, 2, 3], 3⟩, 9, by decide, by decide +kernel, by decide +kernel, by decide,
      hwraps _ _ _ _ (by decide) (by decide) (by decide) (by decide +kernel) (by decide +kernel)
        (by decide)⟩,
    _, _, plans, _, htext, rfl, hreachable, Prod.ext hplans rfl,
    ⟨_, hvisit, hnumber, rfl, hbeats _ hvisit _ _ rfl hreachable (by decide) (by decide)
      (by decide) hnumber (by decide)⟩,
    hleaves _ _ (Prod.ext hplans rfl)⟩

end Stage

end Arranger
