import Arranger.Proofs.Number.Error
import Arranger.Proofs.Plan.Blocks
import Arranger.Proofs.Plan.Extent
import Arranger.Proofs.Plan.SingleTile

/-!
# Which beats a pattern uses

A pattern that fills a song plays again and again, each time as many beats further as it has counted
steps. A step may name a beat that another one names too, and then there are more counted steps than
beats that are named: the rest is passed over in each repetition. So a pattern uses just the beats
whose place in the repetition is named by a step.

## Main definitions

* `Arranger.Leaf.Uses`, `Arranger.Plan.Uses` — plans that have a frame of a beat of the song.
* `Arranger.Slice.Ample` — slices that keep at least half of a beat.
* `Arranger.Pattern.Asks` — patterns that ask for at least half of each of some beats.

## Main results

* `Arranger.Song.WellFormed.uses_keptPlan_iff` — at least half of a beat uses this beat only.
* `Arranger.Stage.plan_asks` — **the beats that a pattern uses**.
-/

namespace Arranger

/-! ## Slices that keep something -/

/-- The slice keeps at least half of a beat. -/
def Slice.Ample : Slice → Prop
  | head fraction | tail fraction => 1 / 2 ≤ fraction ∧ fraction ≤ 1

instance : DecidablePred Slice.Ample
  | .head _ | .tail _ => inferInstanceAs (Decidable (_ ∧ _))

/-- A half or more of frames is at least one frame. -/
lemma framesOf_pos {fraction : Double} (hfinite : fraction.isFinite = true)
    (hhalf : 1 / 2 ≤ fraction.value) (hone : fraction.value ≤ 1) {frames : ℕ} (hpos : 0 < frames)
    (hframes : frames ≤ 2 ^ Format.double.precision) : 0 < framesOf fraction frames := by
  have hcount : (1 : ℚ) ≤ frames := by exact_mod_cast hpos
  have hexact : 1 / 2 ≤ (frames : ℚ) * fraction.value :=
    hhalf.trans (le_mul_of_one_le_left (by linarith) hcount)
  have hbound : (frames : ℚ) * fraction.value ≤ frames := mul_le_of_le_one_right (by linarith) hone
  have hframesValue : (Binary.ofNat frames : Double).value = frames := Binary.value_ofNat hframes
  obtain ⟨hproduct, hvalue⟩ := Binary.mul_spec hframes (Binary.isFinite_ofNat hframes) hfinite
    (by rw [hframesValue, abs_of_nonneg (by linarith)]; exact hbound)
  rw [hframesValue] at hvalue
  have hrepresentable : Format.double.Representable ((1 : ℤ) * 2 ^ (-1 : ℤ)) :=
    Format.representable_mul (by decide) (by decide)
  have hlow : 1 / 2 ≤ Format.double.nearest (frames * fraction.value) := by
    have hround := hrepresentable.le_nearest (le_trans (by norm_num) hexact)
    exact le_trans (by norm_num) hround
  have hword : Format.double.nearest (frames * fraction.value) ≤ maxWord := by
    have hlimit : frames ≤ maxWord := hframes.trans (by decide)
    exact (Format.nearest_le_natCast hframes hbound).trans (by exact_mod_cast hlimit)
  have hround : ¬ roundHalfAway (Format.double.nearest (frames * fraction.value)) < 1 := by
    have hless := roundHalfAway_lt_iff (q := Format.double.nearest (frames * fraction.value))
      (by linarith) (n := 1)
    rw [hless]
    push_cast
    linarith
  rw [framesOf, Binary.toWord_roundAway hproduct (by rw [hvalue]; linarith) (hvalue ▸ hword), hvalue]
  omega

/-- A fraction that is at least half is a number with these bounds. -/
lemma ample_spec {fraction : Double} (h : 1 / 2 ≤ fraction ∧ fraction ≤ 1) :
    fraction.isFinite = true ∧ 1 / 2 ≤ fraction.value ∧ fraction.value ≤ 1 := by
  obtain ⟨hone, honeValue, -⟩ := Binary.one_spec .double
  have hhalf : (1 / 2 : Double).isFinite = true := by decide +kernel
  have hhalfValue : (1 / 2 : Double).value = 1 / 2 := by decide +kernel
  have hfinite := Binary.isFinite_of_le hhalf hone h.1 h.2
  refine ⟨hfinite, ?_, ?_⟩
  · rw [← hhalfValue]
    exact (Binary.le_iff hhalf hfinite).mp h.1
  · rw [← honeValue]
    exact (Binary.le_iff hfinite hone).mp h.2

/-- **At least half of a beat is some of its frames.** -/
lemma Beat.cut_of_ample {beat : Beat} (h : ∀ slice ∈ beat.slice, slice.Ample) {start stop : ℕ}
    (hlt : start < stop) (hstop : stop ≤ 2 ^ Format.double.precision) :
    start ≤ (beat.cut start stop).1 ∧ (beat.cut start stop).1 < (beat.cut start stop).2 ∧
      (beat.cut start stop).2 ≤ stop := by
  have hpos : 0 < stop - start := Nat.sub_pos_of_lt hlt
  have hframes : stop - start ≤ 2 ^ Format.double.precision := (Nat.sub_le _ _).trans hstop
  have hpart : ∀ fraction : Double, 1 / 2 ≤ fraction ∧ fraction ≤ 1 →
      0 < framesOf fraction (stop - start) ∧ framesOf fraction (stop - start) ≤ stop - start := by
    intro fraction hample
    obtain ⟨hfinite, hhalf, hone⟩ := ample_spec hample
    exact ⟨framesOf_pos hfinite hhalf hone hpos hframes,
      framesOf_le ⟨hfinite, by linarith, hone⟩ hframes⟩
  rw [Beat.cut]
  cases hslice : beat.slice with
  | none => exact ⟨le_rfl, hlt, le_rfl⟩
  | some slice =>
    have hample := h slice hslice
    cases slice with
    | head fraction =>
      obtain ⟨hsome, hall⟩ := hpart fraction hample
      exact ⟨le_rfl, Nat.lt_add_of_pos_right hsome, by show start + framesOf _ _ ≤ stop; omega⟩
    | tail fraction =>
      obtain ⟨hsome, hall⟩ := hpart fraction hample
      refine ⟨?_, ?_, le_rfl⟩
      · show start ≤ stop - framesOf _ _
        omega
      · show stop - framesOf _ _ < stop
        omega

/-! ## Plans that use a beat -/

/-- A leaf uses a beat of a song, counted from zero, if it plays a frame of the beat out of the
recording of the song. -/
inductive Leaf.Uses (song : Song) (i : ℕ) : Leaf → Prop where
  /-- The frame is one of the beat and one of those that are played. -/
  | extract {start stop frame : ℕ} {effects : List Effect}
      (hlow : song.beatmap.boundary i ≤ frame) (hhigh : frame < song.beatmap.boundary (i + 1))
      (hstart : start ≤ frame) (hstop : frame < stop) :
      Uses song i (.extract none song.recording start stop effects)

/-- A plan uses a beat of a song if one of its leaves does. -/
def Plan.Uses (plan : Plan) (song : Song) (i : ℕ) : Prop :=
  ∃ leaf ∈ plan.leaves, leaf.Uses song i

namespace Song

variable {song : Song}

/-- A frame is in one beat only. -/
lemma WellFormed.eq_of_frame (h : song.WellFormed) {i j frame : ℕ}
    (hi : i < song.beatmap.beatCount) (hj : j < song.beatmap.beatCount)
    (hlow : song.beatmap.boundary i ≤ frame) (hhigh : frame < song.beatmap.boundary (i + 1))
    (hlow' : song.beatmap.boundary j ≤ frame) (hhigh' : frame < song.beatmap.boundary (j + 1)) :
    i = j := by
  rcases Nat.lt_trichotomy i j with hlt | heq | hgt
  · have := h.beatmap.boundary_mono (show i + 1 ≤ j from hlt) hj.le
    omega
  · exact heq
  · have := h.beatmap.boundary_mono (show j + 1 ≤ i from hgt) hi.le
    omega

/-- **At least half of a beat uses this beat only.** -/
lemma WellFormed.uses_keptPlan_iff (h : song.WellFormed)
    (hlength : song.beatmap.sourceLength < 2 ^ Format.double.precision) {beat : Beat}
    (hsilent : beat.silent = false) (hslice : ∀ slice ∈ beat.slice, slice.Ample) {i j : ℕ}
    (hi : i < song.beatmap.beatCount) (hj : j < song.beatmap.beatCount) :
    (song.keptPlan beat j).Uses song i ↔ i = j := by
  obtain ⟨hlow, hlt, hhigh⟩ := Beat.cut_of_ample hslice (h.beatmap.boundary_lt hj)
    ((h.beatmap.boundary_le _).trans hlength.le)
  have hplan : song.keptPlan beat j = .single (.extract none song.recording
      (beat.cut (song.beatmap.boundary j) (song.beatmap.boundary (j + 1))).1
      (beat.cut (song.beatmap.boundary j) (song.beatmap.boundary (j + 1))).2 beat.effects) := by
    rw [keptPlan, hsilent]
    rfl
  rw [hplan]
  constructor
  · rintro ⟨leaf, hleaf, huses⟩
    rw [List.mem_singleton.mp hleaf] at huses
    cases huses with
    | extract hbeat hbeat' hstart hstop =>
      exact h.eq_of_frame hi hj hbeat hbeat' (hlow.trans hstart) (hstop.trans_le hhigh)
  · rintro rfl
    exact ⟨_, List.mem_singleton_self _, .extract hlow (hlt.trans_le hhigh) le_rfl hlt⟩

end Song

/-! ## Patterns that ask for beats -/

/-- The steps of a pattern ask for beats of the song at hand, in written order. The numbers of the
beats, counted from zero, are below the number of counted steps; the beats are heard, and of each at
least half is kept. Which effects they have and which group they belong to is left open, and a
number may come more than once. -/
structure Pattern.Asks (pattern : Pattern) (asked : List (ℕ × Beat)) : Prop where
  /-- The steps are the beats in written order. -/
  steps : pattern.steps = asked.map fun ask => .single ⟨none, ask.2⟩
  /-- The numbers are below the number of counted steps. -/
  lt : ∀ ask ∈ asked, ask.1 < pattern.size
  /-- Each beat asks for its number. -/
  ref : ∀ ask ∈ asked, ask.2.ref = .literal (Binary.ofNat (ask.1 + 1))
  /-- No beat is silent. -/
  heard : ∀ ask ∈ asked, ask.2.silent = false
  /-- Of each beat at least half is kept. -/
  ample : ∀ ask ∈ asked, ∀ slice ∈ ask.2.slice, slice.Ample

namespace Stage

section Asks

variable {stage : Stage} (hsong : stage.primary.WellFormed)
  (hlength : stage.primary.beatmap.sourceLength < 2 ^ Format.double.precision)
  (hfill : stage.repetition = .fill) {pattern : Pattern} {asked : List (ℕ × Beat)}
  (h : pattern.Asks asked)

include hsong hlength hfill h

/-- A cue of a pattern that asks for beats plays what is kept of the beat that its number and the
offset of its repetition make, if the song has it. -/
lemma planCue_asks {k : ℕ} (hk : k < stage.repetitions pattern.size) {ask : ℕ × Beat}
    (hask : ask ∈ asked) (cursor : Cursor) :
    stage.planCue ⟨.single ⟨none, ask.2⟩, pattern.size, Binary.ofNat (k * pattern.size)⟩ cursor =
      (.ok (stage.primary.keptPlan? ask.2 (k * pattern.size + ask.1)),
        ⟨cursor.random, cursor.position + 1⟩) := by
  refine planCue_kept hsong hlength ?_ (by rw [hfill]; rintro ⟨⟩)
  rw [h.ref ask hask, resolve_ofNat hsong hlength hfill hk (h.lt ask hask)]

variable (stage) in
/-- **The beats that a pattern uses.** A pattern that asks for beats and fills the song is planned,
and its plans use just the beats whose place in the repetition is asked for.

**Proof sketch.** The beat at a place is asked for in the repetition of the quotient of the beat by
the size, at the place of the remainder. What is kept of a beat uses no other beat. -/
theorem plan_asks (hsize : 0 < pattern.size) (cursor : Cursor) :
    ∃ plans, (stage.plan pattern cursor).1 = .ok plans ∧
      ∀ i < stage.primary.beatmap.beatCount, (∃ plan ∈ plans, plan.Uses stage.primary i) ↔
        i % pattern.size ∈ asked.map Prod.fst := by
  obtain ⟨order, horder, hplans⟩ := exists_plan_of_forall (.of_eq h.steps)
    (fun k hk ask hask state => ⟨_, planCue_asks hsong hlength hfill h hk hask state⟩) cursor
  refine ⟨_, hplans, fun i hi => ?_⟩
  have huses : ∀ ask ∈ asked, ∀ j < stage.primary.beatmap.beatCount,
      (stage.primary.keptPlan ask.2 j).Uses stage.primary i ↔ i = j := fun ask hask j hj =>
    hsong.uses_keptPlan_iff hlength (h.heard ask hask) (h.ample ask hask) hi hj
  constructor
  · rintro ⟨plan, hplan, hused⟩
    obtain ⟨k, -, hplan⟩ := List.mem_flatMap.mp hplan
    obtain ⟨ask, hask, hplan⟩ := List.mem_filterMap.mp hplan
    have hmem := horder.subset hask
    rw [Song.keptPlan?] at hplan
    split_ifs at hplan with hj
    cases hplan
    rw [(huses ask hmem _ hj).mp hused, (place_div_mod (h.lt ask hmem) k).2]
    exact List.mem_map_of_mem hmem
  · intro hplace
    obtain ⟨ask, hask, hnumber⟩ := List.mem_map.mp hplace
    have hbeat : i / pattern.size * pattern.size + ask.1 = i := by rw [hnumber, Nat.div_add_mod']
    have hrow : i / pattern.size < stage.repetitions pattern.size :=
      (Nat.div_lt_iff_lt_mul hsize).mpr (hi.trans_le (beatCount_le_repetitions_mul hfill hsize))
    refine ⟨stage.primary.keptPlan ask.2 i, ?_, (huses ask hask i hi).mpr rfl⟩
    refine List.mem_flatMap.mpr ⟨_, List.mem_range.mpr hrow, List.mem_filterMap.mpr
      ⟨ask, horder.mem_iff.mpr hask, ?_⟩⟩
    rw [hbeat, Song.keptPlan?, if_pos hi]

end Asks

end Stage

end Arranger
