import Arranger.Proofs.Beatmap.Positions
import Arranger.Proofs.Number.Error

/-!
# Boundaries near positions

A beatmap is made of positions by taking the nearest frames, without those that are more than half a
frame outside the recording and without those that do not rise. Positions on the recording all have
a frame, and frames that rise are all kept. So the positions of the boundaries of a beatmap make the
beatmap again.

## Main results

* `Arranger.Beatmap.frameWithin?_of_round_le`, `frameWithin?_of_within`, `frameWithin?_of_le_neg_one`,
  `frameWithin?_of_add_one_le` — the frames of positions on the recording and outside it.
* `Arranger.Beatmap.keepRising_of_pairwise` — frames that rise are all kept.
* `Arranger.Beatmap.mem_keepRising_iff` — of frames that do not fall each is kept once.
* `Arranger.Beatmap.WellFormed.ofPositions_position` — positions of coordinates on a map.
* `Arranger.Beatmap.WellFormed.ofPositions_boundaries` — positions of all the boundaries.
* `Arranger.Beatmap.WellFormed.resampled_one` — **boundaries at the same rate** are kept.
-/

namespace Arranger

namespace Beatmap

/-! ## Frames of positions -/

section Frames

variable {sourceLength : ℕ} {position : Double}

/-- The number that is half a frame. -/
lemma half_spec : (1 / 2 : Double).isFinite = true ∧ (1 / 2 : Double).value = 1 / 2 :=
  ⟨by decide +kernel, by decide +kernel⟩

/-- The position half a frame past the end, which may be rounded to the end. -/
lemma halfPast_spec (hlength : sourceLength ≤ 2 ^ 52) :
    (.ofNat sourceLength + 1 / 2 : Double).isFinite = true ∧
      sourceLength ≤ (.ofNat sourceLength + 1 / 2 : Double).value ∧
      (.ofNat sourceLength + 1 / 2 : Double).value ≤ sourceLength + 1 / 2 :=
  Binary.ofNat_add_spec hlength half_spec.1 (half_spec.2.symm ▸ by norm_num) half_spec.2.le

/-- Which finite positions have a frame. -/
lemma frameWithin?_eq_ite (hlength : sourceLength ≤ 2 ^ 52) (hfinite : position.isFinite = true) :
    frameWithin? sourceLength position =
      if position.value < -(1 / 2) ∨
          (.ofNat sourceLength + 1 / 2 : Double).value < position.value then none
      else some (min position.roundAway.toWord sourceLength) := by
  have hpast := (halfPast_spec hlength).1
  have hbefore : (-(1 / 2) : Double).isFinite = true := by rw [Binary.isFinite_neg, half_spec.1]
  simp only [frameWithin?, hfinite, Binary.lt_iff hfinite hbefore, Binary.lt_iff hpast hfinite,
    Binary.value_neg, half_spec.2, Bool.not_true, Bool.false_or, Bool.or_eq_true,
    decide_eq_true_iff]

/-- **A position whose nearest frame is on the recording has that frame**, also where the position
itself is past the end. -/
lemma frameWithin?_of_round_le (hlength : sourceLength ≤ 2 ^ 52)
    (hfinite : position.isFinite = true) (hlow : 0 ≤ position.value)
    (hround : roundHalfAway position.value ≤ sourceLength) :
    frameWithin? sourceLength position = some (roundHalfAway position.value).toNat := by
  have hshort : sourceLength ≤ 2 ^ Format.double.precision := hlength.trans (by decide)
  have hbelow : position.value < sourceLength + 1 / 2 := by
    have hnext := (roundHalfAway_lt_iff hlow).mp (Int.lt_add_one_of_le hround)
    push_cast at hnext
    linarith
  have hword : position.value ≤ maxWord := by
    have hend : (sourceLength : ℚ) + 1 ≤ maxWord := by
      exact_mod_cast (Nat.succ_le_succ hlength).trans (by decide)
    linarith
  -- the position is a number of the format, so it is not past the rounded end
  have hpast : position.value ≤ (.ofNat sourceLength + 1 / 2 : Double).value := by
    have hsum := (halfPast_spec hlength).1
    rw [Binary.add_eq (Binary.isFinite_ofNat hshort) half_spec.1] at hsum ⊢
    rw [Binary.value_roundSigned hsum, Binary.value_ofNat hshort, half_spec.2]
    exact (Binary.representable_value position).le_nearest hbelow.le
  rw [frameWithin?_eq_ite hlength hfinite, if_neg, Binary.toWord_roundAway hfinite hlow hword,
    min_eq_left (by omega)]
  rintro (hbefore | hbeyond) <;> linarith

/-- **A position on the recording has the frame nearest to it.** -/
lemma frameWithin?_of_within (hlength : sourceLength ≤ 2 ^ 52) (hfinite : position.isFinite = true)
    (hlow : 0 ≤ position.value) (hhigh : position.value ≤ sourceLength) :
    frameWithin? sourceLength position = some (roundHalfAway position.value).toNat :=
  frameWithin?_of_round_le hlength hfinite hlow
    ((roundHalfAway_mono hhigh).trans_eq (roundHalfAway_natCast _))

/-- A position that is a frame before the recording has no frame. -/
lemma frameWithin?_of_le_neg_one (hlength : sourceLength ≤ 2 ^ 52)
    (hfinite : position.isFinite = true) (hbefore : position.value ≤ -1) :
    frameWithin? sourceLength position = none := by
  rw [frameWithin?_eq_ite hlength hfinite, if_pos (.inl (by linarith))]

/-- A position that is a frame past the end of the recording has no frame. -/
lemma frameWithin?_of_add_one_le (hlength : sourceLength ≤ 2 ^ 52)
    (hfinite : position.isFinite = true) (hpast : sourceLength + 1 ≤ position.value) :
    frameWithin? sourceLength position = none := by
  have hend := (halfPast_spec hlength).2.2
  rw [frameWithin?_eq_ite hlength hfinite, if_pos (.inr (by linarith))]

end Frames

/-! ## Rising frames -/

/-- Frames that rise and are above the floor are all kept. -/
lemma keepRising_of_pairwise {floor? : Option ℕ} {frames : List ℕ}
    (hrising : frames.Pairwise (· < ·))
    (hfloor : ∀ frame ∈ frames, floor?.all (· < frame) = true) :
    keepRising floor? frames = frames := by
  induction frames generalizing floor? with
  | nil => rfl
  | cons frame frames ih =>
    rw [List.pairwise_cons] at hrising
    have hlater : ∀ later ∈ frames, (some frame).all (· < later) = true :=
      fun later hmem => decide_eq_true (hrising.1 later hmem)
    rw [keepRising, if_pos (hfloor frame List.mem_cons_self), ih hrising.2 hlater]

/-- All frames are kept just if they rise and are above the floor. -/
lemma length_keepRising_eq_iff {floor? : Option ℕ} {frames : List ℕ} :
    (keepRising floor? frames).length = frames.length ↔
      frames.Pairwise (· < ·) ∧ ∀ frame ∈ frames, floor?.all (· < frame) = true := by
  constructor
  · intro hlength
    have hall := (keepRising_sublist floor? frames).eq_of_length hlength
    refine ⟨hall ▸ keepRising_pairwise floor? frames, fun frame hmem => ?_⟩
    rw [← hall] at hmem
    exact floor_lt_of_mem_keepRising hmem
  · rintro ⟨hrising, hfloor⟩
    rw [keepRising_of_pairwise hrising hfloor]

/-- **Of frames that do not fall every one above the floor is kept**, once. -/
lemma mem_keepRising_iff {floor? : Option ℕ} {frames : List ℕ} (hmono : frames.Pairwise (· ≤ ·))
    {kept : ℕ} :
    kept ∈ keepRising floor? frames ↔ kept ∈ frames ∧ floor?.all (· < kept) = true := by
  refine ⟨fun hmem => ⟨(keepRising_sublist _ _).subset hmem, floor_lt_of_mem_keepRising hmem⟩, ?_⟩
  rintro ⟨hmem, hfloor⟩
  induction frames generalizing floor? with
  | nil => cases hmem
  | cons frame frames ih =>
    rw [List.pairwise_cons] at hmono
    rw [keepRising]
    split_ifs with habove
    · by_cases heq : kept = frame
      · exact heq ▸ List.mem_cons_self
      · have hlater := (List.mem_cons.mp hmem).resolve_left heq
        have hlt : frame < kept := lt_of_le_of_ne (hmono.1 kept hlater) (Ne.symm heq)
        exact List.mem_cons_of_mem _ (ih hmono.2 hlater (decide_eq_true hlt))
    · refine ih hmono.2 ((List.mem_cons.mp hmem).resolve_left ?_) hfloor
      rintro rfl
      exact habove hfloor

/-- Positions with their nearest frames on the recording make the map of these frames, as far as they
rise. -/
lemma ofPositions_map {α : Type} {position : α → Double} {xs : List α} {sourceLength : ℕ}
    (hlength : sourceLength ≤ 2 ^ 52) (hwithin : ∀ x ∈ xs, (position x).isFinite = true ∧
      0 ≤ (position x).value ∧ roundHalfAway (position x).value ≤ sourceLength) :
    ofPositions (xs.map position) sourceLength =
      ⟨keepRising none (xs.map fun x => (roundHalfAway (position x).value).toNat),
        sourceLength⟩ := by
  rw [ofPositions, List.filterMap_map, ← List.filterMap_eq_map,
    List.filterMap_congr fun x hmem => ?_]
  obtain ⟨hfinite, hlow, hround⟩ := hwithin x hmem
  exact frameWithin?_of_round_le hlength hfinite hlow hround

/-! ## Positions on a map -/

section Positions

variable {map : Beatmap} (h : map.WellFormed) (hlength : map.sourceLength ≤ 2 ^ 52)

include h hlength

/-- **Positions of coordinates on a map** make the map of the frames nearest to them, as far as these
rise. -/
lemma WellFormed.ofPositions_position {α : Type} {coordinate : α → Double} {xs : List α}
    (hne : ∀ x ∈ xs, coordinate x ≠ .nan) :
    ofPositions (xs.map fun x => map.position (coordinate x)) map.sourceLength =
      ⟨keepRising none (xs.map fun x => map.nearestFrame (coordinate x)), map.sourceLength⟩ := by
  have hshort : map.sourceLength ≤ 2 ^ Format.double.precision := hlength.trans (by decide)
  rw [ofPositions_map hlength fun x hmem => ?_, List.map_congr_left fun x hmem => ?_]
  · exact (h.nearestFrame_eq hshort (hne x hmem)).symm
  · obtain ⟨hlow, hhigh⟩ := h.position_within hshort (hne x hmem)
    have hend : (map.position (coordinate x)).value ≤ map.sourceLength :=
      hhigh.trans (by exact_mod_cast h.lastBoundary_le)
    exact ⟨(h.position_spec hshort (hne x hmem)).1, (Nat.cast_nonneg _).trans hlow,
      (roundHalfAway_mono hend).trans_eq (roundHalfAway_natCast _)⟩

omit hlength in
/-- The boundaries of a map, listed by their numbers, are all kept. -/
lemma WellFormed.keepRising_boundaries {frame : ℕ → ℕ}
    (hframe : ∀ k < map.boundaries.length, frame k = map.boundary k) :
    (⟨keepRising none ((List.range map.boundaries.length).map frame), map.sourceLength⟩ : Beatmap) =
      map := by
  have hboundaries : (List.range map.boundaries.length).map frame = map.boundaries := by
    refine List.ext_getElem (by simp) fun k hk hk' => ?_
    rw [List.getElem_map, List.getElem_range, hframe k hk', boundary, List.getD_eq_getElem _ _ hk']
  rw [hboundaries, keepRising_of_pairwise h.rising fun _ _ => rfl]

/-- **The positions of all the boundaries make the map again.** -/
lemma WellFormed.ofPositions_boundaries {coordinate : ℕ → Double}
    (hcoordinate : ∀ k < map.boundaries.length,
      (coordinate k).isFinite = true ∧ (coordinate k).value = k) :
    ofPositions ((List.range map.boundaries.length).map fun k => map.position (coordinate k))
      map.sourceLength = map := by
  rw [h.ofPositions_position hlength fun k hmem =>
    Binary.ne_nan (hcoordinate k (List.mem_range.mp hmem)).1]
  refine h.keepRising_boundaries fun k hk => ?_
  have hcount : k ≤ map.beatCount := by
    unfold beatCount
    omega
  exact h.nearestFrame_of_value_eq (hlength.trans (by decide)) (hcoordinate k hk).1 hcount
    (hcoordinate k hk).2

/-- A recording that keeps its rate keeps its boundaries. -/
lemma WellFormed.resampled_one :
    map.resampled 1 map.sourceLength = map := by
  have hboundary : ∀ boundary ∈ map.boundaries,
      (Binary.ofNat boundary * 1 : Double) = Binary.ofNat boundary ∧
        (Binary.ofNat boundary : Double).isFinite = true ∧
        (Binary.ofNat boundary : Double).value = boundary := by
    intro boundary hmem
    have hshort : boundary ≤ 2 ^ Format.double.precision :=
      (h.bounded boundary hmem).trans (hlength.trans (by decide))
    have hfinite := Binary.isFinite_ofNat hshort
    refine ⟨?_, hfinite, Binary.value_ofNat hshort⟩
    rw [Binary.mul_one_of_isFinite hfinite]
  have hframes : (map.boundaries.map fun boundary =>
      (roundHalfAway (Binary.ofNat boundary * 1 : Double).value).toNat) = map.boundaries := by
    refine (List.map_congr_left fun boundary hmem => ?_).trans (List.map_id _)
    obtain ⟨hmul, -, hvalue⟩ := hboundary boundary hmem
    rw [hmul, hvalue, roundHalfAway_natCast, Int.toNat_natCast, id]
  rw [resampled, ofPositions_map hlength fun boundary hmem => ?_, hframes,
    keepRising_of_pairwise h.rising fun _ _ => rfl]
  obtain ⟨hmul, hfinite, hvalue⟩ := hboundary boundary hmem
  rw [hmul, hvalue, roundHalfAway_natCast]
  exact ⟨hfinite, Nat.cast_nonneg _, by exact_mod_cast h.bounded boundary hmem⟩

end Positions

end Beatmap

end Arranger
