import Arranger.Proofs.Beatmap.Boundaries
import Arranger.Proofs.Effect.Length
import Arranger.Proofs.Number.Ratio
import Arranger.Proofs.Song.Reachable

/-!
# Converting a song to a higher rate

A song is converted to a higher rate with its boundaries: each is multiplied by the ratio of the
rates and rounded to a frame. The new length is computed from the old one in another way, by a
quotient that is rounded up, and the two ways agree well enough that no boundary comes to lie past
the end. As the ratio is at least one, no two boundaries come to the same frame. So every beat is
kept, unless the recording is a single frame: that is not stretched, and then the boundary behind it
can be past the end.

## Main results

* `Arranger.Beatmap.WellFormed.resampled_eq`, `Arranger.Beatmap.resampled_one_frame` — the boundaries
  at a higher rate.
* `Arranger.Recording.WellFormed.frames_resampled` — the length at a higher rate.
* `Arranger.Song.resampled_upward` — **converting to a higher rate keeps every beat**.
-/

namespace Arranger

namespace Upward

variable {source target : ℕ} (h : Upward source target)

include h

/-- With one rate nothing is changed. -/
lemma roundedProduct_self (hsame : source = target) {n : ℕ} (hn : n ≤ 2 ^ 20) :
    roundedProduct source target n = n := by
  have hshort : n ≤ 2 ^ Format.double.precision := hn.trans (by decide)
  have hone : Format.double.nearest 1 = 1 := by
    have hexact := Format.double.nearest_natCast (n := 1) (by decide)
    exact_mod_cast hexact
  rw [roundedProduct, ← hsame, div_self h.source_cast_pos.ne', hone, mul_one,
    Format.nearest_natCast hshort]

/-- Different whole numbers have products with different nearest integers. -/
lemma toNat_round_lt {m n : ℕ} (hmn : m < n) (hn : n ≤ 2 ^ 20) :
    (roundHalfAway (roundedProduct source target m)).toNat <
      (roundHalfAway (roundedProduct source target n)).toNat := by
  refine toNat_roundHalfAway_lt h.roundedProduct_nonneg
    (roundHalfAway_lt_of_add_one_le h.roundedProduct_nonneg ?_)
  rcases h.le.eq_or_lt with hsame | hrise
  · rw [h.roundedProduct_self hsame (hmn.le.trans hn), h.roundedProduct_self hsame hn]
    exact_mod_cast hmn
  · exact h.roundedProduct_add_one_le hn hrise hmn

/-- A greater whole number has no smaller a product. -/
lemma round_mono {m n : ℕ} (hmn : m ≤ n) :
    roundHalfAway (roundedProduct source target m) ≤
      roundHalfAway (roundedProduct source target n) :=
  roundHalfAway_mono (Format.double.nearest_mono (mul_le_mul_of_nonneg_right (Nat.cast_le.mpr hmn)
    (by linarith [h.nearest_ratio_bounds.1])))

/-- The frame that a boundary is moved to. -/
lemma toWord_roundAway_product {n : ℕ} (hn : n ≤ 2 ^ 20) :
    (.ofNat n * (.ofNat target / .ofNat source) : Double).roundAway.toWord =
      (roundHalfAway (roundedProduct source target n)).toNat := by
  obtain ⟨hfinite, hvalue⟩ := h.product_spec hn
  rw [← hvalue]
  refine Binary.toWord_roundAway hfinite (hvalue ▸ h.roundedProduct_nonneg) ?_
  rw [hvalue]
  exact (h.roundedProduct_le hn).trans (by exact_mod_cast (by decide : 2 ^ 52 ≤ maxWord))

/-- The frame as an integer. -/
lemma natCast_toNat_round (n : ℕ) :
    (((roundHalfAway (roundedProduct source target n)).toNat : ℕ) : ℤ) =
      roundHalfAway (roundedProduct source target n) :=
  Int.toNat_of_nonneg (roundHalfAway_nonneg h.roundedProduct_nonneg)

/-- **The error of a frame**: half a frame, as of the exact product, and that of the product. -/
lemma abs_toNat_round_sub_le (n : ℕ) :
    |((roundHalfAway (roundedProduct source target n)).toNat : ℚ) - n * (target / source)| ≤
      1 / 2 + n * (target / source) / 2 ^ 51 := by
  have hround := (roundHalfAway_eq_iff (h.roundedProduct_nonneg (n := n))).mp rfl
  have hproduct := abs_le.mp (h.abs_roundedProduct_sub_le (n := n))
  have hnonneg : (0 : ℚ) ≤ n * (target / source) :=
    mul_nonneg (Nat.cast_nonneg n) (by linarith [h.ratio_bounds.1])
  rw [← Int.cast_natCast, h.natCast_toNat_round, abs_le]
  constructor <;> linarith

/-- The product of one is the ratio, which is at most three halves as a rounded number just if it is
so exactly. -/
lemma roundedProduct_one_le_iff :
    roundedProduct source target 1 ≤ 3 / 2 ↔ 2 * target ≤ 3 * source := by
  have hsource := h.source_cast_pos
  rw [roundedProduct, Nat.cast_one, one_mul]
  constructor
  · intro hle
    by_contra hgreater
    -- an exact ratio above three halves is above by half a part of the source rate
    have hrepresentable : Format.double.Representable ((3 * 2 ^ 32 + 1 : ℤ) * 2 ^ (-33 : ℤ)) :=
      Format.representable_mul (by decide) (by decide)
    have hexact : ((3 * 2 ^ 32 + 1 : ℤ) : ℚ) * 2 ^ (-33 : ℤ) ≤ target / source := by
      have hlimit : (source : ℚ) ≤ 2 ^ 32 := by exact_mod_cast h.le.trans h.lt.le
      have hnext : 3 * (source : ℚ) + 1 ≤ 2 * target := by exact_mod_cast Nat.lt_of_not_le hgreater
      rw [le_div_iff₀ hsource]
      norm_num
      linarith
    have hrounded := hrepresentable.le_nearest (hrepresentable.le_nearest hexact)
    norm_num at hrounded
    linarith
  · intro hle
    have hrepresentable : Format.double.Representable ((3 : ℤ) * 2 ^ (-1 : ℤ)) :=
      Format.representable_mul (by decide) (by decide)
    have hexact : (target : ℚ) / source ≤ ((3 : ℤ) : ℚ) * 2 ^ (-1 : ℤ) := by
      have hcast : 2 * (target : ℚ) ≤ 3 * source := by exact_mod_cast hle
      rw [div_le_iff₀ hsource]
      norm_num
      linarith
    exact (hrepresentable.nearest_le (hrepresentable.nearest_le hexact)).trans_eq (by norm_num)

/-- The product of one is at least one. -/
lemma one_le_roundedProduct_one : 1 ≤ roundedProduct source target 1 := by
  rw [roundedProduct, Nat.cast_one, one_mul]
  exact_mod_cast Format.natCast_le_nearest (n := 1) (by decide)
    (by exact_mod_cast h.nearest_ratio_bounds.1)

end Upward

/-! ## Boundaries -/

/-- **The boundaries at a higher rate** are all kept, if none is rounded past the end. -/
lemma Beatmap.WellFormed.resampled_eq {map : Beatmap} (h : map.WellFormed)
    (hshort : map.sourceLength ≤ 2 ^ 20) {source target : ℕ} (hup : Upward source target)
    {frames : ℕ} (hframes : frames ≤ 2 ^ 52)
    (hend : roundHalfAway (roundedProduct source target map.lastBoundary) ≤ frames) :
    map.resampled (.ofNat target / .ofNat source) frames =
      ⟨map.boundaries.map fun boundary =>
        (roundHalfAway (roundedProduct source target boundary)).toNat, frames⟩ := by
  have hbounded : ∀ boundary ∈ map.boundaries, boundary ≤ 2 ^ 20 := fun boundary hmem =>
    (h.bounded boundary hmem).trans hshort
  have hframe : ∀ boundary ∈ map.boundaries,
      (roundHalfAway (.ofNat boundary * (.ofNat target / .ofNat source) : Double).value).toNat =
        (roundHalfAway (roundedProduct source target boundary)).toNat := fun boundary hmem => by
    rw [(hup.product_spec (hbounded boundary hmem)).2]
  rw [resampled, ofPositions_map hframes fun boundary hmem => ?_, List.map_congr_left hframe,
    keepRising_of_pairwise ?_ fun _ _ => rfl]
  · rw [List.pairwise_map]
    exact h.rising.imp_of_mem fun _ hmem hlt => hup.toNat_round_lt hlt (hbounded _ hmem)
  · obtain ⟨hfinite, hvalue⟩ := hup.product_spec (hbounded boundary hmem)
    rw [hvalue]
    exact ⟨hfinite, hup.roundedProduct_nonneg,
      (hup.round_mono (le_getLastD_of_mem h.rising hmem)).trans hend⟩

/-! ## Lengths -/

namespace Recording

/-- Channels that are changed alike have the length of the first one. -/
lemma WellFormed.frames_map {recording : Recording} (h : recording.WellFormed)
    {f : List Sample → List Sample} {rate length : ℕ}
    (hf : ∀ channel, channel.length = recording.frames → (f channel).length = length) :
    frames ⟨recording.channels.map f, rate⟩ = length := by
  obtain ⟨first, rest, hchannels⟩ := List.exists_cons_of_ne_nil h.channels_ne_nil
  have hfirst : first.length = recording.frames := h.length_eq first (by simp [hchannels])
  rw [frames, hchannels, List.map_cons, List.headD_cons]
  exact hf first hfirst

/-- **The length at a higher rate**: the quotient by the inverse ratio, rounded up. A single frame
is not stretched. -/
lemma WellFormed.frames_resampled {recording : Recording} (h : recording.WellFormed)
    (hframes : recording.frames ≤ 2 ^ 20) {rate : ℕ} (hup : Upward recording.rate rate)
    (hrise : recording.rate ≠ rate) :
    ∃ result, recording.resampled rate = .ok result ∧
      result.frames = if recording.frames ≤ 1 then recording.frames
        else (roundedQuotient recording.rate rate recording.frames).ceil.toNat := by
  have hpos : rate ≠ 0 := (hup.source_pos.trans_le hup.le).ne'
  refine ⟨_, by rw [Recording.resampled, if_neg hpos, if_neg hrise.symm], ?_⟩
  refine h.frames_map fun channel hlength => ?_
  obtain ⟨hinverse, hinverseValue⟩ := hup.inverse_spec
  obtain ⟨hzero, hzeroValue, -⟩ := Binary.zero_spec .double
  have hratio : (0 : Double) < .ofNat recording.rate / .ofNat rate := by
    rw [Binary.lt_iff hzero hinverse, hzeroValue, hinverseValue]
    exact lt_of_lt_of_le (by norm_num) hup.nearest_inverse_bounds.1
  rw [convertRate, length_resample_of_pos hinverse hratio, hlength]
  split_ifs
  · rfl
  · obtain ⟨hquotient, hvalue, hnonneg, hle⟩ := hup.quotient_spec hframes
    rw [resampledLength, ← hvalue]
    refine Binary.toWord_ceil hquotient (hvalue ▸ hnonneg) ?_
    rw [hvalue]
    exact hle.trans (by exact_mod_cast (by decide : 2 ^ 52 ≤ maxWord))

end Recording

namespace Beatmap

/-- The boundaries of a map on a single frame. -/
lemma boundaries_of_build_one {boundaries : List ℕ} {map : Beatmap}
    (h : build boundaries 1 = .ok map) : map = ⟨[0, 1], 1⟩ := by
  have hwell := wellFormed_of_build h
  obtain ⟨hcount, -, -, rfl⟩ := build_eq_ok_iff.mp h
  match boundaries, hcount with
  | first :: second :: rest, _ =>
    have hfirst : first < second := (List.pairwise_cons.mp hwell.rising).1 second (by simp)
    have hsecond : second ≤ 1 := hwell.bounded second (by simp)
    have hrest : rest = [] := by
      refine List.eq_nil_iff_forall_not_mem.mpr fun third hmem => ?_
      have hthird := (List.pairwise_cons.mp (List.pairwise_cons.mp hwell.rising).2).1 third hmem
      have hend : third ≤ 1 := hwell.bounded third (by simp [hmem])
      omega
    rw [hrest, show first = 0 by omega, show second = 1 by omega]

/-- **The boundaries of a single frame at a higher rate.** As the frame is not stretched, the second
boundary is past the end if the ratio of the rates is more than three halves. -/
lemma resampled_one_frame {source target : ℕ} (hup : Upward source target) :
    resampled ⟨[0, 1], 1⟩ (.ofNat target / .ofNat source) 1 =
      if 2 * target ≤ 3 * source then ⟨[0, 1], 1⟩ else ⟨[0], 1⟩ := by
  have hfirst : frameWithin? 1 (.ofNat 0 * (.ofNat target / .ofNat source)) = some 0 := by
    obtain ⟨hfinite, hvalue⟩ := hup.product_spec (n := 0) (by decide)
    have hzero : roundedProduct source target 0 = 0 := by simp [roundedProduct]
    rw [hzero] at hvalue
    rw [frameWithin?_of_within (by decide) hfinite hvalue.ge (hvalue ▸ by decide), hvalue]
    decide +kernel
  have hsecond : frameWithin? 1 (.ofNat 1 * (.ofNat target / .ofNat source)) =
      if 2 * target ≤ 3 * source then some 1 else none := by
    obtain ⟨hfinite, hvalue⟩ := hup.product_spec (n := 1) (by decide)
    have hpast : (.ofNat 1 + 1 / 2 : Double).value = 3 / 2 := by decide +kernel
    have hlow := hup.one_le_roundedProduct_one
    have hframe := roundHalfAway_mono hlow
    rw [show roundHalfAway 1 = 1 from roundHalfAway_natCast 1] at hframe
    have hoff : (roundedProduct source target 1 < -(1 / 2) ∨
        3 / 2 < roundedProduct source target 1) ↔ ¬2 * target ≤ 3 * source := by
      rw [← hup.roundedProduct_one_le_iff, not_le, or_iff_right (by linarith)]
    rw [frameWithin?_eq_ite (by decide) hfinite, hpast, hvalue,
      hup.toWord_roundAway_product (by decide), if_congr hoff rfl rfl, ite_not,
      min_eq_right (by omega)]
  rw [resampled, ofPositions, List.map_cons, List.map_cons, List.map_nil,
    List.filterMap_cons_some hfirst]
  split_ifs at hsecond ⊢ with hratio
  · rw [List.filterMap_cons_some hsecond]
    rfl
  · rw [List.filterMap_cons_none hsecond]
    rfl

end Beatmap

/-! ## Songs -/

namespace Song

/-- The recording at a higher rate is long enough for the last boundary, unless it is a single frame
that is not stretched. -/
lemma WellFormed.exists_resampled {song : Song} (h : song.WellFormed)
    (hframes : song.recording.frames ≤ 2 ^ 20) {rate : ℕ} (hup : Upward song.recording.rate rate)
    (hstretched : 2 ≤ song.recording.frames ∨ song.recording.rate = rate) :
    ∃ recording, song.recording.resampled rate = .ok recording ∧ recording.frames ≤ 2 ^ 52 ∧
      roundHalfAway (roundedProduct song.recording.rate rate song.beatmap.lastBoundary) ≤
        recording.frames := by
  have hlast : song.beatmap.lastBoundary ≤ song.recording.frames :=
    h.beatmap.lastBoundary_le.trans_eq h.sourceLength_eq
  by_cases hsame : song.recording.rate = rate
  · refine ⟨song.recording, hsame ▸ Recording.resampled_rate hup.source_pos,
      hframes.trans (by decide), ?_⟩
    rw [hup.roundedProduct_self hsame (hlast.trans hframes), roundHalfAway_natCast]
    exact_mod_cast hlast
  · have hmore := hstretched.resolve_right hsame
    obtain ⟨recording, hresult, hlength⟩ := h.recording.frames_resampled hframes hup hsame
    obtain ⟨-, -, hnonneg, hle⟩ := hup.quotient_spec hframes
    rw [if_neg (by omega)] at hlength
    refine ⟨recording, hresult, ?_, ?_⟩
    · have hceil : (roundedQuotient song.recording.rate rate song.recording.frames).ceil ≤
          ((2 ^ 52 : ℕ) : ℤ) := Rat.ceil_le_iff.mpr (by exact_mod_cast hle)
      omega
    · have hproduct := (hup.round_mono hlast).trans
        (hup.round_le_ceil (by omega : 0 < song.recording.frames) hframes)
      omega

/-- A single frame stays one. -/
lemma WellFormed.exists_resampled_one_frame {song : Song} (h : song.WellFormed)
    (hone : song.recording.frames = 1) {rate : ℕ} (hup : Upward song.recording.rate rate) :
    ∃ recording, song.recording.resampled rate = .ok recording ∧ recording.frames = 1 := by
  by_cases hsame : song.recording.rate = rate
  · exact ⟨song.recording, hsame ▸ Recording.resampled_rate hup.source_pos, hone⟩
  · obtain ⟨recording, hresult, hlength⟩ :=
      h.recording.frames_resampled (hone.trans_le (by decide)) hup hsame
    rw [if_pos hone.le, hone] at hlength
    exact ⟨recording, hresult, hlength⟩

/-- The boundaries of a song at a higher rate, and its length. -/
lemma WellFormed.resampled_upward_eq {song : Song} (h : song.WellFormed)
    (hframes : song.recording.frames ≤ 2 ^ 20) {rate : ℕ} (hup : Upward song.recording.rate rate)
    (hstretched : 2 ≤ song.recording.frames ∨ song.recording.rate = rate) :
    ∃ recording, song.resampled rate = .ok ⟨recording, song.beatmap.boundaries.map fun boundary =>
      (roundHalfAway (roundedProduct song.recording.rate rate boundary)).toNat,
      recording.frames⟩ := by
  obtain ⟨recording, hresult, hshort, hend⟩ := h.exists_resampled hframes hup hstretched
  refine ⟨recording, ?_⟩
  rw [resampled, hresult, ← h.beatmap.resampled_eq (h.sourceLength_eq.trans_le hframes) hup hshort
    hend]
  rfl

/-- The parts of a song that is made of boundaries. -/
lemma ofBoundaries_eq_ok_iff {recording : Recording} {boundaries : List ℕ} {song : Song} :
    ofBoundaries recording boundaries = .ok song ↔
      Beatmap.build boundaries recording.frames = .ok song.beatmap ∧ song.recording = recording := by
  rw [ofBoundaries]
  cases Beatmap.build boundaries recording.frames with
  | error defect => simp [bind, Except.bind]
  | ok map =>
    obtain ⟨ownRecording, ownMap⟩ := song
    simp [bind, Except.bind, pure, Except.pure, and_comm, eq_comm]

/-- **Converting to a higher rate keeps every beat.** Take a song made of boundaries on at most
`2 ^ 20` frames, and a rate of 32 bits that is not below its own. The song can be converted to this
rate, and its last boundary is not past the new end.

If there are two frames or more, or if the rate is the song's own, there are as many beats as before.
Each boundary is moved to the frame nearest to its product with the ratio of the rates, as computed.
It is off the exact product by half a frame and a part of `2 ^ 51` at most. If the exact product is
not half way between two frames, and not too long, it is moved to the frame nearest to that.

A single frame is not stretched, so the new length is one again and the only beat is kept just if the
ratio of the rates is at most three halves.

**Proof sketch.** Both ratios are rounded once, and so are the products and the quotient. As the
ratio is one or more than that by a part of `2 ^ 32`, products of different boundaries are one apart,
so their frames rise. The quotient rounded up is not less than the product rounded, as the exact
product is a multiple of a part of the source rate, which is more than all the errors. -/
theorem resampled_upward {recording : Recording} (hmade : recording.Made) {boundaries : List ℕ}
    {song : Song} (hsong : ofBoundaries recording boundaries = .ok song)
    (hframes : recording.frames ≤ 2 ^ 20) {rate : ℕ} (hle : recording.rate ≤ rate)
    (hrate : rate < 2 ^ 32) :
    ∃ result, song.resampled rate = .ok result ∧
      result.beatmap.lastBoundary ≤ result.recording.frames ∧
      (2 ≤ recording.frames ∨ recording.rate = rate →
        result.beatmap.beatCount = song.beatmap.beatCount ∧
        ∀ k ≤ song.beatmap.beatCount,
          result.beatmap.boundary k = (.ofNat (song.beatmap.boundary k) *
            (.ofNat rate / .ofNat recording.rate) : Double).roundAway.toWord ∧
          |(result.beatmap.boundary k : ℚ) - song.beatmap.boundary k * (rate / recording.rate)| ≤
            1 / 2 + song.beatmap.boundary k * (rate / recording.rate) / 2 ^ 51 ∧
          (song.beatmap.boundary k * rate ≤ 2 ^ 50 →
            (∀ j : ℤ, (song.beatmap.boundary k : ℚ) * (rate / recording.rate) ≠ j + 1 / 2) →
            result.beatmap.boundary k =
              roundHalfAway (song.beatmap.boundary k * (rate / recording.rate)))) ∧
      (recording.frames = 1 → result.recording.frames = 1 ∧
        (result.beatmap.beatCount = song.beatmap.beatCount ↔ 2 * rate ≤ 3 * recording.rate)) := by
  have hwell := (Made.ofBoundaries hmade hsong).wellFormed
  obtain ⟨hmap, rfl⟩ := ofBoundaries_eq_ok_iff.mp hsong
  have hup : Upward song.recording.rate rate := ⟨hwell.recording.rate_pos, hle, hrate⟩
  obtain ⟨result, hresult, hresultWell⟩ :=
    change_wellFormed hwell (.resample rate (hup.source_pos.trans_le hle))
  have hlast := hresultWell.beatmap.lastBoundary_le.trans_eq hresultWell.sourceLength_eq
  refine ⟨result, hresult, hlast, fun hstretched => ?_, fun hone => ?_⟩
  · obtain ⟨stretched, heq⟩ := hwell.resampled_upward_eq hframes hup hstretched
    obtain rfl := Except.ok.inj (hresult.symm.trans heq)
    refine ⟨by simp [Beatmap.beatCount], fun k hk => ?_⟩
    have hshort : song.beatmap.boundary k ≤ 2 ^ 20 :=
      (hwell.beatmap.boundary_le k).trans (hwell.sourceLength_eq.trans_le hframes)
    have hboundary : k < song.beatmap.boundaries.length := by
      rw [Beatmap.length_boundaries
        (Beatmap.boundaries_ne_nil_of_beatCount_pos (Beatmap.beatCount_pos_of_build hmap))]
      exact Nat.lt_succ_of_le hk
    rw [Beatmap.boundary, List.getD_eq_getElem _ _ (by simpa using hboundary), List.getElem_map,
      ← List.getD_eq_getElem _ 0 hboundary]
    exact ⟨(hup.toWord_roundAway_product hshort).symm, hup.abs_toNat_round_sub_le _,
      fun hproduct hhalf => (hup.natCast_toNat_round _).trans
        (hup.round_roundedProduct_eq hproduct hhalf)⟩
  · rw [hone] at hmap
    obtain ⟨single, hsingle, hlength⟩ := hwell.exists_resampled_one_frame hone hup
    have heq : song.resampled rate =
        .ok ⟨single, if 2 * rate ≤ 3 * song.recording.rate then ⟨[0, 1], 1⟩ else ⟨[0], 1⟩⟩ := by
      rw [resampled, hsingle, ← Beatmap.resampled_one_frame hup,
        ← Beatmap.boundaries_of_build_one hmap, ← hlength]
      rfl
    obtain rfl := Except.ok.inj (hresult.symm.trans heq)
    rw [Beatmap.boundaries_of_build_one hmap]
    refine ⟨hlength, ?_⟩
    split_ifs with hratio <;> simp [hratio, Beatmap.beatCount]

/-- Five frames with two beats, at a rate that is half as high again: two boundaries come to be half
way between two frames, and the last one is at the new end. -/
theorem resampled_upward_two_beats :
    Recording.mono [0, 1, 0, 1, 0] 2 = .ok ⟨[[0, 1, 0, 1, 0]], 2⟩ ∧
      ofBoundaries ⟨[[0, 1, 0, 1, 0]], 2⟩ [2, 3, 5] =
        .ok ⟨⟨[[0, 1, 0, 1, 0]], 2⟩, ⟨[2, 3, 5], 5⟩⟩ ∧
      ∃ result, resampled ⟨⟨[[0, 1, 0, 1, 0]], 2⟩, ⟨[2, 3, 5], 5⟩⟩ 3 = .ok result ∧
        result.beatmap.beatCount = 2 ∧ result.beatmap.lastBoundary ≤ result.recording.frames ∧
        (result.beatmap.boundary 0 = 3 ∧ result.beatmap.boundary 1 = 5) ∧
        result.beatmap.boundary 2 = 8 := by
  have hrecording : Recording.mono [0, 1, 0, 1, 0] 2 = .ok ⟨[[0, 1, 0, 1, 0]], 2⟩ := by
    decide +kernel
  have hsong : ofBoundaries ⟨[[0, 1, 0, 1, 0]], 2⟩ [2, 3, 5] =
      .ok ⟨⟨[[0, 1, 0, 1, 0]], 2⟩, ⟨[2, 3, 5], 5⟩⟩ := by decide +kernel
  obtain ⟨result, hresult, hlast, hstretched, -⟩ :=
    resampled_upward (.mono hrecording) hsong (by decide) (show 2 ≤ 3 by decide) (by decide)
  obtain ⟨hcount, hboundary⟩ := hstretched (.inl (by decide))
  refine ⟨hrecording, hsong, result, hresult, hcount, hlast, ⟨?_, ?_⟩, ?_⟩
  · exact (hboundary 0 (by decide)).1.trans (by decide +kernel)
  · exact (hboundary 1 (by decide)).1.trans (by decide +kernel)
  · exact (hboundary 2 (by decide)).1.trans (by decide +kernel)

/-- **A single frame loses its beat** at twice the rate: it is not stretched, and the second boundary
would be past its end. -/
theorem resampled_beatCount_lt_one_frame :
    Recording.mono [0] 1 = .ok ⟨[[0]], 1⟩ ∧
      ofBoundaries ⟨[[0]], 1⟩ [0, 1] = .ok ⟨⟨[[0]], 1⟩, ⟨[0, 1], 1⟩⟩ ∧
      ∃ result, resampled ⟨⟨[[0]], 1⟩, ⟨[0, 1], 1⟩⟩ 2 = .ok result ∧
        result.recording.frames = 1 ∧ result.beatmap = ⟨[0], 1⟩ ∧
        result.beatmap.beatCount < (⟨[0, 1], 1⟩ : Beatmap).beatCount :=
  ⟨by decide +kernel, by decide +kernel, ⟨⟨[[0]], 2⟩, ⟨[0], 1⟩⟩, by decide +kernel, by decide,
    rfl, by decide⟩

end Song

end Arranger
