import Arranger.Pattern.Compiling
import Arranger.Plan.Resolving
import Arranger.Proofs.Beatmap.Window
import Arranger.Proofs.Number.Remainder
import Arranger.Proofs.Plan.Faults

/-!
# Wrapping beat numbers into a map

A beat number that is not on a map is reduced modulo a number of beats: one is taken away, the
Euclidean remainder is taken, and one is added again. All three steps round. Where the number is a
little below one, adding the remainder's divisor or one again can give the number after the last
beat, which is not on the map.

## Main results

* `Arranger.Beatmap.containsBeat_iff` — the beats on a map.
* `Arranger.wrapInto_spec`, `wrapInto_lt_iff` — the range of a reduced number, and when it is a
  beat.
* `Arranger.Beatmap.wrapBeat_spec` — the numbers that are wrapped into a map.
* `Arranger.Beatmap.wrapBeat_eq_error` — a number that is not wrapped into a map with beats.

## Implementation notes

The results are about maps of less than `2 ^ 52` beats. From there on the last place of the number
of beats is one or more.
-/

namespace Arranger

variable {beat : Double} {n : ℕ}

/-! ## One less -/

/-- From half of one on, what is below one is at an exact distance from it. -/
lemma value_sub_one (hbeat : beat.isFinite = true) (hhalf : 1 / 2 ≤ beat.value)
    (hbelow : beat.value < 1) : (beat - 1).value = beat.value - 1 := by
  rw [(Binary.sub_one_spec hbeat).2,
    Format.nearest_sub_one (Binary.representable_value beat) hhalf hbelow]

/-- What is less than a half is at least a half below one. -/
lemma value_sub_one_le (hbeat : beat.isFinite = true) (hlow : beat.value < 1 / 2) :
    (beat - 1).value ≤ -(1 / 2) := by
  have hgrid : Format.double.Representable ((-1 : ℤ) * 2 ^ (-1 : ℤ)) :=
    Format.representable_mul (by decide) (by decide)
  have hround := hgrid.nearest_le
    (by norm_num; linarith : beat.value - 1 ≤ (-1 : ℤ) * 2 ^ (-1 : ℤ))
  rw [← (Binary.sub_one_spec hbeat).2] at hround
  exact hround.trans (by norm_num)

/-- What is not below the next whole number is not below the number when one is taken away. -/
lemma le_value_sub_one (hbeat : beat.isFinite = true) (hn : n ≤ 2 ^ Format.double.precision)
    (habove : n + 1 ≤ beat.value) : n ≤ (beat - 1).value := by
  rw [(Binary.sub_one_spec hbeat).2]
  exact Format.natCast_le_nearest hn (le_sub_iff_add_le.mpr habove)

/-! ## Beats on a map -/

/-- The beats on a map are the finite numbers from one up to the number after the last beat. -/
lemma Beatmap.containsBeat_iff {map : Beatmap} (hcount : map.beatCount < 2 ^ 52)
    (hbeat : beat.isFinite = true) :
    map.containsBeat beat = true ↔ 1 ≤ beat.value ∧ beat.value < map.beatCount + 1 := by
  obtain ⟨hone, honeValue, -⟩ := Binary.one_spec Format.double
  obtain ⟨hsub, hsubValue⟩ := Binary.sub_one_spec hbeat
  have hshort : map.beatCount ≤ 2 ^ Format.double.precision :=
    hcount.le.trans (Nat.pow_le_pow_right two_pos (by decide))
  have hcountValue : (Binary.ofNat map.beatCount : Double).value = map.beatCount :=
    Binary.value_ofNat hshort
  rw [containsBeat_eq_true_iff, Binary.le_iff hone hbeat,
    Binary.lt_iff hsub (Binary.isFinite_ofNat hshort), honeValue, hsubValue, hcountValue]
  constructor
  · rintro ⟨-, hlow, hlt⟩
    refine ⟨hlow, ?_⟩
    by_contra hge
    have hle := le_value_sub_one hbeat hshort (not_lt.mp hge)
    rw [hsubValue] at hle
    exact absurd hlt (not_lt.mpr hle)
  · rintro ⟨hlow, hlt⟩
    refine ⟨hbeat, hlow, ?_⟩
    have hpos : 0 < map.beatCount := by
      have : (0 : ℚ) < map.beatCount := by linarith
      exact_mod_cast this
    obtain ⟨whole, one, h⟩ := exists_inUnits hpos hcount
    have hle := h.le_of_lt_add_one (Binary.representable_value beat) hlt
    have hmono := Format.double.nearest_mono
      (by linarith : beat.value - 1 ≤ map.beatCount - 2 ^ Format.double.lastPlace map.beatCount)
    rw [h.nearest_sub_unit] at hmono
    exact hmono.trans_lt (sub_lt_self _ (two_zpow_pos _))

/-! ## Wrapping -/

/-- The wrapped number is at least one and at most the number after the last beat. -/
lemma wrapInto_spec (hbeat : beat.isFinite = true) (hpos : 0 < n) (hn : n < 2 ^ 52) :
    (wrapInto n beat).isFinite = true ∧ 1 ≤ (wrapInto n beat).value ∧
      (wrapInto n beat).value ≤ n + 1 ∧
      (wrapInto n beat).value =
        Format.double.nearest (((beat - 1).euclidean (Binary.ofNat n)).value + 1) := by
  have hshort : n + 1 ≤ 2 ^ Format.double.precision :=
    hn.trans_le (Nat.pow_le_pow_right two_pos (by decide))
  obtain ⟨hone, honeValue, -⟩ := Binary.one_spec Format.double
  obtain ⟨hfinite, hlow, hhigh, -⟩ := Binary.euclidean_spec (Binary.sub_one_spec hbeat).1 hpos
    ((Nat.le_succ n).trans hshort)
  have habs : |((beat - 1).euclidean (Binary.ofNat n)).value + 1| ≤ ((n + 1 : ℕ) : ℚ) := by
    push_cast
    rw [abs_le]
    constructor <;> linarith
  obtain ⟨hsum, hvalue⟩ := Binary.roundSigned_of_abs_le hshort habs
    (((beat - 1).euclidean (Binary.ofNat n)).isNegative && (1 : Double).isNegative)
  rw [wrapInto, Binary.add_eq hfinite hone, honeValue, hvalue]
  refine ⟨hsum, ?_, ?_, rfl⟩
  · exact_mod_cast Format.natCast_le_nearest Nat.one_le_two_pow (by simpa using hlow)
  · exact_mod_cast Format.nearest_le_natCast hshort ((le_abs_self _).trans habs)

/-- **Where a number is not wrapped into the beats**: just below one.

**Proof sketch.** What is left of a large number is a whole number of last places of the divisor, so
that neither the sum with the divisor nor the sum with one is rounded up to the next whole number. A
small negative number is added to the divisor, and all depends on whether it is lost there. -/
lemma wrapInto_lt_iff (hbeat : beat.isFinite = true) (hpos : 0 < n) (hn : n < 2 ^ 52)
    (houtside : beat.value < 1 ∨ n + 1 ≤ beat.value) :
    (wrapInto n beat).value < n + 1 ↔ ¬ (beat.value < 1 ∧ IsLost n (1 - beat.value)) := by
  obtain ⟨whole, one, h⟩ := exists_inUnits hpos hn
  obtain ⟨hsub, -⟩ := Binary.sub_one_spec hbeat
  obtain ⟨-, -, -, hvalue⟩ := wrapInto_spec hbeat hpos hn
  have hone : (1 : ℚ) ≤ n := by exact_mod_cast hpos
  have hlarge : n ≤ |(beat - 1).value| → (wrapInto n beat).value < n + 1 := fun hle =>
    hvalue ▸ h.nearest_add_one_lt (Binary.euclidean_le hsub h hle)
  have hsmall : (beat - 1).value < 0 → -n < (beat - 1).value →
      ((wrapInto n beat).value < n + 1 ↔ ¬ IsLost n (-(beat - 1).value)) := fun hneg hlt => by
    rw [hvalue, Binary.euclidean_of_small hsub h.le_two_pow hneg hlt,
      ← h.add_one_le_nearest_iff, not_le]
  rcases houtside with hbelow | habove
  · rcases lt_or_ge beat.value (1 / 2) with hlow | hhalf
    · -- far below one nothing is lost
      have hfar := value_sub_one_le hbeat hlow
      refine iff_of_true ?_ fun hlost => h.not_isLost (by linarith) hlost.2
      rcases lt_or_ge (-n : ℚ) (beat - 1).value with hlt | hge
      · exact (hsmall (by linarith) hlt).mpr (h.not_isLost (by linarith))
      · exact hlarge (le_abs.mpr (.inr (le_neg_of_le_neg hge)))
    · have hexact := value_sub_one hbeat hhalf hbelow
      rw [hsmall (by linarith) (by linarith), hexact, neg_sub]
      exact not_congr (iff_and_self.mpr fun _ => hbelow)
  · have hge := le_value_sub_one hbeat h.le_two_pow habove
    refine iff_of_true (hlarge (hge.trans (le_abs_self _))) fun hlost => ?_
    linarith [hlost.1]

/-- A number that is not wrapped into the beats is not wrapped into as many numbers, or more,
either. -/
lemma add_one_le_wrapInto (hbeat : beat.isFinite = true) (hpos : 0 < n) (hn : n < 2 ^ 52)
    (hbelow : beat.value < 1) (hlost : IsLost n (1 - beat.value)) {size : ℕ} (hsize : n ≤ size)
    (hfinite : (wrapInto size beat).isFinite = true) :
    (n : ℚ) + 1 ≤ (wrapInto size beat).value := by
  obtain ⟨whole, one, h⟩ := exists_inUnits hpos hn
  obtain ⟨hsub, -⟩ := Binary.sub_one_spec hbeat
  obtain ⟨hone, honeValue, -⟩ := Binary.one_spec Format.double
  have hle : (1 : ℚ) ≤ n := by exact_mod_cast hpos
  have hhalf : 1 / 2 ≤ beat.value := by
    by_contra hlow
    exact h.not_isLost (by linarith) hlost
  have hexact := value_sub_one hbeat hhalf hbelow
  rw [wrapInto] at hfinite ⊢
  obtain ⟨heuclidean, -⟩ := Binary.isFinite_of_isFinite_add hfinite
  have hgrows :=
    Binary.le_euclidean hsub h.le_two_pow (by linarith) (by linarith) hsize heuclidean
  rw [hexact, neg_sub] at hgrows
  rw [Binary.add_eq heuclidean hone, honeValue] at hfinite ⊢
  rw [Binary.value_roundSigned hfinite]
  exact (h.add_one_le_nearest_iff.mpr hlost).trans
    (Format.double.nearest_mono (add_le_add_left hgrows 1))

namespace Beatmap

variable {map : Beatmap}

/-- A beat on a map is finite. -/
lemma isFinite_of_containsBeat (h : map.containsBeat beat = true) : beat.isFinite = true :=
  (containsBeat_eq_true_iff.mp h).1

/-- A number is wrapped into the beats of a map, unless it is lost just below one. -/
lemma containsBeat_wrapInto (hcount : map.beatCount < 2 ^ 52) (hpos : 0 < map.beatCount)
    (hbeat : beat.isFinite = true) (hbeyond : map.containsBeat beat = false) :
    map.containsBeat (wrapInto map.beatCount beat) = true ↔
      ¬ (beat.value < 1 ∧ IsLost map.beatCount (1 - beat.value)) := by
  have houtside : beat.value < 1 ∨ (map.beatCount : ℚ) + 1 ≤ beat.value := by
    rw [← Bool.not_eq_true, containsBeat_iff hcount hbeat, not_and_or, not_le, not_lt] at hbeyond
    exact hbeyond
  obtain ⟨hfinite, hlow, -, -⟩ := wrapInto_spec hbeat hpos hcount
  rw [containsBeat_iff hcount hfinite, ← wrapInto_lt_iff hbeat hpos hcount houtside]
  exact and_iff_right hlow

/-- A number is wrapped into the beats of a map modulo any smaller number. Modulo any other one it
is not wrapped if it is lost. -/
lemma containsBeat_wrapInto_size (hcount : map.beatCount < 2 ^ 52) (hpos : 0 < map.beatCount)
    (hbeat : beat.isFinite = true) {size : ℕ} (hsize : 0 < size) :
    (size < map.beatCount → map.containsBeat (wrapInto size beat) = true) ∧
      (map.beatCount ≤ size → beat.value < 1 → IsLost map.beatCount (1 - beat.value) →
        map.containsBeat (wrapInto size beat) = false) := by
  constructor
  · intro hlt
    obtain ⟨hfinite, hlow, hhigh, -⟩ := wrapInto_spec hbeat hsize (hlt.trans hcount)
    rw [containsBeat_iff hcount hfinite]
    have hcast : (size : ℚ) < map.beatCount := by exact_mod_cast hlt
    exact ⟨hlow, by linarith⟩
  · intro hle hbelow hlost
    by_contra hcontains
    rw [Bool.not_eq_false] at hcontains
    have hfinite := isFinite_of_containsBeat hcontains
    have hge := add_one_le_wrapInto hbeat hpos hcount hbelow hlost hle hfinite
    exact absurd ((containsBeat_iff hcount hfinite).mp hcontains).2 (not_lt.mpr hge)

/-- What a number that is not on a map is wrapped into. -/
lemma exists_wrapBeat_iff {size : ℕ} (hbeyond : map.containsBeat beat = false) :
    (∃ wrapped, map.wrapBeat size beat = .ok wrapped) ↔
      beat.isFinite = true ∧ 0 < map.beatCount ∧
        (0 < size ∧ map.containsBeat (wrapInto size beat) = true ∨
          map.containsBeat (wrapInto map.beatCount beat) = true) := by
  rw [wrapBeat, if_neg (Bool.eq_false_iff.mp hbeyond)]
  rcases hbeat : beat.isFinite
  · simp
  · rcases Nat.eq_zero_or_pos map.beatCount with hnone | hpos
    · simp [hnone]
    · simp only [Bool.not_true, Bool.false_or, decide_eq_true_iff, hpos.ne', if_false, true_and,
        Bool.and_eq_true, hpos]
      split_ifs with hlevel hwhole
      · exact iff_of_true ⟨_, rfl⟩ (.inl hlevel)
      · exact iff_of_true ⟨_, rfl⟩ (.inr hwhole)
      · exact iff_of_false (by rintro ⟨_, ⟨⟩⟩) (not_or.mpr ⟨hlevel, hwhole⟩)

/-- **Wrapping a beat number.** What a beat number is wrapped into is on the map, and a fault names
the beat number and the number of beats. On a map of less than `2 ^ 52` beats, a beat number is
wrapped into one just if it is finite, there are beats, and it is not one of the numbers just below
one whose distance from one is lost at the number of beats. Those are wrapped only if the pattern
counts fewer steps than the map has beats, but some. -/
theorem wrapBeat_spec (map : Beatmap) (hcount : map.beatCount < 2 ^ 52) (size : ℕ) (beat : Double) :
    (∀ wrapped, map.wrapBeat size beat = .ok wrapped → map.containsBeat wrapped = true) ∧
      (∀ fault, map.wrapBeat size beat = .error fault →
        fault = .beatOutOfRange beat map.beatCount) ∧
      ((∃ wrapped, map.wrapBeat size beat = .ok wrapped) ↔
        beat.isFinite = true ∧ 0 < map.beatCount ∧
          ¬ (beat.value < 1 ∧ IsLost map.beatCount (1 - beat.value) ∧
            (size = 0 ∨ map.beatCount ≤ size))) := by
  refine ⟨fun _ => containsBeat_of_wrapBeat, fun _ => eq_of_wrapBeat_error, ?_⟩
  rcases hinside : map.containsBeat beat with _ | _
  · rw [exists_wrapBeat_iff hinside]
    refine and_congr_right fun hbeat => and_congr_right fun hpos => ?_
    have hwhole := containsBeat_wrapInto hcount hpos hbeat hinside
    by_cases hlost : beat.value < 1 ∧ IsLost map.beatCount (1 - beat.value)
    · -- only the number of steps of the pattern can help
      rw [hwhole, or_iff_left (not_not_intro hlost)]
      constructor
      · rintro ⟨hsize, hlevel⟩ ⟨hbelow, hfar, hlarge⟩
        rw [(containsBeat_wrapInto_size hcount hpos hbeat hsize).2 (by omega) hbelow hfar] at hlevel
        cases hlevel
      · intro hsmall
        have hsize : 0 < size ∧ size < map.beatCount := by
          by_contra hlarge
          exact hsmall ⟨hlost.1, hlost.2, by omega⟩
        exact ⟨hsize.1, (containsBeat_wrapInto_size hcount hpos hbeat hsize.1).1 hsize.2⟩
    · exact iff_of_true (.inr (hwhole.mpr hlost)) fun h => hlost ⟨h.1, h.2.1⟩
  · -- the number is a beat itself
    have hbeat := isFinite_of_containsBeat hinside
    obtain ⟨hlow, hhigh⟩ := (containsBeat_iff hcount hbeat).mp hinside
    have hpos : (0 : ℚ) < map.beatCount := by linarith
    refine iff_of_true ⟨beat, by rw [wrapBeat, if_pos hinside]⟩ ⟨hbeat, by exact_mod_cast hpos, ?_⟩
    exact fun hlost => absurd hlost.1 (not_lt.mpr hlow)

/-- On three beats the largest number below one is not wrapped by a pattern of three steps, but by
one of two. -/
theorem wrapBeat_spec_three_beats :
    ∃ (map : Beatmap) (beat : Double), map.beatCount = 3 ∧ map.beatCount < 2 ^ 52 ∧
      beat.isFinite = true ∧ 1 - beat.value = 2 ^ (-53 : ℤ) ∧
      (∃ wrapped, map.wrapBeat 2 beat = .ok wrapped ∧ map.containsBeat wrapped = true) ∧
      map.wrapBeat 3 beat = .error (.beatOutOfRange beat 3) := by
  have hcanonical : Format.double.Canonical (2 ^ 53 - 1) (-53) := by decide
  have hvalue : (Binary.finite false _ _ hcanonical : Double).value = 1 - 2 ^ (-53 : ℤ) := by
    rw [Binary.value_finite]
    norm_num
  obtain ⟨hinside, -, hsmaller⟩ := wrapBeat_spec ⟨[0, 1, 2, 3], 3⟩ (by decide) 2
    (.finite false _ _ hcanonical)
  obtain ⟨-, hfault, hsame⟩ := wrapBeat_spec ⟨[0, 1, 2, 3], 3⟩ (by decide) 3
    (.finite false _ _ hcanonical)
  refine ⟨⟨[0, 1, 2, 3], 3⟩, .finite false _ _ hcanonical, rfl, by decide, rfl, ?_, ?_, ?_⟩
  · rw [hvalue, sub_sub_cancel]
  · obtain ⟨wrapped, hwrapped⟩ := hsmaller.mpr ⟨rfl, by decide, fun h => absurd h.2.2 (by decide)⟩
    exact ⟨wrapped, hwrapped, hinside wrapped hwrapped⟩
  · have hlost : IsLost 3 (2 ^ (-53 : ℤ)) := by
      have hplace := lastPlace_natCast three_pos
      rw [show Nat.log2 3 = 1 by decide] at hplace
      rw [IsLost, hplace]
      norm_num
    rcases hwrapped : Beatmap.wrapBeat ⟨[0, 1, 2, 3], 3⟩ 3 (.finite false _ _ hcanonical)
      with fault | wrapped
    · rw [hfault fault hwrapped]
      rfl
    · refine absurd ⟨?_, ?_, .inr le_rfl⟩ (hsame.mp ⟨wrapped, hwrapped⟩).2.2
      · rw [hvalue]
        norm_num
      · rw [hvalue, sub_sub_cancel]
        exact hlost

/-- The largest number below one is not wrapped into a map of one beat. -/
theorem wrapBeat_eq_error :
    ∃ (map : Beatmap) (size : ℕ) (beat : Double), map.Made ∧ 1 ≤ map.beatCount ∧
      Pattern.ofText "0.9999999999999999" = .ok ⟨[.single ⟨none, { ref := .literal beat }⟩]⟩ ∧
      beat.isFinite = true ∧
      map.wrapBeat size beat = .error (.beatOutOfRange beat map.beatCount) := by
  have hmade : Beatmap.build [0, 1] 1 = .ok ⟨[0, 1], 1⟩ := by decide
  refine ⟨⟨[0, 1], 1⟩, 0, .finite false (2 ^ 53 - 1) (-53) (by decide), .build hmade, by decide,
    ?_, rfl, ?_⟩
  · decide +kernel
  · decide +kernel

end Beatmap

end Arranger
