import Arranger.Proofs.Beatmap.Positions

/-!
# Windows of beats

On a recording that is not too long, the frames of a beat are between the first boundary and the
last, and whole beats are the stretches between two boundaries.

## Main results

* `Arranger.Beatmap.containsBeat_eq_true_iff` — the beats on a map.
* `Arranger.Beatmap.containsBeat_ofNat` — which whole numbers are beats.
* `Arranger.Beatmap.WellFormed.window?_within` — the frames of a beat are within the boundaries.
* `Arranger.Beatmap.WellFormed.slice?_eq` — the frames between two beats.
* `Arranger.Beatmap.WellFormed.window?_ofNat` — the frames of a whole beat.
-/

namespace Arranger

namespace Beatmap

variable {map : Beatmap}

/-! ## Beats -/

/-- The beats on a map are the finite numbers from one on that come below the number of beats when
one is taken away. -/
lemma containsBeat_eq_true_iff {beat : Double} : map.containsBeat beat = true ↔
    beat.isFinite = true ∧ 1 ≤ beat ∧ beat - 1 < Binary.ofNat map.beatCount := by
  rw [containsBeat, Bool.and_eq_true, Bool.and_eq_true, decide_eq_true_iff, decide_eq_true_iff,
    and_assoc]

/-- **The frames of a beat are between the first boundary and the last**, and they do not end before
they start. -/
lemma WellFormed.window?_within (h : map.WellFormed)
    (hlength : map.sourceLength ≤ 2 ^ Format.double.precision) {beat : Double} {start stop : ℕ}
    (hwindow : map.window? beat = some (start, stop)) :
    map.boundary 0 ≤ start ∧ start ≤ stop ∧ stop ≤ map.lastBoundary := by
  rw [window?] at hwindow
  split_ifs at hwindow with hbeat
  cases hwindow
  obtain ⟨hfinite, -, hbelow⟩ := containsBeat_eq_true_iff.mp hbeat
  obtain ⟨hlow, hfirst⟩ := h.nearestFrame_within hlength (Binary.ne_nan_of_lt hbelow)
  obtain ⟨-, hsecond⟩ := h.nearestFrame_within hlength (Binary.ne_nan hfinite)
  exact ⟨hlow, le_max_right _ _, max_le hsecond hfirst⟩

/-- **The frames between two beats** are those nearest to the positions of the beats. They are in
order and not past the last boundary. The later beat may be anything, also infinity. -/
lemma WellFormed.slice?_eq (h : map.WellFormed)
    (hlength : map.sourceLength ≤ 2 ^ Format.double.precision) {first last : Double}
    (hfirst : map.containsBeat first = true) (hlt : first < last) :
    map.slice? first last = some (map.nearestFrame (first - 1), map.nearestFrame (last - 1)) ∧
      map.nearestFrame (first - 1) ≤ map.nearestFrame (last - 1) ∧
      map.nearestFrame (last - 1) ≤ map.lastBoundary := by
  obtain ⟨hfinite, -, hbelow⟩ := containsBeat_eq_true_iff.mp hfirst
  obtain ⟨hne, hle⟩ := Binary.sub_one_le_sub_one hfinite hlt
  have hmono := h.nearestFrame_mono hlength (Binary.ne_nan_of_lt hbelow) hne hle
  refine ⟨?_, hmono, (h.nearestFrame_within hlength hne).2⟩
  rw [slice?, hfirst, decide_eq_true hlt, Bool.and_self, if_pos rfl, stretch, max_eq_left hmono]

/-! ## Whole beats -/

/-- A number that is too long for the format does not come down to a short one when one is taken
away. -/
lemma not_sub_one_lt {m n : ℕ} (hm : 2 ^ Format.double.precision ≤ m)
    (hn : n < 2 ^ Format.double.precision) (hfinite : (Binary.ofNat m : Double).isFinite = true) :
    ¬ (Binary.ofNat m : Double) - 1 < Binary.ofNat n := by
  have hone := Binary.ofNat_spec Format.double (n := 1) (by decide)
  have hn' := Binary.ofNat_spec Format.double hn.le
  rcases Binary.ofNat_of_two_pow_le Format.double hm with hinfinite | ⟨_, hvalue⟩
  · rw [hinfinite] at hfinite
    cases hfinite
  rw [← Binary.ofNat_one, Binary.sub_eq hfinite hone.1, hone.2.1]
  set q := (Binary.ofNat m : Double).value - (1 : ℕ) with hq
  set longest := 2 ^ Format.double.precision - 1 with hlongest
  have hbelow : (longest : ℚ) ≤ q := by
    rw [hlongest, Nat.cast_sub (by decide), hq]
    push_cast
    linarith
  have hnearest := Format.natCast_le_nearest (Nat.sub_le _ _) hbelow
  rcases lt_or_ge |Format.double.nearest q| Format.double.limit with hlt | hge
  · obtain ⟨hround, hroundValue, _⟩ := Binary.roundSigned_of_lt
      ((Binary.ofNat m : Double).isNegative && !(Binary.ofNat 1 : Double).isNegative) hlt
    rw [Binary.lt_iff hround hn'.1, hroundValue, hn'.2.1, not_lt]
    refine le_trans ?_ hnearest
    exact_mod_cast (by omega : n ≤ longest)
  · have hpositive : ¬ q < 0 := not_lt.mpr (le_trans (by positivity) hbelow)
    rw [Binary.roundSigned_of_le _ hge, decide_eq_false hpositive]
    intro hless
    change Binary.blt _ _ = true at hless
    cases hy : (Binary.ofNat n : Double) <;> rw [hy] at hless <;> cases hless

/-- **The whole numbers from one up to the number of beats are beats**, and no others are. -/
lemma containsBeat_ofNat (hcount : map.beatCount < 2 ^ Format.double.precision) {m : ℕ} :
    map.containsBeat (Binary.ofNat m) = true ↔ 1 ≤ m ∧ m ≤ map.beatCount := by
  rw [containsBeat_eq_true_iff]
  rcases Nat.lt_or_ge m (2 ^ Format.double.precision) with hm | hm
  · rw [← Binary.ofNat_one, Binary.ofNat_le_iff (by decide) hm.le]
    constructor
    · rintro ⟨_, hone, hlt⟩
      rw [Binary.ofNat_sub hone hm.le, Binary.ofNat_lt_iff (by omega) hcount.le] at hlt
      omega
    · rintro ⟨hone, hle⟩
      rw [Binary.ofNat_sub hone hm.le, Binary.ofNat_lt_iff (by omega) hcount.le]
      exact ⟨Binary.isFinite_ofNat hm.le, hone, by omega⟩
  · constructor
    · rintro ⟨hfinite, _, hlt⟩
      exact absurd hlt (not_sub_one_lt hm hcount hfinite)
    · rintro ⟨_, hle⟩
      omega

/-- **A whole beat is the stretch between two boundaries.** -/
lemma WellFormed.window?_ofNat (h : map.WellFormed)
    (hlength : map.sourceLength < 2 ^ Format.double.precision) {k : ℕ} (hk : k < map.beatCount) :
    map.window? (Binary.ofNat (k + 1)) = some (map.boundary k, map.boundary (k + 1)) := by
  have hcount := h.beatCount_le.trans_lt hlength
  have hsub : (Binary.ofNat (k + 1) - 1 : Double) = Binary.ofNat k := by
    rw [← Binary.ofNat_one, Binary.ofNat_sub (by omega) (by omega)]
    rfl
  have hframe : ∀ j ≤ map.beatCount, map.nearestFrame (Binary.ofNat j) = map.boundary j :=
    fun j hj => h.nearestFrame_of_value_eq hlength.le (Binary.isFinite_ofNat (by omega)) hj
      (Binary.value_ofNat (by omega))
  unfold window? stretch
  rw [if_pos ((containsBeat_ofNat hcount).mpr ⟨by omega, by omega⟩), hsub, hframe k (by omega),
    hframe (k + 1) (by omega)]
  dsimp only
  rw [max_eq_left (h.boundary_lt hk).le]

end Beatmap

end Arranger
