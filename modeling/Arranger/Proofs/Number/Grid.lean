import Arranger.Proofs.Number.Magnitude

/-!
# Rounding on the grid of a last place

Between two neighbouring powers of two the numbers of a format are the multiples of one last place.
What lies between two of them is rounded to the nearer one, and what lies half way to the even one.

The last part is about a whole number of less than `2 ^ 52`, which is a whole number of its last
places. Whether a distance below it is lost in a sum decides whether one more is the next number.

## Main definitions

* `Arranger.InUnits` — a whole number and one as multiples of the last place of the whole number.
* `Arranger.IsLost` — whether a distance below a whole number is lost.

## Main results

* `Arranger.Format.lastPlace_eq` — the last place of the magnitudes with a given leading digit.
* `Arranger.Format.nearest_half`, `le_nearest_of_half_lt`, `nearest_le_of_lt_half` — rounding half
  way between two numbers, above it and below it.
* `Arranger.Format.exists_intCast_of_le_abs` — larger numbers are on the grid of smaller ones.
* `Arranger.Format.nearest_sub_one` — from half of one on, one is taken away without rounding.
* `Arranger.Format.nearest_add_half_le` — half of one more than a whole number is not rounded up.
* `Arranger.Format.limit_le_abs_nearest_iff` — what is rounded to the limit of a format or beyond it.
* `Arranger.Binary.roundSigned_of_abs_le` — what is no larger than a short whole number is rounded
  to a finite number.
* `Arranger.Binary.roundSigned_of_le_limit` — what is at most three quarters of the limit is, too.
* `Arranger.Binary.mul_spec`, `div_spec` — products and quotients that are not too large.
* `Arranger.Binary.sub_one_le_sub_one` — one may be taken away from both sides of an inequality.
* `Arranger.exists_inUnits` — whole numbers of less than `2 ^ 52` are multiples of their last place.
* `Arranger.InUnits.add_one_le_nearest_iff` — a distance is lost just if the rounded sum with one is
  the next whole number.
-/

namespace Arranger

/-- A power of two is twice the one before it. -/
lemma two_zpow_eq_two_mul (p : ℤ) : (2 : ℚ) ^ p = 2 * 2 ^ (p - 1) := by
  rw [← zpow_one_add₀ two_ne_zero, add_sub_cancel]

/-- Half way between two integers the even one is the nearest. -/
lemma roundHalfEven_half (j : ℤ) : roundHalfEven (j + 1 / 2) = j + j % 2 := by
  have hfloor : ((j : ℚ) + 1 / 2).floor = j := floor_eq_of_bounds (by linarith) (by linarith)
  simp only [roundHalfEven, hfloor, add_sub_cancel_left]
  norm_num

/-- Above the half way the greater integer is the nearest. -/
lemma roundHalfEven_of_half_lt {j : ℤ} {q : ℚ} (hlow : j + 1 / 2 < q) (hhigh : q < j + 1) :
    roundHalfEven q = j + 1 := by
  have hfloor : q.floor = j := floor_eq_of_bounds (by linarith) hhigh
  simp only [roundHalfEven, hfloor]
  rw [if_neg (by linarith), if_pos (by linarith)]

/-- Below the half way the smaller integer is the nearest. -/
lemma roundHalfEven_of_lt_half {j : ℤ} {q : ℚ} (hlow : j ≤ q) (hhigh : q < j + 1 / 2) :
    roundHalfEven q = j := by
  have hfloor : q.floor = j := floor_eq_of_bounds hlow (by linarith)
  simp only [roundHalfEven, hfloor]
  rw [if_pos (by linarith)]

namespace Format

variable {format : Format} [format.Regular] {p j : ℤ} {q : ℚ}

/-! ## The grid -/

omit [format.Regular] in
/-- The last place of the magnitudes with a given leading digit. -/
lemma lastPlace_eq (hp : format.minExponent ≤ p)
    (hlow : 2 ^ (format.precision - 1 : ℤ) * 2 ^ p ≤ q)
    (hhigh : q < 2 ^ (format.precision : ℤ) * 2 ^ p) : format.lastPlace q = p := by
  rw [← two_zpow_add] at hlow hhigh
  have hlog : floorLog2 q = format.precision - 1 + p := by
    refine floorLog2_eq hlow ?_
    rwa [show (format.precision : ℤ) - 1 + p + 1 = format.precision + p by ring]
  rw [lastPlace, hlog]
  omega

omit [format.Regular] in
/-- Short multiples of a last place are representable. -/
lemma representable_mul (hp : format.minExponent ≤ p) (hj : |j| ≤ 2 ^ format.precision) :
    format.Representable (j * 2 ^ p) := by
  rw [Int.abs_eq_natAbs] at hj
  refine ⟨j.natAbs, p, by exact_mod_cast hj, hp, ?_⟩
  rw [abs_mul, abs_of_pos (two_zpow_pos p), Nat.cast_natAbs, Int.cast_abs]

/-- A representable magnitude is on the grid of every smaller one. -/
lemma exists_intCast_of_le_abs {n : ℚ} (hn : 0 < n) (hq : format.Representable q) (h : n ≤ |q|) :
    ∃ k : ℤ, q = k * 2 ^ format.lastPlace n := by
  have hpos : 0 < |q| := lt_of_lt_of_le hn h
  obtain ⟨m, hm⟩ := exists_natCast_of_representable hpos (by rwa [Representable, abs_abs])
  have hmono : format.lastPlace n ≤ format.lastPlace |q| :=
    max_le_max le_rfl (Int.sub_le_sub_right (floorLog2_mono hn h) _)
  obtain ⟨i, hi⟩ := Int.eq_ofNat_of_zero_le (Int.sub_nonneg.mpr hmono)
  have hgrid : |q| = (m * 2 ^ i : ℤ) * 2 ^ format.lastPlace n := by
    conv_lhs => rw [hm, show format.lastPlace |q| = i + format.lastPlace n by omega, two_zpow_add,
      two_zpow_natCast]
    push_cast
    ring
  rcases abs_choice q with heq | heq
  · exact ⟨m * 2 ^ i, by rw [← hgrid, heq]⟩
  · refine ⟨-(m * 2 ^ i), ?_⟩
    rw [Int.cast_neg, neg_mul, ← hgrid, heq, neg_neg]

/-- A number not far below one is at an exact distance from it. -/
lemma nearest_sub_one (hq : Format.double.Representable q) (hlow : 1 / 2 ≤ q) (hhigh : q < 1) :
    Format.double.nearest (q - 1) = q - 1 := by
  have hplace : Format.double.lastPlace (1 / 2) = -53 :=
    lastPlace_eq (by decide) (by norm_num [double]) (by norm_num [double])
  obtain ⟨k, hk⟩ := exists_intCast_of_le_abs (by norm_num) hq (hlow.trans (le_abs_self q))
  rw [hplace] at hk
  have hone : (1 : ℚ) = (2 ^ 53 : ℤ) * 2 ^ (-53 : ℤ) := by norm_num
  have hunit := two_zpow_pos (-53)
  have hgrid : q - 1 = (k - 2 ^ 53 : ℤ) * 2 ^ (-53 : ℤ) := by
    rw [Int.cast_sub, sub_mul, ← hk, ← hone]
  have hk0 : 0 ≤ k := by
    have hnonneg : 0 ≤ (k : ℚ) * 2 ^ (-53 : ℤ) := hk ▸ by linarith
    exact_mod_cast nonneg_of_mul_nonneg_left hnonneg hunit
  have hk1 : k < 2 ^ 53 := by
    have hlt : (k : ℚ) * 2 ^ (-53 : ℤ) < (2 ^ 53 : ℤ) * 2 ^ (-53 : ℤ) := by
      rw [← hk, ← hone]
      exact hhigh
    exact_mod_cast lt_of_mul_lt_mul_right hlt hunit.le
  rw [hgrid]
  exact nearest_of_representable (representable_mul (by decide)
    (show |k - 2 ^ 53| ≤ 2 ^ 53 from abs_le.mpr ⟨by omega, by omega⟩))

/-! ## Between two numbers -/

section Between

variable (hp : format.minExponent ≤ p) (hlow : 2 ^ (format.precision - 1) ≤ j)
  (hhigh : j < 2 ^ format.precision)

include hp hlow hhigh

/-- What lies between two neighbours is rounded in units of their last place. -/
lemma nearest_eq_mul (hle : j * 2 ^ p ≤ q) (hlt : q < (j + 1) * 2 ^ p) :
    format.nearest q = roundHalfEven (q / 2 ^ p) * 2 ^ p := by
  have hplace := two_zpow_pos p
  have hprecision := format.one_le_precision
  have hlow' : (2 : ℚ) ^ (format.precision - 1 : ℤ) ≤ j := by
    rw [show (format.precision - 1 : ℤ) = ((format.precision - 1 : ℕ) : ℤ) by omega,
      two_zpow_natCast]
    exact_mod_cast hlow
  have hhigh' : (j : ℚ) + 1 ≤ 2 ^ (format.precision : ℤ) := by
    rw [two_zpow_natCast]
    exact_mod_cast hhigh
  have hlast : format.lastPlace q = p :=
    lastPlace_eq hp ((mul_le_mul_of_nonneg_right hlow' hplace.le).trans hle)
      (hlt.trans_le (mul_le_mul_of_nonneg_right hhigh' hplace.le))
  have hpos : 0 ≤ q := le_trans (mul_nonneg ((two_zpow_pos _).le.trans hlow') hplace.le) hle
  rw [nearest, if_neg (not_lt.mpr hpos), nearestMagnitude, hlast]

/-- **Half way between two neighbours** the one with the even significand is the nearest. -/
lemma nearest_half : format.nearest ((j + 1 / 2) * 2 ^ p) = (j + j % 2 : ℤ) * 2 ^ p := by
  have hplace := two_zpow_pos p
  rw [nearest_eq_mul hp hlow hhigh (mul_le_mul_of_nonneg_right (by linarith) hplace.le)
    (mul_lt_mul_of_pos_right (by linarith) hplace), mul_div_cancel_right₀ _ hplace.ne',
    roundHalfEven_half]

/-- What lies above the half way is not rounded below the greater neighbour. -/
lemma le_nearest_of_half_lt (h : (j + 1 / 2) * 2 ^ p < q) :
    (j + 1 : ℤ) * 2 ^ p ≤ format.nearest q := by
  have hplace := two_zpow_pos p
  rcases lt_or_ge q ((j + 1) * 2 ^ p) with hlt | hge
  · have hle : (j : ℚ) * 2 ^ p ≤ q :=
      (mul_le_mul_of_nonneg_right (by linarith) hplace.le).trans h.le
    rw [nearest_eq_mul hp hlow hhigh hle hlt,
      roundHalfEven_of_half_lt ((lt_div_iff₀ hplace).mpr h) ((div_lt_iff₀ hplace).mpr hlt)]
  · have hnonneg : 0 ≤ j := (pow_nonneg zero_le_two _).trans hlow
    have hgrid : |j + 1| ≤ 2 ^ format.precision := by
      rw [abs_of_nonneg (by omega)]
      exact hhigh
    exact (representable_mul hp hgrid).le_nearest (by exact_mod_cast hge)

/-- What lies below the half way is not rounded above the smaller neighbour. -/
lemma nearest_le_of_lt_half (h : q < (j + 1 / 2) * 2 ^ p) :
    format.nearest q ≤ j * 2 ^ p := by
  have hplace := two_zpow_pos p
  rcases lt_or_ge q (j * 2 ^ p) with hlt | hge
  · have hgrid : |j| ≤ 2 ^ format.precision := by
      rw [abs_of_nonneg ((pow_nonneg zero_le_two _).trans hlow)]
      exact hhigh.le
    exact (representable_mul hp hgrid).nearest_le hlt.le
  · have hlt : q < (j + 1) * 2 ^ p :=
      h.trans (mul_lt_mul_of_pos_right (by linarith) hplace)
    rw [nearest_eq_mul hp hlow hhigh hge hlt,
      roundHalfEven_of_lt_half ((le_div_iff₀ hplace).mpr hge) ((div_lt_iff₀ hplace).mpr h)]

end Between

/-- Half of one more than a short whole number is not rounded up. -/
lemma nearest_add_half_le {n : ℕ} (hn : n ≤ 2 ^ 52) :
    Format.double.nearest (n + 1 / 2) ≤ n + 1 / 2 := by
  rcases hn.lt_or_eq with hlt | heq
  · have hdigits : |2 * (n : ℤ) + 1| ≤ 2 ^ 53 := abs_le.mpr ⟨by omega, by omega⟩
    have hgrid : (n : ℚ) + 1 / 2 = (2 * n + 1 : ℤ) * 2 ^ (-1 : ℤ) := by
      push_cast
      ring
    have hrepresentable : Format.double.Representable (n + 1 / 2) :=
      hgrid ▸ representable_mul (by decide) hdigits
    rw [nearest_of_representable hrepresentable]
  · -- the half is lost, as the last of the digits is one
    have hhalf : Format.double.nearest (((2 ^ 52 : ℤ) + 1 / 2) * 2 ^ (0 : ℤ)) =
        ((2 ^ 52 : ℤ) + (2 ^ 52 : ℤ) % 2 : ℤ) * 2 ^ (0 : ℤ) :=
      nearest_half (by decide) (by decide) (by decide)
    have hcast : (n : ℚ) = (2 ^ 52 : ℤ) := by
      rw [heq]
      norm_num
    rw [zpow_zero, mul_one, mul_one, ← hcast] at hhalf
    rw [hhalf, hcast]
    norm_num

/-! ## The limit -/

/-- The limit is far above the words that are counted with. -/
lemma two_pow_le_double_limit : (2 : ℚ) ^ 70 ≤ double.limit := by
  exact_mod_cast two_zpow_le_iff (a := 70).mpr (by decide)

/-- A quarter of the limit is a power of two. -/
lemma double_limit_eq : double.limit = 4 * 2 ^ (1022 : ℤ) := by
  rw [show (4 : ℚ) = 2 ^ (2 : ℤ) by norm_num, ← two_zpow_add, Format.limit]
  congr 1

/-- The limit is reached from half way between the largest number and it on. -/
lemma limit_le_abs_nearest_iff : format.limit ≤ |format.nearest q| ↔
    (2 ^ format.precision - 1 / 2) * 2 ^ format.maxExponent ≤ |q| := by
  have hprecision := format.one_le_precision
  have hplace := two_zpow_pos format.maxExponent
  have hp := format.minExponent_le_maxExponent
  obtain ⟨k, hk⟩ := Nat.exists_eq_add_of_le' hprecision
  have hone : (1 : ℤ) ≤ 2 ^ k := one_le_pow₀ one_le_two
  have hlow : (2 : ℤ) ^ (format.precision - 1) ≤ 2 ^ format.precision - 1 := by
    rw [hk, Nat.add_sub_cancel, pow_succ]
    omega
  have hhigh : (2 : ℤ) ^ format.precision - 1 < 2 ^ format.precision := Int.sub_one_lt_of_le le_rfl
  have hodd : ((2 : ℤ) ^ format.precision - 1) % 2 = 1 := by
    rw [hk, pow_succ]
    omega
  have hmiddle : (2 ^ format.precision - 1 / 2 : ℚ) = ((2 ^ format.precision - 1 : ℤ) : ℚ) + 1 / 2 := by
    push_cast
    ring
  have hlimit : format.limit = ((2 ^ format.precision - 1 + 1 : ℤ) : ℚ) * 2 ^ format.maxExponent := by
    rw [limit, two_zpow_add, two_zpow_natCast, sub_add_cancel]
    push_cast
    rfl
  have habs : |format.nearest q| = format.nearest |q| := by
    rw [abs_nearest, nearest, if_neg (not_lt.mpr (abs_nonneg q))]
  rw [habs, hmiddle]
  constructor
  · intro h
    by_contra hlt
    have hbelow := nearest_le_of_lt_half hp hlow hhigh (not_le.mp hlt)
    have hstep : (((2 ^ format.precision - 1 : ℤ) : ℚ)) * 2 ^ format.maxExponent < format.limit := by
      rw [hlimit]
      exact mul_lt_mul_of_pos_right (by push_cast; linarith) hplace
    linarith
  · intro h
    have hhalf := nearest_half hp hlow hhigh
    rw [hodd, ← hlimit] at hhalf
    exact hhalf.symm.le.trans (format.nearest_mono h)

/-- Quarters of the limit are numbers of the format. -/
lemma representable_quarters {quarters : ℤ} (h : |quarters| ≤ 2 ^ 53) :
    double.Representable (double.limit * (quarters / 4)) := by
  have hexact : double.limit * (quarters / 4) = quarters * 2 ^ (1022 : ℤ) := by
    rw [double_limit_eq]
    generalize (2 : ℚ) ^ (1022 : ℤ) = place
    ring
  rw [hexact]
  exact representable_mul (by decide) h

end Format

namespace Binary

variable {format : Format} [format.Regular] {x : Binary format} {q : ℚ}

omit [format.Regular] in
/-- The value of a number is representable. -/
lemma representable_value (x : Binary format) : format.Representable x.value := by
  cases x with
  | nan => exact ⟨0, format.minExponent, Nat.zero_le _, le_rfl, by simp [value]⟩
  | infinite s => exact ⟨0, format.minExponent, Nat.zero_le _, le_rfl, by simp [value]⟩
  | finite s m e hc => exact ⟨m, e, hc.1.le, hc.2.1, abs_value_finite hc⟩

/-- The value of a number is below the limit of the format. -/
lemma abs_value_lt_limit (x : Binary format) : |x.value| < format.limit := by
  cases x with
  | nan => exact abs_zero.trans_lt (two_zpow_pos _)
  | infinite s => exact abs_zero.trans_lt (two_zpow_pos _)
  | finite s m e hc =>
    rw [abs_value_finite]
    exact (lt_limit_iff hc.1 hc.2.2.2).mpr hc.2.2.1

/-- What is no larger than a short whole number is rounded to a finite number. -/
lemma roundSigned_of_abs_le {n : ℕ} (hn : n ≤ 2 ^ format.precision) (h : |q| ≤ n) (s : Bool) :
    (roundSigned s q : Binary format).isFinite = true ∧
      (roundSigned s q : Binary format).value = format.nearest q := by
  have hlt : |format.nearest q| < format.limit :=
    (Format.abs_nearest_le_natCast hn h).trans_lt (natCast_lt_limit hn)
  obtain ⟨hfinite, hvalue, -⟩ := roundSigned_of_lt s hlt
  exact ⟨hfinite, hvalue⟩

/-- What is at most three quarters of the limit is rounded to a finite number. -/
lemma roundSigned_of_le_limit (h : |q| ≤ Format.double.limit * (3 / 4)) (s : Bool) :
    (roundSigned s q : Double).isFinite = true ∧
      (roundSigned s q : Double).value = Format.double.nearest q := by
  have hpos : 0 < Format.double.limit := two_zpow_pos _
  have hlt : |Format.double.nearest q| < Format.double.limit := by
    have hround := (Format.double.abs_nearest_le h).trans
      ((Format.representable_quarters (by decide : |(3 : ℤ)| ≤ 2 ^ 53)).nearest_le (by norm_num))
    push_cast at hround
    linarith
  obtain ⟨hfinite, hvalue, -⟩ := roundSigned_of_lt s hlt
  exact ⟨hfinite, hvalue⟩

/-- An integer of 64 bits is a finite number. -/
lemma isFinite_ofInt {n : ℤ} (h : |n| ≤ 2 ^ 64) : (ofInt n : Double).isFinite = true := by
  have hlarge := Format.two_pow_le_double_limit
  refine (roundSigned_of_le_limit ?_ false).1
  have hcast : |(n : ℚ)| ≤ 2 ^ 64 := by exact_mod_cast h
  linarith

/-- A whole number and at most a half more, which may be rounded down. -/
lemma ofNat_add_spec {n : ℕ} (hn : n ≤ 2 ^ 52) {x : Double} (hx : x.isFinite = true)
    (hlow : 0 ≤ x.value) (hhigh : x.value ≤ 1 / 2) :
    (ofNat n + x : Double).isFinite = true ∧ n ≤ (ofNat n + x : Double).value ∧
      (ofNat n + x : Double).value ≤ n + 1 / 2 := by
  have hshort : n ≤ 2 ^ Format.double.precision := hn.trans (by decide)
  have hnext : n + 1 ≤ 2 ^ Format.double.precision := (Nat.succ_le_succ hn).trans (by decide)
  have hsum : |(n : ℚ) + x.value| ≤ (n + 1 : ℕ) := by
    rw [abs_of_nonneg (by positivity)]
    push_cast
    linarith
  obtain ⟨hfinite, hvalue⟩ := roundSigned_of_abs_le hnext hsum
    ((ofNat n : Double).isNegative && x.isNegative)
  rw [add_eq (isFinite_ofNat hshort) hx, value_ofNat hshort, hvalue]
  exact ⟨hfinite, Format.natCast_le_nearest hshort (le_add_of_nonneg_right hlow),
    (Format.double.nearest_mono (by linarith)).trans (Format.nearest_add_half_le hn)⟩

/-- Zero times a finite number is zero. -/
lemma zero_mul_spec (hx : x.isFinite = true) :
    (ofNat 0 * x).isFinite = true ∧ (ofNat 0 * x).value = 0 := by
  obtain ⟨hzero, hvalue, -⟩ := ofNat_spec format (n := 0) (Nat.zero_le _)
  have hround := roundSigned_of_abs_le (q := 0) (Nat.zero_le (2 ^ format.precision)) (by simp)
    ((ofNat 0 : Binary format).isNegative != x.isNegative)
  rw [Format.nearest_zero] at hround
  rwa [mul_eq hzero hx, hvalue, Nat.cast_zero, zero_mul]

/-- A zero of either sign that is added does not change the value. -/
lemma add_zero_spec {y : Binary format} (hx : x.isFinite = true) (hy : y.isFinite = true)
    (hzero : y.value = 0) : (x + y).isFinite = true ∧ (x + y).value = x.value := by
  have hnearest := Format.nearest_of_representable (representable_value x)
  have hlt : |format.nearest x.value| < format.limit := by
    rw [hnearest]
    exact abs_value_lt_limit x
  rw [add_eq hx hy, hzero, add_zero]
  obtain ⟨hfinite, hvalue, -⟩ := roundSigned_of_lt (x.isNegative && y.isNegative) hlt
  exact ⟨hfinite, hvalue.trans hnearest⟩

/-- The product of two numbers, of which the exact one is no larger than a short whole number. -/
lemma mul_spec {y : Binary format} {n : ℕ} (hn : n ≤ 2 ^ format.precision)
    (hx : x.isFinite = true) (hy : y.isFinite = true) (h : |x.value * y.value| ≤ n) :
    (x * y).isFinite = true ∧ (x * y).value = format.nearest (x.value * y.value) := by
  rw [mul_eq hx hy]
  exact roundSigned_of_abs_le hn h _

/-- A number divided by one that is not much smaller. -/
lemma div_spec {y : Binary format} {n : ℕ} (hn : n ≤ 2 ^ format.precision)
    (hx : x.isFinite = true) (hy : y.isFinite = true) (hpos : 0 < y.value)
    (h : |x.value| ≤ n * y.value) :
    (x / y).isFinite = true ∧ (x / y).value = format.nearest (x.value / y.value) := by
  rw [div_eq hx hy hpos.ne']
  refine roundSigned_of_abs_le hn ?_ _
  rwa [abs_div, abs_of_pos hpos, div_le_iff₀ hpos]

/-- A short whole number divided by itself is one. -/
lemma ofNat_div_self {n : ℕ} (hpos : 0 < n) (hn : n ≤ 2 ^ format.precision) :
    (ofNat n / ofNat n : Binary format) = 1 := by
  obtain ⟨hfinite, hvalue, -⟩ := ofNat_spec format hn
  have hne : (n : ℚ) ≠ 0 := by exact_mod_cast hpos.ne'
  rw [div_eq hfinite hfinite (hvalue ▸ hne), hvalue, bne_self_eq_false, div_self hne]
  exact congrArg (roundSigned false) Nat.cast_one.symm

/-- A finite number less one is finite. -/
lemma sub_one_spec {x : Double} (hx : x.isFinite = true) :
    (x - 1).isFinite = true ∧ (x - 1).value = Format.double.nearest (x.value - 1) := by
  obtain ⟨hone, hvalue, -⟩ := one_spec Format.double
  have hlargest : |x.value| ≤ (2 ^ 53 - 1 : ℤ) * 2 ^ (971 : ℤ) := by
    cases x with
    | nan => cases hx
    | infinite s => cases hx
    | finite s m e hc =>
      rw [abs_value_finite]
      have hm : (m : ℚ) ≤ (2 ^ 53 - 1 : ℤ) := by
        have : m < 2 ^ 53 := hc.1
        exact_mod_cast (by omega : (m : ℤ) ≤ 2 ^ 53 - 1)
      exact mul_le_mul hm (two_zpow_le_iff.mpr hc.2.2.1) (two_zpow_pos e).le (by norm_num)
  have hhalf : |(1 : ℚ)| < 1 / 2 * 2 ^ (971 : ℤ) := by
    rw [abs_one, two_zpow_eq_two_mul, ← mul_assoc, one_div_mul_cancel two_ne_zero, one_mul,
      ← zpow_zero 2]
    exact two_zpow_lt_iff.mpr (by norm_num)
  have hsmall : |x.value - 1| < ((2 ^ 53 - 1 : ℤ) + 1 / 2) * 2 ^ (971 : ℤ) := by
    rw [add_mul]
    exact (abs_sub x.value 1).trans_lt (add_lt_add_of_le_of_lt hlargest hhalf)
  have hnearest := Format.nearest_le_of_lt_half (show Format.double.minExponent ≤ 971 by decide)
    (show (2 : ℤ) ^ 52 ≤ 2 ^ 53 - 1 by norm_num) (show (2 : ℤ) ^ 53 - 1 < 2 ^ 53 by norm_num) hsmall
  have hlimit : |Format.double.nearest (x.value - 1)| < Format.double.limit := by
    refine (Format.double.abs_nearest_le le_rfl).trans_lt (hnearest.trans_lt ?_)
    show _ < (2 : ℚ) ^ ((53 : ℤ) + 971)
    rw [two_zpow_add]
    exact mul_lt_mul_of_pos_right (by norm_num) (two_zpow_pos _)
  rw [sub_eq hx hone, hvalue]
  obtain ⟨hfinite, hround, -⟩ := roundSigned_of_lt (x.isNegative && !(1 : Double).isNegative) hlimit
  exact ⟨hfinite, hround⟩

/-- One may be taken away from both sides of an inequality, also where the greater side is
infinite. -/
lemma sub_one_le_sub_one {x y : Double} (hx : x.isFinite = true) (h : x < y) :
    y - 1 ≠ .nan ∧ x - 1 ≤ y - 1 := by
  obtain ⟨hfinite, hvalue⟩ := sub_one_spec hx
  cases y with
  | nan => exact absurd rfl (ne_nan_of_gt h)
  | infinite s =>
    have hsub : (.infinite s : Double) - 1 = .infinite s := by cases s <;> decide +kernel
    rw [hsub]
    refine ⟨nofun, le_of_lt ?_⟩
    cases x with
    | nan => cases hx
    | infinite t => cases hx
    | finite t m e hc =>
      cases hless : (.finite t m e hc : Double) - 1 <;> rw [hless] at hfinite <;> cases hfinite
      exact h
  | finite t n f hd =>
    obtain ⟨hfinite', hvalue'⟩ := sub_one_spec (x := .finite t n f hd) rfl
    refine ⟨ne_nan hfinite', (le_iff hfinite hfinite').mpr ?_⟩
    rw [hvalue, hvalue']
    exact Format.double.nearest_mono (sub_le_sub_right ((lt_iff hx rfl).mp h).le 1)

end Binary

/-! ## Whole numbers in units of their last place -/

/-- A short whole number and one, as multiples of the last place of the number. -/
structure InUnits (n : ℕ) (whole one : ℤ) : Prop where
  /-- The number in units. -/
  whole_eq : (n : ℚ) = whole * 2 ^ Format.double.lastPlace n
  /-- One in units. -/
  one_eq : (1 : ℚ) = one * 2 ^ Format.double.lastPlace n
  /-- The number is even in units. -/
  even_whole : 2 ∣ whole
  /-- One is even in units. -/
  even_one : 2 ∣ one
  /-- The number has all digits of a significand. -/
  le_whole : 2 ^ 52 ≤ whole
  /-- The next number has no more. -/
  add_one_le : whole + one ≤ 2 ^ 53
  /-- The number is a power of two just if only its leading digit is one. -/
  isPow_iff : (∃ e, n = 2 ^ e) ↔ whole = 2 ^ 52
  /-- There are shorter units. -/
  minExponent_lt : Format.double.minExponent < Format.double.lastPlace n

/-- The last place of a short whole number. -/
lemma lastPlace_natCast {n : ℕ} (hpos : 0 < n) :
    Format.double.lastPlace n = n.log2 - 52 := by
  obtain ⟨hlow, hhigh⟩ := log2_bounds hpos.ne'
  rw [Format.lastPlace, floorLog2_eq hlow hhigh]
  show max (-1074) ((n.log2 : ℤ) - (53 - 1)) = n.log2 - 52
  omega

/-- A short whole number is a multiple of its last place, and so is one. -/
lemma exists_inUnits {n : ℕ} (hpos : 0 < n) (hn : n < 2 ^ 52) :
    ∃ whole one, InUnits n whole one := by
  have hlog : n.log2 < 52 := (Nat.log2_lt hpos.ne').mpr hn
  have hunit : (2 : ℚ) ^ (52 - n.log2) * 2 ^ ((n.log2 : ℤ) - 52) = 1 := by
    rw [← zpow_natCast, ← two_zpow_add, Nat.cast_sub hlog.le]
    simp
  have hsplit : 2 ^ n.log2 * 2 ^ (52 - n.log2) = 2 ^ 52 := by
    rw [← pow_add]
    congr 1
    omega
  have hlow : 2 ^ 52 ≤ n * 2 ^ (52 - n.log2) := by
    rw [← hsplit]
    exact Nat.mul_le_mul_right _ (Nat.log2_self_le hpos.ne')
  have hhigh : (n + 1) * 2 ^ (52 - n.log2) ≤ 2 * 2 ^ 52 := by
    rw [← hsplit, ← mul_assoc, ← pow_succ']
    exact Nat.mul_le_mul_right _ Nat.lt_log2_self
  have hpow : (∃ e, n = 2 ^ e) ↔ n * 2 ^ (52 - n.log2) = 2 ^ 52 := by
    rw [← hsplit, Nat.mul_left_inj (Nat.two_pow_pos _).ne']
    constructor
    · rintro ⟨e, rfl⟩
      rw [Nat.log2_two_pow]
    · exact fun heq => ⟨_, heq⟩
  have hplace := lastPlace_natCast hpos
  exact ⟨n * 2 ^ (52 - n.log2), 2 ^ (52 - n.log2), {
    whole_eq := by
      rw [hplace]
      push_cast
      rw [mul_assoc, hunit, mul_one]
    one_eq := by
      rw [hplace]
      push_cast
      exact hunit.symm
    even_whole := Dvd.dvd.mul_left (dvd_pow_self 2 (by omega)) _
    even_one := dvd_pow_self 2 (by omega)
    le_whole := by exact_mod_cast hlow
    add_one_le := by
      rw [← add_one_mul]
      exact_mod_cast hhigh
    isPow_iff := by
      rw [hpow]
      exact_mod_cast Iff.rfl
    minExponent_lt := by
      rw [hplace]
      show (-1074 : ℤ) < n.log2 - 52
      omega }⟩

/-- Whether a distance is lost when it is taken away from a whole number and one is added: it is at
most half of the last place of the number or, for a power of two, less than three quarters of it. -/
def IsLost (n : ℕ) (distance : ℚ) : Prop :=
  distance ≤ 1 / 2 * 2 ^ Format.double.lastPlace n ∨
    (∃ e, n = 2 ^ e) ∧ distance < 3 / 4 * 2 ^ Format.double.lastPlace n

namespace InUnits

variable {n : ℕ} {whole one : ℤ} (h : InUnits n whole one)

include h

/-- One is a positive number of units. -/
lemma one_pos : 0 < one := by
  have hone := h.one_eq
  by_contra hle
  have hcast : (one : ℚ) ≤ 0 := by exact_mod_cast not_lt.mp hle
  linarith [mul_nonpos_of_nonpos_of_nonneg hcast (two_zpow_pos (Format.double.lastPlace n)).le]

/-- The number is positive. -/
lemma pos : (0 : ℚ) < n := by
  rw [h.whole_eq]
  exact mul_pos (by exact_mod_cast (by norm_num : (0 : ℤ) < 2 ^ 52).trans_le h.le_whole)
    (two_zpow_pos _)

/-- The unit is at most a half. -/
lemma unit_le : (2 : ℚ) ^ Format.double.lastPlace n ≤ 1 / 2 := by
  have hone := h.one_eq
  have htwo : (2 : ℚ) ≤ one := by exact_mod_cast Int.le_of_dvd h.one_pos h.even_one
  linarith [mul_le_mul_of_nonneg_right htwo (two_zpow_pos (Format.double.lastPlace n)).le]

/-- The multiples of the unit up to the next number are rounded to themselves. -/
lemma nearest_mul {j : ℤ} (hj : |j| ≤ whole + one) :
    Format.double.nearest (j * 2 ^ Format.double.lastPlace n) =
      j * 2 ^ Format.double.lastPlace n :=
  Format.nearest_of_representable
    (Format.representable_mul h.minExponent_lt.le (hj.trans h.add_one_le))

/-- The next number is short. -/
lemma add_one_le_two_pow : n + 1 ≤ 2 ^ 53 := by
  have hle : ((whole + one : ℤ) : ℚ) ≤ 2 ^ 53 := by exact_mod_cast h.add_one_le
  have hunit := mul_le_mul hle (h.unit_le.trans (by norm_num : (1 / 2 : ℚ) ≤ 1))
    (two_zpow_pos (Format.double.lastPlace n)).le (by norm_num)
  rw [Int.cast_add, add_mul, ← h.whole_eq, ← h.one_eq, mul_one] at hunit
  exact_mod_cast hunit

/-- The number is short. -/
lemma le_two_pow : n ≤ 2 ^ Format.double.precision :=
  (Nat.le_succ n).trans h.add_one_le_two_pow

/-- The next number is in units the sum of both. -/
lemma add_one_eq : (n : ℚ) + 1 = (whole + one : ℤ) * 2 ^ Format.double.lastPlace n := by
  rw [Int.cast_add, add_mul, ← h.whole_eq, ← h.one_eq]

/-- What is below the next number is at least a unit below it. -/
lemma le_of_lt_add_one {q : ℚ} (hq : Format.double.Representable q) (hlt : q < n + 1) :
    q ≤ n + 1 - 2 ^ Format.double.lastPlace n := by
  have hunit := two_zpow_pos (Format.double.lastPlace n)
  have hle := h.unit_le
  rcases lt_or_ge q n with hbelow | habove
  · linarith
  · obtain ⟨k, rfl⟩ := Format.exists_intCast_of_le_abs h.pos hq (habove.trans (le_abs_self q))
    rw [h.add_one_eq] at hlt ⊢
    have hcount : k + 1 ≤ whole + one := by
      exact_mod_cast lt_of_mul_lt_mul_right hlt hunit.le
    have hcast : (k : ℚ) + 1 ≤ (whole + one : ℤ) := by exact_mod_cast hcount
    linarith [mul_le_mul_of_nonneg_right hcast hunit.le]

/-- A unit less than the number is rounded to itself. -/
lemma nearest_sub_unit : Format.double.nearest (n - 2 ^ Format.double.lastPlace n) =
    n - 2 ^ Format.double.lastPlace n := by
  have hlow := h.le_whole
  have hone := h.one_pos
  have hgrid : (n : ℚ) - 2 ^ Format.double.lastPlace n =
      (whole - 1 : ℤ) * 2 ^ Format.double.lastPlace n := by
    rw [Int.cast_sub, Int.cast_one, sub_mul, one_mul, ← h.whole_eq]
  rw [hgrid, h.nearest_mul (abs_le.mpr ⟨by omega, by omega⟩)]

/-- What is one unit below the number is below the next number when one is added. -/
lemma nearest_add_one_lt {q : ℚ} (hq : q ≤ n - 2 ^ Format.double.lastPlace n) :
    Format.double.nearest (q + 1) < n + 1 := by
  have hunit := two_zpow_pos (Format.double.lastPlace n)
  have hgrid : (n : ℚ) - 2 ^ Format.double.lastPlace n + 1 =
      (whole + one - 1 : ℤ) * 2 ^ Format.double.lastPlace n := by
    rw [Int.cast_sub, Int.cast_one, sub_mul, one_mul, ← h.add_one_eq]
    ring
  have hlow := h.le_whole
  have hpos := h.one_pos
  have hmono := Format.double.nearest_mono
    (by linarith : q + 1 ≤ n - 2 ^ Format.double.lastPlace n + 1)
  rw [hgrid, h.nearest_mul (abs_le.mpr ⟨by omega, by omega⟩), ← hgrid] at hmono
  linarith

/-- A half is not lost. -/
lemma not_isLost {distance : ℚ} (hd : 1 / 2 ≤ distance) : ¬ IsLost n distance := by
  have hunit := two_zpow_pos (Format.double.lastPlace n)
  have hle := h.unit_le
  rw [IsLost, not_or, not_and, not_le, not_lt]
  exact ⟨by linarith, fun _ => by linarith⟩

/-- What is half a unit below the number is the next number when one is added: the exact sum is half
way below the next number, which is even in units. -/
lemma add_one_le_nearest {q : ℚ} (hq : n - 1 / 2 * 2 ^ Format.double.lastPlace n ≤ q) :
    (n : ℚ) + 1 ≤ Format.double.nearest (q + 1) := by
  have hlow := h.le_whole
  have hone := h.one_pos
  have hgrid : ((whole + one - 1 : ℤ) + 1 / 2 : ℚ) * 2 ^ Format.double.lastPlace n =
      n + 1 - 1 / 2 * 2 ^ Format.double.lastPlace n := by
    rw [h.add_one_eq]
    push_cast
    ring
  have hodd : whole + one - 1 + (whole + one - 1) % 2 = whole + one := by
    have := h.even_whole
    have := h.even_one
    omega
  have hmono := Format.double.nearest_mono
    (by linarith : n + 1 - 1 / 2 * 2 ^ Format.double.lastPlace n ≤ q + 1)
  rwa [← hgrid, Format.nearest_half h.minExponent_lt.le (show 2 ^ 52 ≤ _ by omega)
    (show _ < 2 ^ 53 by have := h.add_one_le; omega), hodd, ← h.add_one_eq] at hmono

/-- A distance that is lost takes no more than half a unit away. -/
lemma le_nearest_sub {distance : ℚ} (hlost : IsLost n distance) :
    n - 1 / 2 * 2 ^ Format.double.lastPlace n ≤ Format.double.nearest (n - distance) := by
  have hunit := two_zpow_pos (Format.double.lastPlace n)
  have hwhole := h.whole_eq
  have hmin := h.minExponent_lt
  rcases h.le_whole.eq_or_lt with hpow | hpow
  · -- below a power of two the units are half as long
    have hdistance : distance < 3 / 4 * 2 ^ Format.double.lastPlace n := by
      rcases hlost with hle | ⟨-, hlt⟩
      · linarith
      · exact hlt
    have hhalf : ((2 * whole - 2 : ℤ) + 1 / 2 : ℚ) * 2 ^ (Format.double.lastPlace n - 1) <
        n - distance := by
      rw [two_zpow_eq_two_mul (Format.double.lastPlace n)] at hwhole hdistance
      push_cast
      linarith
    have hfiner : Format.double.minExponent ≤ Format.double.lastPlace n - 1 := by omega
    have hround := Format.le_nearest_of_half_lt hfiner (show 2 ^ 52 ≤ 2 * whole - 2 by omega)
      (show 2 * whole - 2 < 2 ^ 53 by omega) hhalf
    rw [two_zpow_eq_two_mul (Format.double.lastPlace n)] at hwhole ⊢
    push_cast at hround
    linarith
  · have hdistance : distance ≤ 1 / 2 * 2 ^ Format.double.lastPlace n := by
      rcases hlost with hle | ⟨hisPow, -⟩
      · exact hle
      · exact absurd (h.isPow_iff.mp hisPow) hpow.ne'
    have hodd : whole - 1 + (whole - 1) % 2 = whole := by
      have := h.even_whole
      omega
    have hhalf : ((whole - 1 : ℤ) + 1 / 2 : ℚ) * 2 ^ Format.double.lastPlace n ≤ n - distance := by
      push_cast
      linarith
    have hmono := Format.double.nearest_mono hhalf
    rw [Format.nearest_half hmin.le (show 2 ^ 52 ≤ _ by omega)
      (show _ < 2 ^ 53 by have := h.add_one_le; have := h.one_pos; omega), hodd, ← hwhole] at hmono
    linarith

/-- A distance that is not lost takes a unit away. -/
lemma nearest_sub_le {distance : ℚ} (hkept : ¬ IsLost n distance) :
    Format.double.nearest (n - distance) ≤ n - 2 ^ Format.double.lastPlace n := by
  have hwhole := h.whole_eq
  have hmin := h.minExponent_lt
  rw [IsLost, not_or, not_and, not_le, not_lt] at hkept
  rcases h.le_whole.eq_or_lt with hpow | hpow
  · have hdistance := hkept.2 (h.isPow_iff.mpr hpow.symm)
    have hhalf : n - distance ≤
        ((2 * whole - 2 : ℤ) + 1 / 2 : ℚ) * 2 ^ (Format.double.lastPlace n - 1) := by
      rw [two_zpow_eq_two_mul (Format.double.lastPlace n)] at hwhole hdistance
      push_cast
      linarith
    have hmono := Format.double.nearest_mono hhalf
    rw [Format.nearest_half (by omega) (show 2 ^ 52 ≤ 2 * whole - 2 by omega)
      (show 2 * whole - 2 < 2 ^ 53 by omega)] at hmono
    rw [show (2 * whole - 2 + (2 * whole - 2) % 2 : ℤ) = 2 * whole - 2 by omega] at hmono
    rw [two_zpow_eq_two_mul (Format.double.lastPlace n)] at hwhole ⊢
    push_cast at hmono
    linarith
  · have hhalf : n - distance < ((whole - 1 : ℤ) + 1 / 2 : ℚ) * 2 ^ Format.double.lastPlace n := by
      push_cast
      linarith [hkept.1]
    have hround := Format.nearest_le_of_lt_half hmin.le (show 2 ^ 52 ≤ _ by omega)
      (show _ < 2 ^ 53 by have := h.add_one_le; have := h.one_pos; omega) hhalf
    push_cast at hround
    linarith

/-- **The distances that are lost** below a whole number: when the number less the distance is
rounded and one is added, it is the next number just if the distance is lost. -/
lemma add_one_le_nearest_iff {distance : ℚ} :
    (n : ℚ) + 1 ≤ Format.double.nearest (Format.double.nearest (n - distance) + 1) ↔
      IsLost n distance := by
  constructor
  · intro hle
    by_contra hkept
    exact absurd hle (not_le.mpr (h.nearest_add_one_lt (h.nearest_sub_le hkept)))
  · exact fun hlost => h.add_one_le_nearest (h.le_nearest_sub hlost)

end InUnits

end Arranger
