import Arranger.Proofs.Number.Rounding
import Mathlib.Tactic.Ring

/-!
# The nearest number of a format

`Binary.roundSigned` is described by a function on rationals: `Format.nearest` is the rounded value
of a rational, were there no largest exponent, and a rounding overflows exactly where that value
reaches `Format.limit`. What a format can represent is rounded to itself.

## Main definitions

* `Arranger.Format.Regular` — formats with at least one digit and one exponent.
* `Arranger.Format.nearest`, `Arranger.Format.limit` — the rounded value, and the first magnitude
  that is too large.

## Main results

* `Arranger.Binary.roundSigned_value` — rounding the value of a number gives the number back.
* `Arranger.Format.nearest_mono` — rounding keeps the order of rationals.
* `Arranger.Binary.roundSigned_of_lt`, `Arranger.Binary.roundSigned_of_le` — what `roundSigned`
  returns below the limit, and from it on.
-/

namespace Arranger

/-- A format whose significands have a digit and whose exponents reach to both sides of zero. -/
class Format.Regular (format : Format) : Prop where
  /-- There is a digit. -/
  precision_pos : 1 ≤ format.precision
  /-- Whole numbers have their last place. -/
  minExponent_nonpos : format.minExponent ≤ 0
  /-- There are numbers with more digits than a significand has. -/
  maxExponent_pos : 0 < format.maxExponent

instance : Format.double.Regular := ⟨by decide, by decide, by decide⟩

instance : Format.single.Regular := ⟨by decide, by decide, by decide⟩

/-- The two absolute values on rationals agree. -/
lemma rat_abs_eq (q : ℚ) : q.abs = |q| := by
  rcases le_total 0 q with h | h
  · rw [Rat.abs_of_nonneg h, abs_of_nonneg h]
  · rw [Rat.abs_of_nonpos h, abs_of_nonpos h]

namespace Format

/-- A significand has a digit. -/
lemma one_le_precision (format : Format) [format.Regular] : 1 ≤ format.precision :=
  Regular.precision_pos

/-- The exponents are in order. -/
lemma minExponent_le_maxExponent (format : Format) [format.Regular] :
    format.minExponent ≤ format.maxExponent :=
  Regular.minExponent_nonpos.trans Regular.maxExponent_pos.le

variable {format : Format}

/-! ## The last place -/

/-- No last place is below the smallest exponent. -/
lemma minExponent_le_lastPlace (q : ℚ) : format.minExponent ≤ format.lastPlace q :=
  le_max_left _ _

/-- A magnitude has no digit beyond the precision in front of its last place. -/
lemma lt_of_lastPlace {q : ℚ} (h : 0 < q) :
    q < 2 ^ (format.precision : ℤ) * 2 ^ format.lastPlace q := by
  refine lt_of_lt_of_le (floorLog2_spec h).2 ?_
  rw [← two_zpow_add, two_zpow_le_iff]
  have : floorLog2 q - (format.precision - 1 : ℤ) ≤ format.lastPlace q := le_max_right _ _
  omega

/-- Above the smallest exponent the last place is as far below the leading digit as it can be. -/
lemma le_of_minExponent_lt_lastPlace {q : ℚ} (h : 0 < q)
    (hlast : format.minExponent < format.lastPlace q) :
    2 ^ (format.precision - 1 : ℤ) * 2 ^ format.lastPlace q ≤ q := by
  refine le_trans ?_ (floorLog2_spec h).1
  rw [← two_zpow_add, two_zpow_le_iff]
  unfold lastPlace at hlast ⊢
  omega

/-- The last place of a magnitude in canonical form is its exponent. -/
lemma lastPlace_of_canonical {m : ℕ} {e : ℤ} (h : format.Canonical m e) (hm : m ≠ 0) :
    format.lastPlace (m * 2 ^ e) = e := by
  obtain ⟨hlt, hmin, -, hlead⟩ := h
  obtain ⟨hlow, hhigh⟩ := log2_bounds hm
  have hlog : floorLog2 (m * 2 ^ e) = m.log2 + e := by
    have he := two_zpow_pos e
    apply floorLog2_eq
    · rw [two_zpow_add]
      exact mul_le_mul_of_nonneg_right hlow he.le
    · rw [show (m.log2 : ℤ) + e + 1 = m.log2 + 1 + e by ring, two_zpow_add]
      exact mul_lt_mul_of_pos_right hhigh he
  have hdigits : m.log2 < format.precision := (Nat.log2_lt hm).mpr (by simpa using hlt)
  rw [lastPlace, hlog]
  rcases hlead with rfl | hlead
  · omega
  · have : format.precision - 1 ≤ m.log2 := (Nat.le_log2 hm).mpr (by simpa using hlead)
    omega

/-! ## The rounded value -/

/-- The magnitude that a magnitude is rounded to, were there no largest exponent. -/
def nearestMagnitude (format : Format) (q : ℚ) : ℚ :=
  roundHalfEven (q / 2 ^ format.lastPlace q) * 2 ^ format.lastPlace q

/-- The value that a rational is rounded to, were there no largest exponent. -/
def nearest (format : Format) (q : ℚ) : ℚ :=
  if q < 0 then -format.nearestMagnitude (-q) else format.nearestMagnitude q

/-- The first magnitude that is too large for the format. -/
def limit (format : Format) : ℚ :=
  2 ^ ((format.precision : ℤ) + format.maxExponent)

/-- A rational that needs no more digits than a significand has, and none below the smallest
exponent. -/
def Representable (format : Format) (q : ℚ) : Prop :=
  ∃ (m : ℕ) (e : ℤ), m ≤ 2 ^ format.precision ∧ format.minExponent ≤ e ∧ |q| = m * 2 ^ e

/-- Zero is rounded to zero. -/
@[simp] lemma nearest_zero : format.nearest 0 = 0 := by
  have h : roundHalfEven 0 = 0 := roundHalfEven_intCast 0
  simp [nearest, nearestMagnitude, h]

/-- Rounding a magnitude gives a magnitude. -/
lemma nearestMagnitude_nonneg (format : Format) {q : ℚ} (h : 0 ≤ q) : 0 ≤ format.nearestMagnitude q := by
  have he := two_zpow_pos (format.lastPlace q)
  have hr : (0 : ℚ) ≤ roundHalfEven (q / 2 ^ format.lastPlace q) := by
    exact_mod_cast roundHalfEven_nonneg (div_nonneg h he.le)
  exact mul_nonneg hr he.le

/-- The rounded magnitude is the magnitude of the rounded value. -/
lemma abs_nearest (q : ℚ) : |format.nearest q| = format.nearestMagnitude |q| := by
  rcases lt_or_ge q 0 with h | h
  · rw [nearest, if_pos h, abs_neg, abs_of_neg h]
    exact abs_of_nonneg (format.nearestMagnitude_nonneg (by linarith))
  · rw [nearest, if_neg (not_lt.mpr h), abs_of_nonneg h]
    exact abs_of_nonneg (format.nearestMagnitude_nonneg h)

/-- At most `2 ^ precision` places are counted in a rounded magnitude. -/
lemma roundHalfEven_le_two_pow (format : Format) {q : ℚ} (h : 0 < q) :
    roundHalfEven (q / 2 ^ format.lastPlace q) ≤ 2 ^ format.precision := by
  have hle : q / 2 ^ format.lastPlace q ≤ ((2 ^ format.precision : ℕ) : ℚ) := by
    rw [div_le_iff₀ (two_zpow_pos _), ← two_zpow_natCast]
    exact (lt_of_lastPlace h).le
  exact_mod_cast (roundHalfEven_mono hle).trans_eq (roundHalfEven_natCast _)

/-- Above the smallest exponent the leading digit survives the rounding. -/
lemma two_pow_le_roundHalfEven [format.Regular] {q : ℚ} (h : 0 < q)
    (hlast : format.minExponent < format.lastPlace q) :
    2 ^ (format.precision - 1) ≤ roundHalfEven (q / 2 ^ format.lastPlace q) := by
  have hprecision := format.one_le_precision
  have hle : ((2 ^ (format.precision - 1) : ℕ) : ℚ) ≤ q / 2 ^ format.lastPlace q := by
    rw [le_div_iff₀ (two_zpow_pos _), ← two_zpow_natCast, Nat.cast_sub hprecision]
    exact le_of_minExponent_lt_lastPlace h hlast
  exact_mod_cast (roundHalfEven_natCast _).symm.trans_le (roundHalfEven_mono hle)

/-- **Rounding magnitudes keeps their order.**

**Proof sketch.** With the same last place this is the order of `roundHalfEven`. A smaller last
place leaves the smaller magnitude below the least one with the greater last place, a power of
two that the greater magnitude is not rounded below. -/
lemma nearestMagnitude_mono [format.Regular] {q r : ℚ} (h : 0 < q) (hle : q ≤ r) :
    format.nearestMagnitude q ≤ format.nearestMagnitude r := by
  have hr : 0 < r := lt_of_lt_of_le h hle
  have hplace : format.lastPlace q ≤ format.lastPlace r :=
    max_le_max le_rfl (sub_le_sub_right (floorLog2_mono h hle) _)
  have hq2 := two_zpow_pos (format.lastPlace q)
  have hr2 := two_zpow_pos (format.lastPlace r)
  rcases hplace.lt_or_eq with hlt | heq
  · have hlead := two_pow_le_roundHalfEven hr
      (lt_of_le_of_lt (minExponent_le_lastPlace q) hlt)
    have hprecision := format.one_le_precision
    calc format.nearestMagnitude q
        ≤ (2 ^ format.precision : ℤ) * 2 ^ format.lastPlace q := by
          refine mul_le_mul_of_nonneg_right ?_ hq2.le
          exact_mod_cast format.roundHalfEven_le_two_pow h
      _ = 2 ^ ((format.precision : ℤ) + format.lastPlace q) := by
          rw [two_zpow_add, two_zpow_natCast]; push_cast; rfl
      _ ≤ 2 ^ (((format.precision - 1 : ℕ) : ℤ) + format.lastPlace r) := by
          rw [two_zpow_le_iff]; omega
      _ = (2 ^ (format.precision - 1) : ℤ) * 2 ^ format.lastPlace r := by
          rw [two_zpow_add, two_zpow_natCast]; push_cast; rfl
      _ ≤ format.nearestMagnitude r := by
          refine mul_le_mul_of_nonneg_right ?_ hr2.le
          exact_mod_cast hlead
  · simp only [nearestMagnitude, heq]
    refine mul_le_mul_of_nonneg_right ?_ hr2.le
    exact_mod_cast roundHalfEven_mono (div_le_div_of_nonneg_right hle hr2.le)

/-- **Rounding keeps the order of rationals.** -/
lemma nearest_mono (format : Format) [format.Regular] {q r : ℚ} (h : q ≤ r) :
    format.nearest q ≤ format.nearest r := by
  rcases lt_trichotomy q 0 with hq | rfl | hq
  · have hq' : format.nearest q = -format.nearestMagnitude (-q) := if_pos hq
    have hpos := format.nearestMagnitude_nonneg (q := -q) (by linarith)
    rcases lt_or_ge r 0 with hr | hr
    · have hr' : format.nearest r = -format.nearestMagnitude (-r) := if_pos hr
      rw [hq', hr']
      exact neg_le_neg (nearestMagnitude_mono (by linarith) (by linarith))
    · have hr' : format.nearest r = format.nearestMagnitude r := if_neg (not_lt.mpr hr)
      have := format.nearestMagnitude_nonneg hr
      linarith
  · have hr' : format.nearest r = format.nearestMagnitude r := if_neg (not_lt.mpr h)
    rw [nearest_zero, hr']
    exact format.nearestMagnitude_nonneg h
  · have hr : 0 < r := lt_of_lt_of_le hq h
    simp only [nearest, not_lt.mpr hq.le, not_lt.mpr hr.le, ↓reduceIte]
    exact nearestMagnitude_mono hq h

/-- What is not negative is not rounded below zero. -/
lemma nearest_nonneg (format : Format) [format.Regular] {q : ℚ} (h : 0 ≤ q) :
    0 ≤ format.nearest q :=
  nearest_zero.symm.trans_le (format.nearest_mono h)

/-- A representable magnitude is a whole number of its last places.

**Proof sketch.** The last place is not above the exponent that shows it representable, except for
a significand of `2 ^ precision`, which is a power of two. -/
lemma exists_natCast_of_representable [format.Regular] {q : ℚ} (hq : 0 < q)
    (h : format.Representable q) : ∃ n : ℕ, q = n * 2 ^ format.lastPlace q := by
  obtain ⟨m, e, hm, he, heq⟩ := h
  rw [abs_of_pos hq] at heq
  have hplace := two_zpow_pos e
  rcases le_or_gt (format.lastPlace q) e with hle | hgt
  · obtain ⟨k, hk⟩ : ∃ k : ℕ, e = k + format.lastPlace q :=
      ⟨(e - format.lastPlace q).toNat, by omega⟩
    refine ⟨m * 2 ^ k, ?_⟩
    conv_lhs => rw [heq, hk, two_zpow_add, two_zpow_natCast]
    push_cast
    ring
  · have hprecision := format.one_le_precision
    have hm' : (m : ℚ) ≤ 2 ^ (format.precision : ℤ) := by
      rw [two_zpow_natCast]; exact_mod_cast hm
    have hupper : q ≤ 2 ^ ((format.precision : ℤ) + e) := by
      rw [heq, two_zpow_add]
      exact mul_le_mul_of_nonneg_right hm' hplace.le
    have hlower := le_of_minExponent_lt_lastPlace hq (lt_of_le_of_lt he hgt)
    rw [← two_zpow_add] at hlower
    have hexp := two_zpow_le_iff.mp (hlower.trans hupper)
    have hlast : format.lastPlace q = e + 1 := by omega
    rw [show (format.precision : ℤ) + e = format.precision - 1 + format.lastPlace q by omega]
      at hupper
    refine ⟨2 ^ (format.precision - 1), ?_⟩
    rw [← two_zpow_natCast, Nat.cast_sub hprecision, ← two_zpow_add]
    exact le_antisymm hupper hlower

/-- **What a format can represent is rounded to itself.** -/
lemma nearest_of_representable [format.Regular] {q : ℚ} (h : format.Representable q) :
    format.nearest q = q := by
  have hpos : ∀ r : ℚ, 0 < r → format.Representable r → format.nearestMagnitude r = r := by
    intro r hr hrep
    obtain ⟨n, hn⟩ := exists_natCast_of_representable hr hrep
    have hdiv : r / 2 ^ format.lastPlace r = n :=
      (div_eq_iff (two_zpow_pos _).ne').mpr hn
    rw [nearestMagnitude, hdiv, roundHalfEven_natCast, Int.cast_natCast]
    exact hn.symm
  rcases lt_trichotomy q 0 with hq | rfl | hq
  · have hneg : format.Representable (-q) := by simpa [Representable] using h
    rw [nearest, if_pos hq, hpos (-q) (by linarith) hneg, neg_neg]
  · exact nearest_zero
  · rw [nearest, if_neg (not_lt.mpr hq.le), hpos q hq h]

/-- What is at most a representable number is not rounded above it. -/
lemma Representable.nearest_le [format.Regular] {q r : ℚ} (hr : format.Representable r)
    (h : q ≤ r) : format.nearest q ≤ r :=
  (format.nearest_mono h).trans_eq (nearest_of_representable hr)

/-- What is at least a representable number is not rounded below it. -/
lemma Representable.le_nearest [format.Regular] {q r : ℚ} (hr : format.Representable r)
    (h : r ≤ q) : r ≤ format.nearest q :=
  (nearest_of_representable hr).symm.trans_le (format.nearest_mono h)

/-- A whole number with no more digits than a significand is representable. -/
lemma representable_intCast [format.Regular] {n : ℤ} (h : n.natAbs ≤ 2 ^ format.precision) :
    format.Representable n := by
  refine ⟨n.natAbs, 0, h, Regular.minExponent_nonpos, ?_⟩
  rw [zpow_zero, mul_one, Nat.cast_natAbs, Int.cast_abs]

/-- A short integer is rounded to itself. -/
lemma nearest_intCast [format.Regular] {n : ℤ} (h : n.natAbs ≤ 2 ^ format.precision) :
    format.nearest n = n :=
  nearest_of_representable (representable_intCast h)

/-- A short whole number is rounded to itself. -/
lemma nearest_natCast [format.Regular] {n : ℕ} (h : n ≤ 2 ^ format.precision) :
    format.nearest n = n :=
  nearest_intCast (n := n) h

/-- What is at most a short whole number is not rounded above it. -/
lemma nearest_le_natCast [format.Regular] {n : ℕ} (hn : n ≤ 2 ^ format.precision) {q : ℚ}
    (h : q ≤ n) : format.nearest q ≤ n :=
  (representable_intCast (n := n) hn).nearest_le h

/-- What is at least a short whole number is not rounded below it. -/
lemma natCast_le_nearest [format.Regular] {n : ℕ} (hn : n ≤ 2 ^ format.precision) {q : ℚ}
    (h : n ≤ q) : n ≤ format.nearest q :=
  (representable_intCast (n := n) hn).le_nearest h

end Format

namespace Binary

variable {format : Format}

/-! ## Numbers and their values -/

/-- A sign with a canonical magnitude is packed as it is. -/
lemma pack_of_canonical {s : Bool} {m : ℕ} {e : ℤ} (h : format.Canonical m e) :
    pack s m e = .finite s m e h :=
  dif_pos h

/-- Without a canonical form there is an infinity. -/
lemma pack_of_not_canonical {s : Bool} {m : ℕ} {e : ℤ} (h : ¬ format.Canonical m e) :
    (pack s m e : Binary format) = .infinite s :=
  dif_neg h

/-- The zero of a format is canonical. -/
lemma canonical_zero [format.Regular] : format.Canonical 0 format.minExponent :=
  ⟨Nat.pos_of_ne_zero (by simp), le_rfl, format.minExponent_le_maxExponent, .inl rfl⟩

/-- The value of a finite number, written with its sign in front. -/
lemma value_finite {s : Bool} {m : ℕ} {e : ℤ} (h : format.Canonical m e) :
    (Binary.finite s m e h).value = (if s then -1 else 1) * (m * 2 ^ e) := by
  cases s <;> simp [value]

/-- The magnitude of the value of a finite number. -/
lemma abs_value_finite {s : Bool} {m : ℕ} {e : ℤ} (h : format.Canonical m e) :
    |(Binary.finite s m e h).value| = m * 2 ^ e := by
  have hpos : (0 : ℚ) ≤ m * 2 ^ e := mul_nonneg (Nat.cast_nonneg m) (two_zpow_pos e).le
  cases s <;> simp [value_finite, abs_of_nonneg hpos]

/-- A value other than zero is negative exactly if its number has the minus sign. -/
lemma value_neg_iff {s : Bool} {m : ℕ} {e : ℤ} (h : format.Canonical m e) (hm : m ≠ 0) :
    (Binary.finite s m e h).value < 0 ↔ s = true := by
  have hpos : (0 : ℚ) < m * 2 ^ e := mul_pos (by positivity) (two_zpow_pos e)
  cases s <;> simp [value_finite, hpos, hpos.le]

/-! ## Rounding the value of a number -/

/-- **Rounding the value of a number gives the number back.** A zero needs its sign.

**Proof sketch.** The last place of the magnitude is the exponent of the number
(`Format.lastPlace_of_canonical`), so what is rounded to an integer is the significand. -/
lemma roundSigned_value_finite [format.Regular] {s t : Bool} {m : ℕ} {e : ℤ}
    (h : format.Canonical m e) (hs : m = 0 → t = s) :
    roundSigned t (Binary.finite s m e h).value = .finite s m e h := by
  by_cases hm : m = 0
  · subst hm
    have he : e = format.minExponent := by
      obtain ⟨-, -, -, he | hlead⟩ := h
      · exact he
      · have : 0 < Nat.pow 2 (format.precision - 1) := Nat.pow_pos two_pos
        omega
    subst he
    have hzero : (Binary.finite s 0 format.minExponent h).value = 0 := by simp [value_finite]
    rw [hzero, roundSigned, if_pos rfl, zero, pack_of_canonical h, hs rfl]
  · have hpos : (0 : ℚ) < m * 2 ^ e := mul_pos (by positivity) (two_zpow_pos e)
    have habs := abs_value_finite (s := s) h
    have hne : (Binary.finite s m e h).value ≠ 0 := abs_pos.mp (habs ▸ hpos)
    have hdiv : (m : ℚ) * 2 ^ e / 2 ^ e = m := mul_div_cancel_right₀ _ (two_zpow_pos e).ne'
    have hsign : decide ((Binary.finite s m e h).value < 0) = s := by
      rw [Bool.eq_iff_iff, decide_eq_true_iff, value_neg_iff h hm]
    simp only [roundSigned, if_neg hne, rat_abs_eq, habs, Format.lastPlace_of_canonical h hm, hdiv,
      hsign, roundHalfEven_natCast, Int.toNat_natCast, if_pos h.1, pack_of_canonical h]

/-- Rounding the value of a finite number with its sign gives the number back. -/
lemma roundSigned_value [format.Regular] {x : Binary format} (h : x.isFinite = true) :
    roundSigned x.isNegative x.value = x := by
  cases x with
  | nan => simp [isFinite] at h
  | infinite s => simp [isFinite] at h
  | finite s m e hc => exact roundSigned_value_finite hc fun _ => rfl

/-- Finite numbers are equal if their values and their signs are. -/
lemma eq_of_value_eq [format.Regular] {x y : Binary format} (hx : x.isFinite = true)
    (hy : y.isFinite = true) (hvalue : x.value = y.value) (hsign : x.isNegative = y.isNegative) :
    x = y := by
  rw [← roundSigned_value hx, ← roundSigned_value hy, hvalue, hsign]

/-! ## What rounding returns -/

/-- What a rational other than zero is rounded to, before the range of the exponents is looked
at. -/
lemma roundSigned_eq_pack (format : Format) [format.Regular] {q : ℚ} (hq : q ≠ 0) (s : Bool) :
    ∃ (m : ℕ) (e : ℤ), m < 2 ^ format.precision ∧ format.minExponent ≤ e ∧
      (e = format.minExponent ∨ 2 ^ (format.precision - 1) ≤ m) ∧
      m * 2 ^ e = format.nearestMagnitude |q| ∧
      (roundSigned s q : Binary format) = pack (decide (q < 0)) m e := by
  have hpos : 0 < |q| := abs_pos.mpr hq
  set place := format.lastPlace |q| with hplace
  obtain ⟨n, hn⟩ : ∃ n : ℕ, roundHalfEven (|q| / 2 ^ place) = n :=
    Int.eq_ofNat_of_zero_le (roundHalfEven_nonneg (div_nonneg hpos.le (two_zpow_pos _).le))
  have hle : n ≤ 2 ^ format.precision := by
    have := format.roundHalfEven_le_two_pow hpos
    rw [← hplace, hn] at this
    exact_mod_cast this
  have hmin : format.minExponent ≤ place := Format.minExponent_le_lastPlace _
  have hmagnitude : format.nearestMagnitude |q| = n * 2 ^ place := by
    rw [Format.nearestMagnitude, ← hplace, hn, Int.cast_natCast]
  have hround : (roundSigned s q : Binary format) =
      if n < Nat.pow 2 format.precision then pack (decide (q < 0)) n place
      else pack (decide (q < 0)) (n / 2) (place + 1) := by
    simp only [roundSigned, if_neg hq, rat_abs_eq, ← hplace, hn, Int.toNat_natCast]
  rw [hround]
  by_cases hlt : n < 2 ^ format.precision
  · refine ⟨n, place, hlt, hmin, ?_, hmagnitude.symm, if_pos hlt⟩
    rcases hmin.eq_or_lt with heq | hgt
    · exact .inl heq.symm
    · right
      have := Format.two_pow_le_roundHalfEven hpos hgt
      rw [← hplace, hn] at this
      exact_mod_cast this
  · -- all digits were rounded up: the significand is the power of two behind them
    have hprecision := format.one_le_precision
    have hn' : n = 2 * 2 ^ (format.precision - 1) := by
      rw [← pow_succ', Nat.sub_add_cancel hprecision]; omega
    have hhalf : n / 2 = 2 ^ (format.precision - 1) := by omega
    refine ⟨n / 2, place + 1, ?_, by omega, .inr hhalf.ge, ?_, if_neg hlt⟩
    · rw [hhalf]
      exact Nat.pow_lt_pow_right one_lt_two (by omega)
    · rw [hmagnitude, hhalf, hn', two_zpow_add]
      push_cast
      ring

/-- The exponent of a rounded magnitude is in range exactly if the magnitude is below the limit. -/
lemma lt_limit_iff [format.Regular] {m : ℕ} {e : ℤ} (hm : m < 2 ^ format.precision)
    (hlead : e = format.minExponent ∨ 2 ^ (format.precision - 1) ≤ m) :
    (m : ℚ) * 2 ^ e < format.limit ↔ e ≤ format.maxExponent := by
  have hprecision := format.one_le_precision
  have he := two_zpow_pos e
  constructor
  · intro hlt
    rcases hlead with rfl | hlead
    · exact format.minExponent_le_maxExponent
    · have hstep : (2 : ℚ) ^ (((format.precision - 1 : ℕ) : ℤ) + e) ≤ m * 2 ^ e := by
        rw [two_zpow_add, two_zpow_natCast]
        exact mul_le_mul_of_nonneg_right (by exact_mod_cast hlead) he.le
      have := two_zpow_lt_iff.mp (lt_of_le_of_lt hstep hlt)
      omega
  · intro hle
    calc (m : ℚ) * 2 ^ e < 2 ^ (format.precision : ℤ) * 2 ^ e := by
          refine mul_lt_mul_of_pos_right ?_ he
          rw [two_zpow_natCast]; exact_mod_cast hm
      _ ≤ format.limit := by
          rw [← two_zpow_add, Format.limit, two_zpow_le_iff]; omega

/-- **Below the limit** a rational is rounded to a finite number, the one of the rounded value. -/
lemma roundSigned_of_lt [format.Regular] {q : ℚ} (s : Bool) (h : |format.nearest q| < format.limit) :
    (roundSigned s q : Binary format).isFinite = true ∧
      (roundSigned s q : Binary format).value = format.nearest q ∧
      (roundSigned s q : Binary format).isNegative = if q = 0 then s else decide (q < 0) := by
  by_cases hq : q = 0
  · subst hq
    rw [roundSigned, if_pos rfl, zero, pack_of_canonical canonical_zero]
    simp [isFinite, isNegative, value_finite]
  · obtain ⟨m, e, hm, hmin, hlead, hmagnitude, hround⟩ := roundSigned_eq_pack format hq s
    rw [Format.abs_nearest, ← hmagnitude, lt_limit_iff hm hlead] at h
    have hc : format.Canonical m e := ⟨hm, hmin, h, hlead⟩
    rw [hround, pack_of_canonical hc, if_neg hq]
    refine ⟨rfl, ?_, rfl⟩
    rw [value_finite, hmagnitude, Format.nearest]
    by_cases hneg : q < 0
    · simp [hneg, abs_of_neg hneg]
    · simp [hneg, abs_of_nonneg (not_lt.mp hneg)]

/-- **From the limit on** a rational is rounded to an infinity. -/
lemma roundSigned_of_le [format.Regular] {q : ℚ} (s : Bool) (h : format.limit ≤ |format.nearest q|) :
    (roundSigned s q : Binary format) = .infinite (decide (q < 0)) := by
  have hq : q ≠ 0 := by
    rintro rfl
    rw [Format.nearest_zero, abs_zero] at h
    exact absurd h (not_le.mpr (two_zpow_pos _))
  obtain ⟨m, e, hm, hmin, hlead, hmagnitude, hround⟩ := roundSigned_eq_pack format hq s
  rw [hround]
  apply pack_of_not_canonical
  rintro ⟨-, -, hmax, -⟩
  rw [Format.abs_nearest, ← hmagnitude] at h
  exact absurd ((lt_limit_iff hm hlead).mpr hmax) (not_lt.mpr h)

/-- Rounding gives a number. -/
lemma roundSigned_ne_nan [format.Regular] (s : Bool) (q : ℚ) :
    (roundSigned s q : Binary format) ≠ .nan := by
  rcases lt_or_ge |format.nearest q| format.limit with hlt | hge
  · intro hnan
    have hfinite := (roundSigned_of_lt s hlt).1
    rw [hnan] at hfinite
    cases hfinite
  · rw [roundSigned_of_le s hge]
    nofun

/-- A finite result of rounding has the nearest value. -/
lemma value_roundSigned [format.Regular] {q : ℚ} {s : Bool}
    (h : (roundSigned s q : Binary format).isFinite = true) :
    (roundSigned s q : Binary format).value = format.nearest q := by
  rcases lt_or_ge |format.nearest q| format.limit with hlt | hge
  · exact (roundSigned_of_lt s hlt).2.1
  · rw [roundSigned_of_le s hge] at h
    cases h

end Binary

end Arranger
