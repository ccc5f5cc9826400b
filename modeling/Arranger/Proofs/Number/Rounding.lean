import Arranger.Number.Integral
import Mathlib.Data.Rat.Floor
import Mathlib.Tactic.FieldSimp
import Mathlib.Tactic.Linarith
import Mathlib.Tactic.NormNum
import Mathlib.Tactic.Positivity

/-!
# Laws of rounding to integers

The roundings of `Arranger.Number.Rounding` fix the integers and keep the order of the rationals,
and `floorLog2` is the exponent of the leading binary digit.

## Main results

* `Arranger.roundHalfEven_mono`, `Arranger.roundHalfEven_intCast` — rounding to nearest.
* `Arranger.roundHalfAway_mono`, `Arranger.roundHalfAway_intCast` — a half going away from zero.
* `Arranger.floorLog2_spec`, `Arranger.floorLog2_eq` — the leading digit, and that it is unique.
* `Arranger.floorLog2_mono` — a greater rational has no smaller leading exponent.
-/

namespace Arranger

/-! ## To the nearest integer -/

/-- The two bounds of the floor in one. -/
lemma floor_bounds (q : ℚ) : (q.floor : ℚ) ≤ q ∧ q < q.floor + 1 :=
  ⟨Int.floor_le q, Int.lt_floor_add_one q⟩

/-- The ceiling of a positive rational is positive. -/
lemma ceil_pos {q : ℚ} (h : 0 < q) : 0 < q.ceil := by
  have habove : q ≤ q.ceil := Rat.le_ceil
  exact_mod_cast h.trans_le habove

/-- An integer with these bounds is the floor. -/
lemma floor_eq_of_bounds {q : ℚ} {n : ℤ} (hlow : n ≤ q) (hhigh : q < n + 1) : q.floor = n :=
  (Int.floor_eq_iff (a := q)).mpr ⟨hlow, hhigh⟩

/-- Rounding to nearest gives the floor or the integer after it. -/
lemma roundHalfEven_bounds (q : ℚ) : q.floor ≤ roundHalfEven q ∧ roundHalfEven q ≤ q.floor + 1 := by
  have hparity := Int.emod_two_eq_zero_or_one q.floor
  simp only [roundHalfEven]
  split_ifs <;> omega

/-- Rounding to nearest fixes the integers. -/
@[simp] lemma roundHalfEven_intCast (n : ℤ) : roundHalfEven (n : ℚ) = n := by
  simp only [roundHalfEven, Rat.floor_intCast, sub_self]
  norm_num

/-- Rounding to nearest fixes the natural numbers. -/
@[simp] lemma roundHalfEven_natCast (n : ℕ) : roundHalfEven (n : ℚ) = n :=
  roundHalfEven_intCast n

/-- Rounding to nearest keeps the order.

**Proof sketch.** If the floors differ, an integer lies between the two. If they agree, only the
parts behind the point decide, and a greater part is rounded up whenever a smaller one is. -/
lemma roundHalfEven_mono {q r : ℚ} (h : q ≤ r) : roundHalfEven q ≤ roundHalfEven r := by
  have hfloor : q.floor ≤ r.floor := Int.floor_le_floor h
  rcases hfloor.lt_or_eq with hlt | heq
  · have hq := (roundHalfEven_bounds q).2
    have hr := (roundHalfEven_bounds r).1
    omega
  · have hparity := Int.emod_two_eq_zero_or_one r.floor
    have hrest : q - r.floor ≤ r - r.floor := by linarith
    simp only [roundHalfEven, heq]
    split_ifs <;> first | omega | (exfalso; linarith)

/-- What is not negative is not rounded below zero. -/
lemma roundHalfEven_nonneg {q : ℚ} (h : 0 ≤ q) : 0 ≤ roundHalfEven q := by
  have hmono := roundHalfEven_mono (q := ((0 : ℤ) : ℚ)) (by simpa using h)
  rwa [roundHalfEven_intCast] at hmono

/-- Rounding away from zero fixes the integers. -/
@[simp] lemma roundHalfAway_intCast (n : ℤ) : roundHalfAway (n : ℚ) = n := by
  have hup : ((n : ℚ) + 1 / 2).floor = n := by
    apply floor_eq_of_bounds <;> linarith
  have hdown : (-(n : ℚ) + 1 / 2).floor = -n := by
    apply floor_eq_of_bounds <;> push_cast <;> linarith
  simp only [roundHalfAway, hup, hdown, neg_neg, ite_self]

/-- Rounding away from zero fixes the natural numbers. -/
@[simp] lemma roundHalfAway_natCast (n : ℕ) : roundHalfAway (n : ℚ) = n :=
  roundHalfAway_intCast n

/-- Rounding away from zero keeps the order. -/
lemma roundHalfAway_mono {q r : ℚ} (h : q ≤ r) : roundHalfAway q ≤ roundHalfAway r := by
  unfold roundHalfAway
  split_ifs with hq hr hr
  · exact neg_le_neg (Int.floor_le_floor (by linarith : -r + 1 / 2 ≤ -q + 1 / 2))
  · have hlow : 0 ≤ (-q + 1 / 2).floor := Int.floor_nonneg.mpr (by linarith : 0 ≤ -q + 1 / 2)
    have hhigh : 0 ≤ (r + 1 / 2).floor := Int.floor_nonneg.mpr (by linarith : 0 ≤ r + 1 / 2)
    omega
  · linarith
  · exact Int.floor_le_floor (by linarith : q + 1 / 2 ≤ r + 1 / 2)

/-- The integer nearest to a magnitude is not negative. -/
lemma roundHalfAway_nonneg {q : ℚ} (h : 0 ≤ q) : 0 ≤ roundHalfAway q :=
  (roundHalfAway_intCast 0).symm.trans_le (roundHalfAway_mono (by exact_mod_cast h))

/-- The integer part of an integer is the integer. -/
@[simp] lemma truncate_intCast (n : ℤ) : truncate (n : ℚ) = n := by
  simp only [truncate, Rat.floor_intCast, Rat.ceil_intCast, ite_self]

/-! ## The leading binary digit -/

/-- Powers of two are positive. -/
lemma two_zpow_pos (e : ℤ) : (0 : ℚ) < 2 ^ e := zpow_pos (by norm_num) e

/-- Powers of two with rising exponents rise. -/
lemma two_zpow_lt_iff {a b : ℤ} : (2 : ℚ) ^ a < 2 ^ b ↔ a < b :=
  zpow_lt_zpow_iff_right₀ (by norm_num)

/-- Powers of two keep the order of their exponents. -/
lemma two_zpow_le_iff {a b : ℤ} : (2 : ℚ) ^ a ≤ 2 ^ b ↔ a ≤ b :=
  zpow_le_zpow_iff_right₀ (by norm_num)

/-- The exponent of a product of powers of two. -/
lemma two_zpow_add (a b : ℤ) : (2 : ℚ) ^ (a + b) = 2 ^ a * 2 ^ b := zpow_add₀ (by norm_num) a b

/-- A natural power of two as an integral one. -/
lemma two_zpow_natCast (n : ℕ) : (2 : ℚ) ^ (n : ℤ) = ((2 ^ n : ℕ) : ℚ) := by
  rw [zpow_natCast]; push_cast; rfl

/-- A positive natural number lies between two neighbouring powers of two. -/
lemma log2_bounds {n : ℕ} (h : n ≠ 0) :
    (2 : ℚ) ^ (n.log2 : ℤ) ≤ n ∧ (n : ℚ) < 2 ^ ((n.log2 : ℤ) + 1) := by
  refine ⟨?_, ?_⟩
  · rw [two_zpow_natCast]
    exact_mod_cast Nat.log2_self_le h
  · have hcast : ((n.log2 : ℤ) + 1) = ((n.log2 + 1 : ℕ) : ℤ) := by push_cast; rfl
    rw [hcast, two_zpow_natCast]
    exact_mod_cast Nat.lt_log2_self

/-- **The leading digit**: a positive rational lies between the powers of two with the exponents
`floorLog2 q` and `floorLog2 q + 1`.

**Proof sketch.** With `a` and `b` the bit lengths of numerator and denominator, less one, the
quotient is above `2 ^ (a - b - 1)` and below `2 ^ (a - b + 1)`; the comparison in `floorLog2`
tells the two halves of that range apart. -/
lemma floorLog2_spec {q : ℚ} (h : 0 < q) :
    (2 : ℚ) ^ floorLog2 q ≤ q ∧ q < 2 ^ (floorLog2 q + 1) := by
  have hnum : 0 < q.num := Rat.num_pos.mpr h
  have hnat : ((q.num.natAbs : ℕ) : ℚ) = (q.num : ℚ) := by
    rw [Nat.cast_natAbs, abs_of_pos hnum]
  have hden : (0 : ℚ) < q.den := by exact_mod_cast q.den_pos
  have hmul : q * q.den = q.num.natAbs := by rw [hnat]; exact Rat.mul_den_eq_num q
  obtain ⟨hn, hn'⟩ := log2_bounds (n := q.num.natAbs) (by omega)
  obtain ⟨hd, hd'⟩ := log2_bounds (n := q.den) q.den_ne_zero
  set a : ℤ := (q.num.natAbs.log2 : ℤ)
  set b : ℤ := (q.den.log2 : ℤ)
  have hlow : (2 : ℚ) ^ (a - b - 1) ≤ q := by
    have hsplit : (2 : ℚ) ^ a = 2 ^ (a - b - 1) * 2 ^ (b + 1) := by
      rw [← two_zpow_add]; congr 1; omega
    have hstep : (2 : ℚ) ^ (a - b - 1) * q.den ≤ q * q.den := by
      rw [hmul]
      exact le_trans (mul_le_mul_of_nonneg_left hd'.le (two_zpow_pos _).le) (hsplit ▸ hn)
    exact le_of_mul_le_mul_right hstep hden
  have hhigh : q < (2 : ℚ) ^ (a - b + 1) := by
    have hsplit : (2 : ℚ) ^ (a + 1) = 2 ^ (a - b + 1) * 2 ^ b := by
      rw [← two_zpow_add]; congr 1; omega
    have hstep : q * q.den < (2 : ℚ) ^ (a - b + 1) * q.den := by
      rw [hmul]
      exact lt_of_lt_of_le (hsplit ▸ hn') (mul_le_mul_of_nonneg_left hd (two_zpow_pos _).le)
    exact lt_of_mul_lt_mul_right hstep hden.le
  have hdef : floorLog2 q = if (2 : ℚ) ^ (a - b) ≤ q then a - b else a - b - 1 := rfl
  rw [hdef]
  split_ifs with hcut
  · exact ⟨hcut, hhigh⟩
  · refine ⟨hlow, ?_⟩
    rw [sub_add_cancel]
    exact not_le.mp hcut

/-- The leading exponent is the only one with these bounds. -/
lemma floorLog2_eq {q : ℚ} {e : ℤ} (hlow : (2 : ℚ) ^ e ≤ q) (hhigh : q < 2 ^ (e + 1)) :
    floorLog2 q = e := by
  obtain ⟨hlow', hhigh'⟩ := floorLog2_spec (lt_of_lt_of_le (two_zpow_pos e) hlow)
  have h1 := two_zpow_lt_iff.mp (lt_of_le_of_lt hlow hhigh')
  have h2 := two_zpow_lt_iff.mp (lt_of_le_of_lt hlow' hhigh)
  omega

/-- A greater rational has no smaller leading exponent. -/
lemma floorLog2_mono {q r : ℚ} (h : 0 < q) (hle : q ≤ r) : floorLog2 q ≤ floorLog2 r := by
  have hq := (floorLog2_spec h).1
  have hr := (floorLog2_spec (lt_of_lt_of_le h hle)).2
  have hlt := two_zpow_lt_iff.mp (lt_of_le_of_lt (hq.trans hle) hr)
  omega

end Arranger
