import Arranger.Proofs.Number.Grid

/-!
# The error of a rounding

A rational is rounded to a multiple of its last place, so the error is at most half of that. Above
the smallest numbers this is a bound on the relative error: no more than the magnitude divided by
`2 ^ precision`. Two rationals that are further apart than both errors are rounded in their order,
and two numbers that are one apart have different nearest integers.

## Main results

* `Arranger.Format.abs_nearest_sub_le` — half of the last place.
* `Arranger.Format.abs_nearest_sub_le_div` — the relative error.
* `Arranger.Format.abs_nearest_sub_le_two_zpow` — the error below a power of two.
* `Arranger.Format.nearest_lt_nearest` — rounding is strict from a relative distance on.
* `Arranger.abs_nearest_sub_le_of_le` — the relative error in the 64-bit format.
* `Arranger.ceil_nearest_div` — rounding up a quotient that is rounded.
* `Arranger.roundHalfAway_lt_iff`, `Arranger.roundHalfAway_eq_iff` — nearest integers by bounds.
-/

namespace Arranger

/-- The nearest integer is at most half of one away. -/
lemma abs_roundHalfEven_sub_le (q : ℚ) : |(roundHalfEven q : ℚ) - q| ≤ 1 / 2 := by
  obtain ⟨hlow, hhigh⟩ := floor_bounds q
  have hparity := Int.emod_two_eq_zero_or_one q.floor
  rw [abs_le]
  simp only [roundHalfEven]
  split_ifs with hbelow habove
  · constructor <;> linarith
  · push_cast
    constructor <;> linarith
  · -- half way, so either neighbour will do
    have hhalf : q - q.floor = 1 / 2 := le_antisymm (not_lt.mp habove) (not_lt.mp hbelow)
    rcases hparity with heven | hodd
    · rw [heven, add_zero]
      constructor <;> linarith
    · rw [hodd]
      push_cast
      constructor <;> linarith

/-- The nearest integer of a magnitude, a half going away from zero, in terms of the floor. -/
lemma roundHalfAway_of_nonneg {q : ℚ} (h : 0 ≤ q) : roundHalfAway q = (q + 1 / 2).floor :=
  if_neg (not_lt.mpr h)

/-- The nearest integer of a magnitude is below another integer just if the magnitude is more than
half of one below it. -/
lemma roundHalfAway_lt_iff {q : ℚ} (h : 0 ≤ q) {n : ℤ} : roundHalfAway q < n ↔ q < n - 1 / 2 := by
  rw [roundHalfAway_of_nonneg h]
  exact (Int.floor_lt (a := q + 1 / 2)).trans lt_sub_iff_add_lt.symm

/-- A magnitude has the nearest integer `n` just if it is at least `n - 1 / 2` and less than
`n + 1 / 2`. -/
lemma roundHalfAway_eq_iff {q : ℚ} (h : 0 ≤ q) {n : ℤ} :
    roundHalfAway q = n ↔ n - 1 / 2 ≤ q ∧ q < n + 1 / 2 := by
  have hnext := roundHalfAway_lt_iff h (n := n + 1)
  have hlow := roundHalfAway_lt_iff h (n := n)
  push_cast at hnext
  rw [show (n : ℚ) + 1 - 1 / 2 = n + 1 / 2 by ring] at hnext
  rw [← hnext, ← not_lt, ← hlow]
  omega

/-- Of two magnitudes that are one apart the greater one has the greater nearest integer. -/
lemma roundHalfAway_lt_of_add_one_le {q r : ℚ} (hq : 0 ≤ q) (h : q + 1 ≤ r) :
    roundHalfAway q < roundHalfAway r := by
  have hr : 0 ≤ r := by linarith
  have hnext := (roundHalfAway_lt_iff hr).mp (Int.lt_succ (roundHalfAway r))
  rw [roundHalfAway_lt_iff hq]
  push_cast at hnext
  linarith

/-- The same for the words that are counted with. -/
lemma toNat_roundHalfAway_lt {q r : ℚ} (hq : 0 ≤ q) (h : roundHalfAway q < roundHalfAway r) :
    (roundHalfAway q).toNat < (roundHalfAway r).toNat := by
  have hnonneg := roundHalfAway_nonneg hq
  omega

namespace Format

variable {format : Format}

/-- **The error of a rounding** is at most half of the last place. -/
lemma abs_nearest_sub_le (q : ℚ) : |format.nearest q - q| ≤ 2 ^ format.lastPlace |q| / 2 := by
  have hmagnitude : ∀ r : ℚ, |format.nearestMagnitude r - r| ≤ 2 ^ format.lastPlace r / 2 := by
    intro r
    have hplace := two_zpow_pos (format.lastPlace r)
    have hscaled : format.nearestMagnitude r - r =
        (roundHalfEven (r / 2 ^ format.lastPlace r) - r / 2 ^ format.lastPlace r) *
          2 ^ format.lastPlace r := by
      rw [sub_mul, div_mul_cancel₀ _ hplace.ne', nearestMagnitude]
    rw [hscaled, abs_mul, abs_of_pos hplace]
    linarith [mul_le_mul_of_nonneg_right
      (abs_roundHalfEven_sub_le (r / 2 ^ format.lastPlace r)) hplace.le]
  rcases lt_or_ge q 0 with hneg | hnonneg
  · rw [nearest, if_pos hneg, abs_of_neg hneg, show -format.nearestMagnitude (-q) - q =
      -(format.nearestMagnitude (-q) - -q) by ring, abs_neg]
    exact hmagnitude (-q)
  · rw [nearest, if_neg (not_lt.mpr hnonneg), abs_of_nonneg hnonneg]
    exact hmagnitude q

/-- **The relative error of a rounding**: of a magnitude of at most `bound`, which is not among the
smallest numbers, the error is at most `bound` divided by `2 ^ precision`. -/
lemma abs_nearest_sub_le_div (format : Format) {q bound : ℚ} (h : |q| ≤ bound)
    (hbound : 2 ^ (format.minExponent + format.precision) ≤ bound) :
    |format.nearest q - q| ≤ bound / 2 ^ (format.precision : ℤ) := by
  have hdigits := two_zpow_pos format.precision
  rcases eq_or_ne q 0 with rfl | hne
  · rw [nearest_zero, sub_zero, abs_zero]
    exact div_nonneg ((two_zpow_pos _).le.trans hbound) hdigits.le
  refine (abs_nearest_sub_le q).trans ?_
  rw [le_div_iff₀ hdigits]
  have hplace : (2 : ℚ) ^ format.lastPlace |q| * 2 ^ ((format.precision : ℤ) - 1) ≤ bound := by
    rw [← two_zpow_add, lastPlace]
    rcases max_choice format.minExponent (floorLog2 |q| - (format.precision - 1 : ℤ)) with
      hsmall | hlarge
    · rw [hsmall]
      exact (two_zpow_le_iff.mpr (by omega)).trans hbound
    · rw [hlarge, sub_add_cancel]
      exact (floorLog2_spec (abs_pos.mpr hne)).1.trans h
  rw [two_zpow_eq_two_mul (format.precision : ℤ)]
  linarith

/-- Below a power of two the error is at most half of the last place in front of it. -/
lemma abs_nearest_sub_le_two_zpow [format.Regular] {q : ℚ} {e : ℤ} (h : |q| ≤ 2 ^ e)
    (he : format.minExponent + format.precision ≤ e) :
    |format.nearest q - q| ≤ 2 ^ (e - format.precision - 1) := by
  rcases eq_or_ne q 0 with rfl | hne
  · rw [nearest_zero, sub_zero, abs_zero]
    exact (two_zpow_pos _).le
  rcases h.lt_or_eq with hlt | heq
  · have hlog : floorLog2 |q| < e :=
      two_zpow_lt_iff.mp ((floorLog2_spec (abs_pos.mpr hne)).1.trans_lt hlt)
    have hplace : format.lastPlace |q| ≤ e - format.precision := by
      unfold lastPlace
      omega
    have hhalf : (2 : ℚ) ^ (e - format.precision) = 2 * 2 ^ (e - format.precision - 1) :=
      two_zpow_eq_two_mul _
    have herror : |format.nearest q - q| ≤ 2 ^ format.lastPlace |q| / 2 := abs_nearest_sub_le q
    linarith [two_zpow_le_iff.mpr hplace]
  · have hexact : format.Representable q :=
      ⟨1, e, Nat.one_le_two_pow, by omega, by rw [heq, Nat.cast_one, one_mul]⟩
    rw [nearest_of_representable hexact, sub_self, abs_zero]
    exact (two_zpow_pos _).le

/-- **Rounding is strict from a relative distance on**: a number that is less by two parts of
`2 ^ precision` is rounded to a lesser number. -/
lemma nearest_lt_nearest (format : Format) {q r : ℚ} (hq : 2 ^ (format.minExponent + format.precision) ≤ q)
    (hlt : q < r) (h : q + 2 * (r / 2 ^ (format.precision : ℤ)) ≤ r) :
    format.nearest q < format.nearest r := by
  have hpos : 0 < q := (two_zpow_pos _).trans_le hq
  have hup := (abs_le.mp (format.abs_nearest_sub_le_div (abs_of_pos hpos).le hq)).2
  have hdown := (abs_le.mp (format.abs_nearest_sub_le_div (abs_of_pos (hpos.trans hlt)).le
    (hq.trans hlt.le))).1
  have herror := (div_lt_div_iff_of_pos_right (two_zpow_pos format.precision)).mpr hlt
  linarith

end Format

/-! ## The 64-bit format -/

/-- Numbers up to a bound that is not very small are rounded with an error of at most a part of
`2 ^ 53` of the bound. -/
lemma abs_nearest_sub_le_of_le {q r : ℚ} (h : |q| ≤ r) (hlow : 1 / 2 ^ 50 ≤ r) :
    |Format.double.nearest q - q| ≤ r / 2 ^ 53 := by
  refine Format.double.abs_nearest_sub_le_div h (le_trans ?_ hlow)
  have hsmall : (2 : ℚ) ^ (Format.double.minExponent + Format.double.precision) ≤ 2 ^ (-50 : ℤ) :=
    two_zpow_le_iff.mpr (by decide)
  exact hsmall.trans_eq (by norm_num)

/-- The same for a bound that is at least one. -/
lemma abs_nearest_sub_le_of_one_le {q r : ℚ} (h : |q| ≤ r) (hone : 1 ≤ r) :
    |Format.double.nearest q - q| ≤ r / 2 ^ 53 :=
  abs_nearest_sub_le_of_le h (le_trans (by norm_num) hone)

/-- The relative error of the reciprocal of a number that is not too large. -/
lemma abs_nearest_one_div_sub_le {x : ℚ} (hpos : 0 < x) (hx : x ≤ (2 ^ 50 : ℕ)) :
    |Format.double.nearest (1 / x) - 1 / x| ≤ 1 / x / 2 ^ 53 := by
  refine abs_nearest_sub_le_of_le (abs_of_pos (one_div_pos.mpr hpos)).le ?_
  exact_mod_cast one_div_le_one_div_of_le hpos hx

/-- **A quotient of whole numbers may be rounded before it is rounded up.** The dividend is no more
than `2 ^ 52`.

**Proof sketch.** A whole number below the exact quotient is below it by a part of the divisor at
least, and the error of the quotient is at most half of such a part. -/
lemma ceil_nearest_div {n k : ℕ} (hn : n ≤ 2 ^ 52) (hpos : 0 < k) (hk : k ≤ 2 ^ 50) :
    (Format.double.nearest (n / k)).ceil = (n / k : ℚ).ceil := by
  rcases n.eq_zero_or_pos with rfl | hmore
  · rw [Nat.cast_zero, zero_div, Format.nearest_zero]
  have hdivisor : (0 : ℚ) < k := by exact_mod_cast hpos
  have hone : (1 : ℚ) ≤ n := by exact_mod_cast hmore
  set quotient : ℚ := n / k with hquotient
  have hproduct : quotient * k = n := div_mul_cancel₀ _ hdivisor.ne'
  have hnonneg : 0 < quotient := div_pos (by linarith) hdivisor
  have habove : quotient ≤ quotient.ceil := Rat.le_ceil
  refine le_antisymm (Rat.ceil_le_iff.mpr ?_) (not_lt.mp fun hlt => ?_)
  · -- the ceiling is a number of the format, which rounding does not pass
    have hlow : 0 < quotient.ceil := ceil_pos hnonneg
    have hhigh : quotient.ceil ≤ n := Rat.ceil_le_iff.mpr (by
      exact_mod_cast div_le_self (by linarith) (by exact_mod_cast hpos))
    have hexact : Format.double.nearest quotient.ceil = quotient.ceil :=
      Format.nearest_intCast (show quotient.ceil.natAbs ≤ 2 ^ 53 by omega)
    exact (Format.double.nearest_mono habove).trans_eq hexact
  · obtain ⟨below, hbelow⟩ : ∃ below : ℤ, quotient.ceil = below + 1 := ⟨_, (sub_add_cancel _ 1).symm⟩
    have hrounded : Format.double.nearest quotient ≤ below :=
      Rat.ceil_le_iff.mp (Int.lt_add_one_iff.mp (hbelow ▸ hlt))
    have hexact : (below : ℚ) < quotient :=
      not_le.mp fun hle => absurd (Rat.ceil_le_iff.mpr hle) (by omega)
    have hnext : (below : ℚ) * k + 1 ≤ n := by
      have hless := mul_lt_mul_of_pos_right hexact hdivisor
      rw [hproduct] at hless
      exact_mod_cast hless
    have hsmall : (1 : ℚ) / 2 ^ 50 ≤ quotient := by
      have hcast : (k : ℚ) ≤ 2 ^ 50 := by exact_mod_cast hk
      exact div_le_div₀ (by linarith) hone hdivisor hcast
    have herror := (abs_le.mp (abs_nearest_sub_le_of_le (abs_of_pos hnonneg).le hsmall)).1
    have hclose : quotient - quotient / 2 ^ 53 ≤ below := by linarith
    have hscaled := mul_le_mul_of_nonneg_right hclose hdivisor.le
    have hshort : (n : ℚ) ≤ 2 ^ 52 := by exact_mod_cast hn
    linarith

end Arranger
