import Arranger.Proofs.Number.Grid

/-!
# Remainders of a division

The remainder of a division by a short whole number is what the division toward zero leaves, and the
remainder that is not negative is at most the whole number. It can be the whole number itself, where
a small negative remainder is lost when the whole number is added to it.

## Main definitions

* `Arranger.leftOver` — what a division toward zero leaves.

## Main results

* `Arranger.Binary.remainder_eq` — the remainder is what is left over, rounded.
* `Arranger.Binary.euclidean_spec` — the remainder that is not negative.
* `Arranger.Binary.value_euclidean_of_value_eq` — the remainder of an integer is exact.
* `Arranger.Binary.euclidean_of_small`, `le_euclidean` — the remainder of a small negative number.
* `Arranger.Binary.euclidean_le` — that of a large number is below the divisor by a last place.
-/

namespace Arranger

/-! ## What is left over -/

/-- What is left of `q` after dividing it by `n` toward zero. -/
def leftOver (q n : ℚ) : ℚ :=
  q - truncate (q / n) * n

section LeftOver

variable {q n : ℚ} (hn : 0 < n)

include hn

/-- Of what is not negative something is left that is not negative either, and less than the
divisor. -/
lemma leftOver_of_nonneg (hq : 0 ≤ q) : 0 ≤ leftOver q n ∧ leftOver q n < n := by
  have hfloor := floor_bounds (q / n)
  rw [le_div_iff₀ hn, div_lt_iff₀ hn] at hfloor
  rw [leftOver, truncate, if_neg (not_lt.mpr (div_nonneg hq hn.le))]
  constructor <;> linarith

/-- Of what is negative something is left that is not positive, and more than the divisor with a
minus sign. -/
lemma leftOver_of_neg (hq : q < 0) : -n < leftOver q n ∧ leftOver q n ≤ 0 := by
  have hle : q / n ≤ (q / n).ceil := Rat.le_ceil
  have hlt : ((q / n).ceil : ℚ) < q / n + 1 := Rat.ceil_lt
  rw [div_le_iff₀ hn] at hle
  rw [← sub_lt_iff_lt_add, lt_div_iff₀ hn] at hlt
  rw [leftOver, truncate, if_pos (div_neg_of_neg_of_pos hq hn)]
  constructor <;> linarith

/-- What is left is of a smaller magnitude than the divisor. -/
lemma abs_leftOver_lt (q : ℚ) : |leftOver q n| < n := by
  rw [abs_lt]
  rcases lt_or_ge q 0 with hq | hq
  · have := leftOver_of_neg hn hq
    constructor <;> linarith
  · have := leftOver_of_nonneg hn hq
    constructor <;> linarith

/-- Of a small negative number all is left. -/
lemma leftOver_of_small (hq : q < 0) (hsmall : -n < q) : leftOver q n = q := by
  have hneg : q / n < 0 := div_neg_of_neg_of_pos hq hn
  have habove : -1 < q / n := (lt_div_iff₀ hn).mpr (by linarith)
  have hle : q / n ≤ (q / n).ceil := Rat.le_ceil
  have hlt : ((q / n).ceil : ℚ) < q / n + 1 := Rat.ceil_lt
  have hlow : -1 < (q / n).ceil := by exact_mod_cast habove.trans_le hle
  have hhigh : (q / n).ceil < 1 := by exact_mod_cast (by linarith : ((q / n).ceil : ℚ) < 1)
  have hceil : (q / n).ceil = 0 := by omega
  rw [leftOver, truncate, if_pos hneg, hceil]
  simp

end LeftOver

/-- Of an integer an integer is left, which has the same remainder. -/
lemma exists_leftOver_eq (z : ℤ) (n : ℕ) : ∃ k : ℤ, leftOver z n = k ∧ k % n = z % n := by
  refine ⟨z - truncate ((z : ℚ) / n) * n, ?_, Int.sub_mul_emod_self_right _ _ _⟩
  rw [leftOver]
  push_cast
  rfl

namespace Binary

variable {format : Format} {x y : Binary format}

/-- **The remainder is what is left over**, rounded, with the sign of the number that is divided. -/
lemma remainder_eq (hx : x.isFinite = true) (hy : y.isFinite = true) (hne : y.value ≠ 0) :
    x.remainder y = roundSigned x.isNegative (leftOver x.value y.value) := by
  cases x with
  | nan => cases hx
  | infinite s => cases hx
  | finite s m e hc =>
    cases y with
    | nan => cases hy
    | infinite t => cases hy
    | finite t k f hd =>
      refine if_neg fun hk => hne ?_
      simp [value_finite, hk]

variable [format.Regular] {n : ℕ}

/-- The remainder of a division by a short whole number. -/
lemma remainder_spec (hx : x.isFinite = true) (hpos : 0 < n) (hn : n ≤ 2 ^ format.precision) :
    (x.remainder (ofNat n)).isFinite = true ∧
      (x.remainder (ofNat n)).value = format.nearest (leftOver x.value n) := by
  have hn' : (0 : ℚ) < n := by exact_mod_cast hpos
  have hvalue : (ofNat n : Binary format).value = n := value_ofNat hn
  rw [remainder_eq hx (isFinite_ofNat hn) (by rw [hvalue]; exact hn'.ne'), hvalue]
  exact roundSigned_of_abs_le hn (abs_leftOver_lt hn' x.value).le _

/-- **The remainder that is not negative** of a division by a short whole number: what is left over,
or if that is negative, its sum with the whole number. It is at most the whole number. -/
lemma euclidean_spec (hx : x.isFinite = true) (hpos : 0 < n) (hn : n ≤ 2 ^ format.precision) :
    (x.euclidean (ofNat n)).isFinite = true ∧ 0 ≤ (x.euclidean (ofNat n)).value ∧
      (x.euclidean (ofNat n)).value ≤ n ∧
      (x.euclidean (ofNat n)).value =
        if format.nearest (leftOver x.value n) < 0
          then format.nearest (format.nearest (leftOver x.value n) + n)
          else format.nearest (leftOver x.value n) := by
  obtain ⟨hfinite, hvalue⟩ := remainder_spec hx hpos hn
  obtain ⟨hnFinite, hnValue, hnSign⟩ := ofNat_spec format hn
  obtain ⟨hzeroFinite, hzeroValue, -⟩ := zero_spec format
  have hn' : (0 : ℚ) < n := by exact_mod_cast hpos
  have habs := abs_le.mp (Format.abs_nearest_le_natCast hn (abs_leftOver_lt hn' x.value).le)
  have hsign : x.remainder (ofNat n) < 0 ↔ format.nearest (leftOver x.value n) < 0 := by
    rw [lt_iff hfinite hzeroFinite, hzeroValue, hvalue]
  by_cases hneg : format.nearest (leftOver x.value n) < 0
  · have hsum : x.euclidean (ofNat n) = x.remainder (ofNat n) + (ofNat n : Binary format).abs :=
      if_pos (hsign.mpr hneg)
    have hlow := format.nearest_nonneg (neg_le_iff_add_nonneg.mp habs.1)
    have hhigh := Format.nearest_le_natCast hn
      (show format.nearest (leftOver x.value n) + n ≤ n by linarith)
    rw [if_pos hneg, hsum, abs_of_not_isNegative hnSign, add_eq hfinite hnFinite, hnValue, hvalue]
    obtain ⟨hsumFinite, hsumValue⟩ := roundSigned_of_abs_le hn
      (show |format.nearest (leftOver x.value n) + n| ≤ n by rw [abs_le]; constructor <;> linarith)
      ((x.remainder (ofNat n)).isNegative && (ofNat n : Binary format).isNegative)
    exact ⟨hsumFinite, hsumValue ▸ hlow, hsumValue ▸ hhigh, hsumValue⟩
  · have hsame : x.euclidean (ofNat n) = x.remainder (ofNat n) := if_neg (hsign.not.mpr hneg)
    rw [if_neg hneg, hsame]
    exact ⟨hfinite, hvalue ▸ not_lt.mp hneg, hvalue ▸ habs.2, hvalue⟩

/-- **The remainder of an integer is the one of the integers**: nothing is rounded. -/
lemma value_euclidean_of_value_eq (hx : x.isFinite = true) (hpos : 0 < n)
    (hn : n ≤ 2 ^ format.precision) {z : ℤ} (hz : x.value = z) :
    (x.euclidean (ofNat n)).value = (z % n : ℤ) := by
  obtain ⟨-, -, -, hvalue⟩ := euclidean_spec hx hpos hn
  obtain ⟨k, hk, hmod⟩ := exists_leftOver_eq z n
  have hsmall : |k| < n := by
    have habs := abs_leftOver_lt (by exact_mod_cast hpos : (0 : ℚ) < n) z
    rw [hk] at habs
    exact_mod_cast habs
  obtain ⟨hlow, hhigh⟩ := abs_lt.mp hsmall
  have hexact : ∀ i : ℤ, -n < i → i < n → format.nearest i = i := fun i hlow hhigh =>
    Format.nearest_intCast (by omega)
  rw [hvalue, hz, hk, hexact k hlow hhigh]
  split_ifs with hneg
  · have hbelow : k < 0 := by exact_mod_cast hneg
    have hsum : (k : ℚ) + n = (k + n : ℤ) := by
      push_cast
      rfl
    rw [hsum, hexact (k + n) (by omega) (by omega), ← hmod, ← Int.add_emod_right,
      Int.emod_eq_of_lt (by omega) (by omega)]
  · have habove : 0 ≤ k := by exact_mod_cast not_lt.mp hneg
    rw [← hmod, Int.emod_eq_of_lt habove hhigh]

/-- The remainder of a number that is as large as the divisor is at least a unit below it: what is
left over is a whole number of units. -/
lemma euclidean_le {x : Double} (hx : x.isFinite = true) {n : ℕ} {whole one : ℤ}
    (h : InUnits n whole one) (hlarge : n ≤ |x.value|) :
    (x.euclidean (ofNat n)).value ≤ n - 2 ^ Format.double.lastPlace n := by
  have hunit := two_zpow_pos (Format.double.lastPlace n)
  have hpos := h.pos
  have hone := h.one_pos
  obtain ⟨k, hk⟩ := Format.exists_intCast_of_le_abs hpos (representable_value x) hlarge
  obtain ⟨j, hj⟩ : ∃ j : ℤ, leftOver x.value n = j * 2 ^ Format.double.lastPlace n := by
    refine ⟨k - truncate (x.value / n) * whole, ?_⟩
    push_cast
    rw [leftOver, sub_mul, ← hk, mul_assoc, ← h.whole_eq]
  have hsmall : |j| < whole := by
    have habs := abs_leftOver_lt hpos x.value
    rw [hj, abs_mul, abs_of_pos hunit] at habs
    have hcount := lt_of_mul_lt_mul_right (habs.trans_eq h.whole_eq) hunit.le
    exact_mod_cast hcount
  obtain ⟨hlow, hhigh⟩ := abs_lt.mp hsmall
  have hround := h.nearest_mul (show |j| ≤ whole + one by omega)
  have hbound : ∀ i : ℤ, i ≤ whole - 1 → (i : ℚ) * 2 ^ Format.double.lastPlace n ≤
      n - 2 ^ Format.double.lastPlace n := by
    intro i hi
    have hcast : (i : ℚ) ≤ whole - 1 := by exact_mod_cast hi
    have hmul := mul_le_mul_of_nonneg_right hcast hunit.le
    rwa [sub_mul, one_mul, ← h.whole_eq] at hmul
  obtain ⟨-, -, -, hvalue⟩ := euclidean_spec hx (by exact_mod_cast hpos) h.le_two_pow
  rw [hvalue, hj, hround]
  split_ifs with hneg
  · have hcount : j < 0 := by
      by_contra hnonneg
      have hcast : (0 : ℚ) ≤ j := by exact_mod_cast not_lt.mp hnonneg
      exact absurd hneg (not_lt.mpr (mul_nonneg hcast hunit.le))
    have hsum : (j : ℚ) * 2 ^ Format.double.lastPlace n + n =
        (j + whole : ℤ) * 2 ^ Format.double.lastPlace n := by
      rw [Int.cast_add, add_mul, ← h.whole_eq]
    rw [hsum, h.nearest_mul (abs_le.mpr ⟨by omega, by omega⟩)]
    exact hbound _ (by omega)
  · exact hbound _ (by omega)

/-- The remainder of a small negative number is the sum with the divisor. -/
lemma euclidean_of_small (hx : x.isFinite = true) (hn : n ≤ 2 ^ format.precision)
    (hneg : x.value < 0) (hsmall : -n < x.value) :
    (x.euclidean (ofNat n)).value = format.nearest (n - -x.value) := by
  have hpos : (0 : ℚ) < n := by linarith
  have hleft := leftOver_of_small hpos hneg hsmall
  have hround := Format.nearest_of_representable (representable_value x)
  obtain ⟨-, -, -, hvalue⟩ := euclidean_spec hx (by exact_mod_cast hpos) hn
  rw [hvalue, hleft, hround, if_pos hneg]
  congr 1
  ring

/-- A small negative number has a remainder that is no smaller for a greater divisor. -/
lemma le_euclidean (hx : x.isFinite = true) (hn : n ≤ 2 ^ format.precision) (hneg : x.value < 0)
    (hsmall : -n < x.value) {size : ℕ} (hsize : n ≤ size)
    (hfinite : (x.euclidean (ofNat size)).isFinite = true) :
    format.nearest (n - -x.value) ≤ (x.euclidean (ofNat size)).value := by
  obtain ⟨hzero, hzeroValue, -⟩ := zero_spec format
  have hlt : x < 0 := by rwa [lt_iff hx hzero, hzeroValue]
  have hle : (ofNat size : Binary format).isFinite = true →
      n ≤ (ofNat size : Binary format).value := fun hy =>
    (Format.natCast_le_nearest hn (by exact_mod_cast hsize)).trans_eq (value_roundSigned hy).symm
  have hround : (ofNat size : Binary format).isFinite = true ∨
      (ofNat size : Binary format) = .infinite false :=
    isFinite_or_round_eq_infinite format (Nat.cast_nonneg size)
  have hremainder : x.remainder (ofNat size) = x := by
    rcases hround with hy | hy
    · have hvalue := hle hy
      rw [remainder_eq hx hy (by linarith), leftOver_of_small (by linarith) hneg (by linarith)]
      exact roundSigned_value hx
    · rw [hy]
      cases x with
      | nan => cases hx
      | infinite s => cases hx
      | finite s m e hc => rfl
  have hsum : x.euclidean (ofNat size) = x + ofNat size := by
    rw [euclidean, hremainder, if_pos hlt, abs_of_not_isNegative (isNegative_ofNat size)]
  rw [hsum] at hfinite ⊢
  obtain ⟨-, hy⟩ := isFinite_of_isFinite_add hfinite
  have hvalue := hle hy
  rw [add_eq hx hy] at hfinite ⊢
  rw [value_roundSigned hfinite]
  exact format.nearest_mono (by linarith)

end Binary

end Arranger
