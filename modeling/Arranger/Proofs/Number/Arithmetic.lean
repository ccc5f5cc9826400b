import Arranger.Proofs.Number.Nearest

/-!
# Laws of arithmetic and comparison

On finite numbers every operation is the exact operation on values with one rounding behind it, and
the comparisons are those of the values. Whole numbers with no more digits than a significand are
computed with exactly.

## Main results

* `Arranger.Binary.add_eq`, `sub_eq`, `mul_eq`, `lt_iff`, `le_iff` — operations on values.
* `Arranger.Binary.value_ofNat` — short whole numbers have their exact value.
* `Arranger.Binary.zero_spec`, `one_spec` — the numerals that bounds are made of.
* `Arranger.Binary.ofNat_add`, `ofNat_sub`, `ofNat_lt_iff`, `ofNat_le_iff`, `toWord_ofNat` — exact
  computing with whole numbers.
-/

namespace Arranger.Binary

variable {format : Format} {x y : Binary format}

/-! ## Operations as operations on values -/

/-- A finite number is a number. -/
lemma ne_nan (hx : x.isFinite = true) : x ≠ .nan := by
  rintro rfl
  cases hx

/-- The other sign does not change whether a number is finite. -/
@[simp] lemma isFinite_neg : (-x).isFinite = x.isFinite := by
  cases x <;> rfl

/-- The other sign negates the value. -/
@[simp] lemma value_neg : (-x).value = -x.value := by
  cases x with
  | nan => exact neg_zero.symm
  | infinite s => exact neg_zero.symm
  | finite s m e h =>
    show (Binary.finite (!s) m e h).value = -(Binary.finite s m e h).value
    cases s <;> simp [value_finite]

/-- The other sign of a finite number is the other one. -/
lemma isNegative_neg (h : x.isFinite = true) : (-x).isNegative = !x.isNegative := by
  cases x with
  | nan => simp [isFinite] at h
  | infinite s => rfl
  | finite s m e hc => rfl

/-- The other sign twice is the number. -/
@[simp] lemma neg_neg (x : Binary format) : -(-x) = x := by
  cases x with
  | nan => rfl
  | infinite s => show Binary.infinite (!!s) = _; rw [Bool.not_not]
  | finite s m e h => show Binary.finite (!!s) m e h = _; congr; exact Bool.not_not s

/-- The magnitude of a number without the minus sign is the number. -/
lemma abs_of_not_isNegative (h : x.isNegative = false) : x.abs = x := by
  simp [abs, h]

/-- The magnitude of a finite number has the plus sign. -/
lemma isNegative_abs (h : x.isFinite = true) : x.abs.isNegative = false := by
  unfold abs
  split_ifs with hs
  · rw [isNegative_neg h, hs]; rfl
  · simpa using hs

/-- The magnitude of a finite number is finite. -/
lemma isFinite_abs : x.abs.isFinite = x.isFinite := by
  unfold abs
  split_ifs <;> simp

/-- The value of the magnitude is the magnitude of the value. -/
lemma value_abs (x : Binary format) : x.abs.value = |x.value| := by
  cases x with
  | nan => exact abs_zero.symm
  | infinite s => cases s <;> exact abs_zero.symm
  | finite s m e hc =>
    rw [abs_value_finite]
    cases s with
    | false => simp [abs, isNegative, value_finite]
    | true =>
      show (-Binary.finite true m e hc).value = _
      simp [value_finite]

/-- Finite numbers are compared by their values. -/
lemma lt_iff (hx : x.isFinite = true) (hy : y.isFinite = true) : x < y ↔ x.value < y.value := by
  cases x <;> cases y <;> simp [isFinite] at hx hy
  exact decide_eq_true_iff

/-- Finite numbers are compared by their values. -/
lemma le_iff (hx : x.isFinite = true) (hy : y.isFinite = true) : x ≤ y ↔ x.value ≤ y.value := by
  cases x <;> cases y <;> simp [isFinite] at hx hy
  show (blt _ _ || numEq _ _) = true ↔ _
  rw [Bool.or_eq_true, le_iff_lt_or_eq]
  exact or_congr decide_eq_true_iff decide_eq_true_iff

/-- Finite numbers are the same if their values are. -/
lemma numEq_eq_decide (hx : x.isFinite = true) (hy : y.isFinite = true) :
    x.numEq y = decide (x.value = y.value) := by
  cases x <;> cases y <;> simp [isFinite] at hx hy
  rfl

/-- What is the same as a finite number is finite. -/
lemma isFinite_of_numEq (hy : y.isFinite = true) (h : x.numEq y = true) : x.isFinite = true := by
  cases x <;> cases y <;> first | rfl | cases h | cases hy

/-- A sum of finite numbers is the rounded sum of the values. -/
lemma add_eq (hx : x.isFinite = true) (hy : y.isFinite = true) :
    x + y = roundSigned (x.isNegative && y.isNegative) (x.value + y.value) := by
  cases x <;> cases y <;> simp [isFinite] at hx hy
  rfl

/-- A difference of finite numbers is the rounded difference of the values. -/
lemma sub_eq (hx : x.isFinite = true) (hy : y.isFinite = true) :
    x - y = roundSigned (x.isNegative && !y.isNegative) (x.value - y.value) := by
  have hsum := add_eq hx (y := -y) (by simpa using hy)
  rw [isNegative_neg hy, value_neg, ← sub_eq_add_neg] at hsum
  exact hsum

/-- A product of finite numbers is the rounded product of the values. -/
lemma mul_eq (hx : x.isFinite = true) (hy : y.isFinite = true) :
    x * y = roundSigned (x.isNegative != y.isNegative) (x.value * y.value) := by
  cases x <;> cases y <;> simp [isFinite] at hx hy
  rfl

/-- A product of finite numbers is a number. -/
lemma mul_ne_nan [format.Regular] (hx : x.isFinite = true) (hy : y.isFinite = true) :
    x * y ≠ .nan := by
  rw [mul_eq hx hy]
  exact roundSigned_ne_nan _ _

/-! ## Values and integer parts -/

/-- A number without a minus sign has no negative value. -/
lemma value_nonneg (hsign : x.isNegative = false) : 0 ≤ x.value := by
  cases x with
  | nan => exact le_rfl
  | infinite s => exact le_rfl
  | finite s m e hc =>
    obtain rfl : s = false := hsign
    rw [value_finite, if_neg Bool.false_ne_true, one_mul]
    exact mul_nonneg (Nat.cast_nonneg m) (two_zpow_pos e).le

/-- A number with a positive value has no minus sign. -/
lemma isNegative_of_pos (h : 0 < x.value) : x.isNegative = false := by
  cases x with
  | nan => rfl
  | infinite s => exact absurd h (lt_irrefl _)
  | finite s m e hc =>
    have hm : m ≠ 0 := by
      rintro rfl
      exact absurd h (by simp [value_finite])
    rw [← Bool.not_eq_true]
    show ¬ s = true
    rw [← value_neg_iff hc hm]
    exact not_lt.mpr h.le

/-- Rounding what is not negative gives no minus sign. -/
lemma isNegative_round (format : Format) [format.Regular] {q : ℚ} (h : 0 ≤ q) :
    (roundSigned false q : Binary format).isNegative = false := by
  rcases lt_or_ge |format.nearest q| format.limit with hlt | hge
  · obtain ⟨-, -, hsign⟩ := roundSigned_of_lt false hlt
    rw [hsign, decide_eq_false (not_lt.mpr h), ite_self]
  · rw [roundSigned_of_le false hge]
    exact decide_eq_false (not_lt.mpr h)

/-- The word of a whole number is its value, unless that is too large. -/
lemma toWord_of_value_eq (hx : x.isFinite = true) {n : ℕ} (h : x.value = n) :
    x.toWord = min n maxWord := by
  cases x with
  | nan => cases hx
  | infinite s => cases hx
  | finite s m e hc =>
    have htruncate : truncate (Binary.finite s m e hc).value = n := by
      rw [h]
      exact_mod_cast truncate_intCast n
    show min (truncate _).toNat maxWord = _
    rw [htruncate, Int.toNat_natCast]

/-- The integer part of a number is a word. -/
lemma toWord_le (x : Binary format) : x.toWord ≤ maxWord := by
  cases x with
  | nan => exact Nat.zero_le _
  | infinite s =>
    show (if s = true then 0 else maxWord) ≤ maxWord
    split_ifs
    · exact Nat.zero_le _
    · exact le_rfl
  | finite s m e hc => exact Nat.min_le_right _ _

/-! ## Whole numbers -/

/-- The number zero is a whole number. -/
lemma ofNat_zero : (ofNat 0 : Binary format) = 0 := rfl

/-- The number one is a whole number. -/
lemma ofNat_one : (ofNat 1 : Binary format) = 1 := rfl

section Whole

variable [format.Regular] {a b n : ℕ}

/-- A short whole number is below the limit of the format. -/
lemma natCast_lt_limit (h : n ≤ 2 ^ format.precision) : (n : ℚ) < format.limit := by
  have hexponent : 0 < format.maxExponent := Format.Regular.maxExponent_pos
  calc (n : ℚ) ≤ 2 ^ (format.precision : ℤ) := by rw [two_zpow_natCast]; exact_mod_cast h
    _ < format.limit := by rw [Format.limit, two_zpow_lt_iff]; omega

/-- A short integer is rounded to a finite number with its value and, unless it is zero, its
sign. -/
lemma roundSigned_intCast (format : Format) [format.Regular] (s : Bool) {n : ℤ}
    (h : n.natAbs ≤ 2 ^ format.precision) :
    (roundSigned s n : Binary format).isFinite = true ∧
      (roundSigned s n : Binary format).value = n ∧
      (roundSigned s n : Binary format).isNegative = if n = 0 then s else decide (n < 0) := by
  have hnearest := Format.nearest_intCast h
  have hlt : |format.nearest n| < format.limit := by
    rw [hnearest, ← Int.cast_abs, ← Nat.cast_natAbs]
    exact natCast_lt_limit h
  have hround := roundSigned_of_lt s hlt
  rw [hnearest] at hround
  exact_mod_cast hround

/-- A short whole number is a finite number without a minus sign, and has its exact value. -/
lemma ofNat_spec (format : Format) [format.Regular] (h : n ≤ 2 ^ format.precision) :
    (ofNat n : Binary format).isFinite = true ∧ (ofNat n : Binary format).value = n ∧
      (ofNat n : Binary format).isNegative = false := by
  have hround := roundSigned_intCast format (n := n) false (by simpa using h)
  have hsign : (if (n : ℤ) = 0 then false else decide ((n : ℤ) < 0)) = false := by
    split_ifs <;> simp
  rw [hsign] at hround
  exact_mod_cast hround

/-- The numeral zero is a finite number without a minus sign, and has the value zero. -/
lemma zero_spec (format : Format) [format.Regular] :
    (0 : Binary format).isFinite = true ∧ (0 : Binary format).value = 0 ∧
      (0 : Binary format).isNegative = false := by
  have h := ofNat_spec format (n := 0) (Nat.zero_le _)
  rwa [ofNat_zero, Nat.cast_zero] at h

/-- The numeral one is a finite number without a minus sign, and has the value one. -/
lemma one_spec (format : Format) [format.Regular] :
    (1 : Binary format).isFinite = true ∧ (1 : Binary format).value = 1 ∧
      (1 : Binary format).isNegative = false := by
  have h := ofNat_spec format (n := 1) Nat.one_le_two_pow
  rwa [ofNat_one, Nat.cast_one] at h

/-- There is only one number one. -/
lemma eq_one_of_numEq (h : x.numEq 1 = true) : x = 1 := by
  obtain ⟨hone, honeValue, honeSign⟩ := one_spec format
  have hx := isFinite_of_numEq hone h
  rw [numEq_eq_decide hx hone, decide_eq_true_iff] at h
  refine eq_of_value_eq hx hone h ((isNegative_of_pos ?_).trans honeSign.symm)
  rw [h, honeValue]
  exact one_pos

/-- The positive numbers are those of positive value. -/
lemma pos_iff (hx : x.isFinite = true) : 0 < x ↔ 0 < x.value := by
  obtain ⟨hzero, hvalue, -⟩ := zero_spec format
  rw [lt_iff hzero hx, hvalue]

/-- A short whole number is finite. -/
lemma isFinite_ofNat (h : n ≤ 2 ^ format.precision) : (ofNat n : Binary format).isFinite = true :=
  (ofNat_spec format h).1

/-- **A short whole number has its exact value.** -/
lemma value_ofNat (h : n ≤ 2 ^ format.precision) : (ofNat n : Binary format).value = n :=
  (ofNat_spec format h).2.1

/-- A whole number has no minus sign. -/
lemma isNegative_ofNat (n : ℕ) : (ofNat n : Binary format).isNegative = false :=
  isNegative_round format (Nat.cast_nonneg n)

/-- The sum of two short whole numbers is the number nearest to their exact sum. -/
lemma ofNat_add (ha : a ≤ 2 ^ format.precision) (hb : b ≤ 2 ^ format.precision) :
    (ofNat a + ofNat b : Binary format) = ofNat (a + b) := by
  obtain ⟨hafinite, hav, has⟩ := ofNat_spec format ha
  obtain ⟨hbfinite, hbv, hbs⟩ := ofNat_spec format hb
  rw [add_eq hafinite hbfinite, hav, hbv, has, ← Nat.cast_add]
  rfl

/-- Differences of whole numbers are exact. -/
lemma ofNat_sub (hle : b ≤ a) (h : a ≤ 2 ^ format.precision) :
    (ofNat a - ofNat b : Binary format) = ofNat (a - b) := by
  obtain ⟨ha, hav, has⟩ := ofNat_spec format h
  obtain ⟨hb, hbv, hbs⟩ := ofNat_spec format (n := b) (by omega)
  rw [sub_eq ha hb, hav, hbv, has, ← Nat.cast_sub hle]
  rfl

/-- The product of two short whole numbers is the number nearest to their exact product. -/
lemma ofNat_mul (ha : a ≤ 2 ^ format.precision) (hb : b ≤ 2 ^ format.precision) :
    (ofNat a * ofNat b : Binary format) = ofNat (a * b) := by
  obtain ⟨hafinite, hav, has⟩ := ofNat_spec format ha
  obtain ⟨hbfinite, hbv, hbs⟩ := ofNat_spec format hb
  rw [mul_eq hafinite hbfinite, hav, hbv, has, hbs, ← Nat.cast_mul]
  rfl

/-- Whole numbers are compared exactly. -/
lemma ofNat_lt_iff (ha : a ≤ 2 ^ format.precision) (hb : b ≤ 2 ^ format.precision) :
    (ofNat a : Binary format) < ofNat b ↔ a < b := by
  rw [lt_iff (isFinite_ofNat ha) (isFinite_ofNat hb), value_ofNat ha, value_ofNat hb]
  exact Nat.cast_lt

/-- Whole numbers are compared exactly. -/
lemma ofNat_le_iff (ha : a ≤ 2 ^ format.precision) (hb : b ≤ 2 ^ format.precision) :
    (ofNat a : Binary format) ≤ ofNat b ↔ a ≤ b := by
  rw [le_iff (isFinite_ofNat ha) (isFinite_ofNat hb), value_ofNat ha, value_ofNat hb]
  exact Nat.cast_le

/-- A short whole number is read off again. -/
lemma toWord_ofNat (h : n ≤ 2 ^ format.precision) (hword : n ≤ maxWord) :
    (ofNat n : Binary format).toWord = n := by
  rw [toWord_of_value_eq (isFinite_ofNat h) (value_ofNat h), min_eq_left hword]

/-- A longer whole number is rounded to no less than the longest of the short ones.

**Proof sketch.** Rounding keeps the order, and `2 ^ precision` is rounded to itself. -/
lemma ofNat_of_two_pow_le (format : Format) [format.Regular] (h : 2 ^ format.precision ≤ n) :
    (ofNat n : Binary format) = .infinite false ∨
      ((ofNat n : Binary format).isFinite = true ∧
        (2 ^ format.precision : ℚ) ≤ (ofNat n : Binary format).value) := by
  rcases lt_or_ge |format.nearest n| format.limit with hlt | hge
  · obtain ⟨hfinite, hvalue, -⟩ := roundSigned_of_lt false hlt
    refine .inr ⟨hfinite, ?_⟩
    rw [ofNat, round, hvalue]
    exact_mod_cast Format.natCast_le_nearest le_rfl (by exact_mod_cast h)
  · left
    have hround := roundSigned_of_le false hge
    rwa [decide_eq_false (by simp)] at hround

end Whole

end Arranger.Binary
