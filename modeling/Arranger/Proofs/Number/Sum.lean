import Arranger.Proofs.Number.Order

/-!
# Sums with whole numbers

Whole numbers are added to numbers of a pattern, and zero is one of them. Adding zero changes no
number but the zero with a minus sign, which is no sum with a number that has no minus sign.

## Main results

* `Arranger.Binary.add_ofNat_zero`, `add_add_ofNat_zero` — adding zero.
* `Arranger.Binary.zero_add_add_commutes` — terms that change places.
* `Arranger.Binary.eq_ofInt_of_value_eq` — numbers with the value of a positive integer.
* `Arranger.Binary.ofInt_add_ofNat` — the sum of a short integer and a short whole number.
-/

namespace Arranger.Binary

variable {format : Format} [format.Regular] {x y : Binary format}

/-! ## Adding zero -/

/-- Adding zero to a number keeps it, unless it is the zero with a minus sign. -/
lemma add_ofNat_zero_of_ne (h : x.isFinite = true → x.value = 0 → x.isNegative = false) :
    x + ofNat 0 = x := by
  have hzero := ofNat_spec format (n := 0) (Nat.zero_le _)
  cases x with
  | nan => exact nan_add _
  | infinite s =>
    cases hy : (ofNat 0 : Binary format) with
    | nan => rw [hy] at hzero; cases hzero.1
    | infinite t => rw [hy] at hzero; cases hzero.1
    | finite t m e hc => rfl
  | finite s m e hc =>
    rw [add_eq rfl hzero.1, hzero.2.1, hzero.2.2, Bool.and_false, Nat.cast_zero, add_zero]
    refine roundSigned_value_finite hc fun hm => ?_
    exact (h rfl (by simp [value_finite, hm])).symm

/-- Adding zero changes no number that has no minus sign. -/
lemma add_ofNat_zero (hsign : x.isNegative = false) : x + ofNat 0 = x :=
  add_ofNat_zero_of_ne fun _ _ => hsign

/-- Adding zero to a finite number gives a finite number. -/
lemma isFinite_add_ofNat_zero (hx : x.isFinite = true) : (x + ofNat 0).isFinite = true := by
  obtain ⟨hzero, hzeroValue, -⟩ := ofNat_spec format (n := 0) (Nat.zero_le _)
  by_cases hvalue : x.value = 0
  · rw [add_eq hx hzero, hvalue, hzeroValue, Nat.cast_zero, add_zero]
    exact (roundSigned_of_lt _ (by rw [Format.nearest_zero, abs_zero]; exact two_zpow_pos _)).1
  · rw [add_ofNat_zero_of_ne fun _ hzero => absurd hzero hvalue]
    exact hx

omit [format.Regular] in
/-- The value of a finite number is a multiple of the smallest magnitude. -/
lemma exists_value_eq (hx : x.isFinite = true) :
    ∃ z : ℤ, x.value = z * 2 ^ format.minExponent := by
  cases x with
  | nan => cases hx
  | infinite s => cases hx
  | finite s m e hc =>
    obtain ⟨k, hk⟩ : ∃ k : ℕ, e = k + format.minExponent :=
      ⟨(e - format.minExponent).toNat, by have := hc.2.1; omega⟩
    refine ⟨(if s then -1 else 1) * (m * 2 ^ k), ?_⟩
    rw [value_finite, hk, two_zpow_add, two_zpow_natCast]
    cases s <;> push_cast <;> ring

omit [format.Regular] in
/-- A sum is finite only if both terms are. -/
lemma isFinite_of_isFinite_add (h : (x + y).isFinite = true) :
    x.isFinite = true ∧ y.isFinite = true := by
  cases x with
  | nan => rw [nan_add] at h; cases h
  | infinite s =>
    cases y with
    | nan => rw [add_nan] at h; cases h
    | infinite t =>
      change (if s = t then infinite s else nan : Binary format).isFinite = true at h
      split_ifs at h <;> cases h
    | finite t n f hd => cases h
  | finite s m e hc =>
    cases y with
    | nan => cases h
    | infinite t => cases h
    | finite t n f hd => exact ⟨rfl, rfl⟩

/-- A negative sum is not rounded to zero.

**Proof sketch.** The exact sum is a multiple of the smallest magnitude. If it is negative, it is
at most the smallest magnitude with a minus sign, which is representable. -/
lemma nearest_add_neg (hx : x.isFinite = true) (hy : y.isFinite = true)
    (h : x.value + y.value < 0) : format.nearest (x.value + y.value) < 0 := by
  obtain ⟨a, ha⟩ := exists_value_eq hx
  obtain ⟨b, hb⟩ := exists_value_eq hy
  have hplace := two_zpow_pos format.minExponent
  have hsum : x.value + y.value = ((a + b : ℤ) : ℚ) * 2 ^ format.minExponent := by
    rw [ha, hb]
    push_cast
    ring
  have hle : x.value + y.value ≤ -(2 ^ format.minExponent) := by
    have hcount : (a + b : ℤ) ≤ -1 := by
      by_contra hnonneg
      have : (0 : ℚ) ≤ ((a + b : ℤ) : ℚ) := by exact_mod_cast (by omega : 0 ≤ a + b)
      exact absurd h (not_lt.mpr (hsum ▸ mul_nonneg this hplace.le))
    have hcast : ((a + b : ℤ) : ℚ) ≤ -1 := by exact_mod_cast hcount
    rw [hsum]
    linarith [mul_le_mul_of_nonneg_right hcast hplace.le]
  have hsmallest : format.Representable (-(2 ^ format.minExponent)) :=
    ⟨1, format.minExponent, Nat.one_le_two_pow, le_rfl, by
      rw [abs_neg, abs_of_pos hplace, Nat.cast_one, one_mul]⟩
  have hround := hsmallest.nearest_le hle
  linarith

/-- A sum with a number that has no minus sign is not the zero with a minus sign. -/
lemma isNegative_add (hsign : y.isNegative = false) (hfinite : (x + y).isFinite = true)
    (hvalue : (x + y).value = 0) : (x + y).isNegative = false := by
  obtain ⟨hx, hy⟩ := isFinite_of_isFinite_add hfinite
  rw [add_eq hx hy, hsign, Bool.and_false] at hfinite hvalue ⊢
  rcases lt_or_ge |format.nearest (x.value + y.value)| format.limit with hlt | hge
  · obtain ⟨-, hround, hroundSign⟩ := roundSigned_of_lt false hlt
    rw [hroundSign, ite_eq_left_iff]
    intro _
    rw [decide_eq_false_iff_not]
    intro hneg
    have hnearest := nearest_add_neg hx hy hneg
    rw [← hround, hvalue] at hnearest
    exact lt_irrefl _ hnearest
  · rw [roundSigned_of_le false hge] at hfinite
    cases hfinite

/-- Adding zero to a sum with a number that has no minus sign keeps the sum. -/
lemma add_add_ofNat_zero (hsign : y.isNegative = false) : x + y + ofNat 0 = x + y :=
  add_ofNat_zero_of_ne (isNegative_add hsign)

/-! ## The other order -/

omit [format.Regular] in
/-- A sum does not depend on the order of its terms. -/
lemma add_commutes (x y : Binary format) : x + y = y + x := by
  cases x with
  | nan => rw [nan_add, add_nan]
  | infinite s =>
    cases y with
    | nan => rw [nan_add, add_nan]
    | infinite t =>
      show (if s = t then infinite s else nan : Binary format) =
        if t = s then infinite t else nan
      by_cases hsign : s = t
      · rw [hsign]
      · rw [if_neg hsign, if_neg (Ne.symm hsign)]
    | finite t n f hd => rfl
  | finite s m e hc =>
    cases y with
    | nan => rw [nan_add, add_nan]
    | infinite t => rfl
    | finite t n f hd => rw [add_eq rfl rfl, add_eq rfl rfl, Bool.and_comm, add_comm]

omit [format.Regular] in
/-- An infinity with a finite number added to it stays as it is. -/
lemma infinite_add (s : Bool) (hy : y.isFinite = true) : infinite s + y = infinite s := by
  cases y with
  | nan => cases hy
  | infinite t => cases hy
  | finite t n f hd => rfl

/-- Behind zero, two finite numbers add up to the rounded sum of their values. -/
lemma zero_add_add (hx : x.isFinite = true) (hy : y.isFinite = true) :
    0 + x + y = round (x.value + y.value) := by
  obtain ⟨hzero, hzeroValue, hzeroSign⟩ := zero_spec format
  by_cases hvalue : x.value = 0
  · have hfirst : 0 + x = 0 := by
      rw [add_eq hzero hx, hzeroSign, Bool.false_and, hzeroValue, hvalue, add_zero]
      rfl
    rw [hfirst, add_eq hzero hy, hzeroSign, Bool.false_and, hzeroValue, hvalue]
    rfl
  · have hfirst : 0 + x = x := by
      rw [add_commutes]
      exact add_ofNat_zero_of_ne fun _ hzero => absurd hzero hvalue
    rw [hfirst, add_eq hx hy]
    by_cases hsum : x.value + y.value = 0
    · -- two terms that cancel out have different signs
      have hsign : (x.isNegative && y.isNegative) = false := by
        rcases lt_or_gt_of_ne hvalue with hneg | hpos
        · rw [isNegative_of_pos (x := y) (by linarith), Bool.and_false]
        · rw [isNegative_of_pos hpos, Bool.false_and]
      rw [hsign]
      rfl
    · rw [round, roundSigned, roundSigned, if_neg hsum, if_neg hsum]

/-- **Behind zero, two terms can change places.** Zero with a minus sign is the reason why it has to
be added first. -/
lemma zero_add_add_commutes (x y : Binary format) : 0 + x + y = 0 + y + x := by
  have hinfinite : ∀ s, (0 : Binary format) + infinite s = infinite s := fun s => by
    rw [add_commutes, infinite_add s (zero_spec format).1]
  have hfinite : ∀ {z : Binary format}, z.isFinite = true → (0 + z).isFinite = true := by
    intro z hz
    rw [add_commutes]
    exact isFinite_add_ofNat_zero hz
  cases x with
  | nan => rw [add_nan, nan_add, add_nan]
  | infinite s =>
    rw [hinfinite]
    cases y with
    | nan => rw [add_nan, add_nan, nan_add]
    | infinite t => rw [hinfinite, add_commutes]
    | finite t n f hd =>
      rw [infinite_add s rfl, add_commutes, infinite_add s (hfinite rfl)]
  | finite s m e hc =>
    cases y with
    | nan => rw [add_nan, add_nan, nan_add]
    | infinite t => rw [hinfinite, infinite_add t rfl, add_commutes, infinite_add t (hfinite rfl)]
    | finite t n f hd => rw [zero_add_add rfl rfl, zero_add_add rfl rfl, add_comm]

/-! ## Integers -/

omit [format.Regular] in
/-- An integer that is a natural number. -/
lemma ofInt_natCast (n : ℕ) : (ofInt (n : ℤ) : Binary format) = ofNat n := by
  rw [ofInt, ofNat, Int.cast_natCast]

/-- A finite number with the value of a positive integer is the number nearest to the integer. -/
lemma eq_ofInt_of_value_eq (hx : x.isFinite = true) {number : ℤ} (hpos : 0 < number)
    (hvalue : x.value = number) : x = ofInt number := by
  have hsign : x.isNegative = false := isNegative_of_pos (by rw [hvalue]; exact_mod_cast hpos)
  have hround := roundSigned_value hx
  rw [hsign, hvalue] at hround
  exact hround.symm

/-- A short integer is a finite number with its exact value. -/
lemma ofInt_spec (format : Format) [format.Regular] {a : ℤ} (h : a.natAbs ≤ 2 ^ format.precision) :
    (ofInt a : Binary format).isFinite = true ∧ (ofInt a : Binary format).value = a := by
  obtain ⟨hfinite, hvalue, -⟩ := roundSigned_intCast format false h
  exact ⟨hfinite, hvalue⟩

/-- The sum of a short whole number and a short integer, if it is short too. -/
lemma ofNat_add_ofInt_spec {a : ℕ} {b : ℤ} (ha : a ≤ 2 ^ format.precision)
    (hb : b.natAbs ≤ 2 ^ format.precision) (hsum : (a + b).natAbs ≤ 2 ^ format.precision) :
    (ofNat a + ofInt b : Binary format).isFinite = true ∧
      (ofNat a + ofInt b : Binary format).value = (a + b : ℤ) := by
  obtain ⟨hbfinite, hbv⟩ := ofInt_spec format hb
  obtain ⟨hfinite, hvalue, -⟩ := roundSigned_intCast format
    ((ofNat a : Binary format).isNegative && (ofInt b : Binary format).isNegative) hsum
  rw [add_eq (isFinite_ofNat ha) hbfinite, value_ofNat ha, hbv]
  push_cast at hfinite hvalue ⊢
  exact ⟨hfinite, hvalue⟩

/-- The sum of a short integer and a short whole number is the number nearest to their exact
sum. -/
lemma ofInt_add_ofNat {a : ℤ} {b : ℕ} (ha : a.natAbs ≤ 2 ^ format.precision)
    (hb : b ≤ 2 ^ format.precision) : (ofInt a + ofNat b : Binary format) = ofInt (a + b) := by
  obtain ⟨hafinite, hav⟩ := ofInt_spec format ha
  obtain ⟨hbfinite, hbv, hbs⟩ := ofNat_spec format hb
  rw [add_eq hafinite hbfinite, hbs, Bool.and_false, hav, hbv]
  show roundSigned false ((a : ℚ) + b) = roundSigned false ((a + b : ℤ) : ℚ)
  push_cast
  rfl

/-- Adding zero to an integer that is not far below zero keeps it. -/
lemma ofInt_add_ofNat_zero {a : ℤ} (h : -(2 ^ format.precision : ℕ) ≤ a) :
    (ofInt a + ofNat 0 : Binary format) = ofInt a := by
  rcases le_total 0 a with hnonneg | hneg
  · obtain ⟨n, rfl⟩ := Int.eq_ofNat_of_zero_le hnonneg
    rw [ofInt_natCast, add_ofNat_zero (isNegative_ofNat n)]
  · rw [ofInt_add_ofNat (by omega) (Nat.zero_le _), Nat.cast_zero, add_zero]

end Arranger.Binary
