import Arranger.Proofs.Number.Integral
import Arranger.Proofs.Number.Sum

/-!
# Magnitudes

A bound on the magnitude of what is computed can be computed by the same operations: rounding keeps
the order, so the result of each operation is at most its result on the bounds. Where that is
finite, nothing has overflowed.

## Main definitions

* `Arranger.Binary.AtMost` — a finite number of a magnitude that is at most a peak.
* `Arranger.Binary.IsFraction` — a number between zero and one.

## Main results

* `Arranger.Binary.AtMost.add`, `sub`, `mul`, `div`, `roundAway` — the peaks of what is computed.
* `Arranger.Binary.AtMost.add_right`, `mul_right` — peaks that rise.
* `Arranger.Binary.AtMost.toWord_le` — a bound on the integer part.
* `Arranger.Binary.sub_toWord_isFraction` — what the integer part leaves.
-/

namespace Arranger

/-- What is of a smaller magnitude is rounded to a smaller magnitude. -/
lemma Format.abs_nearest_le (format : Format) [format.Regular] {q r : ℚ} (h : |q| ≤ r) :
    |format.nearest q| ≤ format.nearest r := by
  have hnonneg := format.nearest_nonneg (abs_nonneg q)
  have hsame : |format.nearest q| = format.nearest |q| := by
    rw [← abs_of_nonneg hnonneg, Format.abs_nearest, Format.abs_nearest, abs_abs]
  rw [hsame]
  exact format.nearest_mono h

/-- What is of no larger magnitude than a short whole number is rounded to a magnitude that is not
larger either. -/
lemma Format.abs_nearest_le_natCast {format : Format} [format.Regular] {n : ℕ}
    (hn : n ≤ 2 ^ format.precision) {q : ℚ} (h : |q| ≤ n) : |format.nearest q| ≤ n :=
  (format.abs_nearest_le h).trans_eq (nearest_natCast hn)

namespace Binary

variable {format : Format} {x y p q : Binary format}

/-- A finite number of a magnitude that is at most the value of `peak`. -/
structure AtMost (x peak : Binary format) : Prop where
  /-- The number is finite. -/
  finite : x.isFinite = true
  /-- The magnitude is at most the peak. -/
  abs_le : |x.value| ≤ peak.value

instance (x peak : Binary format) : Decidable (x.AtMost peak) :=
  decidable_of_iff (x.isFinite = true ∧ |x.value| ≤ peak.value)
    ⟨fun h => ⟨h.1, h.2⟩, fun h => ⟨h.finite, h.abs_le⟩⟩

/-! ## Finite operands -/

/-- A product is finite only if both factors are. -/
lemma isFinite_of_isFinite_mul (h : (x * y).isFinite = true) :
    x.isFinite = true ∧ y.isFinite = true := by
  change (mul x y).isFinite = true at h
  cases x with
  | nan => cases y <;> cases h
  | infinite s =>
    cases y with
    | nan => cases h
    | infinite t => cases h
    | finite t n f hd => unfold mul at h; dsimp only at h; split_ifs at h <;> cases h
  | finite s m e hc =>
    cases y with
    | nan => cases h
    | infinite t => unfold mul at h; dsimp only at h; split_ifs at h <;> cases h
    | finite t n f hd => exact ⟨rfl, rfl⟩

/-- A quotient is finite only if the dividend is. -/
lemma isFinite_of_isFinite_div (h : (x / y).isFinite = true) : x.isFinite = true := by
  cases x with
  | nan => rw [nan_div] at h; cases h
  | infinite s =>
    change (div (.infinite s) y).isFinite = true at h
    cases y <;> cases h
  | finite s m e hc => rfl

/-- A finite number divided by an infinity is a zero. -/
lemma div_infinite (hx : x.isFinite = true) (t : Bool) :
    x / .infinite t = zero (x.isNegative != t) := by
  cases x with
  | nan => cases hx
  | infinite s => cases hx
  | finite s m e hc => rfl

/-- A quotient by a finite number is finite only if that is not zero. -/
lemma value_ne_zero_of_isFinite_div (hy : y.isFinite = true) (h : (x / y).isFinite = true) :
    y.value ≠ 0 := by
  intro hzero
  cases y with
  | nan => cases hy
  | infinite t => cases hy
  | finite t n f hd =>
    have hn : n = 0 := by
      rw [← abs_eq_zero, abs_value_finite, mul_eq_zero] at hzero
      exact_mod_cast hzero.resolve_right (two_zpow_pos f).ne'
    cases x with
    | nan => cases h
    | infinite s => cases h
    | finite s m e hc =>
      change (if n = 0 then if m = 0 then nan else infinite (s != t)
        else roundSigned (s != t) _ : Binary format).isFinite = true at h
      rw [if_pos hn] at h
      split_ifs at h <;> cases h

/-- A quotient of finite numbers is the rounded quotient of the values. -/
lemma div_eq (hx : x.isFinite = true) (hy : y.isFinite = true) (hne : y.value ≠ 0) :
    x / y = roundSigned (x.isNegative != y.isNegative) (x.value / y.value) := by
  cases x with
  | nan => cases hx
  | infinite s => cases hx
  | finite s m e hc =>
    cases y with
    | nan => cases hy
    | infinite t => cases hy
    | finite t n f hd =>
      have hn : n ≠ 0 := by
        rintro rfl
        exact hne (by simp [value_finite])
      exact if_neg hn

/-- A finite number times one is the number. -/
lemma mul_one_of_isFinite [format.Regular] (hx : x.isFinite = true) : x * 1 = x := by
  obtain ⟨hone, hvalue, hsign⟩ := one_spec format
  rw [mul_eq hx hone, hvalue, hsign, Bool.bne_false, mul_one]
  exact roundSigned_value hx

/-- Every number times one is the number. -/
lemma mul_one_eq [format.Regular] (x : Binary format) : x * 1 = x := by
  cases x with
  | nan => rfl
  | infinite s =>
    obtain ⟨hone, hvalue, hsign⟩ := one_spec format
    cases hcases : (1 : Binary format) with
    | nan => rw [hcases] at hone; cases hone
    | infinite t => rw [hcases] at hone; cases hone
    | finite t m e hc =>
      rw [hcases] at hvalue hsign
      have hm : m ≠ 0 := by
        rintro rfl
        simp [value_finite] at hvalue
      obtain rfl : t = false := hsign
      show (if m = 0 then nan else infinite (s != false) : Binary format) = infinite s
      rw [if_neg hm, Bool.bne_false]
  | finite s m e hc => exact mul_one_of_isFinite rfl

/-- A product does not depend on the order of its factors. -/
lemma mul_commutes (x y : Binary format) : x * y = y * x := by
  have hsign : ∀ s t : Bool, (s != t) = (t != s) := fun s t => bne_comm
  cases x with
  | nan => cases y <;> rfl
  | infinite s =>
    cases y with
    | nan => rfl
    | infinite t => exact congrArg infinite (hsign s t)
    | finite t n f hd =>
      show (if n = 0 then nan else infinite (s != t) : Binary format) =
        if n = 0 then nan else infinite (t != s)
      rw [hsign]
  | finite s m e hc =>
    cases y with
    | nan => rfl
    | infinite t =>
      show (if m = 0 then nan else infinite (s != t) : Binary format) =
        if m = 0 then nan else infinite (t != s)
      rw [hsign]
    | finite t n f hd => rw [mul_eq rfl rfl, mul_eq rfl rfl, hsign, mul_comm]

/-! ## Peaks -/

variable [format.Regular]

/-- A magnitude of at most another one is rounded to at most the other one rounded. -/
lemma roundSigned_atMost {a b : ℚ} (h : |a| ≤ b) (s t : Bool)
    (hfinite : (roundSigned t b : Binary format).isFinite = true) :
    (roundSigned s a : Binary format).AtMost (roundSigned t b) := by
  have hle := format.abs_nearest_le h
  have hlimit : |format.nearest b| < format.limit := by
    by_contra hge
    rw [roundSigned_of_le t (not_lt.mp hge)] at hfinite
    cases hfinite
  obtain ⟨-, hvalue, -⟩ := roundSigned_of_lt t hlimit
  obtain ⟨hround, hroundValue, -⟩ :=
    roundSigned_of_lt s ((hle.trans (le_abs_self _)).trans_lt hlimit)
  exact ⟨hround, by rwa [hroundValue, hvalue]⟩

namespace AtMost

omit [format.Regular] in
/-- The peak of a number is not below zero. -/
lemma peak_nonneg (hx : x.AtMost p) : 0 ≤ p.value :=
  (abs_nonneg _).trans hx.abs_le

/-- Zero is at most the peak of any number. -/
lemma zero (hx : x.AtMost p) : (0 : Binary format).AtMost p := by
  obtain ⟨hzero, hvalue, -⟩ := zero_spec format
  refine ⟨hzero, ?_⟩
  rw [hvalue, abs_zero]
  exact hx.peak_nonneg

omit [format.Regular] in
/-- A finite peak is at most itself. -/
lemma peak (hx : x.AtMost p) (hp : p.isFinite = true) : p.AtMost p :=
  ⟨hp, (abs_of_nonneg hx.peak_nonneg).le⟩

omit [format.Regular] in
/-- A peak may be replaced by a greater one. -/
lemma trans (hx : x.AtMost p) (hp : p.AtMost q) : x.AtMost q :=
  ⟨hx.finite, hx.abs_le.trans ((le_abs_self _).trans hp.abs_le)⟩

omit [format.Regular] in
/-- The peak of the number with the other sign. -/
lemma neg (hx : x.AtMost p) : (-x).AtMost p :=
  ⟨by rw [isFinite_neg, hx.finite], by rw [value_neg, abs_neg]; exact hx.abs_le⟩

/-- The peak of a sum. -/
lemma add (hx : x.AtMost p) (hy : y.AtMost q) (h : (p + q).isFinite = true) :
    (x + y).AtMost (p + q) := by
  obtain ⟨hp, hq⟩ := isFinite_of_isFinite_add h
  rw [add_eq hp hq] at h ⊢
  rw [add_eq hx.finite hy.finite]
  exact roundSigned_atMost ((abs_add_le _ _).trans (add_le_add hx.abs_le hy.abs_le)) _ _ h

/-- The peak of a difference. -/
lemma sub (hx : x.AtMost p) (hy : y.AtMost q) (h : (p + q).isFinite = true) :
    (x - y).AtMost (p + q) :=
  hx.add hy.neg h

/-- The peak of a product. -/
lemma mul (hx : x.AtMost p) (hy : y.AtMost q) (h : (p * q).isFinite = true) :
    (x * y).AtMost (p * q) := by
  obtain ⟨hp, hq⟩ := isFinite_of_isFinite_mul h
  rw [mul_eq hp hq] at h ⊢
  rw [mul_eq hx.finite hy.finite]
  refine roundSigned_atMost ?_ _ _ h
  rw [abs_mul]
  exact mul_le_mul hx.abs_le hy.abs_le (abs_nonneg _) hx.peak_nonneg

/-- The peak of a quotient by a number that is not below zero. -/
lemma div (hx : x.AtMost p) (hy : y.isFinite = true) (hnonneg : 0 ≤ y.value)
    (h : (p / y).isFinite = true) : (x / y).AtMost (p / y) := by
  have hp := isFinite_of_isFinite_div h
  have hne := value_ne_zero_of_isFinite_div hy h
  rw [div_eq hp hy hne] at h ⊢
  rw [div_eq hx.finite hy hne]
  refine roundSigned_atMost ?_ _ _ h
  rw [abs_div, abs_of_nonneg hnonneg]
  exact div_le_div_of_nonneg_right hx.abs_le hnonneg

/-- A whole number is at most those that are not less. -/
lemma ofNat {a b : ℕ} (hle : a ≤ b) (h : b ≤ 2 ^ format.precision) :
    (Binary.ofNat a : Binary format).AtMost (Binary.ofNat b) := by
  refine ⟨isFinite_ofNat (hle.trans h), ?_⟩
  rw [value_ofNat (hle.trans h), value_ofNat h, abs_of_nonneg (Nat.cast_nonneg a)]
  exact Nat.cast_le.mpr hle

/-- The integer part of a number is at most a whole number that the number is at most. -/
lemma toWord_le {n : ℕ} (hx : x.AtMost (Binary.ofNat n)) (h : n ≤ 2 ^ format.precision) :
    x.toWord ≤ n := by
  have hvalue := (le_abs_self _).trans hx.abs_le
  rw [value_ofNat h] at hvalue
  refine Nat.le_of_lt_succ (toWord_lt n.succ_pos hx.finite (hvalue.trans_lt ?_))
  exact_mod_cast n.lt_succ_self

/-- The peak of a number rounded to a whole one. -/
lemma roundAway (hx : x.AtMost p) (hp : p.isFinite = true) : x.roundAway.AtMost p.roundAway := by
  obtain ⟨hfinite, hvalue⟩ := roundAway_spec hx.finite
  obtain ⟨-, hpeak⟩ := roundAway_spec hp
  refine ⟨hfinite, ?_⟩
  rw [hvalue, hpeak, ← Int.cast_abs]
  exact_mod_cast abs_roundHalfAway_le hx.abs_le

/-- A peak rises when another one is added. -/
lemma add_right (hx : x.AtMost p) (hq : 0 ≤ q.value) (h : (p + q).isFinite = true) :
    x.AtMost (p + q) := by
  obtain ⟨hp, hqFinite⟩ := isFinite_of_isFinite_add h
  rw [add_eq hp hqFinite] at h ⊢
  have hround := roundSigned_atMost (a := p.value) (by
    rw [abs_of_nonneg hx.peak_nonneg]; linarith) p.isNegative _ h
  rw [roundSigned_value hp] at hround
  exact hx.trans hround

/-- A peak rises when it is multiplied by one that is at least one. -/
lemma mul_right (hx : x.AtMost p) (hq : 1 ≤ q.value) (h : (p * q).isFinite = true) :
    x.AtMost (p * q) := by
  obtain ⟨hp, hqFinite⟩ := isFinite_of_isFinite_mul h
  rw [mul_eq hp hqFinite] at h ⊢
  have hround := roundSigned_atMost (a := p.value) (by
    rw [abs_of_nonneg hx.peak_nonneg]
    exact le_mul_of_one_le_right hx.peak_nonneg hq) p.isNegative _ h
  rw [roundSigned_value hp] at hround
  exact hx.trans hround

end AtMost

/-- Zero is at most itself. -/
lemma zero_atMost_zero : (0 : Binary format).AtMost 0 := by
  obtain ⟨hzero, hvalue, -⟩ := zero_spec format
  exact ⟨hzero, by rw [hvalue, abs_zero]⟩

/-- One is at most itself. -/
lemma one_atMost_one : (1 : Binary format).AtMost 1 := by
  obtain ⟨hone, hvalue, -⟩ := one_spec format
  exact ⟨hone, by rw [hvalue, abs_one]⟩

/-- Zero is at most every peak that it is not above. -/
lemma zero_atMost_of_le (h : 0 ≤ p) : (0 : Binary format).AtMost p := by
  obtain ⟨hzero, hvalue, -⟩ := zero_spec format
  refine ⟨hzero, ?_⟩
  rw [hvalue, abs_zero]
  cases p with
  | nan => exact le_rfl
  | infinite s => exact le_rfl
  | finite s m e hc => exact hvalue ▸ (le_iff hzero rfl).mp h

/-! ## Products that are not negative -/

/-- What is not below zero is rounded to a finite number or to the infinity without the minus
sign. -/
lemma isFinite_or_round_eq_infinite (format : Format) [format.Regular] {a : ℚ} (h : 0 ≤ a) :
    (roundSigned false a : Binary format).isFinite = true ∨
      (roundSigned false a : Binary format) = .infinite false := by
  rcases lt_or_ge |format.nearest a| format.limit with hlt | hge
  · exact .inl (roundSigned_of_lt false hlt).1
  · right
    rw [roundSigned_of_le false hge, decide_eq_false (not_lt.mpr h)]

/-- A natural number is not below zero, also where it is too large for the format. -/
lemma zero_le_ofNat (format : Format) [format.Regular] (n : ℕ) :
    (0 : Binary format) ≤ ofNat n := by
  obtain ⟨hzero, hvalue, -⟩ := zero_spec format
  show (0 : Binary format) ≤ roundSigned false (n : ℚ)
  rcases isFinite_or_round_eq_infinite format (Nat.cast_nonneg n) with hfinite | hinfinite
  · rw [le_iff hzero hfinite, hvalue]
    exact value_nonneg (isNegative_ofNat n)
  · rw [hinfinite]
    generalize (0 : Binary format) = zero at hzero
    cases zero with
    | nan => cases hzero
    | infinite s => cases hzero
    | finite s m e hc => rfl

/-- A whole number times a positive number has no minus sign, and is finite or infinite. -/
lemma ofNat_mul_spec (n : ℕ) (hy : y.isFinite = true) (hpos : 0 < y.value) :
    (ofNat n * y).isNegative = false ∧
      ((ofNat n * y).isFinite = true ∨ ofNat n * y = .infinite false) := by
  have hsign : y.isNegative = false := isNegative_of_pos hpos
  have hround := isFinite_or_round_eq_infinite format (Nat.cast_nonneg n)
  rcases hround with hfinite | hinfinite
  · change (ofNat n : Binary format).isFinite = true at hfinite
    have hproduct : 0 ≤ (ofNat n : Binary format).value * y.value :=
      mul_nonneg (value_nonneg (isNegative_ofNat n)) hpos.le
    rw [mul_eq hfinite hy, isNegative_ofNat, hsign, Bool.bne_false]
    exact ⟨isNegative_round format hproduct, isFinite_or_round_eq_infinite format hproduct⟩
  · rw [show (ofNat n : Binary format) = .infinite false from hinfinite]
    cases y with
    | nan => cases hy
    | infinite t => cases hy
    | finite t m e hc =>
      obtain rfl : t = false := hsign
      have hm : m ≠ 0 := by
        rintro rfl
        simp [value_finite] at hpos
      have hmul : (.infinite false * .finite false m e hc : Binary format) = .infinite false :=
        if_neg hm
      rw [hmul]
      exact ⟨rfl, .inr rfl⟩

/-! ## Fractions -/

/-- A finite number between zero and one. -/
structure IsFraction (x : Binary format) : Prop where
  /-- The number is finite. -/
  finite : x.isFinite = true
  /-- The number is not below zero. -/
  nonneg : 0 ≤ x.value
  /-- The number is at most one. -/
  le_one : x.value ≤ 1

/-- What is between zero and one is rounded to a fraction. -/
lemma roundSigned_isFraction {a : ℚ} (hnonneg : 0 ≤ a) (hle : a ≤ 1) (s : Bool) :
    (roundSigned s a : Binary format).IsFraction := by
  have hlow := format.nearest_nonneg hnonneg
  have hhigh : format.nearest a ≤ 1 := by
    exact_mod_cast Format.nearest_le_natCast Nat.one_le_two_pow (by rwa [Nat.cast_one])
  have hlimit : |format.nearest a| < format.limit := by
    have hshort : ((1 : ℕ) : ℚ) < format.limit := natCast_lt_limit Nat.one_le_two_pow
    rw [abs_of_nonneg hlow]
    exact hhigh.trans_lt (by exact_mod_cast hshort)
  obtain ⟨hfinite, hvalue, -⟩ := roundSigned_of_lt s hlimit
  exact ⟨hfinite, hvalue ▸ hlow, hvalue ▸ hhigh⟩

namespace IsFraction

/-- A fraction is at most one. -/
lemma atMost_one (hx : x.IsFraction) : x.AtMost (ofNat 1) := by
  refine ⟨hx.finite, ?_⟩
  rw [value_ofNat Nat.one_le_two_pow, abs_of_nonneg hx.nonneg, Nat.cast_one]
  exact hx.le_one

/-- What a fraction leaves of one is a fraction. -/
lemma one_sub (hx : x.IsFraction) : (1 - x).IsFraction := by
  obtain ⟨hone, hvalue, -⟩ := one_spec format
  rw [sub_eq hone hx.finite, hvalue]
  exact roundSigned_isFraction (sub_nonneg.mpr hx.le_one) (sub_le_self 1 hx.nonneg) _

omit [format.Regular] in
/-- A fraction of one format is rounded to a fraction of another one. -/
lemma convert {target : Format} [target.Regular] (hx : x.IsFraction) :
    (x.convert : Binary target).IsFraction := by
  rw [convert_eq hx.finite]
  exact roundSigned_isFraction hx.nonneg hx.le_one _

end IsFraction

/-- A number without a minus sign has none when it is rounded down. -/
lemma isNegative_floor (hsign : x.isNegative = false) : x.floor.isNegative = false := by
  cases x with
  | nan => rfl
  | infinite s => exact hsign
  | finite s m e hc =>
    obtain rfl : s = false := hsign
    have hfloor : 0 ≤ (Binary.finite false m e hc).value.floor :=
      Int.floor_nonneg.mpr (value_nonneg rfl)
    exact isNegative_round format (by exact_mod_cast hfloor)

/-- The integer part of a number without a minus sign is that of the number rounded down. -/
lemma toWord_floor_eq_toWord (hx : x.isFinite = true) (hsign : x.isNegative = false) :
    x.floor.toWord = x.toWord := by
  obtain ⟨hfinite, hvalue⟩ := floor_spec hx
  have hnonneg := value_nonneg hsign
  have hfloor : 0 ≤ x.value.floor := Int.floor_nonneg.mpr hnonneg
  obtain ⟨n, hn⟩ := Int.eq_ofNat_of_zero_le hfloor
  rw [hn] at hvalue
  rw [toWord_of_value_eq hfinite (by exact_mod_cast hvalue)]
  cases x with
  | nan => cases hx
  | infinite s => cases hx
  | finite s m e hc =>
    show _ = min (truncate _).toNat maxWord
    rw [truncate, if_neg (not_lt.mpr hnonneg), hn, Int.toNat_natCast]

/-- What the integer part leaves of a number is a fraction, unless the number is too large for a
word. -/
lemma sub_toWord_isFraction (hx : x.isFinite = true) (hsign : x.isNegative = false)
    (hword : x.toWord < maxWord) : (x - ofNat x.toWord).IsFraction := by
  have hbounds := floor_bounds x.value
  obtain ⟨hfinite, hvalue⟩ := floor_spec hx
  have hfloor : ofNat x.toWord = x.floor := by
    rw [← toWord_floor_eq_toWord hx hsign] at hword ⊢
    exact (ofNat_toWord hfinite (isNegative_floor hsign) hvalue).resolve_right hword.ne
  rw [hfloor, sub_eq hx hfinite, hvalue]
  exact roundSigned_isFraction (by linarith) (by linarith) _

end Binary

end Arranger
