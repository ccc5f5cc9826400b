import Arranger.Proofs.Number.Error

/-!
# Ratios of rates

When a recording is converted to another rate, its boundaries are multiplied by the ratio of the
rates and its length is divided by the ratio the other way round. Both ratios are rounded, and so
are the products and the quotient. For lengths up to `2 ^ 20` and rates below `2 ^ 32` the products
are numbers up to `2 ^ 52`, so they are off by less than a part of the source rate, which is the
denominator of the exact ones. This is enough for a comparison of the two, and it keeps the products
of different whole numbers apart if the rate rises.

## Main definitions

* `Arranger.Upward` — two rates of which the second is not below the first.
* `Arranger.roundedProduct` — the product of a whole number and the ratio, with both roundings.
* `Arranger.roundedQuotient` — the quotient by the inverse ratio, with both roundings.

## Main results

* `Arranger.Upward.abs_roundedProduct_sub_le` — the error of a product.
* `Arranger.Upward.roundedProduct_add_one_le` — products of different whole numbers are one apart.
* `Arranger.Upward.round_le_ceil` — **the product rounded and the quotient rounded up**.
* `Arranger.Upward.round_roundedProduct_eq` — the product is rounded as the exact one.
-/

namespace Arranger

/-- Two rates of 32 bits, of which the target is not below the source. -/
structure Upward (source target : ℕ) : Prop where
  /-- The source rate is positive. -/
  source_pos : 0 < source
  /-- The target rate is not below the source rate. -/
  le : source ≤ target
  /-- The target rate has 32 bits. -/
  lt : target < 2 ^ 32

/-- The product of a whole number and the ratio of the rates, with both roundings. -/
def roundedProduct (source target n : ℕ) : ℚ :=
  Format.double.nearest (n * Format.double.nearest (target / source))

/-- The quotient of a whole number and the inverse ratio of the rates, with both roundings. -/
def roundedQuotient (source target n : ℕ) : ℚ :=
  Format.double.nearest (n / Format.double.nearest (source / target))

namespace Upward

variable {source target : ℕ} (h : Upward source target)

include h

/-! ### The ratio -/

/-- The source rate is a positive number. -/
lemma source_cast_pos : (0 : ℚ) < source := by
  exact_mod_cast h.source_pos

/-- The target rate is a positive number. -/
lemma target_cast_pos : (0 : ℚ) < target := by
  exact_mod_cast h.source_pos.trans_le h.le

/-- Both rates are short whole numbers. -/
lemma short : source ≤ 2 ^ Format.double.precision ∧ target ≤ 2 ^ Format.double.precision := by
  have hshort : target ≤ 2 ^ Format.double.precision := h.lt.le.trans (by decide)
  exact ⟨h.le.trans hshort, hshort⟩

/-- The exact ratio is between one and the limit of the rates. -/
lemma ratio_bounds : (1 : ℚ) ≤ target / source ∧ (target : ℚ) / source ≤ (2 ^ 32 : ℕ) := by
  have hone : (1 : ℚ) ≤ source := by exact_mod_cast h.source_pos
  refine ⟨(one_le_div h.source_cast_pos).mpr (by exact_mod_cast h.le), ?_⟩
  exact (div_le_self h.target_cast_pos.le hone).trans (by exact_mod_cast h.lt.le)

/-- The rounded ratio is between the same bounds. -/
lemma nearest_ratio_bounds :
    1 ≤ Format.double.nearest (target / source) ∧
      Format.double.nearest (target / source) ≤ (2 ^ 32 : ℕ) := by
  obtain ⟨hlow, hhigh⟩ := h.ratio_bounds
  refine ⟨?_, Format.nearest_le_natCast (by decide) hhigh⟩
  exact_mod_cast Format.natCast_le_nearest (n := 1) (by decide) (by exact_mod_cast hlow)

/-- **The ratio of the rates** is a finite number. -/
lemma ratio_spec :
    (.ofNat target / .ofNat source : Double).isFinite = true ∧
      (.ofNat target / .ofNat source : Double).value = Format.double.nearest (target / source) := by
  obtain ⟨hsource, htarget⟩ := h.short
  have hone : (1 : ℚ) ≤ source := by exact_mod_cast h.source_pos
  have hsourceValue : (Binary.ofNat source : Double).value = source := Binary.value_ofNat hsource
  have htargetValue : (Binary.ofNat target : Double).value = target := Binary.value_ofNat htarget
  obtain ⟨hfinite, hvalue⟩ := Binary.div_spec htarget (Binary.isFinite_ofNat htarget)
    (Binary.isFinite_ofNat hsource) (hsourceValue ▸ h.source_cast_pos) (by
      rw [htargetValue, hsourceValue, abs_of_pos h.target_cast_pos]
      exact le_mul_of_one_le_right h.target_cast_pos.le hone)
  exact ⟨hfinite, by rw [hvalue, htargetValue, hsourceValue]⟩

/-- The error of the ratio. -/
lemma abs_nearest_ratio_sub_le :
    |Format.double.nearest (target / source) - target / source| ≤
      (target : ℚ) / source / 2 ^ 53 := by
  have hone := h.ratio_bounds.1
  exact abs_nearest_sub_le_of_one_le (abs_of_nonneg (by linarith)).le hone

/-! ### Products -/

section Product

variable {n : ℕ} (hn : n ≤ 2 ^ 20)

include hn

omit hn in
/-- The product is not negative. -/
lemma roundedProduct_nonneg : 0 ≤ roundedProduct source target n :=
  Format.double.nearest_nonneg (mul_nonneg (Nat.cast_nonneg n) (by linarith [h.nearest_ratio_bounds.1]))

/-- The product with the rounded ratio is at most `2 ^ 52`. -/
lemma mul_nearest_ratio_le : (n : ℚ) * Format.double.nearest (target / source) ≤ (2 ^ 52 : ℕ) := by
  obtain ⟨hlow, hhigh⟩ := h.nearest_ratio_bounds
  have hproduct := mul_le_mul (Nat.cast_le.mpr hn) hhigh (by linarith) (Nat.cast_nonneg _)
  exact hproduct.trans_eq (by norm_num)

/-- So is the rounded product. -/
lemma roundedProduct_le : roundedProduct source target n ≤ (2 ^ 52 : ℕ) :=
  Format.nearest_le_natCast (by decide) (h.mul_nearest_ratio_le hn)

/-- **The product of a whole number and the ratio** is a finite number. -/
lemma product_spec :
    (.ofNat n * (.ofNat target / .ofNat source) : Double).isFinite = true ∧
      (.ofNat n * (.ofNat target / .ofNat source) : Double).value =
        roundedProduct source target n := by
  have hshort : n ≤ 2 ^ Format.double.precision := hn.trans (by decide)
  obtain ⟨hratio, hratioValue⟩ := h.ratio_spec
  have hbound : |(n : ℚ) * Format.double.nearest (target / source)| ≤ (2 ^ 52 : ℕ) := by
    rw [abs_of_nonneg (mul_nonneg (Nat.cast_nonneg n) (by linarith [h.nearest_ratio_bounds.1]))]
    exact h.mul_nearest_ratio_le hn
  have hvalueN : (Binary.ofNat n : Double).value = n := Binary.value_ofNat hshort
  obtain ⟨hfinite, hvalue⟩ := Binary.mul_spec (n := 2 ^ 52) (by decide)
    (Binary.isFinite_ofNat hshort) hratio (by rwa [hvalueN, hratioValue])
  exact ⟨hfinite, by rw [hvalue, hvalueN, hratioValue, roundedProduct]⟩

omit hn in
/-- **The error of a product**: both roundings together are off by a part of `2 ^ 52`, and a very
small one more. -/
lemma abs_roundedProduct_sub_le :
    |roundedProduct source target n - n * (target / source)| ≤
      n * (target / source) * (1 / 2 ^ 52 + 1 / 2 ^ 106) := by
  rcases Nat.eq_zero_or_pos n with rfl | hpos
  · simp [roundedProduct]
  have hone : (1 : ℚ) ≤ n := by exact_mod_cast hpos
  have hratio := h.abs_nearest_ratio_sub_le
  have hlow := h.nearest_ratio_bounds.1
  rw [roundedProduct]
  set ratio := Format.double.nearest (target / source)
  have hproduct := abs_nearest_sub_le_of_one_le (q := n * ratio) (r := n * ratio)
    (abs_of_nonneg (by positivity)).le (one_le_mul_of_one_le_of_one_le hone hlow)
  have hscaled : |n * ratio - n * (target / source)| ≤ n * (target / source) / 2 ^ 53 := by
    rw [← mul_sub, abs_mul, abs_of_nonneg (by linarith), mul_div_assoc]
    exact mul_le_mul_of_nonneg_left hratio (by linarith)
  rw [abs_le] at hproduct hscaled ⊢
  constructor <;> linarith

/-- **Products of different whole numbers are one apart** if the rate rises: the ratio is at least
`1 + 1 / 2 ^ 32`, and both errors together are less than that is above one. -/
lemma roundedProduct_add_one_le (hrise : source < target) {m : ℕ} (hmn : m < n) :
    roundedProduct source target m + 1 ≤ roundedProduct source target n := by
  have hrepresentable : Format.double.Representable ((2 ^ 32 + 1 : ℤ) * 2 ^ (-32 : ℤ)) :=
    Format.representable_mul (by decide) (by decide)
  have hstep : (1 : ℚ) + 1 / 2 ^ 32 ≤ Format.double.nearest (target / source) := by
    have hexact : ((2 ^ 32 + 1 : ℤ) : ℚ) * 2 ^ (-32 : ℤ) ≤ target / source := by
      have hsource : (source : ℚ) ≤ 2 ^ 32 := by exact_mod_cast h.le.trans h.lt.le
      have hnext : (source : ℚ) + 1 ≤ target := by exact_mod_cast hrise
      rw [le_div_iff₀ h.source_cast_pos]
      norm_num
      linarith
    exact le_trans (by norm_num) (hrepresentable.le_nearest hexact)
  have hcount : (n : ℚ) ≤ 2 ^ 20 := by exact_mod_cast hn
  have hbefore : (m : ℚ) + 1 ≤ n := by exact_mod_cast hmn
  have hlow : (0 : ℚ) ≤ m := Nat.cast_nonneg m
  rw [roundedProduct, roundedProduct]
  set ratio := Format.double.nearest (target / source)
  have hratio : 0 ≤ ratio := by linarith
  have hupper := (abs_le.mp (abs_nearest_sub_le_of_one_le (q := n * ratio) (r := n * ratio)
    (abs_of_nonneg (by positivity)).le
    (one_le_mul_of_one_le_of_one_le (by linarith) (by linarith)))).1
  have hlower : Format.double.nearest (m * ratio) ≤ m * ratio + m * ratio / 2 ^ 53 := by
    rcases Nat.eq_zero_or_pos m with rfl | hpos
    · simp
    have hone : (1 : ℚ) ≤ m := by exact_mod_cast hpos
    have herror := (abs_le.mp (abs_nearest_sub_le_of_one_le (q := m * ratio) (r := m * ratio)
      (abs_of_nonneg (by positivity)).le
      (one_le_mul_of_one_le_of_one_le hone (by linarith)))).2
    linarith
  -- the distance of the exact products less both errors, in ratios
  have hgap : 1 - (2 ^ 21 - 1) / 2 ^ 53 ≤ (n : ℚ) - m - (n + m) / 2 ^ 53 := by
    linarith
  have hscaled := mul_le_mul hgap hstep (by norm_num) (by
    refine le_trans ?_ hgap
    norm_num)
  norm_num at hscaled
  linarith

end Product

/-! ### Quotients -/

/-- The exact inverse ratio is positive and at most one. -/
lemma inverse_bounds : (1 : ℚ) / 2 ^ 32 ≤ source / target ∧ (source : ℚ) / target ≤ 1 := by
  have hone : (1 : ℚ) ≤ source := by exact_mod_cast h.source_pos
  have hlimit : (target : ℚ) ≤ 2 ^ 32 := by exact_mod_cast h.lt.le
  refine ⟨?_, (div_le_one h.target_cast_pos).mpr (by exact_mod_cast h.le)⟩
  rw [div_le_div_iff₀ (by norm_num) h.target_cast_pos]
  linarith

/-- The rounded inverse ratio is between the same bounds. -/
lemma nearest_inverse_bounds :
    1 / 2 ^ 32 ≤ Format.double.nearest (source / target) ∧
      Format.double.nearest (source / target) ≤ 1 := by
  obtain ⟨hlow, hhigh⟩ := h.inverse_bounds
  have hrepresentable : Format.double.Representable ((1 : ℤ) * 2 ^ (-32 : ℤ)) :=
    Format.representable_mul (by decide) (by decide)
  have hround := hrepresentable.le_nearest (q := (source : ℚ) / target)
    (le_trans (by norm_num) hlow)
  refine ⟨le_trans (by norm_num) hround, ?_⟩
  exact_mod_cast Format.nearest_le_natCast (n := 1) (by decide) (by exact_mod_cast hhigh)

/-- **The inverse ratio of the rates** is a finite number. -/
lemma inverse_spec :
    (.ofNat source / .ofNat target : Double).isFinite = true ∧
      (.ofNat source / .ofNat target : Double).value = Format.double.nearest (source / target) := by
  obtain ⟨hsource, htarget⟩ := h.short
  have hsourceValue : (Binary.ofNat source : Double).value = source := Binary.value_ofNat hsource
  have htargetValue : (Binary.ofNat target : Double).value = target := Binary.value_ofNat htarget
  obtain ⟨hfinite, hvalue⟩ := Binary.div_spec (n := 1) (by decide) (Binary.isFinite_ofNat hsource)
    (Binary.isFinite_ofNat htarget) (htargetValue ▸ h.target_cast_pos) (by
      rw [htargetValue, hsourceValue, abs_of_pos h.source_cast_pos, Nat.cast_one, one_mul]
      exact_mod_cast h.le)
  exact ⟨hfinite, by rw [hvalue, htargetValue, hsourceValue]⟩

section Quotient

variable {n : ℕ} (hn : n ≤ 2 ^ 20)

include hn

/-- The quotient is at most `2 ^ 52`. -/
lemma div_inverse_le : n / Format.double.nearest (source / target) ≤ (2 ^ 52 : ℕ) := by
  have hlow := h.nearest_inverse_bounds.1
  have hcount : (n : ℚ) ≤ 2 ^ 20 := by exact_mod_cast hn
  rw [div_le_iff₀ (lt_of_lt_of_le (by norm_num) hlow)]
  norm_num at hlow ⊢
  linarith

/-- **The quotient of a whole number and the inverse ratio** is a finite number. -/
lemma quotient_spec :
    (.ofNat n / (.ofNat source / .ofNat target) : Double).isFinite = true ∧
      (.ofNat n / (.ofNat source / .ofNat target) : Double).value =
        roundedQuotient source target n ∧
      0 ≤ roundedQuotient source target n ∧
      roundedQuotient source target n ≤ (2 ^ 52 : ℕ) := by
  have hshort : n ≤ 2 ^ Format.double.precision := hn.trans (by decide)
  have hvalueN : (Binary.ofNat n : Double).value = n := Binary.value_ofNat hshort
  obtain ⟨hinverse, hinverseValue⟩ := h.inverse_spec
  have hpos : 0 < Format.double.nearest (source / target) :=
    lt_of_lt_of_le (by norm_num) h.nearest_inverse_bounds.1
  have hle := h.div_inverse_le hn
  have hnonneg : 0 ≤ n / Format.double.nearest (source / target) :=
    div_nonneg (Nat.cast_nonneg n) hpos.le
  obtain ⟨hfinite, hvalue⟩ := Binary.div_spec (n := 2 ^ 52) (by decide)
    (Binary.isFinite_ofNat hshort) hinverse (hinverseValue ▸ hpos) (by
      rw [hvalueN, hinverseValue, abs_of_nonneg (Nat.cast_nonneg n)]
      exact (div_le_iff₀ hpos).mp hle)
  refine ⟨hfinite, ?_, Format.double.nearest_nonneg hnonneg,
    Format.nearest_le_natCast (by decide) hle⟩
  rw [hvalue, hvalueN, hinverseValue, roundedQuotient]

omit hn in
/-- **The quotient is not much less than the exact product.** -/
lemma sub_le_roundedQuotient (hpos : 0 < n) :
    n * (target / source) - n * (target / source) / 2 ^ 52 ≤ roundedQuotient source target n := by
  have hone : (1 : ℚ) ≤ n := by exact_mod_cast hpos
  obtain ⟨hlow, hhigh⟩ := h.nearest_inverse_bounds
  have hexactLow := h.inverse_bounds.1
  have hinverse : 0 < Format.double.nearest (source / target) := lt_of_lt_of_le (by norm_num) hlow
  have hexact : (0 : ℚ) < source / target := lt_of_lt_of_le (by norm_num) hexactLow
  have hround : Format.double.nearest (source / target) ≤
      source / target * (1 + 1 / 2 ^ 53) := by
    have herror := (abs_le.mp (abs_nearest_sub_le_of_le (abs_of_pos hexact).le
      (le_trans (by norm_num) hexactLow))).2
    linarith
  set inverse := Format.double.nearest (source / target) with hinverseDef
  set quotient := (n : ℚ) / inverse with hquotient
  have hone' : 1 ≤ quotient := (one_le_div hinverse).mpr (hhigh.trans hone)
  have herror := (abs_le.mp (abs_nearest_sub_le_of_one_le (abs_of_nonneg (by linarith)).le
    hone')).1
  -- the exact product is at most the quotient and its rounding
  have hproduct : n * ((target : ℚ) / source) ≤ quotient * (1 + 1 / 2 ^ 53) := by
    have hscaled : (n : ℚ) ≤ quotient * (source / target * (1 + 1 / 2 ^ 53)) :=
      (div_mul_cancel₀ _ hinverse.ne').symm.le.trans
        (mul_le_mul_of_nonneg_left hround (by linarith))
    have htarget := h.target_cast_pos.ne'
    have hsource := h.source_cast_pos.ne'
    have hswap := mul_le_mul_of_nonneg_right hscaled
      (div_nonneg h.target_cast_pos.le h.source_cast_pos.le)
    refine hswap.trans_eq ?_
    field_simp
  rw [roundedQuotient, ← hinverseDef, ← hquotient]
  linarith

end Quotient

/-! ### Products and quotients -/

/-- The exact product, in parts of the source rate, is a whole number up to `2 ^ 52`. -/
lemma product_mul_source {n : ℕ} (hn : n ≤ 2 ^ 20) :
    (n : ℚ) * (target / source) * source = (n * target : ℕ) ∧ n * target ≤ 2 ^ 52 - 2 ^ 20 := by
  have hsource := h.source_cast_pos.ne'
  refine ⟨by push_cast; field_simp, ?_⟩
  calc n * target ≤ 2 ^ 20 * (2 ^ 32 - 1) := Nat.mul_le_mul hn (Nat.le_sub_one_of_lt h.lt)
    _ = 2 ^ 52 - 2 ^ 20 := by norm_num

/-- **The product rounded to a whole number is at most the quotient rounded up.**

**Proof sketch.** Suppose that the quotient is at most the whole number before. Then so is the exact
product, as it is not much more than the quotient and a multiple of a part of the source rate. With
a source rate of one the product is computed without an error, and else it is off by less than half
of one. So it is not rounded up to the next whole number. -/
lemma round_le_ceil {n : ℕ} (hpos : 0 < n) (hn : n ≤ 2 ^ 20) :
    roundHalfAway (roundedProduct source target n) ≤ (roundedQuotient source target n).ceil := by
  by_contra hgreater
  obtain ⟨hwhole, hshort⟩ := h.product_mul_source hn
  have hsource := h.source_cast_pos
  have hnonneg : (0 : ℚ) ≤ n * (target / source) :=
    mul_nonneg (Nat.cast_nonneg n) (by linarith [h.ratio_bounds.1])
  have hround := (roundHalfAway_eq_iff h.roundedProduct_nonneg).mp
    (rfl : roundHalfAway (roundedProduct source target n) = _)
  have hquotient := h.sub_le_roundedQuotient hpos
  have herror := (abs_le.mp (h.abs_roundedProduct_sub_le (n := n))).2
  set product := (n : ℚ) * (target / source)
  set frames := roundHalfAway (roundedProduct source target n)
  have hshortQ : ((n * target : ℕ) : ℚ) ≤ 2 ^ 52 - 2 ^ 20 := by
    have hcast : ((n * target : ℕ) : ℚ) ≤ ((2 ^ 52 - 2 ^ 20 : ℕ) : ℚ) := Nat.cast_le.mpr hshort
    exact hcast.trans_eq (by norm_num)
  have hbefore : product - product / 2 ^ 52 ≤ frames - 1 := by
    have hceil : (roundedQuotient source target n).ceil ≤ frames - 1 := by omega
    have hle : roundedQuotient source target n ≤ (roundedQuotient source target n).ceil :=
      Rat.le_ceil
    have hcast : ((roundedQuotient source target n).ceil : ℚ) ≤ (frames - 1 : ℤ) :=
      Int.cast_le.mpr hceil
    push_cast at hcast
    linarith
  -- the exact product is a multiple of a part of the source rate
  have hexact : product ≤ frames - 1 := by
    have hscaled := mul_le_mul_of_nonneg_right hbefore hsource.le
    have hlt : ((n * target : ℕ) : ℤ) < (frames - 1) * source + 1 := by
      have hrational : ((n * target : ℕ) : ℚ) < (frames - 1) * source + 1 := by linarith
      exact_mod_cast hrational
    have hle : ((n * target : ℕ) : ℚ) ≤ (frames - 1) * source := by
      exact_mod_cast Int.lt_add_one_iff.mp hlt
    exact le_of_mul_le_mul_right (hwhole.trans_le hle) hsource
  rcases Nat.lt_or_ge source 2 with hone | htwo
  · -- nothing is rounded
    have hsourceOne : source = 1 := by have := h.source_pos; omega
    have htarget : Format.double.nearest (target / source) = target := by
      rw [hsourceOne, Nat.cast_one, div_one, Format.nearest_natCast h.short.2]
    have hproduct : roundedProduct source target n = product := by
      have hshortN : n * target ≤ 2 ^ Format.double.precision :=
        hshort.trans ((Nat.sub_le _ _).trans (by decide))
      rw [hsourceOne, Nat.cast_one, mul_one] at hwhole
      rw [roundedProduct, htarget, ← Nat.cast_mul, Format.nearest_natCast hshortN, hwhole]
    linarith
  · have hhalf : product * 2 ≤ 2 ^ 52 - 2 ^ 20 := by
      have htwoQ : (2 : ℚ) ≤ source := by exact_mod_cast htwo
      linarith [mul_le_mul_of_nonneg_left htwoQ hnonneg]
    linarith

/-- **The product is rounded to the whole number that the exact one is rounded to**, where the exact
one is not half way between two whole numbers, as long as it has at most `2 ^ 50` parts.

**Proof sketch.** What is not half way is at least half a part away from there, and the error is
less than that. -/
lemma round_roundedProduct_eq {n : ℕ} (hshort : n * target ≤ 2 ^ 50)
    (hhalf : ∀ k : ℤ, (n : ℚ) * (target / source) ≠ k + 1 / 2) :
    roundHalfAway (roundedProduct source target n) = roundHalfAway (n * (target / source)) := by
  have hsource := h.source_cast_pos
  have hnonneg : (0 : ℚ) ≤ n * (target / source) :=
    mul_nonneg (Nat.cast_nonneg n) (by linarith [h.ratio_bounds.1])
  have hwhole : (n : ℚ) * (target / source) * source = (n * target : ℕ) := by
    push_cast
    field_simp
  have hround := (roundHalfAway_eq_iff hnonneg).mp (rfl : roundHalfAway (n * (target / source)) = _)
  have herror := abs_le.mp (h.abs_roundedProduct_sub_le (n := n))
  rw [roundHalfAway_eq_iff h.roundedProduct_nonneg]
  have hshortQ : ((n * target : ℕ) : ℚ) ≤ 2 ^ 50 := by exact_mod_cast hshort
  set product := (n : ℚ) * (target / source)
  set frame := roundHalfAway product
  have hpart : product * (1 / 2 ^ 52 + 1 / 2 ^ 106) < 1 / (2 * source) := by
    rw [lt_div_iff₀ (by linarith)]
    linarith
  have hapart : ∀ k : ℤ, 1 / (2 * source) ≤ |product - (k + 1 / 2)| := by
    intro k
    have hparts : product - (k + 1 / 2) =
        ((2 * (n * target : ℕ) - source * (2 * k + 1) : ℤ) : ℚ) / (2 * source) := by
      rw [eq_div_iff (by linarith)]
      push_cast at hwhole ⊢
      linarith
    have hne : (2 * (n * target : ℕ) - source * (2 * k + 1) : ℤ) ≠ 0 := by
      intro hzero
      rw [hzero, Int.cast_zero, zero_div] at hparts
      exact hhalf k (sub_eq_zero.mp hparts)
    rw [hparts, abs_div, abs_of_pos (show (0 : ℚ) < 2 * source by linarith)]
    refine div_le_div_of_nonneg_right ?_ (by linarith)
    exact_mod_cast Int.one_le_abs hne
  have hbelow := hapart (frame - 1)
  have habove := hapart frame
  push_cast at hbelow
  rw [abs_of_nonneg (by linarith)] at hbelow
  rw [abs_of_neg (by linarith)] at habove
  constructor <;> linarith

end Upward

end Arranger
