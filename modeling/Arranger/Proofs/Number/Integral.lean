import Arranger.Proofs.Number.Order

/-!
# Laws of whole numbers

Rounding to a whole number leaves the finite numbers finite, and a number that is whole already as
it is. The words that are read off whole numbers stand for them again.

## Main results

* `Arranger.Binary.mapWhole_of_value_eq` — whole numbers are fixed.
* `Arranger.Binary.mapWhole_spec` — finite numbers become whole ones.
* `Arranger.Binary.toWord_floor`, `toWord_ceil`, `toWord_roundAway` — the words of rounded numbers.
* `Arranger.Binary.ofNat_toWord` — a whole number is the one of its word, unless it is too large.
* `Arranger.Binary.convert_convert` — a sample is not changed by widening it.
-/

namespace Arranger

/-! ## Rounding to integers -/

/-- Rounding away from zero moves a rational by no more than one. -/
lemma abs_roundHalfAway_sub_le (q : ℚ) : |(roundHalfAway q : ℚ) - q| ≤ 1 := by
  have hup := floor_bounds (q + 1 / 2)
  have hdown := floor_bounds (-q + 1 / 2)
  rw [roundHalfAway, abs_le]
  split_ifs
  · push_cast
    constructor <;> linarith
  · constructor <;> linarith

/-- Rounding down moves a rational by no more than one. -/
lemma abs_floor_sub_le (q : ℚ) : |(q.floor : ℚ) - q| ≤ 1 := by
  have := floor_bounds q
  rw [abs_le]
  constructor <;> linarith

/-- Rounding up moves a rational by no more than one. -/
lemma abs_ceil_sub_le (q : ℚ) : |(q.ceil : ℚ) - q| ≤ 1 := by
  have hle : q ≤ q.ceil := Rat.le_ceil
  have hlt : (q.ceil : ℚ) < q + 1 := Rat.ceil_lt
  rw [abs_le]
  constructor <;> linarith

/-- What is of a smaller magnitude is rounded to an integer of a smaller magnitude. -/
lemma abs_roundHalfAway_le {q r : ℚ} (h : |q| ≤ r) : |roundHalfAway q| ≤ roundHalfAway r := by
  have hr : ¬ r < 0 := not_lt.mpr ((abs_nonneg q).trans h)
  have hhalf : 0 ≤ |q| + 1 / 2 := by positivity
  have hfloor : 0 ≤ (|q| + 1 / 2).floor := Int.floor_nonneg.mpr hhalf
  have habs : |roundHalfAway q| = (|q| + 1 / 2).floor := by
    rw [roundHalfAway]
    split_ifs with hq
    · rw [abs_neg, ← abs_of_neg hq]
      exact abs_of_nonneg hfloor
    · rw [abs_of_nonneg (not_lt.mp hq)] at hfloor ⊢
      exact abs_of_nonneg hfloor
  rw [habs, roundHalfAway, if_neg hr]
  have hle : |q| + 1 / 2 ≤ r + 1 / 2 := by linarith
  exact Int.floor_le_floor hle

namespace Binary

variable {format : Format} [format.Regular] {x : Binary format}

/-- A function that fixes the integers fixes the numbers with an integer as their value. -/
lemma mapWhole_of_value_eq {f : ℚ → ℤ} (hf : ∀ k : ℤ, f k = k) (hx : x.isFinite = true) {n : ℤ}
    (h : x.value = n) : x.mapWhole f = x := by
  cases x with
  | nan => cases hx
  | infinite s => cases hx
  | finite s m e hc =>
    have hround := roundSigned_value (x := .finite s m e hc) rfl
    show roundSigned s ((f (Binary.finite s m e hc).value : ℤ) : ℚ) = _
    rw [h, hf, ← h]
    exact hround

/-- A short whole number is rounded to itself. -/
lemma roundAway_ofNat {n : ℕ} (h : n ≤ 2 ^ format.precision) :
    (ofNat n : Binary format).roundAway = ofNat n :=
  mapWhole_of_value_eq roundHalfAway_intCast (isFinite_ofNat h)
    ((value_ofNat h).trans (Int.cast_natCast n).symm)

/-- **Finite numbers are rounded to finite whole numbers**, by any function that fixes the integers
and moves a rational by no more than one.

**Proof sketch.** With an exponent that is not negative the number is whole already. With a
negative one its magnitude is below half the longest significand, and the integer next to it is
short enough to have an exact value. -/
lemma mapWhole_spec {f : ℚ → ℤ} (hf : ∀ k : ℤ, f k = k) (hnear : ∀ q, |(f q : ℚ) - q| ≤ 1)
    (hx : x.isFinite = true) :
    (x.mapWhole f).isFinite = true ∧ (x.mapWhole f).value = f x.value := by
  cases x with
  | nan => cases hx
  | infinite s => cases hx
  | finite s m e hc =>
    rcases le_or_gt 0 e with he | he
    · obtain ⟨k, rfl⟩ := Int.eq_ofNat_of_zero_le he
      obtain ⟨n, hn⟩ : ∃ n : ℤ, (Binary.finite s m k hc).value = n := by
        refine ⟨(if s then -1 else 1) * (m * 2 ^ k), ?_⟩
        rw [value_finite, zpow_natCast]
        cases s <;> push_cast <;> simp
      rw [mapWhole_of_value_eq hf rfl hn, hn, hf]
      exact ⟨rfl, rfl⟩
    · have hshort : (f (Binary.finite s m e hc).value).natAbs ≤ 2 ^ format.precision := by
        have hprecision := format.one_le_precision
        have hhalf : |(Binary.finite s m e hc).value| ≤ 2 ^ (format.precision - 1) := by
          have hm : (m : ℚ) ≤ 2 ^ (format.precision : ℤ) := by
            rw [two_zpow_natCast]
            exact_mod_cast hc.1.le
          calc |(Binary.finite s m e hc).value| = m * 2 ^ e := abs_value_finite hc
            _ ≤ 2 ^ (format.precision : ℤ) * 2 ^ (-1 : ℤ) :=
              mul_le_mul hm (two_zpow_le_iff.mpr (by omega)) (two_zpow_pos e).le (two_zpow_pos _).le
            _ = 2 ^ (format.precision - 1) := by
              rw [← two_zpow_add, show (format.precision : ℤ) + -1 =
                ((format.precision - 1 : ℕ) : ℤ) by omega, zpow_natCast]
        have hdistance := hnear (Binary.finite s m e hc).value
        have hbound : |(f (Binary.finite s m e hc).value : ℚ)| ≤ 2 ^ format.precision := by
          have hone : (1 : ℚ) ≤ 2 ^ (format.precision - 1) := one_le_pow₀ one_le_two
          have hdouble : (2 : ℚ) ^ format.precision =
              2 ^ (format.precision - 1) + 2 ^ (format.precision - 1) := by
            rw [← mul_two, ← pow_succ, Nat.sub_add_cancel hprecision]
          have htriangle := abs_add_le ((f (Binary.finite s m e hc).value : ℚ) -
            (Binary.finite s m e hc).value) (Binary.finite s m e hc).value
          rw [sub_add_cancel] at htriangle
          linarith
        rw [← Int.cast_abs, Int.abs_eq_natAbs] at hbound
        exact_mod_cast hbound
      obtain ⟨hfinite, hvalue, _⟩ := roundSigned_intCast format s hshort
      exact ⟨hfinite, hvalue⟩

/-- Rounding a finite number to nearest gives a finite whole number. -/
lemma roundAway_spec (hx : x.isFinite = true) :
    x.roundAway.isFinite = true ∧ x.roundAway.value = roundHalfAway x.value :=
  mapWhole_spec roundHalfAway_intCast abs_roundHalfAway_sub_le hx

/-- Rounding a finite number down gives a finite whole number. -/
lemma floor_spec (hx : x.isFinite = true) :
    x.floor.isFinite = true ∧ x.floor.value = x.value.floor :=
  mapWhole_spec Rat.floor_intCast abs_floor_sub_le hx

omit [format.Regular] in
/-- What is finite when rounded to a whole number is finite. -/
lemma isFinite_of_mapWhole {f : ℚ → ℤ} (h : (x.mapWhole f).isFinite = true) :
    x.isFinite = true := by
  cases x with
  | nan => cases h
  | infinite s => cases h
  | finite s m e hc => rfl

omit [format.Regular] in
/-- What is finite when rounded to nearest is finite. -/
lemma isFinite_of_roundAway (h : x.roundAway.isFinite = true) : x.isFinite = true :=
  isFinite_of_mapWhole h

/-- Rounding to nearest twice is rounding once. -/
lemma roundAway_roundAway (hx : x.isFinite = true) : x.roundAway.roundAway = x.roundAway := by
  obtain ⟨hfinite, hvalue⟩ := roundAway_spec hx
  exact mapWhole_of_value_eq roundHalfAway_intCast hfinite hvalue

/-- **A whole number is the one of its word**, unless it is too large for a word. -/
lemma ofNat_toWord (hx : x.isFinite = true) (hsign : x.isNegative = false) {n : ℤ}
    (h : x.value = n) : ofNat x.toWord = x ∨ x.toWord = maxWord := by
  have hnonneg : 0 ≤ n := by
    have := value_nonneg hsign
    rw [h] at this
    exact_mod_cast this
  obtain ⟨k, rfl⟩ := Int.eq_ofNat_of_zero_le hnonneg
  have hword := toWord_of_value_eq hx (by exact_mod_cast h)
  rcases le_or_gt k maxWord with hle | hgt
  · left
    have hround := roundSigned_value hx
    rw [hsign, h] at hround
    rw [hword, min_eq_left hle]
    exact_mod_cast hround
  · right
    rw [hword, min_eq_right hgt.le]

/-- The word of a number that is rounded to a whole one, which is not negative and not too large for a
word. -/
lemma toWord_mapWhole {f : ℚ → ℤ} (hf : ∀ k : ℤ, f k = k) (hnear : ∀ q, |(f q : ℚ) - q| ≤ 1)
    (hx : x.isFinite = true) (hnonneg : 0 ≤ f x.value) (hword : f x.value ≤ maxWord) :
    (x.mapWhole f).toWord = (f x.value).toNat := by
  obtain ⟨hfinite, hvalue⟩ := mapWhole_spec hf hnear hx
  obtain ⟨n, hn⟩ := Int.eq_ofNat_of_zero_le hnonneg
  rw [hn] at hvalue hword ⊢
  rw [toWord_of_value_eq hfinite (by exact_mod_cast hvalue), min_eq_left (by exact_mod_cast hword),
    Int.toNat_natCast]

section Word

variable (hx : x.isFinite = true) (hnonneg : 0 ≤ x.value) (hword : x.value ≤ maxWord)

include hx hnonneg hword

/-- The word of a number that is rounded down. -/
lemma toWord_floor : x.floor.toWord = x.value.floor.toNat := by
  refine toWord_mapWhole Rat.floor_intCast abs_floor_sub_le hx (Int.floor_nonneg.mpr hnonneg) ?_
  exact_mod_cast (floor_bounds x.value).1.trans hword

/-- The word of a number that is rounded up. -/
lemma toWord_ceil : x.ceil.toWord = x.value.ceil.toNat := by
  refine toWord_mapWhole Rat.ceil_intCast abs_ceil_sub_le hx ?_ ?_
  · have hle : x.value ≤ x.value.ceil := Rat.le_ceil
    exact_mod_cast hnonneg.trans hle
  · exact Rat.ceil_le_iff.mpr (by exact_mod_cast hword)

/-- The word of a number that is rounded to nearest. -/
lemma toWord_roundAway : x.roundAway.toWord = (roundHalfAway x.value).toNat := by
  refine toWord_mapWhole roundHalfAway_intCast abs_roundHalfAway_sub_le hx ?_ ?_
  · exact roundHalfAway_nonneg hnonneg
  · exact (roundHalfAway_mono (by exact_mod_cast hword)).trans_eq (roundHalfAway_intCast maxWord)

end Word

/-! ## Samples as 64-bit numbers -/

/-- A finite number in another format is its rounded value. -/
lemma convert_eq {source target : Format} {x : Binary source} (hx : x.isFinite = true) :
    (x.convert : Binary target) = roundSigned x.isNegative x.value := by
  cases x with
  | nan => cases hx
  | infinite s => cases hx
  | finite s m e hc => rfl

/-- A number without a minus sign has none in another format. -/
lemma isNegative_convert {source target : Format} [target.Regular] {x : Binary source}
    (hsign : x.isNegative = false) : (x.convert : Binary target).isNegative = false := by
  cases x with
  | nan => rfl
  | infinite s => exact hsign
  | finite s m e hc =>
    obtain rfl : s = false := hsign
    exact isNegative_round target (value_nonneg rfl)

/-- A finite sample is widened without a change of its value and sign. -/
lemma convert_spec {x : Sample} (hx : x.isFinite = true) :
    (x.convert : Double).isFinite = true ∧ (x.convert : Double).value = x.value ∧
      (x.convert : Double).isNegative = x.isNegative := by
  cases x with
  | nan => cases hx
  | infinite s => cases hx
  | finite s m e hc =>
    have habs := abs_value_finite (s := s) hc
    have hm : m ≤ 2 ^ Format.double.precision := hc.1.le.trans (by decide)
    have hrepresentable : Format.double.Representable (Binary.finite s m e hc).value :=
      ⟨m, e, hm, le_trans (by decide) hc.2.1, habs⟩
    have hnearest := Format.nearest_of_representable hrepresentable
    have hlimit : |Format.double.nearest (Binary.finite s m e hc).value| <
        Format.double.limit := by
      have hm' : (m : ℚ) ≤ 2 ^ (24 : ℤ) := by exact_mod_cast hc.1.le
      rw [hnearest, habs]
      calc (m : ℚ) * 2 ^ e ≤ 2 ^ (24 : ℤ) * 2 ^ (104 : ℤ) :=
          mul_le_mul hm' (two_zpow_le_iff.mpr hc.2.2.1) (two_zpow_pos e).le (two_zpow_pos _).le
        _ = 2 ^ (128 : ℤ) := (two_zpow_add 24 104).symm
        _ < Format.double.limit := two_zpow_lt_iff.mpr (by decide)
    obtain ⟨hfinite, hvalue, hsign⟩ := roundSigned_of_lt s hlimit
    refine ⟨hfinite, hvalue.trans hnearest, hsign.trans ?_⟩
    split_ifs with hzero
    · rfl
    · have hne : m ≠ 0 := by
        rintro rfl
        exact hzero (by simp [value_finite])
      show decide _ = s
      rw [Bool.eq_iff_iff, decide_eq_true_iff, value_neg_iff hc hne]

/-- **A sample is not changed by widening it** and narrowing it again. -/
lemma convert_convert {x : Sample} (hx : x.isFinite = true) :
    ((x.convert : Double).convert : Sample) = x := by
  obtain ⟨hfinite, hvalue, hsign⟩ := convert_spec hx
  rw [convert_eq hfinite, hvalue, hsign]
  exact roundSigned_value hx

end Binary

end Arranger
