import Arranger.Proofs.Number.Error
import Arranger.Proofs.Pattern.Bounds

/-!
# Candidates of random references

A random reference draws one of the numbers `low`, `low + step`, and so on. The range is checked
before: its ends are in order, its step is positive and the number of candidates is not too large.
So the ends are finite. But an infinite step leaves one candidate, which is not a number, as the
number of the candidate is zero and is multiplied by the step. And the last candidate may be greater
than the end of the range, as the number of steps is rounded and some slack is added, so it may be
infinite where the end is close to the largest number. Away from there all candidates are finite.

## Main definitions

* `Arranger.candidate` — the candidate of a number.
* `Arranger.BeatRef.IsFinite` — references that stand for finite numbers only.
* `Arranger.BeatRef.Moderate` — references without infinite and very large numbers.

## Main results

* `Arranger.candidate_of_infinite_step` — the only candidate of an infinite step.
* `Arranger.isFinite_candidate` — the candidates of a moderate range are finite.
* `Arranger.BeatRef.Bounded.isFinite` — **moderate references stand for finite numbers**.
-/

namespace Arranger

/-- The candidate of a number, which is counted from zero. -/
def candidate (low step : Double) (pick : ℕ) : Double :=
  low + .ofNat pick * step

/-! ## The number of steps -/

/-- **The number of a candidate is at most the computed number of steps.** -/
lemma le_of_choices? {low high step : Double} {count : ℕ}
    (h : choices? low high step = some count) {pick : ℕ} (hpick : pick < count) :
    ((high - low) / step + slack).isFinite = true ∧
      (pick : ℚ) ≤ ((high - low) / step + slack).value := by
  obtain ⟨-, -, hone⟩ := isFinite_of_choices? h
  simp only [choices?] at h
  split_ifs at h with hrange
  cases h
  simp only [Bool.or_eq_true, Bool.not_eq_true', not_or, Bool.not_eq_false,
    decide_eq_true_eq] at hrange
  obtain ⟨⟨hspan, hnonneg⟩, -⟩ := hrange
  have hsum := Binary.isFinite_of_mapWhole hspan
  refine ⟨hsum, ?_⟩
  set sum := (high - low) / step + slack
  obtain ⟨-, hvalue⟩ := Binary.floor_spec hsum
  obtain ⟨hzero, hzeroValue, -⟩ := Binary.zero_spec .double
  rw [Binary.lt_iff hspan hzero, hzeroValue, hvalue, not_lt] at hnonneg
  obtain ⟨n, hn⟩ := Int.eq_ofNat_of_zero_le (by exact_mod_cast hnonneg : 0 ≤ sum.value.floor)
  rw [Binary.toWord_of_value_eq (n := n) hspan (by rw [hvalue, hn]; rfl)] at hpick
  have hle : pick ≤ n := by omega
  calc (pick : ℚ) ≤ n := by exact_mod_cast hle
    _ = sum.value.floor := by rw [hn]; rfl
    _ ≤ sum.value := (floor_bounds sum.value).1

/-! ## Infinite steps -/

/-- **A range with an infinite step** has one candidate, which is not a number. -/
lemma candidate_of_infinite_step {low high step : Double} {count : ℕ}
    (h : choices? low high step = some count) (hpos : 0 < step) (hstep : step.isFinite = false) :
    count = 1 ∧ candidate low step 0 = .nan := by
  obtain ⟨hsum, -⟩ := le_of_choices? h (isFinite_of_choices? h).2.2
  have hinfinite : step = .infinite false := by
    cases step with
    | nan => cases hpos
    | infinite s =>
      cases s with
      | false => rfl
      | true => cases hpos
    | finite s m e hc => cases hstep
  subst hinfinite
  constructor
  · have hrange := Binary.isFinite_of_isFinite_div (Binary.isFinite_of_isFinite_add hsum).1
    rw [choices?, Binary.div_infinite hrange] at h
    cases hsign : (high - low).isNegative <;> rw [hsign] at h <;>
      exact Option.some.inj (h.symm.trans (by decide +kernel))
  · have hproduct : (.ofNat 0 * .infinite false : Double) = .nan := by decide +kernel
    rw [candidate, hproduct, Binary.add_nan]

/-! ## Finite candidates -/

/-- The slack is a very small number. -/
lemma slack_le : slack.isFinite = true ∧ 0 ≤ slack.value ∧ slack.value ≤ 1 / 2 ^ 29 := by
  decide +kernel

/-- **So many steps are not much longer than the range**, where there is one at least.

**Proof sketch.** The quotient is above a quarter then. So its rounding, the slack and the rounding
of the sum are all small parts of it. -/
lemma mul_le_of_le_nearest {range step n : ℚ} (hstep : 0 < step) (hone : 1 ≤ n)
    (h : n ≤ Format.double.nearest (Format.double.nearest (range / step) + slack.value)) :
    n * step ≤ range * (1 + 1 / 2 ^ 20) := by
  obtain ⟨-, hslackNonneg, hslack⟩ := slack_le
  have hquotient : 1 / 4 ≤ range / step := by
    by_contra hshort
    have hquarter : Format.double.Representable ((1 : ℤ) * 2 ^ (-2 : ℤ)) :=
      Format.representable_mul (by decide) (by decide)
    have hhalf : Format.double.Representable ((1 : ℤ) * 2 ^ (-1 : ℤ)) :=
      Format.representable_mul (by decide) (by decide)
    have hrounded := hquarter.nearest_le (q := range / step) (by norm_num at hshort ⊢; linarith)
    have hsum := hhalf.nearest_le (q := Format.double.nearest (range / step) + slack.value)
      (by norm_num at hrounded hslack ⊢; linarith)
    norm_num at hsum
    linarith
  have hrounded := abs_le.mp (abs_nearest_sub_le_of_le (q := range / step) (r := range / step)
    (abs_of_nonneg (by linarith)).le (by linarith))
  set quotient := range / step with hdef
  set rounded := Format.double.nearest quotient
  have hsum := abs_le.mp (abs_nearest_sub_le_of_le (q := rounded + slack.value)
    (r := rounded + slack.value) (abs_of_nonneg (by linarith)).le (by linarith))
  have hbound : n ≤ quotient * (1 + 1 / 2 ^ 20) := by linarith
  calc n * step ≤ quotient * (1 + 1 / 2 ^ 20) * step := mul_le_mul_of_nonneg_right hbound hstep.le
    _ = range * (1 + 1 / 2 ^ 20) := by rw [hdef]; field_simp

section Moderate

variable {low high step : Double} {count : ℕ} (h : choices? low high step = some count)
  (hle : low ≤ high) (hpos : 0 < step) (hstep : step.isFinite = true)

include h hle hpos hstep

/-- The way to a candidate is not much longer than the range. -/
lemma mul_step_le {pick : ℕ} (hpick : pick < count) :
    pick * step.value ≤ (high.value - low.value) * (1 + 1 / 2 ^ 19) + 1 := by
  obtain ⟨hlow, hhigh, -⟩ := isFinite_of_choices? h
  obtain ⟨hsum, hsteps⟩ := le_of_choices? h hpick
  rw [Binary.le_iff hlow hhigh] at hle
  rw [Binary.pos_iff hstep] at hpos
  rcases Nat.eq_zero_or_pos pick with rfl | hsome
  · rw [Nat.cast_zero, zero_mul]
    have hmul : 0 ≤ (high.value - low.value) * (1 + 1 / 2 ^ 19) :=
      mul_nonneg (by linarith) (by norm_num)
    linarith
  obtain ⟨hslack, -⟩ := slack_le
  have hquotient := (Binary.isFinite_of_isFinite_add hsum).1
  have hrange := Binary.isFinite_of_isFinite_div hquotient
  rw [Binary.add_eq hquotient hslack] at hsum hsteps
  rw [Binary.value_roundSigned hsum] at hsteps
  rw [Binary.div_eq hrange hstep hpos.ne'] at hquotient hsteps
  rw [Binary.value_roundSigned hquotient] at hsteps
  rw [Binary.sub_eq hhigh hlow] at hrange hsteps
  rw [Binary.value_roundSigned hrange] at hsteps
  have hway := mul_le_of_le_nearest hpos (by exact_mod_cast hsome) hsteps
  have hround := (abs_le.mp (abs_nearest_sub_le_of_one_le (q := high.value - low.value)
    (r := high.value - low.value + 1) (by rw [abs_of_nonneg] <;> linarith) (by linarith))).2
  linarith

/-- **The candidates of a moderate range are finite.** -/
lemma isFinite_candidate (hnonneg : 0 ≤ low.value) (hcount : count ≤ 2 ^ 20)
    (hlimit : high.value ≤ Format.double.limit / 2) {pick : ℕ} (hpick : pick < count) :
    (candidate low step pick).isFinite = true := by
  obtain ⟨hlow, hhigh, -⟩ := isFinite_of_choices? h
  have hway := mul_step_le h hle hpos hstep hpick
  rw [Binary.le_iff hlow hhigh] at hle
  rw [Binary.pos_iff hstep] at hpos
  have hlarge := Format.two_pow_le_double_limit
  have hshort : pick ≤ 2 ^ Format.double.precision :=
    (hpick.le.trans hcount).trans (by decide)
  have hwayNonneg : 0 ≤ pick * step.value := mul_nonneg (Nat.cast_nonneg _) hpos.le
  have hround := (abs_le.mp (abs_nearest_sub_le_of_one_le (q := pick * step.value)
    (r := pick * step.value + 1) (by rw [abs_of_nonneg] <;> linarith) (by linarith))).2
  have hroundNonneg := Format.double.nearest_nonneg hwayNonneg
  obtain ⟨hproduct, hvalue⟩ := Binary.roundSigned_of_le_limit (q := pick * step.value)
    (by rw [abs_of_nonneg hwayNonneg]; linarith)
    ((.ofNat pick : Double).isNegative != step.isNegative)
  have hmul : (.ofNat pick * step : Double) = .roundSigned
      ((.ofNat pick : Double).isNegative != step.isNegative) (pick * step.value) := by
    rw [Binary.mul_eq (Binary.isFinite_ofNat hshort) hstep, Binary.value_ofNat hshort]
  rw [candidate, hmul, Binary.add_eq hlow hproduct, hvalue]
  refine (Binary.roundSigned_of_le_limit ?_ _).1
  rw [abs_of_nonneg (add_nonneg hnonneg hroundNonneg)]
  linarith

end Moderate

/-! ## References -/

namespace BeatRef

/-- A reference that stands for finite numbers only: its number is finite, or all its candidates
are. The number of a position always is. -/
def IsFinite : BeatRef → Prop
  | literal number => number.isFinite = true
  | position _ => True
  | random low high step =>
    ∀ count, choices? low high step = some count →
      ∀ pick < count, (candidate low step pick).isFinite = true

/-- A reference without an infinite number, and without a range that ends above half of the limit of
the format. -/
def Moderate : BeatRef → Prop
  | literal number => number.isFinite = true
  | position _ => True
  | random _ high step => step.isFinite = true ∧ high.value ≤ Format.double.limit / 2

/-- **Moderate references within bounds stand for finite numbers.** -/
lemma Bounded.isFinite {ref : BeatRef} (h : ref.Bounded) (hmoderate : ref.Moderate) :
    ref.IsFinite := by
  cases ref with
  | literal number => exact hmoderate
  | position offset => trivial
  | random low high step =>
    obtain ⟨hlow, -, hnonneg, hle, hpos, count, hcount, -, hmax⟩ := h
    obtain ⟨hzero, hzeroValue, -⟩ := Binary.zero_spec .double
    rw [Binary.le_iff hzero hlow, hzeroValue] at hnonneg
    intro count' hcount' pick hpick
    obtain rfl := Option.some.inj (hcount.symm.trans hcount')
    exact isFinite_candidate hcount hle hpos hmoderate.1 hnonneg hmax hmoderate.2 hpick

/-- A range within bounds whose step is infinite has one candidate, which is not a number. -/
lemma Bounded.candidate_eq_nan {low high step : Double} (h : (random low high step).Bounded)
    (hstep : step.isFinite = false) :
    choices? low high step = some 1 ∧ candidate low step 0 = .nan := by
  obtain ⟨-, -, -, -, hpos, count, hcount, -⟩ := h
  obtain ⟨rfl, hnan⟩ := candidate_of_infinite_step hcount hpos hstep
  exact ⟨hcount, hnan⟩

end BeatRef

end Arranger
