import Arranger.Number.Decimal
import Arranger.Proofs.Number.Arithmetic

/-!
# Laws of decimals

The shortest decimal of a number reads back as its magnitude, and does not depend on its sign.

## Main results

* `Arranger.Binary.toBinary_shortest` — the shortest decimal reads back as the magnitude.
* `Arranger.Binary.shortest_neg` — it is the same for both signs.
-/

namespace Arranger.Binary

variable {format : Format} {x : Binary format}

/-! ## Exact decimals -/

/-- A decimal of a rational that is the magnitude of a number reads back as it. -/
lemma toBinary_of_value_eq [format.Regular] {d : Decimal} (hx : x.isFinite = true)
    (h : d.value = |x.value|) : d.toBinary = x.abs := by
  have hround := roundSigned_value (x := x.abs) (by rw [isFinite_abs, hx])
  rw [isNegative_abs hx, value_abs] at hround
  rw [Decimal.toBinary, round, h, hround]

/-- The exact decimal has the magnitude of the number as its value. -/
lemma value_exactDecimal : x.exactDecimal.value = |x.value| := by
  cases x with
  | nan => simp [exactDecimal, Decimal.value, value]
  | infinite s => simp [exactDecimal, Decimal.value, value]
  | finite s m e hc =>
    rw [abs_value_finite]
    cases e with
    | ofNat k =>
      rw [exactDecimal, Decimal.value, Int.ofNat_eq_natCast, two_zpow_natCast]
      simp
    | negSucc k =>
      have hten : (10 : ℚ) ^ (k + 1) = 5 ^ (k + 1) * 2 ^ (k + 1) := by
        rw [← mul_pow]
        norm_num
      rw [exactDecimal, Decimal.value, Nat.pow_eq, zpow_negSucc, zpow_negSucc, hten]
      push_cast
      field_simp

/-! ## Shortest decimals -/

/-- A neighbour reads back as the magnitude. -/
lemma toBinary_of_neighbour? {place : ℤ} {d : Decimal} (h : x.neighbour? place = some d) :
    d.toBinary = x.abs := by
  simp only [neighbour?] at h
  split_ifs at h with hbelow habove
  · cases h
    rw [Bool.and_eq_true] at hbelow
    exact of_decide_eq_true hbelow.1
  · cases h
    exact of_decide_eq_true habove

/-- **The shortest decimal reads back as the magnitude.** -/
theorem toBinary_shortest [format.Regular] (hx : x.isFinite = true) :
    x.shortest.toBinary = x.abs := by
  simp only [shortest]
  cases hsearch : (List.range 18).findSome? fun k : ℕ =>
      x.neighbour? (x.exactDecimal.leadingExponent + 1 - k) with
  | none => exact toBinary_of_value_eq hx value_exactDecimal
  | some d =>
    obtain ⟨k, _, hk⟩ := List.exists_of_findSome?_eq_some hsearch
    exact toBinary_of_neighbour? hk

/-- The magnitude does not depend on the sign. -/
lemma abs_neg_of_isFinite (hx : x.isFinite = true) : (-x).abs = x.abs := by
  unfold abs
  rw [isNegative_neg hx]
  cases x.isNegative <;> simp

/-- **The shortest decimal does not depend on the sign.** -/
theorem shortest_neg (hx : x.isFinite = true) : (-x).shortest = x.shortest := by
  have hexact : (-x).exactDecimal = x.exactDecimal := by
    cases x with
    | nan => rfl
    | infinite s => rfl
    | finite s m e hc => cases e <;> rfl
  have hneighbour : ∀ place, (-x).neighbour? place = x.neighbour? place := by
    intro place
    simp only [neighbour?, abs_neg_of_isFinite hx, value_neg, rat_abs_eq, abs_neg]
  simp only [shortest, hexact, hneighbour]

end Arranger.Binary
