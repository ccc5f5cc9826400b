import Arranger.Proofs.Number.Arithmetic

/-!
# The order of the numbers

All numbers but not-a-number are in a total order, and what is computed with not-a-number is
not-a-number.

## Main results

* `Arranger.Binary.lt_of_not_le`, `le_of_not_lt` — the order is total.
* `Arranger.Binary.not_le_of_lt`, `not_lt_of_le` — it is asymmetric.
* `Arranger.Binary.lt_trans`, `lt_of_lt_of_le`, `lt_of_le_of_lt` — it is transitive.
* `Arranger.Binary.toWord_lt` — the integer part of a number below a bound.
-/

namespace Arranger.Binary

variable {format : Format} {x y : Binary format}

/-! ## A total order -/

/-- A finite number is the same as itself. -/
lemma numEq_self (hx : x.isFinite = true) : x.numEq x = true := by
  rw [numEq_eq_decide hx hx, decide_eq_true_iff]

/-- Of two numbers that do not compare one way, one is less the other way. -/
lemma lt_of_not_le (hx : x ≠ .nan) (hy : y ≠ .nan) (h : ¬ x ≤ y) : y < x := by
  change ¬ (x.blt y || x.numEq y) = true at h
  change y.blt x = true
  cases x with
  | nan => exact absurd rfl hx
  | infinite s =>
    cases y with
    | nan => exact absurd rfl hy
    | infinite t => revert h; cases s <;> cases t <;> simp [blt, numEq]
    | finite t m e hc => revert h; cases s <;> simp [blt, numEq]
  | finite s m e hc =>
    cases y with
    | nan => exact absurd rfl hy
    | infinite t => revert h; cases t <;> simp [blt, numEq]
    | finite t n f hd =>
      rw [Bool.or_eq_true, not_or] at h
      have hlt := of_decide_eq_false (Bool.eq_false_iff.mpr h.1)
      have hne := of_decide_eq_false (Bool.eq_false_iff.mpr h.2)
      exact decide_eq_true (lt_of_le_of_ne (not_lt.mp hlt) (Ne.symm hne))

/-- Of two numbers of which one is not less, the other one is at most it. -/
lemma le_of_not_lt (hx : x ≠ .nan) (hy : y ≠ .nan) (h : ¬ x < y) : y ≤ x := by
  change ¬ x.blt y = true at h
  change (y.blt x || y.numEq x) = true
  cases x with
  | nan => exact absurd rfl hx
  | infinite s =>
    cases y with
    | nan => exact absurd rfl hy
    | infinite t => revert h; cases s <;> cases t <;> simp [blt, numEq]
    | finite t m e hc => revert h; cases s <;> simp [blt, numEq]
  | finite s m e hc =>
    cases y with
    | nan => exact absurd rfl hy
    | infinite t => revert h; cases t <;> simp [blt, numEq]
    | finite t n f hd =>
      have hle := not_lt.mp (of_decide_eq_false (Bool.eq_false_iff.mpr h))
      rw [Bool.or_eq_true]
      exact (lt_or_eq_of_le hle).imp decide_eq_true decide_eq_true

/-- What is less is at most. -/
lemma le_of_lt (h : x < y) : x ≤ y := by
  change x.blt y = true at h
  show (x.blt y || x.numEq y) = true
  rw [h, Bool.true_or]

/-- The order is asymmetric. -/
lemma not_le_of_lt (h : x < y) : ¬ y ≤ x := by
  change x.blt y = true at h
  change ¬ (y.blt x || y.numEq x) = true
  cases x with
  | nan => cases h
  | infinite s =>
    cases y with
    | nan => cases h
    | infinite t => revert h; cases s <;> cases t <;> simp [blt, numEq]
    | finite t m e hc => revert h; cases s <;> simp [blt, numEq]
  | finite s m e hc =>
    cases y with
    | nan => cases h
    | infinite t => revert h; cases t <;> simp [blt, numEq]
    | finite t n f hd =>
      have hlt := of_decide_eq_true h
      rw [Bool.or_eq_true, not_or]
      exact ⟨fun hgt => absurd (of_decide_eq_true hgt) (not_lt.mpr hlt.le),
        fun heq => absurd (of_decide_eq_true heq) hlt.ne'⟩

/-- The order is asymmetric. -/
lemma not_lt_of_le (h : x ≤ y) : ¬ y < x := fun hlt => not_le_of_lt hlt h

/-- The order is transitive. -/
lemma lt_trans {z : Binary format} (h : x < y) (h' : y < z) : x < z := by
  change x.blt y = true at h
  change y.blt z = true at h'
  change x.blt z = true
  cases y with
  | nan => cases h'
  | infinite t =>
    -- Nothing is below the one infinity, and nothing above the other one.
    cases t <;> cases x <;> cases z <;> simp_all [blt]
  | finite t m e hc =>
    cases x with
    | nan => cases h
    | infinite s => cases z <;> simp_all [blt]
    | finite s n f hd =>
      cases z with
      | nan => cases h'
      | infinite u => exact h'
      | finite u k g hk =>
        exact decide_eq_true ((of_decide_eq_true h).trans (of_decide_eq_true h'))

/-- What is less than a number is less than what the number is at most. -/
lemma lt_of_lt_of_le {z : Binary format} (h : x < y) (h' : y ≤ z) : x < z := by
  change (y.blt z || y.numEq z) = true at h'
  rcases Bool.or_eq_true_iff.mp h' with hlt | heq
  · exact lt_trans h hlt
  · change x.blt y = true at h
    change x.blt z = true
    cases y with
    | nan => cases heq
    | infinite t => cases x <;> cases z <;> simp_all [blt, numEq]
    | finite t m e hc => cases x <;> cases z <;> simp_all [blt, numEq]

/-- What is at most a number is less than what the number is less than. -/
lemma lt_of_le_of_lt {z : Binary format} (h : x ≤ y) (h' : y < z) : x < z := by
  change (x.blt y || x.numEq y) = true at h
  rcases Bool.or_eq_true_iff.mp h with hlt | heq
  · exact lt_trans hlt h'
  · change y.blt z = true at h'
    change x.blt z = true
    cases y with
    | nan => cases h'
    | infinite t => cases x <;> cases z <;> simp_all [blt, numEq]
    | finite t m e hc => cases x <;> cases z <;> simp_all [blt, numEq]

/-- A number between finite ones is finite. -/
lemma isFinite_of_le {low high : Binary format} (hlow : low.isFinite = true)
    (hhigh : high.isFinite = true) (h : low ≤ x) (h' : x ≤ high) : x.isFinite = true := by
  change (low.blt x || low.numEq x) = true at h
  change (x.blt high || x.numEq high) = true at h'
  cases low with
  | nan => cases hlow
  | infinite s => cases hlow
  | finite s m e hc =>
    cases high with
    | nan => cases hhigh
    | infinite t => cases hhigh
    | finite t n f hd =>
      cases x with
      | nan => cases h
      | infinite u => revert h h'; cases u <;> simp [blt, numEq]
      | finite u k g hk => rfl

/-! ## Not-a-number -/

/-- Not-a-number is not less than anything. -/
lemma ne_nan_of_lt (h : x < y) : x ≠ .nan := by
  rintro rfl
  cases h

/-- Nothing is less than not-a-number. -/
lemma ne_nan_of_gt (h : x < y) : y ≠ .nan := by
  rintro rfl
  cases x <;> cases h

@[simp] lemma nan_add (x : Binary format) : .nan + x = (.nan : Binary format) := by
  cases x <;> rfl

@[simp] lemma add_nan (x : Binary format) : x + .nan = (.nan : Binary format) := by
  cases x <;> rfl

@[simp] lemma nan_sub (x : Binary format) : .nan - x = (.nan : Binary format) := nan_add (-x)

@[simp] lemma sub_nan (x : Binary format) : x - .nan = (.nan : Binary format) := add_nan x

@[simp] lemma nan_div (x : Binary format) : .nan / x = (.nan : Binary format) := by
  cases x <;> rfl

@[simp] lemma div_nan (x : Binary format) : x / .nan = (.nan : Binary format) := by
  cases x <;> rfl

/-! ## Integer parts -/

/-- The integer part of a number below a positive bound is below it. -/
lemma toWord_lt {n : ℕ} (hn : 0 < n) (hx : x.isFinite = true) (h : x.value < n) :
    x.toWord < n := by
  cases x with
  | nan => cases hx
  | infinite s => cases hx
  | finite s m e hc =>
    change min (truncate _).toNat maxWord < n
    have htruncate : truncate (Binary.finite s m e hc).value < n := by
      unfold truncate
      split_ifs with hneg
      · have hceil : (Binary.finite s m e hc).value.ceil ≤ 0 := by
          exact Rat.ceil_le_iff.mpr (by exact_mod_cast hneg.le)
        omega
      · exact Int.floor_lt.mpr (by exact_mod_cast h)
    omega

end Arranger.Binary
