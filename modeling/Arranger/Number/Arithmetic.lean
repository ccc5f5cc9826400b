import Arranger.Number.Binary

/-!
# Floating-point arithmetic and comparison

The four operations round the exact result once. Comparisons are those of the values; nothing
compares with not-a-number, and the two zeros are numerically equal.

## Main definitions

* instances of `Neg`, `Add`, `Sub`, `Mul` and `Div` for `Arranger.Binary`.
* instances of `LT` and `LE`, with `Binary.numEq` for numerical equality.
* `Arranger.Binary.remainder` and `Arranger.Binary.euclidean` — remainders of a division.
-/

namespace Arranger.Binary

variable {format : Format}

/-! ## Sign -/

/-- The number with the other sign. -/
def neg : Binary format → Binary format
  | .nan => .nan
  | .infinite negative => .infinite !negative
  | .finite negative significand exponent h => .finite (!negative) significand exponent h

instance : Neg (Binary format) := ⟨neg⟩

/-- The magnitude. -/
def abs (x : Binary format) : Binary format :=
  if x.isNegative then -x else x

/-! ## Comparison -/

/-- Whether `x` is less than `y`. -/
def blt : Binary format → Binary format → Bool
  | .nan, _ => false
  | _, .nan => false
  | .infinite s, .infinite t => s && !t
  | .infinite s, .finite _ _ _ _ => s
  | .finite _ _ _ _, .infinite t => !t
  | x@(.finite _ _ _ _), y@(.finite _ _ _ _) => decide (x.value < y.value)

/-- Whether `x` and `y` are the same number; the two zeros are, not-a-number is not. -/
def numEq : Binary format → Binary format → Bool
  | .infinite s, .infinite t => s == t
  | x@(.finite _ _ _ _), y@(.finite _ _ _ _) => decide (x.value = y.value)
  | _, _ => false

instance : LT (Binary format) := ⟨fun x y => x.blt y = true⟩

instance : LE (Binary format) := ⟨fun x y => (x.blt y || x.numEq y) = true⟩

instance (x y : Binary format) : Decidable (x < y) :=
  inferInstanceAs (Decidable (x.blt y = true))

instance (x y : Binary format) : Decidable (x ≤ y) :=
  inferInstanceAs (Decidable ((x.blt y || x.numEq y) = true))

/-! ## The four operations -/

/-- The sum. A zero sum is negative only if both terms are. -/
def add : Binary format → Binary format → Binary format
  | .nan, _ => .nan
  | _, .nan => .nan
  | .infinite s, .infinite t => if s = t then .infinite s else .nan
  | .infinite s, .finite _ _ _ _ => .infinite s
  | .finite _ _ _ _, .infinite t => .infinite t
  | x@(.finite s _ _ _), y@(.finite t _ _ _) => roundSigned (s && t) (x.value + y.value)

/-- The product. Its sign is minus where exactly one of the factors' is. -/
def mul : Binary format → Binary format → Binary format
  | .nan, _ => .nan
  | _, .nan => .nan
  | .infinite s, .infinite t => .infinite (s != t)
  | .infinite s, .finite t m _ _ => if m = 0 then .nan else .infinite (s != t)
  | .finite s m _ _, .infinite t => if m = 0 then .nan else .infinite (s != t)
  | x@(.finite s _ _ _), y@(.finite t _ _ _) => roundSigned (s != t) (x.value * y.value)

/-- The quotient. A number divided by zero is an infinity, zero by zero not a number. -/
def div : Binary format → Binary format → Binary format
  | .nan, _ => .nan
  | _, .nan => .nan
  | .infinite _, .infinite _ => .nan
  | .infinite s, .finite t _ _ _ => .infinite (s != t)
  | .finite s _ _ _, .infinite t => zero (s != t)
  | x@(.finite s m _ _), y@(.finite t n _ _) =>
    if n = 0 then if m = 0 then .nan else .infinite (s != t)
    else roundSigned (s != t) (x.value / y.value)

instance : Add (Binary format) := ⟨add⟩

instance : Sub (Binary format) := ⟨fun x y => x + -y⟩

instance : Mul (Binary format) := ⟨mul⟩

instance : Div (Binary format) := ⟨div⟩

/-! ## Remainders -/

/-- What is left of `x` after dividing it by `y` toward zero; it has the sign of `x`. -/
def remainder : Binary format → Binary format → Binary format
  | .nan, _ => .nan
  | _, .nan => .nan
  | .infinite _, _ => .nan
  | x@(.finite _ _ _ _), .infinite _ => x
  | x@(.finite s _ _ _), y@(.finite _ n _ _) =>
    if n = 0 then .nan else roundSigned s (x.value - truncate (x.value / y.value) * y.value)

/-- The remainder that is not negative: `x` modulo the magnitude of `y`. -/
def euclidean (x y : Binary format) : Binary format :=
  let r := remainder x y
  if r < 0 then r + y.abs else r

end Arranger.Binary
