import Mathlib.Algebra.Group.Int.Defs
import Mathlib.Algebra.Group.Nat.Defs
import Mathlib.Data.Nat.Basic

/-!
# Checked machine arithmetic

Unsigned machine integers are natural numbers below `2 ^ w`. The checked operations answer `none`
exactly when the result leaves that range, the truncating cast keeps the low `w` bits, and a
saturating subtraction is the subtraction of `Nat`.
-/

namespace Checked

/-- `checked_add` at width `w`. -/
def add (w a b : Nat) : Option Nat :=
  if a + b < 2 ^ w then some (a + b) else none

/-- `checked_sub`. -/
def sub (a b : Nat) : Option Nat :=
  if b ≤ a then some (a - b) else none

/-- `checked_mul` at width `w`. -/
def mul (w a b : Nat) : Option Nat :=
  if a * b < 2 ^ w then some (a * b) else none

/-- `saturating_add` at width `w`. -/
def satAdd (w a b : Nat) : Nat :=
  min (a + b) (2 ^ w - 1)

/-- `saturating_mul` at width `w`. -/
def satMul (w a b : Nat) : Nat :=
  min (a * b) (2 ^ w - 1)

/-- The saturated value of a signed result at width `w + 1`. -/
def satInt (w : Nat) (a : Int) : Int :=
  max (-(2 ^ w)) (min a (2 ^ w - 1))

/-- The `as` cast to width `w`. -/
def cast (w a : Nat) : Nat :=
  a % 2 ^ w

@[simp] theorem add_eq_some {w a b c : Nat} :
    add w a b = some c ↔ a + b < 2 ^ w ∧ a + b = c := by
  simp [add]

@[simp] theorem sub_eq_some {a b c : Nat} : sub a b = some c ↔ b ≤ a ∧ a - b = c := by
  simp [sub]

@[simp] theorem mul_eq_some {w a b c : Nat} :
    mul w a b = some c ↔ a * b < 2 ^ w ∧ a * b = c := by
  simp [mul]

/-- Saturating once more adds to a sum that has saturated already. -/
theorem satAdd_min (w a b : Nat) :
    satAdd w (min a (2 ^ w - 1)) b = min (a + b) (2 ^ w - 1) := by
  unfold satAdd
  omega

/-- Below a bound of the same width, a product does not show that it saturated. -/
theorem satMul_min {w a b m : Nat} (hm : m < 2 ^ w) : min (satMul w a b) m = min (a * b) m := by
  unfold satMul
  omega

theorem cast_le (w a : Nat) : cast w a ≤ a :=
  Nat.mod_le a (2 ^ w)

theorem cast_of_lt {w a : Nat} (h : a < 2 ^ w) : cast w a = a :=
  Nat.mod_eq_of_lt h

end Checked
