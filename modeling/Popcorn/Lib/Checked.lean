import Mathlib.Algebra.Group.Nat.Defs

/-!
# Checked arithmetic on unsigned machine integers

`checked_add`, `checked_sub` and `checked_mul` on a `w`-bit unsigned integer answer `None`
where the exact result does not fit; in a build with overflow checks the plain operators
`+`, `-` and `*` panic on the same inputs. One function here stands for both, over `ℕ`, with
`none` for the overflow, which a caller reads as `None` or as the panic. Each has two lemmas,
when it succeeds and with what (`add_eq_some_iff`), and when it fails (`add_eq_none_iff`);
a chain of them, as a `?` chain or a sum of products computes it, is taken apart with
`Option.bind_eq_some_iff` and these.
-/

namespace Checked

variable (w : ℕ)

/-- `checked_add` on `w` bits. -/
def add (a b : ℕ) : Option ℕ := if a + b < 2 ^ w then some (a + b) else none

/-- `checked_sub`, which fails below zero whatever the width. -/
def sub (a b : ℕ) : Option ℕ := if b ≤ a then some (a - b) else none

/-- `checked_mul` on `w` bits. -/
def mul (a b : ℕ) : Option ℕ := if a * b < 2 ^ w then some (a * b) else none

variable {w} {a b c : ℕ}

-- Each is an `if` between `some` and `none`: it is `some` exactly when the guard holds, and
-- `none` exactly when it fails.

@[simp] theorem add_eq_some_iff : add w a b = some c ↔ a + b < 2 ^ w ∧ a + b = c :=
  Option.ite_some_none_eq_some

@[simp] theorem add_eq_none_iff : add w a b = none ↔ 2 ^ w ≤ a + b := by
  rw [add, ite_eq_right_iff]
  simp only [reduceCtorEq, imp_false, Nat.not_lt]

@[simp] theorem sub_eq_some_iff : sub a b = some c ↔ b ≤ a ∧ a - b = c :=
  Option.ite_some_none_eq_some

@[simp] theorem sub_eq_none_iff : sub a b = none ↔ a < b := by
  rw [sub, ite_eq_right_iff]
  simp only [reduceCtorEq, imp_false, Nat.not_le]

@[simp] theorem mul_eq_some_iff : mul w a b = some c ↔ a * b < 2 ^ w ∧ a * b = c :=
  Option.ite_some_none_eq_some

@[simp] theorem mul_eq_none_iff : mul w a b = none ↔ 2 ^ w ≤ a * b := by
  rw [mul, ite_eq_right_iff]
  simp only [reduceCtorEq, imp_false, Nat.not_lt]

end Checked
