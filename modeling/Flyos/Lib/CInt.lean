import Mathlib.Algebra.Group.Int.Defs
import Mathlib.Algebra.Group.Nat.Defs
import Mathlib.Data.Int.Basic

/-!
# The type `int`

`int32` is the value of an integer in a 32-bit `int`: what lies outside of its range wraps.
A value computed in steps is wrapped once, at the end (`int32_digit`, `int32_neg`).
-/

namespace Flyos

/-- A value of type `int`: sums wrap. -/
def int32 (x : Int) : Int := x.bmod (2 ^ 32)

/-- A value that an argument of type `int` may have. -/
def IsInt (id : Int) : Prop := -2 ^ 31 ≤ id ∧ id < 2 ^ 31

/-- The values of type `int`. -/
theorem int32_range (x : Int) : -2 ^ 31 ≤ int32 x ∧ int32 x < 2 ^ 31 := by
  unfold int32
  exact ⟨Int.le_bmod (by decide), Int.bmod_lt (by decide)⟩

/-- A value in the range of `int` is kept. -/
theorem int32_of_range {x : Int} (low : -2 ^ 31 ≤ x) (high : x < 2 ^ 31) : int32 x = x := by
  unfold int32
  exact Int.bmod_eq_of_le (by omega) (by omega)

/-- A digit behind a wrapped number. -/
theorem int32_digit (x b d : Int) : int32 (int32 x * b + d) = int32 (x * b + d) := by
  unfold int32
  rw [← Int.bmod_add_bmod, Int.bmod_mul_bmod, Int.bmod_add_bmod]

/-- The negative of a wrapped number. -/
theorem int32_neg (x : Int) : int32 (-int32 x) = int32 (-x) := Int.bmod_neg_bmod

end Flyos
