import Mathlib.Data.List.Basic

/-!
# Sums with end-around carry

A number is reduced to one digit of base `b` by adding its carries back in, as long as there
are any.  The digit `foldCarry b s` is `s` modulo `b - 1`, and of the two digits that are 0
modulo `b - 1` it is 0 only for `s = 0`.  So it is known from the residue and from whether
`s` is 0 (`foldCarry_unique`).
-/

variable {b s t d : Nat}

/-- A number that is not one digit gets smaller. -/
theorem mod_add_div_lt (base : 2 ≤ b) (carries : s / b ≠ 0) : s % b + s / b < s := by
  have split := Nat.mod_add_div s b
  have grows : 2 * (s / b) ≤ b * (s / b) := Nat.mul_le_mul_right _ base
  omega

/-- Add the carries back in until none is left. -/
def foldCarry (b s : Nat) : Nat :=
  if 2 ≤ b ∧ s / b ≠ 0 then foldCarry b (s % b + s / b) else s
termination_by s
decreasing_by
  rename_i carries
  exact mod_add_div_lt carries.1 carries.2

/-- The result is one digit. -/
theorem foldCarry_lt (base : 2 ≤ b) : foldCarry b s < b := by
  fun_induction foldCarry b s with
  | case1 s carries ih => exact ih
  | case2 s stop =>
      have digit : s / b = 0 := by
        by_contra carries
        exact stop ⟨base, carries⟩
      exact (Nat.div_eq_zero_iff.mp digit).resolve_left (by omega)

/-- Adding a carry back in keeps the residue. -/
theorem mod_add_div_mod_pred (base : 2 ≤ b) : (s % b + s / b) % (b - 1) = s % (b - 1) := by
  obtain ⟨c, rfl⟩ : ∃ c, b = c + 1 := ⟨b - 1, by omega⟩
  have split := Nat.mod_add_div s (c + 1)
  rw [Nat.add_mul, Nat.one_mul] at split
  rw [Nat.add_sub_cancel]
  conv_rhs => rw [← split, Nat.add_comm (c * _), ← Nat.add_assoc, Nat.add_mul_mod_self_left]

/-- **The residue is kept.** -/
theorem foldCarry_mod (base : 2 ≤ b) : foldCarry b s % (b - 1) = s % (b - 1) := by
  fun_induction foldCarry b s with
  | case1 s carries ih => rw [ih, mod_add_div_mod_pred base]
  | case2 s stop => rfl

/-- **Only 0 gives 0.** -/
theorem foldCarry_eq_zero_iff : foldCarry b s = 0 ↔ s = 0 := by
  fun_induction foldCarry b s with
  | case1 s carries ih =>
      rw [ih, Nat.add_eq_zero_iff]
      constructor
      · rintro ⟨-, zero⟩
        exact absurd zero carries.2
      · rintro rfl
        exact ⟨Nat.zero_mod b, Nat.zero_div b⟩
  | case2 s stop => rfl

/-- A digit with the residue of `s` that is 0 exactly if `s` is. -/
theorem foldCarry_unique (base : 2 ≤ b) (digit : d < b) (residue : d % (b - 1) = s % (b - 1))
    (zero : d = 0 ↔ s = 0) : foldCarry b s = d := by
  have small := foldCarry_lt (s := s) base
  have same := (foldCarry_mod (s := s) base).trans residue.symm
  have zeros : foldCarry b s = 0 ↔ d = 0 := foldCarry_eq_zero_iff.trans zero.symm
  rcases Nat.lt_or_ge (foldCarry b s) (b - 1) with low | top
  · rw [Nat.mod_eq_of_lt low] at same
    rcases Nat.lt_or_ge d (b - 1) with low' | top'
    · rw [same, Nat.mod_eq_of_lt low']
    · obtain rfl : d = b - 1 := by omega
      rw [Nat.mod_self] at same
      have := zeros.mp same
      omega
  · have eq : foldCarry b s = b - 1 := by omega
    rw [eq, Nat.mod_self] at same
    rcases Nat.lt_or_ge d (b - 1) with low' | top'
    · rw [Nat.mod_eq_of_lt low'] at same
      have := zeros.mpr same.symm
      omega
    · omega

/-- A sum completed with the complement of its digit folds to the last digit. -/
theorem foldCarry_complement (base : 2 ≤ b) : foldCarry b (s + (b - 1 - foldCarry b s)) = b - 1 := by
  have small := foldCarry_lt (s := s) base
  refine foldCarry_unique base (by omega) ?_ ?_
  · rw [Nat.mod_self, ← Nat.mod_add_mod, ← foldCarry_mod (s := s) base, Nat.mod_add_mod,
      show foldCarry b s + (b - 1 - foldCarry b s) = b - 1 by omega, Nat.mod_self]
  · have zero := foldCarry_eq_zero_iff (b := b) (s := s)
    omega
