import Mathlib.Data.List.Basic

/-!
# Counting loops

`countUp n body` performs `body 0`, `body 1`, … below an integer `n`, which may be negative, and
stops at the first that fails.  What each turn carries on, the loop carries to its end
(`countUp_spec`).
-/

/-- After a step that succeeds comes the next. -/
theorem bind_of_ok {ε : Type*} {α β : Type} {r : Except ε α} {a : α} (step : r = .ok a)
    (next : α → Except ε β) : r >>= next = next a := by
  rw [step]
  rfl

variable {σ ε : Type*} {n : Int} {f : Nat → σ → Except ε σ} {s : σ}

/-- A body for each number below `n`. -/
def countUp (n : Int) (body : Nat → σ → Except ε σ) (s : σ) : Except ε σ :=
  (List.range n.toNat).foldlM (fun s i => body i s) s

/-- **A counting loop**: `P i` holds before the turn `i`. -/
theorem countUp_spec {P : Nat → σ → Prop} (start : P 0 s)
    (turn : ∀ (i : Nat) s, (i : Int) < n → P i s → ∃ t, f i s = .ok t ∧ P (i + 1) t) :
    ∃ t, countUp n f s = .ok t ∧ P n.toNat t := by
  have below : ∀ k ≤ n.toNat,
      ∃ t, (List.range k).foldlM (fun s i => f i s) s = .ok t ∧ P k t := by
    intro k bound
    induction k with
    | zero => exact ⟨s, rfl, start⟩
    | succ k ih =>
        obtain ⟨u, run, before⟩ := ih (Nat.le_of_succ_le bound)
        obtain ⟨t, one, after⟩ := turn k u (by omega) before
        refine ⟨t, ?_, after⟩
        rw [List.range_succ, List.foldlM_append, run, ← one]
        exact bind_pure (f k u)
  exact below n.toNat (Nat.le_refl _)

/-- A counting loop whose states are known. -/
theorem countUp_eq {g : Nat → σ} (start : g 0 = s)
    (turn : ∀ i : Nat, (i : Int) < n → f i (g i) = .ok (g (i + 1))) :
    countUp n f s = .ok (g n.toNat) := by
  obtain ⟨t, run, rfl⟩ := countUp_spec (P := fun i t => t = g i) start.symm
    fun i u inside here => ⟨g (i + 1), by rw [here]; exact turn i inside, rfl⟩
  exact run
