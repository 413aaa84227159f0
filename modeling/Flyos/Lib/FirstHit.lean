import Mathlib.Data.Nat.Basic

/-!
# The first hit of a scan

A scan tries the positions `i`, `i + 1`, ... one after the other and stops at the first
one where `f` has a result.  `firstHit f n i` is that position with its result, of the
`n` positions from `i` on.
-/

variable {α : Type*} {f f' : Nat → Option α}

/-- The first of the `n` positions from `i` on where `f` has a result. -/
def firstHit (f : Nat → Option α) : Nat → Nat → Option (Nat × α)
  | 0, _ => none
  | n + 1, i =>
      match f i with
      | some a => some (i, a)
      | none => firstHit f n (i + 1)

theorem firstHit_succ_some {n i : Nat} {a : α} (hit : f i = some a) :
    firstHit f (n + 1) i = some (i, a) := by
  rw [firstHit, hit]

theorem firstHit_succ_none {n i : Nat} (miss : f i = none) :
    firstHit f (n + 1) i = firstHit f n (i + 1) := by
  rw [firstHit, miss]

/-- The hit of a scan: the first position with a result. -/
theorem firstHit_eq_some_iff {n i j : Nat} {a : α} :
    firstHit f n i = some (j, a) ↔
      i ≤ j ∧ j < i + n ∧ f j = some a ∧ ∀ k, i ≤ k → k < j → f k = none := by
  induction n generalizing i with
  | zero =>
      constructor
      · intro no
        cases no
      · rintro ⟨low, high, -⟩
        omega
  | succ n ih =>
      cases here : f i with
      | some b =>
          rw [firstHit_succ_some here]
          constructor
          · intro eq
            cases eq
            exact ⟨Nat.le_refl _, by omega, here, fun k low high => by omega⟩
          · rintro ⟨low, -, hit, before⟩
            have first : j = i := by
              by_contra other
              rw [before i (Nat.le_refl i) (by omega)] at here
              cases here
            rw [first, here] at hit
            rw [first, Option.some.inj hit]
      | none =>
          rw [firstHit_succ_none here, ih]
          constructor
          · rintro ⟨low, high, hit, before⟩
            refine ⟨by omega, by omega, hit, fun k low' high' => ?_⟩
            by_cases first : k = i
            · rw [first, here]
            · exact before k (by omega) high'
          · rintro ⟨low, high, hit, before⟩
            have later : j ≠ i := by
              rintro rfl
              rw [here] at hit
              cases hit
            exact ⟨by omega, by omega, hit, fun k low' high' => before k (by omega) high'⟩

/-- A scan goes on where a scan without a hit ends. -/
theorem firstHit_add (m n i : Nat) :
    firstHit f (m + n) i = (firstHit f m i).or (firstHit f n (i + m)) := by
  induction m generalizing i with
  | zero => rw [Nat.zero_add]; rfl
  | succ m ih =>
      rw [show m + 1 + n = m + n + 1 by omega]
      cases here : f i with
      | some a => rw [firstHit_succ_some here, firstHit_succ_some here]; rfl
      | none =>
          rw [firstHit_succ_none here, firstHit_succ_none here, ih,
            show i + 1 + m = i + (m + 1) by omega]

/-- Positions may be counted from elsewhere. -/
theorem firstHit_shift (s n i : Nat) :
    firstHit f n (s + i) = (firstHit (fun k => f (s + k)) n i).map fun r => (s + r.1, r.2) := by
  induction n generalizing i with
  | zero => rfl
  | succ n ih =>
      cases here : f (s + i) with
      | some a => rw [firstHit_succ_some here, firstHit_succ_some (by exact here)]; rfl
      | none =>
          rw [firstHit_succ_none here, firstHit_succ_none (by exact here), Nat.add_assoc, ih]

/-- Only the positions scanned matter. -/
theorem firstHit_congr {n i : Nat} (same : ∀ k, i ≤ k → k < i + n → f' k = f k) :
    firstHit f' n i = firstHit f n i := by
  induction n generalizing i with
  | zero => rfl
  | succ n ih =>
      rw [firstHit, firstHit, same i (Nat.le_refl i) (by omega),
        ih fun k low high => same k (by omega) (by omega)]
