import Mathlib.Data.List.Basic

/-!
# Queues in a ring

A producer and a consumer share a ring of `n` slots: the queue starts at slot `h`, its
`i`th element lies in slot `(h + i) % n`.  `RingHolds n h P l` says that the slots from `h`
on hold the elements of `l`, `P` being what it means for a slot to hold an element.

A queue that is shorter than the ring never meets the slot behind it (`ring_ne`), so the
next element can be put there without touching the others.
-/

variable {α : Type*} {n h i j : Nat} {P Q : Nat → α → Prop} {l : List α} {x : α}

/-- The slots from `h` on hold the elements of `l`. -/
def RingHolds (n h : Nat) (P : Nat → α → Prop) (l : List α) : Prop :=
  ∀ i x, l[i]? = some x → P ((h + i) % n) x

/-- Different places of a ring that are less than a round apart. -/
theorem ring_ne (less : i < j) (near : j < i + n) : (h + i) % n ≠ (h + j) % n := by
  intro same
  have zero := Nat.sub_mod_eq_zero_of_mod_eq same.symm
  rw [show h + j - (h + i) = j - i by omega, Nat.mod_eq_of_lt (by omega)] at zero
  omega

/-- A queue that is shorter than the ring ends where it starts only if it is empty. -/
theorem ring_eq_start (start : h < n) (short : i < n) : (h + i) % n = h ↔ i = 0 := by
  constructor
  · intro same
    by_contra positive
    refine ring_ne (h := h) (i := 0) (j := i) (n := n) (by omega) (by omega) ?_
    rw [Nat.add_zero, Nat.mod_eq_of_lt start, same]
  · rintro rfl
    rw [Nat.add_zero, Nat.mod_eq_of_lt start]

theorem ring_succ : ((h + 1) % n + i) % n = (h + (i + 1)) % n := by
  rw [Nat.mod_add_mod, Nat.add_assoc, Nat.add_comm 1 i]

namespace RingHolds

@[simp] theorem nil : RingHolds n h P ([] : List α) := fun i x none => by cases none

/-- The first element lies in the first slot. -/
theorem head (held : RingHolds n h P (x :: l)) : P (h % n) x := held 0 x rfl

/-- The consumer takes the first element. -/
theorem tail (held : RingHolds n h P (x :: l)) : RingHolds n ((h + 1) % n) P l := by
  intro i y there
  rw [ring_succ]
  exact held (i + 1) y there

/-- The producer puts an element behind the last one. -/
theorem concat (held : RingHolds n h P l) (last : P ((h + l.length) % n) x) :
    RingHolds n h P (l ++ [x]) := by
  intro i y there
  rcases Nat.lt_or_ge i l.length with inside | behind
  · rw [List.getElem?_append_left inside] at there
    exact held i y there
  · rw [List.getElem?_append_right behind] at there
    obtain ⟨at_, rfl⟩ := List.getElem?_eq_some_iff.mp there
    have eq : i = l.length := by
      rw [List.length_singleton] at at_
      omega
    subst eq
    simpa using last

/-- Only the slots of the queue matter. -/
theorem congr (held : RingHolds n h P l)
    (same : ∀ i < l.length, ∀ x, P ((h + i) % n) x → Q ((h + i) % n) x) : RingHolds n h Q l :=
  fun i x there => same i (List.getElem?_eq_some_iff.mp there).1 x (held i x there)

end RingHolds
