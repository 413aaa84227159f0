import Mathlib.Data.List.GetD

/-!
# Reading a list from a position

A parser holds a position in a buffer.  What stands there is `l.drop i`; these lemmas move on
through it.
-/

variable {α : Type*} {l xs ys : List α} {i : Nat}

/-- An element behind the position. -/
theorem getD_of_drop (here : l.drop i = xs) (k : Nat) (d : α) : l.getD (i + k) d = xs.getD k d := by
  rw [List.getD_eq_getElem?_getD, List.getD_eq_getElem?_getD, ← here, List.getElem?_drop]

/-- Behind what was read. -/
theorem drop_of_drop (here : l.drop i = xs ++ ys) : l.drop (i + xs.length) = ys := by
  rw [← List.drop_drop, here, List.drop_left]

/-- Where something stands, the position is inside, and what stands there reaches to the end. -/
theorem length_of_drop (here : l.drop i = xs) (some_ : xs ≠ []) : i + xs.length = l.length := by
  have length := congrArg List.length here
  have positive := List.length_pos_iff.mpr some_
  rw [List.length_drop] at length
  omega
