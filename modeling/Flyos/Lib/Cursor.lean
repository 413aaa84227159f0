import Mathlib.Data.List.Count
import Mathlib.Data.List.Nodup

/-!
# An index into a list that changes

A walk that remembers how far it came as an index, over a list that changes between its
steps.  `SeenUpTo l seen pos` says that the walk has seen exactly the elements in front of
the index.  It survives a step of the walk, an insertion in front before the first step, and
the removal of an element that was not seen; a walk that ends with it has seen every element
of the list once.
-/

namespace Flyos

variable {α : Type*} {l seen : List α} {pos : Nat}

/-- **The walk has seen the elements in front of its index**, in their order. -/
structure SeenUpTo (l seen : List α) (pos : Nat) : Prop where
  front : seen = l.take pos
  within : pos ≤ l.length

namespace SeenUpTo

/-- Before the first step. -/
theorem start (l : List α) : SeenUpTo l [] 0 := ⟨rfl, Nat.zero_le _⟩

/-- A step of the walk. -/
theorem advance (upTo : SeenUpTo l seen pos) {x : α} (here : l[pos]? = some x) :
    SeenUpTo l (seen ++ [x]) (pos + 1) := by
  obtain ⟨inside, rfl⟩ := List.getElem?_eq_some_iff.mp here
  exact ⟨by rw [upTo.front, List.take_append_getElem inside], inside⟩

/-- Before the first step, a new first element does no harm. -/
theorem push (upTo : SeenUpTo l seen 0) (x : α) : SeenUpTo (x :: l) seen 0 :=
  ⟨upTo.front, Nat.zero_le _⟩

/-- Nor does the removal of an element that was not seen. -/
theorem erase [DecidableEq α] (upTo : SeenUpTo l seen pos) {x : α} (unseen : x ∉ seen) :
    SeenUpTo (l.erase x) seen pos := by
  have front : (l.take pos ++ l.drop pos).erase x = l.take pos ++ (l.drop pos).erase x :=
    List.erase_append_right _ (upTo.front ▸ unseen)
  rw [List.take_append_drop] at front
  have length : (l.take pos).length = pos := List.length_take_of_le upTo.within
  constructor
  · rw [front, List.take_left' length, upTo.front]
  · rw [front, List.length_append, length]
    exact Nat.le_add_right _ _

/-- **At the end every element was seen once.** -/
theorem complete [DecidableEq α] (upTo : SeenUpTo l seen pos) (atEnd : l.length ≤ pos)
    (nodup : l.Nodup) {x : α} (mem : x ∈ l) : seen.count x = 1 := by
  rw [upTo.front, List.take_of_length_le atEnd]
  exact List.count_eq_one_of_mem nodup mem

end SeenUpTo

end Flyos
