import Mathlib.Data.List.Nodup
import Mathlib.Data.List.Range
import Mathlib.Logic.Function.Basic

/-!
# The first slots of an array

An array of which the first `n` slots are used holds a list (`slots`).  A value is found by a
scan (`slotOf`), and taken out by moving those behind it one slot to the front (`closeGap`),
which erases it from the list (`slots_closeGap`).
-/

variable {α : Type*} {a : Nat → α} {n i j : Nat} {v : α}

/-- The first `n` slots. -/
def slots (a : Nat → α) (n : Nat) : List α := (List.range n).map a

/-- The first slot that holds a value. -/
def slotOf [DecidableEq α] (a : Nat → α) (n : Nat) (v : α) : Option Nat :=
  (List.range n).find? fun i => a i = v

/-- The slots behind `i`, up to `n`, moved to the front by one. -/
def closeGap (a : Nat → α) (i n : Nat) : Nat → α :=
  (List.range' i (n - 1 - i)).foldl (fun a j => Function.update a j (a (j + 1))) a

@[simp] theorem length_slots (a : Nat → α) (n : Nat) : (slots a n).length = n := by
  rw [slots, List.length_map, List.length_range]

theorem getElem_slots (inside : i < (slots a n).length) : (slots a n)[i] = a i := by
  simp only [slots, List.getElem_map, List.getElem_range]

theorem mem_slots : v ∈ slots a n ↔ ∃ i < n, a i = v := by
  simp only [slots, List.mem_map, List.mem_range]

/-- A value behind the last slot. -/
theorem slots_push (a : Nat → α) (n : Nat) (v : α) :
    slots (Function.update a n v) (n + 1) = slots a n ++ [v] := by
  have before : (List.range n).map (Function.update a n v) = (List.range n).map a :=
    List.map_congr_left fun i inside =>
      Function.update_of_ne (Nat.ne_of_lt (List.mem_range.mp inside)) v a
  rw [slots, List.range_succ, List.map_append, before, List.map_singleton, Function.update_self]
  rfl

/-- The value that a scan finds. -/
theorem slotOf_some [DecidableEq α] (found : slotOf a n v = some i) : i < n ∧ a i = v := by
  have holds := List.find?_some found
  have inside := List.mem_of_find?_eq_some found
  exact ⟨List.mem_range.mp inside, of_decide_eq_true holds⟩

/-- A scan that finds nothing. -/
theorem slotOf_none [DecidableEq α] : slotOf a n v = none ↔ v ∉ slots a n := by
  rw [slotOf, List.find?_eq_none, mem_slots]
  simp only [List.mem_range, decide_eq_true_eq]
  exact ⟨fun none ⟨i, inside, holds⟩ => none i inside holds,
    fun none i inside holds => none ⟨i, inside, holds⟩⟩

/-- The slots after the gap is closed. -/
theorem closeGap_apply (a : Nat → α) (i n j : Nat) :
    closeGap a i n j = if i ≤ j ∧ j + 1 < n then a (j + 1) else a j := by
  have moved : ∀ (k i : Nat) (a : Nat → α),
      (List.range' i k).foldl (fun a j => Function.update a j (a (j + 1))) a j =
        if i ≤ j ∧ j < i + k then a (j + 1) else a j := by
    intro k
    induction k with
    | zero => exact fun i a => (if_neg (by omega)).symm
    | succ k ih =>
        intro i a
        rw [List.range'_succ, List.foldl_cons, ih]
        rcases Nat.lt_trichotomy j i with before | here | behind
        · rw [if_neg (by omega), if_neg (by omega), Function.update_of_ne (by omega)]
        · rw [if_neg (by omega), if_pos (by omega), here, Function.update_self]
        · rw [Function.update_of_ne (by omega), Function.update_of_ne (by omega)]
          exact if_congr (by omega) rfl rfl
  rw [closeGap, moved]
  exact if_congr (by omega) rfl rfl

/-- **Closing the gap takes the value out.** -/
theorem slots_closeGap (a : Nat → α) (inside : i < n) :
    slots (closeGap a i n) (n - 1) = (slots a n).eraseIdx i := by
  refine List.ext_getElem ?_ fun j left right => ?_
  · rw [length_slots, List.length_eraseIdx, length_slots, if_pos inside]
  · rw [length_slots] at left
    rw [getElem_slots, closeGap_apply, List.getElem_eraseIdx]
    by_cases before : j < i
    · rw [if_neg (by omega), dif_pos before, getElem_slots]
    · rw [if_pos (by omega), dif_neg before, getElem_slots]

/-- A value that a scan finds is taken out by closing its gap. -/
theorem slots_closeGap_slotOf [DecidableEq α] (distinct : (slots a n).Nodup)
    (found : slotOf a n v = some i) :
    slots (closeGap a i n) (n - 1) = (slots a n).erase v := by
  obtain ⟨inside, rfl⟩ := slotOf_some found
  have there : i < (slots a n).length := (length_slots a n).symm ▸ inside
  have first := distinct.idxOf_getElem i there
  rw [getElem_slots] at first
  rw [slots_closeGap a inside, List.erase_eq_eraseIdx_of_idxOf first]
