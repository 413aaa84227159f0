import Mathlib.Data.List.Nodup
import Mathlib.Data.List.Flatten
import Mathlib.Logic.Function.Basic

/-!
# Data in a list of blocks

A device keeps blocks of `size` elements under indices.  `storeBlocks` writes a list of
elements into the blocks of a list of indices, the last block filled up, and `loadBlocks`
reads blocks one after the other; what was stored is what is read back
(`take_loadBlocks_storeBlocks`), and blocks that are not in the list stay.
-/

variable {ι β : Type*} {size : Nat} {fill : β}

/-- A block filled from the front of `src`. -/
def padTo (size : Nat) (fill : β) (src : List β) : List β :=
  src.take size ++ List.replicate (size - src.length) fill

@[simp] theorem length_padTo (src : List β) : (padTo size fill src).length = size := by
  rw [padTo, List.length_append, List.length_take, List.length_replicate]
  omega

/-- The blocks of `js`, one after the other. -/
def loadBlocks (m : ι → List β) (js : List ι) : List β := js.flatMap m

@[simp] theorem loadBlocks_nil (m : ι → List β) : loadBlocks m [] = [] := rfl

theorem loadBlocks_cons (m : ι → List β) (j : ι) (js : List ι) :
    loadBlocks m (j :: js) = m j ++ loadBlocks m js := List.flatMap_cons

theorem loadBlocks_append (m : ι → List β) (js ks : List ι) :
    loadBlocks m (js ++ ks) = loadBlocks m js ++ loadBlocks m ks := List.flatMap_append

/-- Only the blocks read matter. -/
theorem loadBlocks_congr {m m' : ι → List β} {js : List ι} (same : ∀ j ∈ js, m' j = m j) :
    loadBlocks m' js = loadBlocks m js := by
  induction js with
  | nil => rfl
  | cons j js ih =>
      rw [loadBlocks_cons, loadBlocks_cons, same j (by simp),
        ih fun k mem => same k (List.mem_cons_of_mem j mem)]

/-- Reading on behind what was cut to `n` elements gives the same first `n`. -/
theorem take_take_append (n : Nat) (l l' : List β) : (l.take n ++ l').take n = (l ++ l').take n := by
  rw [List.take_append, List.take_append, List.take_take, Nat.min_self, List.length_take]
  congr 2
  omega

variable [DecidableEq ι]

/-- The blocks with `src` written into those of the list, as long as elements remain. -/
def storeBlocks (size : Nat) (fill : β) (m : ι → List β) : List ι → List β → ι → List β
  | [], _ => m
  | j :: js, src =>
      if src.length = 0 then m
      else storeBlocks size fill (Function.update m j (padTo size fill src)) js (src.drop size)

/-- Nothing to write. -/
@[simp] theorem storeBlocks_empty (m : ι → List β) (js : List ι) :
    storeBlocks size fill m js [] = m := by
  cases js with
  | nil => rfl
  | cons j js => exact if_pos rfl

theorem storeBlocks_cons {m : ι → List β} {j : ι} {js : List ι} {src : List β} (more : src ≠ []) :
    storeBlocks size fill m (j :: js) src =
      storeBlocks size fill (Function.update m j (padTo size fill src)) js (src.drop size) :=
  if_neg fun empty => more (List.length_eq_zero_iff.mp empty)

/-- Blocks that are not in the list stay. -/
theorem storeBlocks_of_notMem {m : ι → List β} {js : List ι} {src : List β} {i : ι}
    (other : i ∉ js) : storeBlocks size fill m js src i = m i := by
  induction js generalizing m src with
  | nil => rfl
  | cons j js ih =>
      have apart : i ≠ j ∧ i ∉ js := by simpa using other
      by_cases done : src = []
      · rw [done, storeBlocks_empty]
      rw [storeBlocks_cons done, ih apart.2, Function.update_of_ne apart.1]

/-- Writing into two lists of blocks. -/
theorem storeBlocks_append (m : ι → List β) (js ks : List ι) (src : List β) :
    storeBlocks size fill m (js ++ ks) src =
      storeBlocks size fill (storeBlocks size fill m js src) ks (src.drop (size * js.length)) := by
  induction js generalizing m src with
  | nil => rw [List.nil_append, List.length_nil, Nat.mul_zero, List.drop_zero]; rfl
  | cons j js ih =>
      by_cases done : src = []
      · simp [done]
      rw [List.cons_append, storeBlocks_cons done, storeBlocks_cons done, ih, List.drop_drop,
        List.length_cons, Nat.mul_succ, Nat.add_comm]

/-- **What was stored is read back.** -/
theorem take_loadBlocks_storeBlocks {m : ι → List β} {js : List ι} {src : List β}
    (nodup : js.Nodup) (fits : src.length ≤ size * js.length) :
    (loadBlocks (storeBlocks size fill m js src) js).take src.length = src := by
  induction js generalizing m src with
  | nil =>
      obtain rfl : src = [] := List.length_eq_zero_iff.mp (by simpa using fits)
      rfl
  | cons j js ih =>
      obtain ⟨fresh, nodup'⟩ := List.nodup_cons.mp nodup
      by_cases done : src = []
      · simp [done]
      rw [storeBlocks_cons done, loadBlocks_cons, storeBlocks_of_notMem fresh, Function.update_self,
        List.take_append, length_padTo]
      rw [List.length_cons, Nat.mul_succ] at fits
      have rest : (loadBlocks (storeBlocks size fill (Function.update m j (padTo size fill src)) js
          (src.drop size)) js).take (src.drop size).length = src.drop size :=
        ih nodup' (by rw [List.length_drop]; omega)
      rw [List.length_drop] at rest
      rw [rest]
      by_cases short : src.length ≤ size
      · rw [List.drop_of_length_le short, List.append_nil, padTo, List.take_left' (by simp [short]),
          List.take_of_length_le short]
      · have whole : padTo size fill src = src.take size := by
          rw [padTo, show size - src.length = 0 by omega, List.replicate_zero, List.append_nil]
        rw [whole, List.take_of_length_le (by rw [List.length_take]; omega), List.take_append_drop]
