import Flyos.Lib.ByteMemory
import Mathlib.Logic.Function.Basic

/-!
# Moving bytes

`memmove` of `user/lib/string.c`.  Source and destination may overlap: the direction of the copy
is such that a byte is read before it is written over.
-/

namespace Flyos

open ByteMemory

/-- `d[i] = s[i]`. -/
def moveByte (d s : Nat) (m : ByteMemory) (i : Nat) : ByteMemory :=
  Function.update m (d + i) (m (s + i))

/-- The loop that counts up. -/
def moveUp (d s n : Nat) (m : ByteMemory) : ByteMemory := (List.range n).foldl (moveByte d s) m

/-- The loop that counts down. -/
def moveDown (d s n : Nat) (m : ByteMemory) : ByteMemory :=
  (List.range n).reverse.foldl (moveByte d s) m

/-- `memmove`: what it returns, and the memory afterwards. -/
def memmove (dst src n : Nat) (m : ByteMemory) : Nat × ByteMemory :=
  if dst < src then (dst, moveUp dst src n m)
  else if src < dst then (dst, moveDown dst src n m)
  else (dst, m)

variable {d s : Nat} {m : ByteMemory}

/-- A byte moved, byte by byte. -/
theorem moveByte_apply (d s : Nat) (m : ByteMemory) (i x : Nat) :
    moveByte d s m i x = if x = d + i then m (s + i) else m x := Function.update_apply ..

/-- **Counting up**: what is read from then on lies behind what was written. -/
theorem moveUp_eq (below : d < s) (n : Nat) : moveUp d s n m = m.blit d n (m.window s) := by
  induction n with
  | zero =>
      funext x
      exact (blit_of_notMem m _ (by omega)).symm
  | succ n ih =>
      have step : moveUp d s (n + 1) m = moveByte d s (moveUp d s n m) n := by
        rw [moveUp, List.range_succ, List.foldl_append]
        rfl
      funext x
      rw [step, ih, moveByte_apply, blit_of_notMem m _ (by omega : s + n < d ∨ d + n ≤ s + n)]
      by_cases last : x = d + n
      · rw [if_pos last, blit_of_mem m _ (by omega) (by omega), window_apply, last,
          Nat.add_sub_cancel_left]
      · rw [if_neg last, blit_apply, blit_apply]
        exact if_congr (by omega) rfl rfl

/-- **Counting down**: what is read from then on lies before what was written. -/
theorem moveDown_eq (above : s < d) (n : Nat) : moveDown d s n m = m.blit d n (m.window s) := by
  induction n generalizing m with
  | zero =>
      funext x
      exact (blit_of_notMem m _ (by omega)).symm
  | succ n ih =>
      have step : moveDown d s (n + 1) m = moveDown d s n (moveByte d s m n) := by
        rw [moveDown, List.range_succ, List.reverse_append]
        rfl
      funext x
      rw [step, ih, blit_apply, blit_apply, window_apply, window_apply, moveByte_apply,
        moveByte_apply]
      by_cases inside : d ≤ x ∧ x < d + n
      · rw [if_pos inside, if_neg (by omega), if_pos (by omega)]
      · rw [if_neg inside]
        by_cases last : x = d + n
        · rw [if_pos last, if_pos (by omega), last, Nat.add_sub_cancel_left]
        · rw [if_neg last, if_neg (by omega)]

/-- The memory after `memmove`. -/
theorem memmove_eq (dst src n : Nat) (m : ByteMemory) :
    memmove dst src n m = (dst, m.blit dst n (m.window src)) := by
  unfold memmove
  split
  · rename_i below
    rw [moveUp_eq below]
  split
  · rename_i above
    rw [moveDown_eq above]
  · rename_i other same
    obtain rfl : dst = src := by omega
    refine congrArg (Prod.mk dst) (funext fun x => ?_)
    by_cases inside : dst ≤ x ∧ x < dst + n
    · rw [blit_of_mem m _ inside.1 inside.2, window_apply, Nat.add_sub_cancel' inside.1]
    · rw [blit_of_notMem m _ (by omega)]

/-- **Overlapping moves**: the destination has the bytes that the source had, and no other byte
has changed.  The loop runs upwards or downwards by comparing the two addresses, and in each
direction no byte is read after it has been written; both loops are one copy of the block
(`memmove_eq`). -/
theorem memmove_moves (dst src n : Nat) (m : ByteMemory) :
    (∀ i < n, (memmove dst src n m).2 (dst + i) = m (src + i)) ∧
      ∀ x, x < dst ∨ dst + n ≤ x → (memmove dst src n m).2 x = m x := by
  rw [memmove_eq]
  refine ⟨fun i inside => ?_, fun x outside => blit_of_notMem m _ outside⟩
  exact (blit_of_mem m _ (by omega) (by omega)).trans
    (congrArg (fun j => m (src + j)) (Nat.add_sub_cancel_left ..))

end Flyos
