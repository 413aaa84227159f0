import Flyos.Mm.Heap
import Mathlib.Data.List.Induction

/-!
# The allocator of user programs

`malloc` of `user/lib/stdlib.c`: it hands out the bytes of a static array one after the other,
and `free` does nothing.  A pointer is its offset in the array.

Both sums of `malloc` are 64-bit.  `mallocSound_iff` says which requests keep them from
wrapping, and that the ranges handed out are disjoint exactly for those.
-/

namespace Flyos

/-- `HEAP_SIZE`. -/
abbrev userHeapSize : Nat := 64 * 1024

/-- `malloc`: the pointer, or nothing for 0, and `heap_top` after the call. -/
def malloc (heapTop : Nat) (n : UInt64) : Option Nat × Nat :=
  let n := align16 n.toNat
  if userHeapSize < (heapTop + n) % 2 ^ 64 then (none, heapTop)
  else (some heapTop, (heapTop + n) % 2 ^ 64)

/-- `heap_top`, and the ranges handed out so far: a pointer and the size asked for. -/
structure UserHeap where
  heapTop : Nat
  given : List (Nat × UInt64)

/-- The allocator at the start. -/
def UserHeap.start : UserHeap := ⟨0, []⟩

/-- A call of `malloc`. -/
def UserHeap.call (h : UserHeap) (n : UInt64) : UserHeap where
  heapTop := (malloc h.heapTop n).2
  given := match (malloc h.heapTop n).1 with
    | some p => h.given ++ [(p, n)]
    | none => h.given

/-- The allocator after some calls. -/
def userHeapAfter (requests : List UInt64) : UserHeap := requests.foldl UserHeap.call .start

/-- Two ranges have no byte in common. -/
def RangesApart (r s : Nat × UInt64) : Prop :=
  ∀ x, ¬ ((r.1 ≤ x ∧ x < r.1 + r.2.toNat) ∧ s.1 ≤ x ∧ x < s.1 + s.2.toNat)

/-- **What a call of `malloc` is to do**: keep or raise `heap_top`, and hand out bytes of the array
that are apart from all that were handed out. -/
def UserHeap.CallSound (h : UserHeap) (n : UInt64) : Prop :=
  h.heapTop ≤ (malloc h.heapTop n).2 ∧ ∀ p, (malloc h.heapTop n).1 = some p →
    p + n.toNat ≤ userHeapSize ∧ ∀ r ∈ h.given, RangesApart (p, n) r

/-- **`malloc` never overlaps**: every call of a sequence does what it is to do. -/
def MallocSound (requests : List UInt64) : Prop :=
  ∀ before n after, requests = before ++ n :: after → (userHeapAfter before).CallSound n

/-- A request for which no sum wraps. -/
def UserHeap.NoWrap (h : UserHeap) (n : UInt64) : Prop := h.heapTop + n.toNat + 15 < 2 ^ 64

/-! ## One call -/

variable {h : UserHeap} {n : UInt64} {requests : List UInt64}

/-- `heap_top` is in the array, a multiple of 16. -/
def UserHeap.Aligned (h : UserHeap) : Prop := h.heapTop ≤ userHeapSize ∧ h.heapTop % 16 = 0

/-- Every call keeps `heap_top` in the array. -/
theorem UserHeap.Aligned.call (aligned : h.Aligned) (n : UInt64) : (h.call n).Aligned := by
  obtain ⟨inside, multiple⟩ := aligned
  unfold UserHeap.Aligned UserHeap.call malloc align16
  dsimp only
  by_cases full : userHeapSize < (h.heapTop + (n.toNat + 15) % 2 ^ 64 / 16 * 16) % 2 ^ 64
  · rw [if_pos full]
    exact ⟨inside, multiple⟩
  · rw [if_neg full]
    dsimp only
    omega

/-- **`malloc` without the wrapping.** -/
theorem malloc_eq (noWrap : h.NoWrap n) :
    malloc h.heapTop n =
      if userHeapSize < h.heapTop + (n.toNat + 15) / 16 * 16 then (none, h.heapTop)
      else (some h.heapTop, h.heapTop + (n.toNat + 15) / 16 * 16) := by
  unfold UserHeap.NoWrap at noWrap
  have round : align16 n.toNat = (n.toNat + 15) / 16 * 16 := by
    rw [align16, Nat.mod_eq_of_lt (by omega)]
  rw [malloc, round, Nat.mod_eq_of_lt (by omega)]

/-- **A wrapping request is granted**, with a size no array has. -/
theorem malloc_wrapped (aligned : h.Aligned) (wraps : ¬ h.NoWrap n) :
    (malloc h.heapTop n).1 = some h.heapTop ∧ userHeapSize < h.heapTop + n.toNat := by
  obtain ⟨inside, multiple⟩ := aligned
  have large := n.toNat_lt
  unfold UserHeap.NoWrap at wraps
  unfold malloc align16 userHeapSize at *
  refine ⟨?_, by omega⟩
  rw [if_neg (by omega)]

/-! ## A sequence of calls -/

/-- The ranges handed out lie below `heap_top`, which is in the array. -/
structure UserHeap.Inv (h : UserHeap) : Prop where
  inside : h.heapTop ≤ userHeapSize
  below : ∀ r ∈ h.given, r.1 + r.2.toNat ≤ h.heapTop

/-- The start. -/
theorem userHeap_inv_start : UserHeap.start.Inv := ⟨Nat.zero_le _, fun _ none => by cases none⟩

/-- **A call that does not wrap does what it is to do**, and keeps the invariant. -/
theorem UserHeap.Inv.call (inv : h.Inv) (noWrap : h.NoWrap n) : h.CallSound n ∧ (h.call n).Inv := by
  obtain ⟨inside, below⟩ := inv
  have round : n.toNat ≤ (n.toNat + 15) / 16 * 16 := by omega
  unfold UserHeap.CallSound UserHeap.call
  rw [malloc_eq noWrap]
  split
  · exact ⟨⟨Nat.le_refl _, fun p none => by cases none⟩, inside, below⟩
  · rename_i fits
    refine ⟨⟨Nat.le_add_right _ _, ?_⟩, Nat.not_lt.mp fits, fun r mem => ?_⟩
    · rintro p ⟨⟩
      refine ⟨by omega, fun r mem x both => ?_⟩
      have low := below r mem
      dsimp only at both
      omega
    · dsimp only
      rcases List.mem_append.mp mem with mem | mem
      · exact Nat.le_add_right_of_le (below r mem)
      · obtain rfl := List.mem_singleton.mp mem
        exact Nat.add_le_add_left round h.heapTop

/-- One request more. -/
theorem userHeapAfter_append (requests : List UInt64) (n : UInt64) :
    userHeapAfter (requests ++ [n]) = (userHeapAfter requests).call n := by
  rw [userHeapAfter, List.foldl_append]
  rfl

/-- `heap_top` is in the array after any calls. -/
theorem aligned_userHeapAfter (requests : List UInt64) : (userHeapAfter requests).Aligned := by
  induction requests using List.reverseRecOn with
  | nil => exact ⟨Nat.zero_le _, rfl⟩
  | append_singleton requests n ih =>
      rw [userHeapAfter_append]
      exact ih.call n

/-- While no request wraps the invariant holds. -/
theorem inv_userHeapAfter (noWrap : ∀ before n after, requests = before ++ n :: after →
    (userHeapAfter before).NoWrap n) : (userHeapAfter requests).Inv := by
  induction requests using List.reverseRecOn with
  | nil => exact userHeap_inv_start
  | append_singleton requests n ih =>
      rw [userHeapAfter_append]
      refine ((ih fun before m after eq => ?_).call (noWrap requests n [] rfl)).2
      refine noWrap before m (after ++ [n]) ?_
      rw [eq, List.append_assoc, List.cons_append]

/-- **When `malloc` never overlaps**: exactly if no request `n` is made with `heap_top + n + 15 ≥
2 ^ 64`.  The pointer is rounded and added to in 64 bits and compared with the end of the heap
afterwards, so only a sum that wraps passes the test by mistake.  The condition is on the pointer
before each call, and below it an invariant keeps the blocks apart (`UserHeap.Inv`). -/
theorem mallocSound_iff (requests : List UInt64) :
    MallocSound requests ↔ ∀ before n after, requests = before ++ n :: after →
      (userHeapAfter before).NoWrap n := by
  constructor
  · intro sound before n after eq
    by_contra wraps
    obtain ⟨granted, outside⟩ := malloc_wrapped (aligned_userHeapAfter before) wraps
    have inside := ((sound before n after eq).2 _ granted).1
    omega
  · rintro noWrap before n after rfl
    have inv : (userHeapAfter before).Inv := inv_userHeapAfter fun first m rest eq =>
      noWrap first m (rest ++ n :: after) (by rw [eq, List.append_assoc, List.cons_append])
    exact (inv.call (noWrap before n after rfl)).1

/-- **The second request wraps**: it is granted bytes outside of the array, and `heap_top` is 0
again. -/
theorem malloc_overlaps : ¬ MallocSound [16, 0xFFFFFFFFFFFFFFF0] := by
  intro sound
  have lowered := (sound [16] 0xFFFFFFFFFFFFFFF0 [] rfl).1
  exact absurd lowered (by decide)

end Flyos
