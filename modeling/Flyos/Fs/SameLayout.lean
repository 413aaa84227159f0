import Flyos.Fs.Alike
import Flyos.Fs.Allocators
import Flyos.Mm.HeapUndo

/-!
# The heap answers by its blocks

`kmalloc` and `kfree` look at the headers of blocks, never at what a block holds.  So two
states of the kernel heap with one layout (`SameLayout`) answer alike: the next pointer is the
same, whatever lies in the block behind it (`kernelAllocator_alike`).
-/

namespace Flyos

open Heap

/-- **One layout**: the same blocks in both states, and the same pointers held. -/
def SameLayout (h k : KernelHeap) : Prop :=
  k.1.outstanding = h.1.outstanding ∧ ∃ l, HeapInv h.1 l ∧ HeapInv k.1 l

section Blocks

variable {s : HeapState} {l l' : List Seg} {n o : Nat}

/-- `kmalloc` takes the block that the layout has for it. -/
theorem HeapInv.heapMalloc_some (inv : HeapInv s l) (positive : n ≠ 0)
    (placed : place (need n) l = some (o, l')) :
    (heapMalloc s n).1 = heapStart + o + headerSize ∧
      (heapMalloc s n).2.outstanding = (heapStart + o + headerSize) :: s.outstanding ∧
      HeapInv (heapMalloc s n).2 l' := by
  obtain ⟨m, -, ran, taken, -⟩ := inv.take positive placed
  have eval : heapMalloc s n =
      (heapStart + o + headerSize, s.returned (heapStart + o + headerSize) m) := by
    simp [heapMalloc, ran]
  have nonnull : heapStart + o + headerSize ≠ 0 := by simp only [heapStart]; omega
  rw [eval]
  exact ⟨rfl, by simp only [HeapState.returned, if_neg nonnull], taken⟩

/-- Without such a block it changes nothing. -/
theorem HeapInv.heapMalloc_none (inv : HeapInv s l) (nowhere : n = 0 ∨ place (need n) l = none) :
    heapMalloc s n = (0, s) := by
  have ran : kmalloc s.mem n = some (0, s.mem) := by
    by_cases zero : n = 0
    · rw [kmalloc, if_pos zero]
    · exact inv.take_none zero (nowhere.resolve_left zero)
  simp [heapMalloc, ran, HeapState.returned]

/-- `kmalloc` looks at the layout only. -/
theorem SameLayout.heapMalloc {h k : KernelHeap} (same : SameLayout h k) (n : Nat) :
    (heapMalloc k.1 n).1 = (heapMalloc h.1 n).1 ∧
      (heapMalloc k.1 n).2.outstanding = (heapMalloc h.1 n).2.outstanding ∧
      ∃ l, HeapInv (heapMalloc h.1 n).2 l ∧ HeapInv (heapMalloc k.1 n).2 l := by
  obtain ⟨held, l, inv, inv'⟩ := same
  by_cases zero : n = 0
  · rw [inv.heapMalloc_none (.inl zero), inv'.heapMalloc_none (.inl zero)]
    exact ⟨rfl, held, l, inv, inv'⟩
  cases placed : place (need n) l with
  | none =>
      rw [inv.heapMalloc_none (.inr placed), inv'.heapMalloc_none (.inr placed)]
      exact ⟨rfl, held, l, inv, inv'⟩
  | some r =>
      obtain ⟨at_, out, taken⟩ := inv.heapMalloc_some zero placed
      obtain ⟨at_', out', taken'⟩ := inv'.heapMalloc_some zero placed
      exact ⟨at_'.trans at_.symm, by rw [out, out', held], r.2, taken, taken'⟩

/-- `kfree` of a held pointer: its block is free, and the others stay. -/
theorem HeapInv.free (inv : HeapInv s l) {p : Nat}
    (held : p ∈ s.outstanding) :
    ∃ m l', Flyos.heapFree s p = { s with mem := m, outstanding := s.outstanding.erase p } ∧
      HeapInv { s with mem := m, outstanding := s.outstanding.erase p } l' ∧
      ∀ q n, IsUsed heapStart l' q n ↔ IsUsed heapStart l q n ∧ q ≠ p := by
  obtain ⟨n, used⟩ := (inv.used p).mp held
  obtain ⟨m, l', ran, holds, left, -⟩ := kfree_spec inv.holds used
  refine ⟨m, l', ?_, ⟨holds, inv.running, inv.nodup.erase p, fun q => ?_⟩, left⟩
  · simp only [Flyos.heapFree, if_pos held, heapExec, ran, Option.map_some, Option.getD_some]
  · simp only [inv.nodup.mem_erase_iff, inv.used, left, exists_and_right]
    exact and_comm

/-- `kfree` looks at the layout only.  What remains in use says which layout is left. -/
theorem SameLayout.heapFree {h k : KernelHeap} (same : SameLayout h k) (p : Nat) :
    (heapFree k.1 p).outstanding = (heapFree h.1 p).outstanding ∧
      ∃ l, HeapInv (heapFree h.1 p) l ∧ HeapInv (heapFree k.1 p) l := by
  obtain ⟨held, l, inv, inv'⟩ := same
  by_cases mine : p ∈ h.1.outstanding
  · obtain ⟨m, k₁, ran, freed, left⟩ := inv.free mine
    obtain ⟨m', k₂, ran', freed', left'⟩ := inv'.free (held ▸ mine)
    have alike : k₁ = k₂ := by
      refine layout_unique (a := heapStart) freed.holds.tidy.sized freed'.holds.tidy.sized
        freed.holds.tidy.noFreePair freed'.holds.tidy.noFreePair ?_ fun q n => ?_
      · have full := freed.holds.tidy.full
        have full' := freed'.holds.tidy.full
        omega
      · rw [left, left']
    subst alike
    rw [ran, ran']
    exact ⟨by dsimp only; rw [held], k₁, freed, freed'⟩
  · rw [Flyos.heapFree, Flyos.heapFree, if_neg mine, if_neg (held ▸ mine)]
    exact ⟨held, l, inv, inv'⟩

end Blocks

/-- **The kernel heap** answers alike in states with one layout. -/
theorem kernelAllocator_alike : AnswersAlike kernelAllocator kernelAllocator SameLayout where
  malloc := fun same n => ⟨(same.heapMalloc n).1, (same.heapMalloc n).2⟩
  free := fun same p => same.heapFree p

end Flyos
