import Flyos.Fs.Ramfs
import Flyos.Mm.HeapClient

/-!
# Allocators

The file system is modelled over any `Allocator`.  The kernel heap is one
(`kernelAllocator`): its states are those in which the heap invariant holds, a pointer
is live while it is held, and the laws are what `kmalloc` and `kfree` are proved to do.

`countingAllocator` is a small one that is easy to run by hand: it counts up and
never hands out an address twice.
-/

namespace Flyos

open Heap

/-- A state of the kernel heap. -/
abbrev KernelHeap : Type := { s : HeapState // ∃ l, HeapInv s l }

/-- `kmalloc` on such a state. -/
def heapMalloc (s : HeapState) (n : Nat) : Nat × HeapState :=
  ((kmalloc s.mem n).map fun r => (r.1, s.returned r.1 r.2)).getD (0, s)

/-- `kfree` of a held pointer. -/
def heapFree (s : HeapState) (p : Nat) : HeapState :=
  if p ∈ s.outstanding then (heapExec s (.kfree p)).getD s else s

/-- A held pointer is an address of the heap. -/
theorem HeapInv.pointer {s : HeapState} {l : List Seg} (inv : HeapInv s l) {p : Nat}
    (held : p ∈ s.outstanding) : heapStart + headerSize ≤ p ∧ p < heapEnd := by
  obtain ⟨n, used⟩ := (inv.used p).mp held
  have range := used.range
  have large := used.large inv.holds.tidy.sized
  have total := inv.holds.tidy.full
  simp only [headerSize] at *
  omega

/-- What `kmalloc` does to the held pointers. -/
theorem heapMalloc_spec {s : HeapState} {l : List Seg} (inv : HeapInv s l) (n : Nat) :
    (∃ l', HeapInv (heapMalloc s n).2 l') ∧ (heapMalloc s n).1 ∉ s.outstanding ∧
      (∀ p, p ∈ (heapMalloc s n).2.outstanding ↔
        ((heapMalloc s n).1 ≠ 0 ∧ p = (heapMalloc s n).1) ∨ p ∈ s.outstanding) ∧
      ((heapMalloc s n).1 ≠ 0 → n ≤ 2 ^ 63 → n ≤ heapSize) := by
  rcases inv.alloc n with null | ⟨p, m, k, ran, nonnull, -, fits, inside, result⟩
  · have eq : heapMalloc s n = (0, s) := by simp [heapMalloc, null, HeapState.returned]
    rw [eq]
    refine ⟨⟨l, inv⟩, fun held => inv.ne_zero held rfl, fun p => ?_, fun ne => absurd rfl ne⟩
    simp
  · obtain ⟨⟨l', inv'⟩, -⟩ := result m fun _ _ => rfl
    have eq : heapMalloc s n = (p, s.returned p m) := by simp [heapMalloc, ran]
    have held : (s.returned p m).outstanding = p :: s.outstanding := if_neg nonnull
    rw [eq]
    refine ⟨⟨l', inv'⟩, fun old => ?_, fun q => ?_, fun _ le => ?_⟩
    · have nodup := inv'.nodup
      rw [held] at nodup
      exact (List.nodup_cons.mp nodup).1 old
    · rw [held, List.mem_cons]
      simp [nonnull]
    · have room := le_need (by omega : n < 2 ^ 64 - 47)
      have start := (inv'.pointer (p := p) (by rw [held]; simp)).1
      simp only [headerSize, heapStart, heapEnd, heapSize, heapPages, pageSize] at *
      omega

/-- What `kfree` does to the held pointers. -/
theorem heapFree_spec {s : HeapState} {l : List Seg} (inv : HeapInv s l) (p : Nat) :
    (∃ l', HeapInv (heapFree s p) l') ∧
      (p ∈ s.outstanding → ∀ q, q ∈ (heapFree s p).outstanding ↔ q ∈ s.outstanding ∧ q ≠ p) := by
  unfold heapFree
  by_cases held : p ∈ s.outstanding
  · rw [if_pos held]
    obtain ⟨t, ran, inv', -⟩ := heapExec_inv inv (.kfree p) (.inr held) trivial
    rw [ran, Option.getD_some]
    refine ⟨inv', fun _ q => ?_⟩
    obtain ⟨m, -, rfl⟩ := Option.map_eq_some_iff.mp ran
    change q ∈ s.outstanding.erase p ↔ _
    rw [inv.nodup.mem_erase_iff, and_comm]
  · rw [if_neg held]
    exact ⟨⟨l, inv⟩, fun mem => absurd mem held⟩

/-- **The kernel heap is an allocator.** -/
def kernelAllocator : Allocator KernelHeap where
  malloc h n := ((heapMalloc h.1 n).1, ⟨(heapMalloc h.1 n).2,
    h.2.elim fun _ inv => (heapMalloc_spec inv n).1⟩)
  free h p := ⟨heapFree h.1 p, h.2.elim fun _ inv => (heapFree_spec inv p).1⟩
  live h p := p ∈ h.1.outstanding
  junk h n := (List.range n).map fun i => (heapMalloc h.1 n).2.mem ((heapMalloc h.1 n).1 + i)
  junk_length h n := by simp
  pointer := fun {h p} held => by
    obtain ⟨l, inv⟩ := h.2
    have range := inv.pointer held
    simp only [heapStart, heapEnd, heapSize, heapPages, pageSize] at range
    omega
  malloc_fresh := fun {h n} => h.2.elim fun _ inv => (heapMalloc_spec inv n).2.1
  malloc_live := fun {h n p} => h.2.elim fun _ inv => (heapMalloc_spec inv n).2.2.1 p
  malloc_size := fun {h n} => h.2.elim fun _ inv => (heapMalloc_spec inv n).2.2.2
  free_live := fun {h p q} held => h.2.elim fun _ inv => (heapFree_spec inv p).2 held q

/-! ## Counting up -/

/-- The next address, and those handed out and not freed. -/
structure CountingHeap where
  next : Nat
  held : List Nat
  below : ∀ p ∈ held, 0 < p ∧ p < next
  bound : next ≤ 2 ^ 64

/-- A heap in which nothing is held. -/
def CountingHeap.empty : CountingHeap := ⟨1, [], by simp, by decide⟩

/-- The next address, if there is one. -/
def CountingHeap.malloc (h : CountingHeap) (n : Nat) : Nat × CountingHeap :=
  if room : n ≤ heapSize ∧ 0 < h.next ∧ h.next + 1 ≤ 2 ^ 64 then
    (h.next, ⟨h.next + 1, h.next :: h.held, fun p mem => by
      rcases List.mem_cons.mp mem with rfl | mem
      · exact ⟨room.2.1, by omega⟩
      · have old := h.below p mem
        omega, room.2.2⟩)
  else (0, h)

/-- An address that is held no more. -/
def CountingHeap.free (h : CountingHeap) (p : Nat) : CountingHeap :=
  ⟨h.next, h.held.filter (· ≠ p), fun q mem => h.below q (List.mem_filter.mp mem).1, h.bound⟩

/-- **Counting up is an allocator.** -/
def countingAllocator : Allocator CountingHeap where
  malloc := CountingHeap.malloc
  free := CountingHeap.free
  live h p := p ∈ h.held
  junk _ n := List.replicate n 0
  junk_length _ n := List.length_replicate
  pointer := fun {h p} held => by
    have range := h.below p held
    have bound := h.bound
    omega
  malloc_fresh := fun {h n} held => by
    have range := h.below _ held
    unfold CountingHeap.malloc at range
    split at range
    · exact absurd range.2 (Nat.lt_irrefl _)
    · exact absurd range.1 (Nat.lt_irrefl _)
  malloc_live := fun {h n p} => by
    unfold CountingHeap.malloc
    split
    case isTrue room => simp [Nat.pos_iff_ne_zero.mp room.2.1]
    case isFalse => simp
  malloc_size := fun {h n} nonnull _ => by
    unfold CountingHeap.malloc at nonnull
    split at nonnull
    case isTrue room => exact room.1
    case isFalse => exact absurd rfl nonnull
  free_live := fun {h p q} _ => by simp [CountingHeap.free]

end Flyos
