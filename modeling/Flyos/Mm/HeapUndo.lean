import Flyos.Mm.HeapAgain

/-!
# Allocating and freeing again

A layout without two free neighbours is determined by its used blocks
(`Heap.layout_unique`).  So `kfree` of a block that `kmalloc` has just taken restores
the block list (`HeapInv.undo`).
-/

namespace Flyos

open Heap

variable {s : HeapState} {l l' : List Seg} {o size : Nat}

/-! ## Layouts and their used blocks -/

/-- The first segment of a layout is used when its header is that of a used block. -/
theorem Heap.used_head {a n : Nat} {t : Seg} (sized : Sized (t :: l))
    (used : IsUsed a (t :: l) (a + headerSize) n) : t = ⟨n, false⟩ := by
  rcases isUsed_cons.mp used with ⟨here, -⟩ | later
  · exact here
  · have range := later.range
    have large := sized.head.2
    omega

/-- **A layout is determined by its used blocks**, when no two free segments are neighbours. -/
theorem Heap.layout_unique {a : Nat} (sized : Sized l) (sized' : Sized l') (pairs : NoFreePair l)
    (pairs' : NoFreePair l') (full : extent l = extent l')
    (same : ∀ p n, IsUsed a l p n ↔ IsUsed a l' p n) : l = l' := by
  induction l generalizing a l' with
  | nil =>
      cases l' with
      | nil => rfl
      | cons t l' =>
          have large := sized'.head.2
          rw [extent_nil, extent_cons] at full
          omega
  | cons t l ih =>
      cases l' with
      | nil =>
          have large := sized.head.2
          rw [extent_nil, extent_cons] at full
          omega
      | cons t' l' =>
          have alike : t = t' := by
            cases free : t.free with
            | false =>
                have here : IsUsed a (t :: l) (a + headerSize) t.size :=
                  isUsed_cons.mpr (.inl ⟨by rw [← free], rfl⟩)
                have there := used_head sized' ((same _ _).mp here)
                rw [there, ← free]
            | true =>
                cases free' : t'.free with
                | false =>
                    have here : IsUsed a (t' :: l') (a + headerSize) t'.size :=
                      isUsed_cons.mpr (.inl ⟨by rw [← free'], rfl⟩)
                    have there := used_head sized ((same _ _).mpr here)
                    rw [there] at free
                    cases free
                | true =>
                    -- behind the shorter one a used block would begin inside the other
                    have behind : ∀ {u u' : Seg} {k k' : List Seg}, Sized (u :: k) → Sized (u' :: k') →
                        NoFreePair (u :: k) → u.free = true → u'.free = true →
                        extent (u :: k) = extent (u' :: k') →
                        (∀ p n, IsUsed a (u :: k) p n → IsUsed a (u' :: k') p n) →
                        u'.size ≤ u.size := by
                      intro u u' k k' sized sized' pairs free free' full sub
                      by_contra longer
                      cases k with
                      | nil =>
                          rw [extent_cons, extent_cons, extent_nil] at full
                          omega
                      | cons v k =>
                          have used : v.free = false := by
                            have apart := (List.isChain_cons_cons.mp pairs).1
                            simpa [free] using apart
                          have here : IsUsed a (u :: v :: k) (a + u.size + headerSize) v.size :=
                            isUsed_cons.mpr (.inr (isUsed_cons.mpr (.inl ⟨by rw [← used], rfl⟩)))
                          rcases isUsed_cons.mp (sub _ _ here) with ⟨eq, -⟩ | later
                          · rw [eq] at free'
                            cases free'
                          · have range := later.range
                            omega
                    have le := behind sized' sized pairs' free' free full.symm
                      fun p n used => (same p n).mpr used
                    have ge := behind sized sized' pairs free free' full
                      fun p n used => (same p n).mp used
                    obtain ⟨size, flag⟩ := t
                    obtain ⟨size', flag'⟩ := t'
                    dsimp only at le ge free free'
                    rw [free, free', Nat.le_antisymm le ge]
          subst alike
          have rest : l = l' := by
            refine ih (a := a + t.size) sized.tail sized'.tail pairs.of_cons pairs'.of_cons ?_
              fun p n => ?_
            · rw [extent_cons, extent_cons] at full
              omega
            · have behind : ∀ {k : List Seg}, IsUsed (a + t.size) k p n →
                  p ≠ a + headerSize := fun used eq => by
                have range := used.range
                have large := sized.head.2
                omega
              constructor
              · intro used
                exact (isUsed_cons.mp ((same p n).mp (isUsed_cons.mpr (.inr used)))).resolve_left
                  fun here => behind used here.2
              · intro used
                exact (isUsed_cons.mp ((same p n).mpr (isUsed_cons.mpr (.inr used)))).resolve_left
                  fun here => behind used here.2
          rw [rest]

/-! ## One block taken -/

/-- `kmalloc` of a placed block. -/
theorem HeapInv.take (inv : HeapInv s l) (positive : size ≠ 0)
    (placed : place (need size) l = some (o, l')) :
    ∃ m' k, kmalloc s.mem size = some (heapStart + o + headerSize, m') ∧
      HeapInv (s.returned (heapStart + o + headerSize) m') l' ∧
      heapStart + o + headerSize ∉ s.outstanding ∧ need size ≤ k ∧
      ∀ p n, IsUsed heapStart l' p n ↔
        (p = heapStart + o + headerSize ∧ n = k) ∨ IsUsed heapStart l p n := by
  have ran := inv.holds.kmalloc_place positive
  rw [placed] at ran
  obtain ⟨m', ran, holds'⟩ := ran
  obtain ⟨k, large, used, fresh⟩ := isUsed_place (a := heapStart) placed inv.holds.tidy.sized
  have nonnull : heapStart + o + headerSize ≠ 0 := by simp only [heapStart]; omega
  have unheld : heapStart + o + headerSize ∉ s.outstanding := fun held => by
    obtain ⟨n, old⟩ := (inv.used _).mp held
    exact fresh n old
  refine ⟨m', k, ran, ?_, unheld, large, used⟩
  rw [HeapState.returned, if_neg nonnull]
  refine ⟨holds', inv.running, List.nodup_cons.mpr ⟨unheld, inv.nodup⟩, fun q => ?_⟩
  simp only [List.mem_cons, inv.used, used, exists_or, exists_eq_right]

/-- `kmalloc` without a block that is large enough. -/
theorem HeapInv.take_none (inv : HeapInv s l) (positive : size ≠ 0)
    (nowhere : place (need size) l = none) : kmalloc s.mem size = some (0, s.mem) := by
  have ran := inv.holds.kmalloc_place positive
  rw [nowhere] at ran
  exact ran

/-- **Freeing a block that was just taken restores the heap**: the same pointers are held, and
the block list is as it was. -/
theorem HeapInv.undo (inv : HeapInv s l) (positive : size ≠ 0)
    (placed : place (need size) l = some (o, l')) {m' : ByteMemory}
    (ran : kmalloc s.mem size = some (heapStart + o + headerSize, m')) :
    ∃ m'', kfree m' (heapStart + o + headerSize) = some m'' ∧ HeapInv { s with mem := m'' } l := by
  obtain ⟨m₁, k, ran₁, inv', unheld, -, used⟩ := inv.take positive placed
  obtain rfl : m₁ = m' := (Prod.mk.inj (Option.some.inj (ran₁.symm.trans ran))).2
  have nonnull : heapStart + o + headerSize ≠ 0 := by simp only [heapStart]; omega
  have mine : IsUsed heapStart l' (heapStart + o + headerSize) k := (used _ _).mpr (.inl ⟨rfl, rfl⟩)
  have holds' : Holds m₁ l' := by
    have holds := inv'.holds
    rwa [HeapState.returned, if_neg nonnull] at holds
  obtain ⟨m'', l'', freed, holds'', left, -⟩ := kfree_spec holds' mine
  have restored : l'' = l := by
    refine layout_unique (a := heapStart) holds''.tidy.sized inv.holds.tidy.sized
      holds''.tidy.noFreePair inv.holds.tidy.noFreePair ?_ fun p n => ?_
    · have full := holds''.tidy.full
      have full' := inv.holds.tidy.full
      omega
    · rw [left, used]
      constructor
      · rintro ⟨⟨rfl, -⟩ | old, other⟩
        · exact absurd rfl other
        · exact old
      · intro old
        refine ⟨.inr old, ?_⟩
        rintro rfl
        exact unheld ((inv.used _).mpr ⟨n, old⟩)
  subst restored
  exact ⟨m'', freed, holds'', inv.running, inv.nodup, inv.used⟩

end Flyos
