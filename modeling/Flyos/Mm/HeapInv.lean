import Flyos.Mm.HeapLayout
import Mathlib.Data.List.Chain
import Mathlib.Data.List.Basic

/-!
# The invariant of the kernel heap

A heap is well laid out (`Tidy`) when its segments are sized, cover the heap
exactly and no two neighbours are both free.  `IsUsed a l p n` says that `p` is
what a client holds for a used segment of `n` bytes.

`place`, freeing one segment and `coalesce` keep a layout tidy, and change the
used segments by exactly the one that is taken (`isUsed_place`) or released
(`isUsed_release`); the others keep their address and their size.
-/

namespace Flyos.Heap

/-- No two neighbouring segments are both free. -/
def NoFreePair (l : List Seg) : Prop :=
  l.IsChain fun s t => ¬ (s.free = true ∧ t.free = true)

/-- A layout of the whole heap as `kmalloc` and `kfree` leave it. -/
structure Tidy (l : List Seg) : Prop where
  sized : Sized l
  full : heapStart + extent l = heapEnd
  noFreePair : NoFreePair l

/-- `p` is the payload address of a used block of `n` bytes in the layout `l` at `a`. -/
def IsUsed (a : Nat) (l : List Seg) (p n : Nat) : Prop :=
  ∃ b, (b, ⟨n, false⟩) ∈ blocks a l ∧ p = b + headerSize

theorem isUsed_cons {a p n : Nat} {s : Seg} {l : List Seg} :
    IsUsed a (s :: l) p n ↔
      (s = ⟨n, false⟩ ∧ p = a + headerSize) ∨ IsUsed (a + s.size) l p n := by
  simp only [IsUsed, blocks_cons, List.mem_cons, Prod.mk.injEq]
  constructor
  · rintro ⟨b, ⟨rfl, rfl⟩ | mem, rfl⟩
    · exact .inl ⟨rfl, rfl⟩
    · exact .inr ⟨b, mem, rfl⟩
  · rintro (⟨rfl, rfl⟩ | ⟨b, mem, rfl⟩)
    · exact ⟨a, .inl ⟨rfl, rfl⟩, rfl⟩
    · exact ⟨b, .inr mem, rfl⟩

/-- A used block lies within its layout. -/
theorem IsUsed.range {a p n : Nat} {l : List Seg} (h : IsUsed a l p n) :
    a + headerSize ≤ p ∧ p + n ≤ a + extent l + headerSize := by
  obtain ⟨b, hb, rfl⟩ := h
  have range := blocks_range hb
  simp only at range
  omega

/-- A used block has room for its header and 16 bytes. -/
theorem IsUsed.large {a p n : Nat} {l : List Seg} (h : IsUsed a l p n) (sized : Sized l) :
    headerSize + 16 ≤ n := by
  obtain ⟨b, hb, rfl⟩ := h
  exact (sized _ (mem_of_mem_blocks hb)).2

/-- The payload of a used block meets no header. -/
theorem IsUsed.not_header {a p n x : Nat} {l : List Seg} (h : IsUsed a l p n) (sized : Sized l)
    (lo : p ≤ x) (hi : x < p + (n - headerSize)) : ¬ Headers a l x := by
  have large := h.large sized
  obtain ⟨b, hb, rfl⟩ := h
  exact payload_not_header sized hb lo (by simp only; omega)

/-- The payloads of two used blocks are the same or apart. -/
theorem IsUsed.apart {a p q n k : Nat} {l : List Seg} (h : IsUsed a l p n)
    (h' : IsUsed a l q k) (sized : Sized l) (differ : p ≠ q) :
    p + (n - headerSize) ≤ q ∨ q + (k - headerSize) ≤ p := by
  have n_large := h.large sized
  have k_large := h'.large sized
  obtain ⟨b, hb, rfl⟩ := h
  obtain ⟨c, hc, rfl⟩ := h'
  rcases blocks_apart hb hc with eq | apart | apart
  · simp only [Prod.mk.injEq] at eq
    exact absurd (by rw [eq.1]) differ
  · simp only at apart; omega
  · simp only at apart; omega

/-! ## Taking a segment -/

theorem sized_carve {need : Nat} {s : Seg} (hs : s.size % 16 = 0 ∧ headerSize + 16 ≤ s.size)
    (aligned : need % 16 = 0) (large : headerSize + 16 ≤ need) : Sized (carve need s) := by
  unfold carve
  split
  · intro t ht
    simp only [List.mem_cons, List.not_mem_nil, or_false] at ht
    rcases ht with rfl | rfl
    · exact ⟨aligned, large⟩
    · exact ⟨by simp only; omega, by simp only [headerSize] at *; omega⟩
  · intro t ht
    simp only [List.mem_cons, List.not_mem_nil, or_false] at ht
    subst ht
    exact hs

/-- The block `carve` hands out comes first and is used, anything behind it is free. -/
theorem carve_eq (need : Nat) (s : Seg) (fits : need ≤ s.size) :
    ∃ n rest, carve need s = ⟨n, false⟩ :: rest ∧ need ≤ n ∧ n + extent rest = s.size ∧
      (rest = [] ∨ ∃ k, rest = [⟨k, true⟩]) := by
  unfold carve
  split
  · refine ⟨need, [⟨s.size - need, true⟩], rfl, le_rfl, ?_, .inr ⟨_, rfl⟩⟩
    simp only [extent_cons, extent_nil]
    omega
  · exact ⟨s.size, [], rfl, fits, by simp, .inl rfl⟩

theorem blocks_append (a : Nat) (l l' : List Seg) :
    blocks a (l ++ l') = blocks a l ++ blocks (a + extent l) l' := by
  induction l generalizing a with
  | nil => simp
  | cons s l ih => simp [ih, Nat.add_assoc]

theorem extent_append (l l' : List Seg) : extent (l ++ l') = extent l + extent l' := by
  induction l with
  | nil => simp
  | cons s l ih => simp [ih, Nat.add_assoc]

theorem isUsed_append {a p n : Nat} {l l' : List Seg} :
    IsUsed a (l ++ l') p n ↔ IsUsed a l p n ∨ IsUsed (a + extent l) l' p n := by
  simp only [IsUsed, blocks_append, List.mem_append, or_and_right, exists_or]

/-- What `place` does, as a split of the layout at the segment taken. -/
theorem place_some {need o : Nat} {l l' : List Seg} (h : place need l = some (o, l')) :
    ∃ pre s post, l = pre ++ s :: post ∧ s.free = true ∧ need ≤ s.size ∧
      (∀ t ∈ pre, ¬ (t.free = true ∧ need ≤ t.size)) ∧ o = extent pre ∧
      l' = pre ++ (carve need s ++ post) := by
  induction l generalizing o l' with
  | nil => simp [place] at h
  | cons s l ih =>
      by_cases take : s.free = true ∧ need ≤ s.size
      · simp only [place, if_pos take, Option.some.injEq, Prod.mk.injEq] at h
        obtain ⟨rfl, rfl⟩ := h
        exact ⟨[], s, l, rfl, take.1, take.2, by simp, rfl, rfl⟩
      · simp only [place, if_neg take, Option.map_eq_some_iff] at h
        obtain ⟨⟨o', l''⟩, found, h⟩ := h
        obtain ⟨pre, t, post, rfl, free, fits, first, rfl, rfl⟩ := ih found
        simp only [Prod.mk.injEq] at h
        obtain ⟨rfl, rfl⟩ := h
        refine ⟨s :: pre, t, post, rfl, free, fits, ?_, rfl, rfl⟩
        intro u hu
        rcases List.mem_cons.mp hu with rfl | hu
        · exact take
        · exact first u hu

/-- Nothing fits when `place` finds nothing. -/
theorem place_none {need : Nat} {l : List Seg} (h : place need l = none) :
    ∀ t ∈ l, ¬ (t.free = true ∧ need ≤ t.size) := by
  induction l with
  | nil => simp
  | cons s l ih =>
      by_cases take : s.free = true ∧ need ≤ s.size
      · simp [place, if_pos take] at h
      · simp only [place, if_neg take, Option.map_eq_none_iff] at h
        intro u hu
        rcases List.mem_cons.mp hu with rfl | hu
        · exact take
        · exact ih h u hu

/-- `kmalloc` keeps a layout tidy. -/
theorem Tidy.place {need o : Nat} {l l' : List Seg} (tidy : Tidy l)
    (h : Heap.place need l = some (o, l')) (aligned : need % 16 = 0)
    (large : headerSize + 16 ≤ need) : Tidy l' := by
  obtain ⟨pre, s, post, rfl, free, fits, -, -, rfl⟩ := place_some h
  obtain ⟨n, rest, cut, -, total, shape⟩ := carve_eq need s fits
  have carved : Sized (carve need s) := sized_carve (tidy.sized s (by simp)) aligned large
  refine ⟨fun t ht => ?_, ?_, ?_⟩
  · simp only [List.mem_append] at ht
    rcases ht with ht | ht | ht
    · exact tidy.sized t (by simp [ht])
    · exact carved t ht
    · exact tidy.sized t (by simp [ht])
  · have full := tidy.full
    simp only [extent_append, extent_cons, cut] at full ⊢
    omega
  · -- the used block separates; the remainder borders what `s`, being free, bordered
    have pairs := tidy.noFreePair
    unfold NoFreePair at pairs ⊢
    rw [List.isChain_split] at pairs
    rw [cut, List.cons_append, List.isChain_split]
    refine ⟨?_, ?_⟩
    · have before := pairs.1
      rw [List.isChain_append] at before ⊢
      exact ⟨before.1, .singleton _, by simp⟩
    · have after := pairs.2
      rcases shape with rfl | ⟨k, rfl⟩
      · cases post with
        | nil => exact .singleton _
        | cons t post => exact .cons_cons (by simp) (List.isChain_cons_cons.mp after).2
      · refine .cons_cons (by simp) ?_
        cases post with
        | nil => exact .singleton _
        | cons t post =>
            have := List.isChain_cons_cons.mp after
            exact .cons_cons (by simpa [free] using this.1) this.2

/-- `kmalloc` adds exactly the block it returns to the used ones, and it was not one. -/
theorem isUsed_place {need o a : Nat} {l l' : List Seg} (h : place need l = some (o, l'))
    (sized : Sized l) :
    ∃ k, need ≤ k ∧
      (∀ p n, IsUsed a l' p n ↔ (p = a + o + headerSize ∧ n = k) ∨ IsUsed a l p n) ∧
      ∀ n, ¬ IsUsed a l (a + o + headerSize) n := by
  obtain ⟨pre, s, post, rfl, free, fits, -, rfl, rfl⟩ := place_some h
  obtain ⟨k, rest, cut, large, total, shape⟩ := carve_eq need s fits
  refine ⟨k, large, fun p n => ?_, fun n => ?_⟩
  · have tail : IsUsed (a + extent pre + k) (rest ++ post) p n ↔
        IsUsed (a + extent pre + s.size) post p n := by
      rcases shape with rfl | ⟨r, rfl⟩
      · simp only [extent_nil, Nat.add_zero] at total
        rw [List.nil_append, total]
      · simp only [extent_cons, extent_nil, Nat.add_zero] at total
        rw [List.cons_append, List.nil_append, isUsed_cons, ← total]
        simp [Nat.add_assoc]
    have taken : s ≠ ⟨n, false⟩ := fun eq => by simp [eq] at free
    rw [isUsed_append, cut, List.cons_append, isUsed_cons, tail, isUsed_append, isUsed_cons]
    simp only [Seg.mk.injEq, and_true, taken, false_and, false_or, eq_comm (a := k)]
    tauto
  · have room := (sized s (by simp)).2
    rw [isUsed_append, isUsed_cons]
    rintro (used | ⟨rfl, -⟩ | used)
    · have large := used.large fun t ht => sized t (by simp [ht])
      have range := used.range
      omega
    · simp at free
    · have range := used.range
      omega

/-! ## Releasing a segment -/

/-- Freeing one segment of a layout. -/
theorem Rep.release {m : ByteMemory} {p a : Nat} {pre post : List Seg} {s : Seg}
    (rep : Rep m p a (pre ++ s :: post)) (sized : Sized (pre ++ s :: post)) :
    Rep (setIsFree m (a + extent pre) 1) p a (pre ++ ⟨s.size, true⟩ :: post) := by
  induction pre generalizing p a with
  | nil =>
      obtain ⟨hsize, -, hnext, hprev, rest⟩ := rep
      have room : 48 ≤ s.size := sized.head.2
      refine ⟨?_, ByteMemory.load_store_same m _ (by omega), ?_, ?_, ?_⟩
      · rw [← hsize]; exact ByteMemory.load_store_of_disjoint m 1 (by simp)
      · rw [extent_nil, Nat.add_zero, ← hnext]
        exact ByteMemory.load_store_of_disjoint m 1 (by omega)
      · rw [← hprev]; exact ByteMemory.load_store_of_disjoint m 1 (by simp)
      · exact rest.congr sized.tail fun x lo _ =>
          (ByteMemory.store_of_notMem m 1 (by simp only [extent_nil]; omega)).symm
  | cons t pre ih =>
      obtain ⟨hsize, hfree, hnext, hprev, rest⟩ := rep
      have room : 48 ≤ t.size := (sized t (by simp)).2
      have released := ih rest fun u hu => sized u (by
        rw [List.cons_append]; exact List.mem_cons_of_mem _ hu)
      rw [extent_cons, ← Nat.add_assoc]
      obtain ⟨f1, f2, f3, f4⟩ := header_congr (a := a) m
        (setIsFree m (a + t.size + extent pre) 1) fun x lo hi =>
          (ByteMemory.store_of_notMem m 1 (by simp only [headerSize] at hi; omega)).symm
      exact ⟨f1 ▸ hsize, f2 ▸ hfree, f3 ▸ hnext, f4 ▸ hprev, released⟩

/-- A used pointer splits the layout at its block. -/
theorem IsUsed.split {a p n : Nat} {l : List Seg} (h : IsUsed a l p n) :
    ∃ pre post, l = pre ++ ⟨n, false⟩ :: post ∧ p = a + extent pre + headerSize := by
  induction l generalizing a with
  | nil => simp [IsUsed] at h
  | cons s l ih =>
      rcases isUsed_cons.mp h with ⟨rfl, rfl⟩ | h
      · exact ⟨[], l, rfl, by simp⟩
      · obtain ⟨pre, post, rfl, rfl⟩ := ih h
        exact ⟨s :: pre, post, rfl, by simp [Nat.add_assoc]⟩

/-- Freeing a segment removes exactly its pointer from the used ones. -/
theorem isUsed_release {a p n k : Nat} {pre post : List Seg}
    (sized : Sized (pre ++ ⟨k, false⟩ :: post)) :
    IsUsed a (pre ++ ⟨k, true⟩ :: post) p n ↔
      IsUsed a (pre ++ ⟨k, false⟩ :: post) p n ∧ p ≠ a + extent pre + headerSize := by
  have room : 48 ≤ k := (sized ⟨k, false⟩ (by simp)).2
  simp only [isUsed_append, isUsed_cons, Seg.mk.injEq, Bool.true_eq_false, and_false, false_and,
    false_or, and_true]
  constructor
  · rintro (h | h)
    · refine ⟨.inl h, ?_⟩
      have range := h.range
      have large := h.large fun t ht => sized t (by simp [ht])
      omega
    · exact ⟨.inr (.inr h), by have := h.range; omega⟩
  · rintro ⟨h | ⟨-, rfl⟩ | h, differ⟩
    · exact .inl h
    · exact absurd rfl differ
    · exact .inr h

/-! ## Coalescing -/

/-- `coalesce` keeps the bytes covered. -/
theorem extent_coalesce (s : Seg) (l : List Seg) :
    extent (coalesce s l) = s.size + extent l := by
  induction l generalizing s with
  | nil => simp [coalesce]
  | cons t l ih =>
      rw [coalesce]
      split
      · rw [ih, extent_cons]
        simp only
        omega
      · rw [extent_cons, ih, extent_cons]

theorem sized_coalesce {s : Seg} {l : List Seg} (sized : Sized (s :: l)) :
    Sized (coalesce s l) := by
  induction l generalizing s with
  | nil => exact sized
  | cons t l ih =>
      have hs := sized.head
      have ht := sized.tail.head
      rw [coalesce]
      split
      · refine ih fun u hu => ?_
        rcases List.mem_cons.mp hu with rfl | hu
        · exact ⟨by simp only; omega, by simp only; omega⟩
        · exact sized u (by simp [hu])
      · intro u hu
        rcases List.mem_cons.mp hu with rfl | hu
        · exact hs
        · exact ih sized.tail u hu

/-- The first segment of the result is free exactly when the first segment was. -/
theorem coalesce_head (s : Seg) (l : List Seg) :
    ∃ n rest, coalesce s l = ⟨n, s.free⟩ :: rest := by
  induction l generalizing s with
  | nil => exact ⟨s.size, [], rfl⟩
  | cons t l ih =>
      rw [coalesce]
      split
      case isTrue both =>
        obtain ⟨n, rest, h⟩ := ih ⟨s.size + t.size, true⟩
        exact ⟨n, rest, by rw [h, both.1]⟩
      case isFalse => exact ⟨s.size, coalesce t l, rfl⟩

/-- After `merge_all` no two neighbours are free, whatever the layout was. -/
theorem noFreePair_coalesce (s : Seg) (l : List Seg) : NoFreePair (coalesce s l) := by
  induction l generalizing s with
  | nil => exact .singleton _
  | cons t l ih =>
      rw [coalesce]
      split
      case isTrue => exact ih _
      case isFalse apart =>
        obtain ⟨n, rest, h⟩ := coalesce_head t l
        have tail := ih t
        rw [h] at tail ⊢
        exact .cons_cons apart tail

/-- `merge_all` leaves the used blocks where they are. -/
theorem isUsed_coalesce {a p n : Nat} (s : Seg) (l : List Seg) :
    IsUsed a (coalesce s l) p n ↔ IsUsed a (s :: l) p n := by
  induction l generalizing a s with
  | nil => rfl
  | cons t l ih =>
      rw [coalesce]
      split
      case isTrue both =>
        have s_free : s ≠ ⟨n, false⟩ := fun eq => by simp [eq] at both
        have t_free : t ≠ ⟨n, false⟩ := fun eq => by simp [eq] at both
        rw [ih, isUsed_cons, isUsed_cons, isUsed_cons, ← Nat.add_assoc]
        simp [s_free, t_free]
      case isFalse => simp only [isUsed_cons, ih]

end Flyos.Heap
