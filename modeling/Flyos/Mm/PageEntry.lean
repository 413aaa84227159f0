import Flyos.Mm.Vmm

/-!
# Page-table entries

The bit arithmetic of `vmm.c`, and what entries mean.  Masks are contiguous, so
masking is division and remainder (`and_mask`); flags are or-ed in below the
address, so every mask of an entry put together that way is computed part by
part (`Nat.and_or_distrib_right`).

`slot` says what an entry means at each of the four levels.  The lemmas at the
end give the slot of every entry the C code writes.
-/

namespace Flyos

/-- Masking with `n` ones at bit `a`. -/
theorem and_mask (x a n : Nat) : x &&& ((2 ^ n - 1) <<< a) = x / 2 ^ a % 2 ^ n * 2 ^ a := by
  rw [← Nat.and_two_pow_sub_one_eq_mod, ← Nat.shiftRight_eq_div_pow, ← Nat.shiftLeft_eq]
  refine Nat.eq_of_testBit_eq fun j => ?_
  simp only [Nat.testBit_and, Nat.testBit_shiftLeft, Nat.testBit_shiftRight]
  by_cases low : a ≤ j
  · simp [low]
  · simp [low]

/-- `x & ADDR_MASK`. -/
theorem and_addrMask (x : Nat) : x &&& addrMask = x / 4096 % 2 ^ 40 * 4096 := and_mask x 12 40

/-- An address in an entry is that of a page. -/
theorem addrMask_aligned (x : Nat) : (x &&& addrMask) / pageSize * pageSize = x &&& addrMask := by
  rw [and_addrMask, Nat.mul_div_cancel _ (by decide)]

/-- `x & ~0x1FFFFF`. -/
theorem and_hugeMask (x : Nat) : x &&& hugeMask = x / 2 ^ 21 % 2 ^ 43 * 2 ^ 21 := and_mask x 21 43

/-- `x & 0xFFF`. -/
theorem and_low12 (x : Nat) : x &&& 0xFFF = x % 4096 := Nat.and_two_pow_sub_one_eq_mod x 12

/-- What an entry of a table `d` levels below the PML4 means. -/
def slot (d e : Nat) : Slot Nat Nat :=
  if e &&& vmmPresent = 0 then .empty
  else if d = 2 then
    if e &&& vmmHuge ≠ 0 then .leaf (e &&& hugeMask) else .table (e &&& addrMask)
  else if d < 2 then .table (e &&& addrMask)
  else .leaf (e &&& addrMask)

@[simp] theorem slot_zero (d : Nat) : slot d 0 = .empty := rfl

/-- An entry that is not present is empty. -/
theorem slot_absent {d e : Nat} (absent : e &&& vmmPresent = 0) : slot d e = .empty :=
  if_pos absent

/-- A present entry of the upper two levels is a link. -/
theorem slot_dir {d e : Nat} (upper : d < 2) (present : e &&& vmmPresent ≠ 0) :
    slot d e = .table (e &&& addrMask) := by
  rw [slot, if_neg present, if_neg (show ¬ d = 2 by omega), if_pos upper]

/-- A present entry of the page directory that is no large page is a link. -/
theorem slot_pd {e : Nat} (present : e &&& vmmPresent ≠ 0) (small : e &&& vmmHuge = 0) :
    slot 2 e = .table (e &&& addrMask) := by
  rw [slot, if_neg present, if_pos rfl, if_neg (not_not.mpr small)]

/-- A large page. -/
theorem slot_large {e : Nat} (present : e &&& vmmPresent ≠ 0) (huge : e &&& vmmHuge ≠ 0) :
    slot 2 e = .leaf (e &&& hugeMask) := by
  rw [slot, if_neg present, if_pos rfl, if_pos huge]

/-- A present entry of the last level is a leaf. -/
theorem slot_pt {e : Nat} (present : e &&& vmmPresent ≠ 0) :
    slot 3 e = .leaf (e &&& addrMask) := by
  rw [slot, if_neg present, if_neg (by decide), if_neg (by decide)]

/-- No table lies below the fourth level. -/
theorem slot_bottom {d e f : Nat} (deep : 3 ≤ d) : slot d e ≠ .table f := by
  unfold slot
  rw [if_neg (show ¬ d = 2 by omega), if_neg (show ¬ d < 2 by omega)]
  split <;> simp

/-- The address of a link. -/
theorem slot_table_addr {d e g : Nat} (link : slot d e = .table g) : g = e &&& addrMask := by
  unfold slot at link
  split at link
  · cases link
  · split at link
    · split at link
      · cases link
      · exact (Slot.table.inj link).symm
    · split at link
      · exact (Slot.table.inj link).symm
      · cases link

/-- The address of a page of the last level. -/
theorem slot_bottom_leaf {d e a : Nat} (deep : 3 ≤ d) (leaf : slot d e = .leaf a) :
    a = e &&& addrMask := by
  unfold slot at leaf
  rw [if_neg (show ¬ d = 2 by omega), if_neg (show ¬ d < 2 by omega)] at leaf
  split at leaf
  · cases leaf
  · exact (Slot.leaf.inj leaf).symm

/-- Setting the user bit changes no meaning. -/
theorem slot_or_user (d e : Nat) : slot d (e ||| vmmUser) = slot d e := by
  simp only [slot, Nat.and_or_distrib_right, vmmUser, vmmPresent, vmmHuge, addrMask, hugeMask]
  simp

/-- The frames `pmm_alloc_page` hands out. -/
theorem frame_and {k : Nat} (inRange : k < maxPages) :
    k * pageSize &&& addrMask = k * pageSize ∧ k * pageSize &&& vmmPresent = 0 ∧
      k * pageSize &&& vmmHuge = 0 := by
  have huge : k * pageSize &&& vmmHuge = k * pageSize / 2 ^ 7 % 2 ^ 1 * 2 ^ 7 := and_mask _ 7 1
  rw [and_addrMask, huge, Nat.and_one_is_mod]
  simp only [maxPages, pageSize] at *
  omega

/-- A link put in by `next_table` or `split_huge_pd`, part by part. -/
theorem link_and {k : Nat} (inRange : k < maxPages) :
    let e := k * pageSize ||| vmmPresent ||| vmmWritable ||| vmmUser
    e &&& addrMask = k * pageSize ∧ e &&& vmmPresent ≠ 0 ∧ e &&& vmmHuge = 0 := by
  obtain ⟨addr, present, huge⟩ := frame_and inRange
  simp only [Nat.and_or_distrib_right, addr, present, huge]
  simp only [vmmPresent, vmmWritable, vmmUser, vmmHuge, addrMask]
  simp

/-- Such a link means what it should. -/
theorem slot_link {d k : Nat} (inRange : k < maxPages) (shallow : d < 3) :
    slot d (k * pageSize ||| vmmPresent ||| vmmWritable ||| vmmUser) = .table (k * pageSize) := by
  obtain ⟨addr, present, huge⟩ := link_and inRange
  by_cases two : d = 2
  · subst two
    rw [slot_pd present huge, addr]
  · rw [slot_dir (by omega) present, addr]

/-- One of the 512 small pages of a large page. -/
theorem slot_small {e : Nat} (j : Fin 512) (clean : e < 2 ^ 52) :
    slot 3 ((e &&& hugeMask) + j * pageSize ||| (e &&& 0xFFF) ||| vmmPresent ||| vmmUser) =
      .leaf ((e &&& hugeMask) + j * pageSize) := by
  have aligned : (e &&& hugeMask) + j * pageSize &&& addrMask =
      (e &&& hugeMask) + j * pageSize := by
    rw [and_addrMask, and_hugeMask]
    have := j.isLt
    simp only [pageSize]
    omega
  have flags : e &&& 0xFFF &&& addrMask = 0 := by
    rw [Nat.and_assoc, show 0xFFF &&& addrMask = 0 from rfl, Nat.and_zero]
  simp only [slot, Nat.and_or_distrib_right, aligned, flags]
  simp [vmmPresent, vmmUser, addrMask]

/-- The entry `vmm_map` writes. -/
theorem slot_mapped {phys : Nat} (flags : Nat) (clean : phys < 2 ^ 52) :
    slot 3 ((phys &&& pageMask) ||| (flags &&& 0xFFF) ||| vmmPresent) =
      .leaf (phys / pageSize * pageSize) := by
  have addr : phys &&& pageMask &&& addrMask = phys / pageSize * pageSize := by
    rw [Nat.and_assoc, show pageMask &&& addrMask = addrMask from rfl, and_addrMask]
    simp only [pageSize]
    omega
  have low : flags &&& 0xFFF &&& addrMask = 0 := by
    rw [Nat.and_assoc, show 0xFFF &&& addrMask = 0 from rfl, Nat.and_zero]
  simp only [slot, Nat.and_or_distrib_right, addr, low]
  simp [vmmPresent, addrMask]

/-! ## Entries of a tree -/

/-- The entries a table tree may have: bits 52 to 63 clear, and no leaf above the
page directory. -/
structure EntryOk (d e : Nat) : Prop where
  clean : e < 2 ^ 52
  noLeaf : d < 2 → e &&& vmmPresent ≠ 0 → e &&& vmmHuge = 0

/-- Further conditions on entries: one that is absent from a page directory is not
marked as a large page, and no table lies in frame 0. -/
structure EntryPlain (d e : Nat) : Prop where
  absent : d = 2 → e &&& vmmPresent = 0 → e &&& vmmHuge = 0
  notNull : ∀ f, slot d e = .table f → f ≠ 0

/-- Both. -/
def Entry (d e : Nat) : Prop := EntryOk d e ∧ EntryPlain d e

theorem entry_zero (d : Nat) : Entry d 0 := ⟨⟨by simp, by simp⟩, ⟨by simp, by simp⟩⟩

/-- The user bit keeps an entry legal. -/
theorem Entry.or_user {d e : Nat} (h : Entry d e) : Entry d (e ||| vmmUser) := by
  obtain ⟨⟨clean, noLeaf⟩, ⟨absent, notNull⟩⟩ := h
  refine ⟨⟨Nat.or_lt_two_pow clean (by decide), ?_⟩, ⟨?_, fun f => ?_⟩⟩
  · simpa [Nat.and_or_distrib_right, vmmUser, vmmHuge, vmmPresent] using noLeaf
  · intro two unset
    have part : e &&& vmmPresent = 0 := by
      rw [Nat.and_or_distrib_right, Nat.or_eq_zero_iff] at unset
      exact unset.1
    simpa [Nat.and_or_distrib_right, vmmUser, vmmHuge] using absent two part
  · rw [slot_or_user]
    exact notNull f

/-- A link to an allocated frame is legal. -/
theorem entry_link {d k : Nat} (inRange : k < maxPages) (pos : k * pageSize ≠ 0)
    (shallow : d < 3) :
    Entry d (k * pageSize ||| vmmPresent ||| vmmWritable ||| vmmUser) := by
  obtain ⟨-, -, unhuge⟩ := link_and inRange
  have small : k * pageSize < 2 ^ 52 := by simp only [maxPages, pageSize] at *; omega
  refine ⟨⟨?_, fun _ _ => unhuge⟩, ⟨fun _ _ => unhuge, fun f link => ?_⟩⟩
  · exact Nat.or_lt_two_pow (Nat.or_lt_two_pow (Nat.or_lt_two_pow small (by decide)) (by decide))
      (by decide)
  · rw [slot_link inRange shallow, Slot.table.injEq] at link
    rwa [← link]

/-- Any entry below `2 ^ 52` is legal in a table of the last level. -/
theorem entry_bottom {e : Nat} (clean : e < 2 ^ 52) : Entry 3 e :=
  ⟨⟨clean, by simp⟩, ⟨by simp, fun _ link => absurd link (slot_bottom le_rfl)⟩⟩

/-- The small pages of a large page are legal entries. -/
theorem entry_small {e : Nat} (j : Fin 512) (clean : e < 2 ^ 52) :
    Entry 3 ((e &&& hugeMask) + j * pageSize ||| (e &&& 0xFFF) ||| vmmPresent ||| vmmUser) := by
  have sum : (e &&& hugeMask) + j * pageSize < 2 ^ 52 := by
    rw [and_hugeMask]
    have := j.isLt
    simp only [pageSize]
    omega
  have flags : e &&& 0xFFF < 2 ^ 52 := lt_of_le_of_lt Nat.and_le_left clean
  exact entry_bottom (Nat.or_lt_two_pow (Nat.or_lt_two_pow (Nat.or_lt_two_pow sum flags)
    (by decide)) (by decide))

/-- The entry `vmm_map` writes is legal. -/
theorem entry_mapped {phys : Nat} (flags : Nat) (clean : phys < 2 ^ 52) :
    Entry 3 ((phys &&& pageMask) ||| (flags &&& 0xFFF) ||| vmmPresent) := by
  have addr : phys &&& pageMask < 2 ^ 52 := lt_of_le_of_lt Nat.and_le_left clean
  have low : flags &&& 0xFFF < 2 ^ 52 := lt_of_le_of_lt Nat.and_le_right (by decide)
  exact entry_bottom (Nat.or_lt_two_pow (Nat.or_lt_two_pow addr low) (by decide))

end Flyos
