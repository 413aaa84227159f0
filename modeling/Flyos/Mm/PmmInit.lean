import Flyos.Lib.ByteMemory
import Flyos.Mm.Pmm
import Mathlib.Data.Finset.Card
import Mathlib.Data.Finset.Range

/-!
# Setting up the page allocator

`pmm_init` of `kernel/mm/pmm.c` reads the memory map that the boot loader left, marks
every page used, frees the pages that lie in available entries, and marks three
reserved ranges used again.  `pmmInit_spec` says which bits are set afterwards.

Addresses are 64-bit and sums of them wrap; `% 2 ^ 64` stands wherever the C sum can.
-/

namespace Flyos

/-- `MAX_MEMORY`. -/
abbrev maxMemory : Nat := 4 * 1024 * 1024 * 1024

/-- `bitmap_clear`. -/
def bitmapClear (bitmap : Nat → BitVec 8) (page : Nat) : Nat → BitVec 8 :=
  Function.update bitmap (page >>> 3) (bitmap (page >>> 3) &&& ~~~(1#8 <<< (page &&& 7)))

/-- `(x + PAGE_SIZE - 1) & ~(PAGE_SIZE - 1)`. -/
def pageUp (x : Nat) : Nat := (x + pageSize - 1) % 2 ^ 64 / pageSize * pageSize

/-- `x & ~(PAGE_SIZE - 1)`. -/
def pageDown (x : Nat) : Nat := x / pageSize * pageSize

/-! ## The memory map -/

/-- `struct mb_mmap_entry`. -/
structure MmapEntry where
  addr : Nat
  len : Nat
  type : Nat
  deriving DecidableEq

/-- The `n` entries from `e` on, `entrySize` bytes apart. -/
def mmapEntries (mem : ByteMemory) (entrySize : Nat) : Nat → Nat → List MmapEntry
  | _, 0 => []
  | e, n + 1 => ⟨mem.load e 8, mem.load (e + 8) 8, mem.load (e + 16) 4⟩ ::
      mmapEntries mem entrySize (e + entrySize) n

/-- The entries of a memory map tag.  An entry size of 0 is a division by 0. -/
def mmapTag (mem : ByteMemory) (tag : Nat) : Option (List MmapEntry) :=
  let size := mem.load (tag + 4) 4
  let entrySize := mem.load (tag + 8) 4
  if entrySize = 0 then none
  else some (mmapEntries mem entrySize (tag + 16) ((size + 2 ^ 32 - 16) % 2 ^ 32 / entrySize))

/-- The loop over the tags from `p` to `limit`: the entries it visits, in order.  A tag
of size 0 is never left. -/
def mbTags (mem : ByteMemory) (limit : Nat) : Nat → Nat → Option (List MmapEntry)
  | 0, _ => none
  | fuel + 1, p =>
      if p < limit then
        let type := mem.load p 4
        if type = 0 then some []
        else (if type = 6 then mmapTag mem p else some []).bind fun entries =>
          (mbTags mem limit fuel (p + (mem.load (p + 4) 4 + 7) % 2 ^ 32 / 8 * 8)).map (entries ++ ·)
      else some []

/-- The size of the info block. -/
def mbSize (mem : ByteMemory) (mbInfo : Nat) : Nat := mem.load mbInfo 4

/-- The memory map entries of an info block. -/
def memoryMap (mem : ByteMemory) (mbInfo : Nat) : Option (List MmapEntry) :=
  let size := mbSize mem mbInfo
  mbTags mem (mbInfo + size) (size + 1) (mbInfo + 8)

/-! ## The passes over it -/

/-- `ent->addr + ent->len`. -/
def MmapEntry.rEnd (e : MmapEntry) : Nat := (e.addr + e.len) % 2 ^ 64

/-- The first pass: `max_addr` after one entry. -/
def maxAddr (m : Nat) (e : MmapEntry) : Nat := if e.type = 1 ∧ m < e.rEnd then e.rEnd else m

/-- `total_pages`. -/
def totalPages (entries : List MmapEntry) : Nat :=
  min (entries.foldl maxAddr 0) maxMemory / pageSize

namespace Pmm

/-- A page is marked used, if it is managed and free. -/
def markPage (p : Pmm) (page : Nat) : Pmm :=
  if page < p.totalPages ∧ bitmapTest p.bitmap page = false then
    { p with bitmap := bitmapSet p.bitmap page, usedPages := p.usedPages + 1 }
  else p

/-- A page is marked free, if it is managed and used. -/
def freePage (p : Pmm) (page : Nat) : Pmm :=
  if page < p.totalPages ∧ bitmapTest p.bitmap page = true then
    { p with bitmap := bitmapClear p.bitmap page, usedPages := p.usedPages - 1 }
  else p

end Pmm

/-- `for (a = ..; a + PAGE_SIZE <= e2; a += PAGE_SIZE)` of the second pass. -/
def freeLoop : Nat → Pmm → Nat → Nat → Option Pmm
  | 0, _, _, _ => none
  | fuel + 1, p, a, e2 =>
      if (a + pageSize) % 2 ^ 64 ≤ e2 then
        freeLoop fuel (p.freePage (a / pageSize)) ((a + pageSize) % 2 ^ 64) e2
      else some p

/-- Where the pages of an entry end: `e2`. -/
def MmapEntry.pagesEnd (e : MmapEntry) : Nat := pageDown (min e.rEnd maxMemory)

/-- The second pass: one entry. -/
def freeEntry (p : Pmm) (e : MmapEntry) : Option Pmm :=
  if e.type = 1 then freeLoop (maxPages + 2) p (pageUp e.addr) e.pagesEnd else some p

/-- `for (a = s; a < e; a += PAGE_SIZE)` of `mark_used`. -/
def markLoop : Nat → Pmm → Nat → Nat → Option Pmm
  | 0, _, _, _ => none
  | fuel + 1, p, a, e =>
      if a < e then markLoop fuel (p.markPage (a / pageSize)) ((a + pageSize) % 2 ^ 64) e
      else some p

/-- `mark_used`. -/
def markUsed (p : Pmm) (start limit : Nat) : Option Pmm :=
  markLoop (2 ^ 64 / pageSize + 1) p (pageUp start) (pageDown limit)

/-- All pages are marked used. -/
def allUsed (total : Nat) : Pmm :=
  { bitmap := (List.range total).foldl bitmapSet fun _ => 0#8
    totalPages := total, usedPages := total, searchHint := 0 }

/-- `pmm_init`, of a kernel image from `kernelStart` to `kernelEnd`. -/
def pmmInit (mem : ByteMemory) (mbInfo kernelStart kernelEnd : Nat) : Option Pmm :=
  (memoryMap mem mbInfo).bind fun entries =>
    (entries.foldlM freeEntry (allUsed (totalPages entries))).bind fun p =>
      (markUsed p 0 0x800000).bind fun p =>
        (markUsed p kernelStart kernelEnd).bind fun p =>
          markUsed p mbInfo (mbInfo + mbSize mem mbInfo)

/-- `pmm_free_page`. -/
def pmmFreePage (p : Pmm) (phys : Nat) : Pmm :=
  let page := phys / pageSize
  if page < p.totalPages ∧ bitmapTest p.bitmap page = true then
    { p.freePage page with
      searchHint := if page < p.searchHint then page else p.searchHint }
  else p

/-! ## The counter -/

/-- Clearing a bit changes that page only. -/
theorem bitmapTest_clear (bitmap : Nat → BitVec 8) (p q : Nat) :
    bitmapTest (bitmapClear bitmap p) q = (!decide (q = p) && bitmapTest bitmap q) := by
  have bit : q % 8 < 8 := Nat.mod_lt _ (by decide)
  have low : p &&& 7 = p % 8 := Nat.and_two_pow_sub_one_eq_mod p 3
  rw [bitmapTest_eq, bitmapTest_eq, bitmapClear, low, Nat.shiftRight_eq_div_pow]
  by_cases byte : q / 8 = p / 8
  · have same : q % 8 = p % 8 ↔ q = p := by omega
    rw [byte, Function.update_self, BitVec.getLsbD_and, ← BitVec.twoPow_eq, BitVec.getLsbD_not,
      BitVec.getLsbD_twoPow, Bool.and_comm]
    have bit' : p % 8 < 8 := Nat.mod_lt _ (by decide)
    simp [bit, bit', ← same, eq_comm]
  · have differ : q ≠ p := fun eq => byte (by rw [eq])
    rw [Function.update_of_ne byte]
    simp [differ]

namespace Pmm

/-- The managed pages in use. -/
def used (p : Pmm) : Finset Nat :=
  (Finset.range p.totalPages).filter fun k => bitmapTest p.bitmap k = true

theorem mem_used {p : Pmm} {k : Nat} :
    k ∈ p.used ↔ k < p.totalPages ∧ bitmapTest p.bitmap k = true := by
  rw [used, Finset.mem_filter, Finset.mem_range]

/-- The counter is right. -/
def Counted (p : Pmm) : Prop := p.usedPages = p.used.card

/-- A state whose bits are those of `p`, but for one page in `p`'s range. -/
theorem used_set {p : Pmm} {i : Nat} (inside : i < p.totalPages) (u h : Nat) :
    used { p with bitmap := bitmapSet p.bitmap i, usedPages := u, searchHint := h } =
      insert i p.used := by
  ext k
  rw [Finset.mem_insert, mem_used, mem_used, bitmapTest_set, Bool.or_eq_true, decide_eq_true_eq]
  constructor
  · rintro ⟨lt, rfl | bit⟩
    · exact .inl rfl
    · exact .inr ⟨lt, bit⟩
  · rintro (rfl | ⟨lt, bit⟩)
    · exact ⟨inside, .inl rfl⟩
    · exact ⟨lt, .inr bit⟩

theorem used_clear (p : Pmm) (i u h : Nat) :
    used { p with bitmap := bitmapClear p.bitmap i, usedPages := u, searchHint := h } =
      p.used.erase i := by
  ext k
  rw [Finset.mem_erase, mem_used, mem_used, bitmapTest_clear]
  simp [and_left_comm]

/-- Marking a free page counts it. -/
theorem Counted.set {p : Pmm} (counted : p.Counted) {i : Nat} (inside : i < p.totalPages)
    (clear : bitmapTest p.bitmap i = false) (h : Nat) :
    Counted { p with bitmap := bitmapSet p.bitmap i, usedPages := p.usedPages + 1
                     searchHint := h } := by
  have new : i ∉ p.used := by
    rw [mem_used, clear]
    simp
  rw [Counted, used_set inside, Finset.card_insert_of_notMem new, ← counted]

/-- Marking a page free uncounts it. -/
theorem Counted.clear {p : Pmm} (counted : p.Counted) {i : Nat} (inside : i < p.totalPages)
    (bit : bitmapTest p.bitmap i = true) (h : Nat) :
    Counted { p with bitmap := bitmapClear p.bitmap i, usedPages := p.usedPages - 1
                     searchHint := h } := by
  rw [Counted, used_clear, Finset.card_erase_of_mem (mem_used.mpr ⟨inside, bit⟩), ← counted]

/-- What the loops do to a page set: the managed pages of `f` become used, or free. -/
structure Marks (p q : Pmm) (value : Bool) (f : Nat → Prop) : Prop where
  total : q.totalPages = p.totalPages
  hint : q.searchHint = p.searchHint
  counted : p.Counted → q.Counted
  bits : ∀ k, bitmapTest q.bitmap k = true ↔
    if value then bitmapTest p.bitmap k = true ∨ k < p.totalPages ∧ f k
    else bitmapTest p.bitmap k = true ∧ ¬ (k < p.totalPages ∧ f k)

theorem markPage_marks (p : Pmm) (i : Nat) : Marks p (p.markPage i) true (· = i) := by
  unfold markPage
  by_cases free : i < p.totalPages ∧ bitmapTest p.bitmap i = false
  · rw [if_pos free]
    refine ⟨rfl, rfl, fun counted => counted.set free.1 free.2 _, fun k => ?_⟩
    rw [if_pos rfl, bitmapTest_set, Bool.or_eq_true, decide_eq_true_eq, or_comm]
    refine or_congr_right ⟨fun eq => ⟨eq ▸ free.1, eq⟩, And.right⟩
  · rw [if_neg free]
    refine ⟨rfl, rfl, id, fun k => ?_⟩
    rw [if_pos rfl]
    refine ⟨.inl, fun h => h.elim id ?_⟩
    rintro ⟨inside, rfl⟩
    by_contra clear
    exact free ⟨inside, Bool.eq_false_iff.mpr clear⟩

theorem freePage_marks (p : Pmm) (i : Nat) : Marks p (p.freePage i) false (· = i) := by
  unfold freePage
  by_cases busy : i < p.totalPages ∧ bitmapTest p.bitmap i = true
  · rw [if_pos busy]
    refine ⟨rfl, rfl, fun counted => counted.clear busy.1 busy.2 _, fun k => ?_⟩
    rw [if_neg (by decide), bitmapTest_clear]
    have here : k = i → k < p.totalPages := fun eq => eq ▸ busy.1
    simp only [Bool.and_eq_true, Bool.not_eq_true', decide_eq_false_iff_not, not_and]
    exact ⟨fun h => ⟨h.2, fun _ => h.1⟩, fun h => ⟨fun eq => h.2 (here eq) eq, h.1⟩⟩
  · rw [if_neg busy]
    refine ⟨rfl, rfl, id, fun k => ?_⟩
    rw [if_neg (by decide)]
    refine ⟨fun bit => ⟨bit, ?_⟩, And.left⟩
    rintro ⟨inside, rfl⟩
    exact busy ⟨inside, bit⟩

/-- Marks of one kind add up. -/
theorem Marks.trans {p q r : Pmm} {value : Bool} {f g h : Nat → Prop} (m : Marks p q value f)
    (m' : Marks q r value g) (both : ∀ k, k < p.totalPages → (h k ↔ f k ∨ g k)) :
    Marks p r value h := by
  refine ⟨m'.total.trans m.total, m'.hint.trans m.hint, fun c => m'.counted (m.counted c),
    fun k => ?_⟩
  have first := m.bits k
  have second := m'.bits k
  rw [m.total] at second
  have join := both k
  cases value with
  | true =>
      simp only [if_true] at first second ⊢
      rw [second, first]
      constructor
      · rintro ((bit | ⟨lt, hf⟩) | ⟨lt, hg⟩)
        · exact .inl bit
        · exact .inr ⟨lt, (join lt).mpr (.inl hf)⟩
        · exact .inr ⟨lt, (join lt).mpr (.inr hg)⟩
      · rintro (bit | ⟨lt, hh⟩)
        · exact .inl (.inl bit)
        · rcases (join lt).mp hh with hf | hg
          · exact .inl (.inr ⟨lt, hf⟩)
          · exact .inr ⟨lt, hg⟩
  | false =>
      simp only [Bool.false_eq_true, if_false] at first second ⊢
      rw [second, first]
      constructor
      · rintro ⟨⟨bit, nf⟩, ng⟩
        exact ⟨bit, fun ⟨lt, hh⟩ => ((join lt).mp hh).elim (fun hf => nf ⟨lt, hf⟩)
          fun hg => ng ⟨lt, hg⟩⟩
      · rintro ⟨bit, nh⟩
        exact ⟨⟨bit, fun ⟨lt, hf⟩ => nh ⟨lt, (join lt).mpr (.inl hf)⟩⟩,
          fun ⟨lt, hg⟩ => nh ⟨lt, (join lt).mpr (.inr hg)⟩⟩

/-- The same marks in other words. -/
theorem Marks.congr {p q : Pmm} {value : Bool} {f h : Nat → Prop} (m : Marks p q value f)
    (same : ∀ k, k < p.totalPages → (h k ↔ f k)) : Marks p q value h := by
  refine ⟨m.total, m.hint, m.counted, fun k => ?_⟩
  rw [m.bits k, and_congr_right (same k)]

/-- Nothing is marked. -/
theorem Marks.refl (p : Pmm) (value : Bool) {f : Nat → Prop} (none : ∀ k, k < p.totalPages → ¬ f k) :
    Marks p p value f := by
  refine ⟨rfl, rfl, id, fun k => ?_⟩
  cases value with
  | true =>
      simp only [if_true]
      exact ⟨.inl, fun h => h.elim id fun ⟨lt, hf⟩ => absurd hf (none k lt)⟩
  | false =>
      simp only [Bool.false_eq_true, if_false]
      exact ⟨fun bit => ⟨bit, fun ⟨lt, hf⟩ => none k lt hf⟩, And.left⟩

end Pmm

/-! ## The loops -/

open Pmm

/-- The loop of the second pass, where it does not wrap: the whole pages between `a` and
`e2` become free. -/
theorem freeLoop_spec (fuel : Nat) (p : Pmm) (j : Nat) {e2 : Nat} (low : e2 ≤ maxMemory)
    (bound : j * pageSize + pageSize < 2 ^ 64) (enough : e2 / pageSize - j < fuel) :
    ∃ q, freeLoop fuel p (j * pageSize) e2 = some q ∧
      Marks p q false fun k => j ≤ k ∧ (k + 1) * pageSize ≤ e2 := by
  induction fuel generalizing p j with
  | zero => omega
  | succ fuel ih =>
      rw [freeLoop, Nat.mod_eq_of_lt bound]
      by_cases more : j * pageSize + pageSize ≤ e2
      · have next : j * pageSize + pageSize = (j + 1) * pageSize := (Nat.succ_mul ..).symm
        have page : j * pageSize / pageSize = j := Nat.mul_div_cancel _ (by decide)
        have below : (j + 1) * pageSize + pageSize < 2 ^ 64 := by
          rw [Nat.succ_mul]
          exact Nat.lt_of_le_of_lt (Nat.add_le_add_right (Nat.le_trans more low) _) (by decide)
        obtain ⟨q, ran, marks⟩ := ih (p.freePage j) (j + 1) below
          (by simp only [pageSize] at *; omega)
        rw [if_pos more, page, next]
        refine ⟨q, ran, (freePage_marks p j).trans marks fun k _ => ?_⟩
        simp only [pageSize] at *
        omega
      · rw [if_neg more]
        refine ⟨p, rfl, .refl p false fun k _ => ?_⟩
        simp only [pageSize] at *
        omega

/-- The pages that the second pass frees for an entry.  When the entry starts in the last
page of the address space, `a + PAGE_SIZE` wraps and the loop starts over at 0. -/
def MmapEntry.Frees (e : MmapEntry) (k : Nat) : Prop :=
  e.type = 1 ∧ (pageUp e.addr + pageSize = 2 ^ 64 ∨ pageUp e.addr ≤ k * pageSize) ∧
    (k + 1) * pageSize ≤ e.pagesEnd

theorem freeEntry_spec (p : Pmm) (total : p.totalPages ≤ maxPages) (e : MmapEntry) :
    ∃ q, freeEntry p e = some q ∧ Marks p q false e.Frees := by
  unfold freeEntry
  by_cases available : e.type = 1
  swap
  · rw [if_neg available]
    exact ⟨p, rfl, .refl p false fun k _ frees => available frees.1⟩
  rw [if_pos available]
  have low : e.pagesEnd ≤ maxMemory := by
    simp only [MmapEntry.pagesEnd, pageDown, pageSize, maxMemory]
    omega
  obtain ⟨j, start, small⟩ : ∃ j, pageUp e.addr = j * pageSize ∧ j < 2 ^ 52 := by
    refine ⟨_, rfl, ?_⟩
    simp only [pageSize]
    omega
  by_cases last : j = 2 ^ 52 - 1
  · -- the loop frees the last page of the address space, which is not managed, and wraps
    have page : j * pageSize / pageSize = j := Nat.mul_div_cancel _ (by decide)
    have wraps : (j * pageSize + pageSize) % 2 ^ 64 = 0 * pageSize := by rw [last]; decide
    obtain ⟨q, ran, marks⟩ := freeLoop_spec (maxPages + 1) (p.freePage j) 0 low (by decide)
      (by simp only [pageSize, maxMemory, maxPages] at *; omega)
    refine ⟨q, ?_, (freePage_marks p j).trans marks fun k managed => ?_⟩
    · rw [start, show maxPages + 2 = maxPages + 1 + 1 from rfl, freeLoop, page, wraps, Nat.zero_mul,
        if_pos (Nat.zero_le _)]
      rwa [Nat.zero_mul] at ran
    · have whole : pageUp e.addr + pageSize = 2 ^ 64 := by rw [start, last]; decide
      have unmanaged : k ≠ j := by
        have few : maxPages < 2 ^ 52 - 1 := by decide
        omega
      simp only [MmapEntry.Frees, available, whole, true_or, true_and, unmanaged, false_or,
        Nat.zero_le]
  · obtain ⟨q, ran, marks⟩ := freeLoop_spec (maxPages + 2) p j low
      (by simp only [pageSize] at *; omega)
      (by simp only [pageSize, maxMemory, maxPages] at *; omega)
    refine ⟨q, by rw [start]; exact ran, marks.congr fun k _ => ?_⟩
    rw [MmapEntry.Frees, start]
    simp only [pageSize, available, true_and] at *
    omega

/-- The second pass over all entries. -/
theorem freeEntries_spec (entries : List MmapEntry) (p : Pmm) (total : p.totalPages ≤ maxPages) :
    ∃ q, entries.foldlM freeEntry p = some q ∧
      Marks p q false fun k => ∃ e ∈ entries, e.Frees k := by
  induction entries generalizing p with
  | nil => exact ⟨p, rfl, .refl p false (by simp)⟩
  | cons e es ih =>
      obtain ⟨q, first, marks⟩ := freeEntry_spec p total e
      obtain ⟨r, rest, marks'⟩ := ih q (marks.total ▸ total)
      refine ⟨r, ?_, marks.trans marks' fun k _ => by simp⟩
      rw [List.foldlM_cons, first]
      exact rest

/-- The loop of `mark_used`. -/
theorem markLoop_spec (fuel : Nat) (p : Pmm) (j m : Nat) (bound : m * pageSize < 2 ^ 64)
    (enough : m - j < fuel) :
    ∃ q, markLoop fuel p (j * pageSize) (m * pageSize) = some q ∧
      Marks p q true fun k => j ≤ k ∧ k < m := by
  induction fuel generalizing p j with
  | zero => omega
  | succ fuel ih =>
      rw [markLoop]
      by_cases more : j < m
      · have below : j * pageSize < m * pageSize := Nat.mul_lt_mul_of_pos_right more (by decide)
        have next : (j * pageSize + pageSize) % 2 ^ 64 = (j + 1) * pageSize := by
          rw [Nat.succ_mul]
          simp only [pageSize] at *
          omega
        have page : j * pageSize / pageSize = j := Nat.mul_div_cancel _ (by decide)
        obtain ⟨q, ran, marks⟩ := ih (p.markPage j) (j + 1) (by omega)
        rw [if_pos below, page, next]
        exact ⟨q, ran, (markPage_marks p j).trans marks fun k _ => by omega⟩
      · have above : ¬ j * pageSize < m * pageSize :=
          Nat.not_lt.mpr (Nat.mul_le_mul_right _ (Nat.le_of_not_lt more))
        rw [if_neg above]
        exact ⟨p, rfl, .refl p true fun k _ => by omega⟩

/-- The pages that `mark_used` marks. -/
def Reserves (start limit k : Nat) : Prop :=
  pageUp start ≤ k * pageSize ∧ k * pageSize < pageDown limit

/-- `mark_used`. -/
theorem markUsed_spec (p : Pmm) (start : Nat) {limit : Nat} (word : limit < 2 ^ 64) :
    ∃ q, markUsed p start limit = some q ∧ Marks p q true (Reserves start limit) := by
  obtain ⟨q, ran, marks⟩ := markLoop_spec (2 ^ 64 / pageSize + 1) p
    ((start + pageSize - 1) % 2 ^ 64 / pageSize) (limit / pageSize)
    (by simp only [pageSize]; omega) (by simp only [pageSize]; omega)
  refine ⟨q, ran, marks.congr fun k _ => ?_⟩
  simp only [Reserves, pageUp, pageDown, pageSize]
  omega

/-- All managed pages are used to begin with, and counted. -/
theorem allUsed_spec (total : Nat) : (allUsed total).Counted ∧
    ∀ k, bitmapTest (allUsed total).bitmap k = true ↔ k < total := by
  have bits : ∀ k, bitmapTest (allUsed total).bitmap k = true ↔ k < total := by
    intro k
    change bitmapTest ((List.range total).foldl bitmapSet fun _ => 0#8) k = true ↔ k < total
    induction total with
    | zero => simp [bitmapTest]
    | succ total ih =>
        rw [List.range_succ, List.foldl_append, List.foldl_cons, List.foldl_nil, bitmapTest_set,
          Bool.or_eq_true, decide_eq_true_eq, ih]
        omega
  refine ⟨?_, bits⟩
  have every : (allUsed total).used = Finset.range total := by
    ext k
    rw [mem_used, Finset.mem_range, bits]
    exact and_self_iff
  rw [Counted, every, Finset.card_range]
  rfl

/-- The pages that `pmm_init` reserves after the second pass. -/
def Reserved (mem : ByteMemory) (mbInfo kernelStart kernelEnd k : Nat) : Prop :=
  Reserves 0 0x800000 k ∨ Reserves kernelStart kernelEnd k ∨
    Reserves mbInfo (mbInfo + mbSize mem mbInfo) k

/-- **What `pmm_init` establishes**: a managed page is free when an entry frees it and no
range reserves it. -/
theorem pmmInit_spec {mem : ByteMemory} {mbInfo : Nat} {entries : List MmapEntry}
    (kernelStart : Nat) {kernelEnd : Nat} (map : memoryMap mem mbInfo = some entries)
    (info : mbInfo < 2 ^ 32) (image : kernelEnd < 2 ^ 64) :
    ∃ p, pmmInit mem mbInfo kernelStart kernelEnd = some p ∧ p.Ok ∧ p.Counted ∧
      p.totalPages = totalPages entries ∧ p.searchHint = 0 ∧
      ∀ k, bitmapTest p.bitmap k = true ↔ k < totalPages entries ∧
        ((∃ e ∈ entries, e.Frees k) → Reserved mem mbInfo kernelStart kernelEnd k) := by
  have total : totalPages entries ≤ maxPages := by
    simp only [totalPages, maxPages, maxMemory, pageSize]
    omega
  have size : mbSize mem mbInfo < 2 ^ 32 := ByteMemory.load_lt mem mbInfo 4
  obtain ⟨counted, bits⟩ := allUsed_spec (totalPages entries)
  obtain ⟨p₁, ran₁, m₁⟩ := freeEntries_spec entries (allUsed (totalPages entries)) total
  obtain ⟨p₂, ran₂, m₂⟩ := markUsed_spec p₁ 0 (by decide : 0x800000 < 2 ^ 64)
  obtain ⟨p₃, ran₃, m₃⟩ := markUsed_spec p₂ kernelStart image
  obtain ⟨p₄, ran₄, m₄⟩ := markUsed_spec p₃ mbInfo
    (by omega : mbInfo + mbSize mem mbInfo < 2 ^ 64)
  have same : p₄.totalPages = totalPages entries :=
    m₄.total.trans (m₃.total.trans (m₂.total.trans m₁.total))
  have hint : p₄.searchHint = 0 := m₄.hint.trans (m₃.hint.trans (m₂.hint.trans m₁.hint))
  refine ⟨p₄, ?_, ⟨by rw [same]; exact total, by rw [hint]; exact Nat.zero_le _⟩,
    m₄.counted (m₃.counted (m₂.counted (m₁.counted counted))), same, hint, fun k => ?_⟩
  · rw [pmmInit, map, Option.bind_some, ran₁, Option.bind_some, ran₂, Option.bind_some, ran₃,
      Option.bind_some, ran₄]
  · have first := m₁.bits k
    have second := m₂.bits k
    have third := m₃.bits k
    have fourth := m₄.bits k
    simp only [Bool.false_eq_true, if_false, if_true, bits] at first second third fourth
    rw [fourth, third, second, first, m₃.total, m₂.total, m₁.total]
    change (((k < totalPages entries ∧ ¬ (k < totalPages entries ∧ _)) ∨
      k < totalPages entries ∧ _) ∨ k < totalPages entries ∧ _) ∨ k < totalPages entries ∧ _ ↔ _
    rw [Reserved]
    by_cases managed : k < totalPages entries
    · by_cases freed : ∃ e ∈ entries, e.Frees k
      · simp only [managed, freed, true_and, and_self, not_true_eq_false, false_or,
          forall_const, or_assoc]
      · simp only [managed, freed, true_and, and_false, not_false_eq_true, true_or,
          false_implies]
    · simp only [managed, false_and, or_self]

end Flyos
