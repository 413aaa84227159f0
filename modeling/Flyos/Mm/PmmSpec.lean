import Flyos.Lib.Runs
import Flyos.Mm.PmmInit

/-!
# The page allocator over whole runs

`PmmState` is the allocator with the pages its callers hold; a `PmmCall` takes a
page or gives one back.  `PmmCorrect` is what the allocator promises in a state:
the counter counts, the search is complete wherever the hint stands, and a page
handed out lies in an available entry and is held by nobody.  The promise holds
in every run (`pmmRun_correct`) of a memory map that has no available entry
starting in the last page of the address space; with such an entry the second
pass of `pmm_init` wraps and frees pages of no entry (`pmmInit_wraps`).

`mark_used` rounds both ends of a range inwards, so a page that a reserved range
covers in part stays free when an entry frees it.  `pmm_reserved_iff` says that
these pages are the only reserved memory ever handed out.
-/

namespace Flyos

open Pmm

/-! ## The search -/

/-- The search fails when every page of its range is in use. -/
theorem findClear_none {bitmap : Nat → BitVec 8} {i n : Nat} (h : findClear bitmap i n = none) :
    ∀ j, i ≤ j → j < i + n → bitmapTest bitmap j = true := by
  induction n generalizing i with
  | zero =>
      intro j lo hi
      omega
  | succ n ih =>
      rw [findClear] at h
      split at h
      case isTrue => cases h
      case isFalse busy =>
        intro j lo hi
        rcases Nat.eq_or_lt_of_le lo with rfl | later
        · exact Bool.eq_true_of_not_eq_false busy
        · exact ih h j later (by omega)

/-- `pmm_alloc_page` fails when all pages are in use, and else takes a free one. -/
theorem pmmAllocPage_cases {p : Pmm} (hint : p.searchHint ≤ p.totalPages) :
    (pmmAllocPage p = (0, p) ∧ ∀ k < p.totalPages, bitmapTest p.bitmap k = true) ∨
      ∃ i < p.totalPages, bitmapTest p.bitmap i = false ∧ pmmAllocPage p = p.take i := by
  unfold pmmAllocPage
  split
  case h_1 i found =>
    obtain ⟨-, hi, clear⟩ := findClear_some found
    exact .inr ⟨i, by omega, clear, rfl⟩
  case h_2 above =>
    split
    case h_1 i found =>
      obtain ⟨-, hi, clear⟩ := findClear_some found
      exact .inr ⟨i, by omega, clear, rfl⟩
    case h_2 below =>
      refine .inl ⟨rfl, fun k inside => ?_⟩
      by_cases low : k < p.searchHint
      · exact findClear_none below k (Nat.zero_le k) (by omega)
      · exact findClear_none above k (by omega) (by omega)

/-- **The search is complete**, wherever the hint stands, as long as page 0 is in use. -/
theorem pmmAllocPage_eq_zero_iff {p : Pmm} (hint : p.searchHint ≤ p.totalPages)
    (null : 0 < p.totalPages → bitmapTest p.bitmap 0 = true) :
    (pmmAllocPage p).1 = 0 ↔ ∀ k < p.totalPages, bitmapTest p.bitmap k = true := by
  rcases pmmAllocPage_cases hint with ⟨fails, all⟩ | ⟨i, inside, clear, takes⟩
  · rw [fails]
    exact iff_of_true rfl all
  · rw [takes]
    refine iff_of_false (fun zero => ?_) fun all => ?_
    · have first : i = 0 := (Nat.mul_eq_zero.mp zero).resolve_right (by decide)
      subst first
      rw [null inside] at clear
      cases clear
    · rw [all i inside] at clear
      cases clear

/-! ## Runs -/

/-- The allocator and the pages that were handed out and not given back. -/
structure PmmState where
  pmm : Pmm
  outstanding : List Nat

/-- What a caller does. -/
inductive PmmCall where
  | alloc
  | free (phys : Nat)

/-- One call.  Only a page that is held is given back. -/
inductive PmmStep : PmmState → PmmCall → PmmState → Prop
  | alloc (s : PmmState) :
      PmmStep s .alloc ⟨(pmmAllocPage s.pmm).2,
        if (pmmAllocPage s.pmm).1 = 0 then s.outstanding
        else (pmmAllocPage s.pmm).1 :: s.outstanding⟩
  | free (s : PmmState) (phys : Nat) :
      phys ∈ s.outstanding →
      PmmStep s (.free phys) ⟨pmmFreePage s.pmm phys, s.outstanding.erase phys⟩

/-- The page at `phys` lies in an available entry. -/
def InEntry (entries : List MmapEntry) (phys : Nat) : Prop :=
  ∃ e ∈ entries, e.type = 1 ∧ e.addr ≤ phys ∧ phys + pageSize ≤ e.addr + e.len

/-- **What the allocator promises** in a state. -/
structure PmmCorrect (entries : List MmapEntry) (s : PmmState) : Prop where
  counted : s.pmm.usedPages = s.pmm.used.card
  hint : s.pmm.searchHint ≤ s.pmm.totalPages
  complete : ∀ h ≤ s.pmm.totalPages, (pmmAllocPage { s.pmm with searchHint := h }).1 = 0 ↔
    ∀ k < s.pmm.totalPages, bitmapTest s.pmm.bitmap k = true
  returned : (pmmAllocPage s.pmm).1 ≠ 0 →
    pageSize ∣ (pmmAllocPage s.pmm).1 ∧ (pmmAllocPage s.pmm).1 + pageSize ≤ maxMemory ∧
      InEntry entries (pmmAllocPage s.pmm).1 ∧ (pmmAllocPage s.pmm).1 ∉ s.outstanding

/-- The invariant behind the promise: every managed page is in use, or is a page other
than page 0 that lies in an entry and that nobody holds; a held page is in use. -/
structure PmmInv (entries : List MmapEntry) (s : PmmState) : Prop where
  ok : s.pmm.Ok
  counted : s.pmm.Counted
  nodup : s.outstanding.Nodup
  free : ∀ k < s.pmm.totalPages, bitmapTest s.pmm.bitmap k = false →
    k ≠ 0 ∧ InEntry entries (k * pageSize)
  held : ∀ phys ∈ s.outstanding, ∃ k < s.pmm.totalPages, phys = k * pageSize ∧
    bitmapTest s.pmm.bitmap k = true ∧ k ≠ 0 ∧ InEntry entries phys

/-- Pages are told apart by their addresses. -/
theorem page_inj {i k : Nat} (same : i * pageSize = k * pageSize) : i = k :=
  Nat.eq_of_mul_eq_mul_right (by decide) same

theorem PmmInv.notMem {entries : List MmapEntry} {s : PmmState} (inv : PmmInv entries s) {i : Nat}
    (clear : bitmapTest s.pmm.bitmap i = false) : i * pageSize ∉ s.outstanding := by
  intro mem
  obtain ⟨k, -, same, bit, -⟩ := inv.held _ mem
  rw [page_inj same, bit] at clear
  cases clear

/-- The invariant gives the promise. -/
theorem PmmInv.correct {entries : List MmapEntry} {s : PmmState} (inv : PmmInv entries s) :
    PmmCorrect entries s := by
  refine ⟨inv.counted, inv.ok.hint, fun h le => ?_, fun nonzero => ?_⟩
  · refine pmmAllocPage_eq_zero_iff (p := { s.pmm with searchHint := h }) le fun some => ?_
    by_contra clear
    exact (inv.free 0 some (Bool.eq_false_iff.mpr clear)).1 rfl
  · rcases pmmAllocPage_cases inv.ok.hint with ⟨fails, -⟩ | ⟨i, inside, clear, takes⟩
    · rw [fails] at nonzero
      exact absurd rfl nonzero
    · rw [takes]
      refine ⟨Nat.dvd_mul_left .., ?_, (inv.free i inside clear).2, inv.notMem clear⟩
      have total := inv.ok.total
      have whole : maxPages * pageSize = maxMemory := by decide
      change i * pageSize + pageSize ≤ maxMemory
      rw [← whole, ← Nat.succ_mul]
      exact Nat.mul_le_mul_right _ (Nat.le_trans inside total)

/-- Every call keeps the invariant. -/
theorem PmmStep.inv {entries : List MmapEntry} {s t : PmmState} {c : PmmCall}
    (inv : PmmInv entries s) (step : PmmStep s c t) : PmmInv entries t := by
  cases step with
  | alloc =>
      rcases pmmAllocPage_cases inv.ok.hint with ⟨fails, -⟩ | ⟨i, inside, clear, takes⟩
      · rw [fails, if_pos rfl]
        exact ⟨inv.ok, inv.counted, inv.nodup, inv.free, inv.held⟩
      · obtain ⟨first, entry⟩ := inv.free i inside clear
        have nonzero : i * pageSize ≠ 0 := Nat.mul_ne_zero first (by decide)
        rw [takes, show (s.pmm.take i).1 = i * pageSize from rfl, if_neg nonzero]
        refine ⟨⟨inv.ok.total, inside⟩, inv.counted.set inside clear _,
          inv.nodup.cons (inv.notMem clear), fun k lt clear' => ?_, fun phys mem => ?_⟩
        · refine inv.free k lt ?_
          simp only [Pmm.take, bitmapTest_set, Bool.or_eq_false_iff] at clear'
          exact clear'.2
        · rcases List.mem_cons.mp mem with rfl | old
          · exact ⟨i, inside, rfl, by simp [Pmm.take, bitmapTest_set], first, entry⟩
          · obtain ⟨k, lt, eq, bit, rest⟩ := inv.held phys old
            exact ⟨k, lt, eq, by simp [Pmm.take, bitmapTest_set, bit], rest⟩
  | free phys mem =>
      obtain ⟨k, lt, rfl, bit, first, entry⟩ := inv.held phys mem
      have page : k * pageSize / pageSize = k := Nat.mul_div_cancel _ (by decide)
      have hint := inv.ok.hint
      rw [pmmFreePage, page, if_pos ⟨lt, bit⟩, Pmm.freePage, if_pos ⟨lt, bit⟩]
      refine ⟨⟨inv.ok.total, ?_⟩, inv.counted.clear lt bit _, inv.nodup.erase _,
        fun j ltj clear => ?_, fun phys old => ?_⟩
      · dsimp only
        split <;> omega
      · by_cases same : j = k
        · exact same ▸ ⟨first, entry⟩
        · refine inv.free j ltj ?_
          simpa [bitmapTest_clear, same] using clear
      · obtain ⟨differ, old⟩ := inv.nodup.mem_erase_iff.mp old
        obtain ⟨j, ltj, eq, bitj, rest⟩ := inv.held phys old
        have other : j ≠ k := fun same => differ (eq.trans (by rw [same]))
        exact ⟨j, ltj, eq, by simp [bitmapTest_clear, other, bitj], rest⟩

/-- A page that the second pass frees without wrapping lies in its entry. -/
theorem MmapEntry.Frees.inEntry {entries : List MmapEntry} {e : MmapEntry} {k : Nat}
    (frees : e.Frees k) (mem : e ∈ entries) (noWrap : e.addr + e.len + 4095 < 2 ^ 64)
    (lower : pageUp e.addr + pageSize ≠ 2 ^ 64) : InEntry entries (k * pageSize) := by
  obtain ⟨available, start, fits⟩ := frees
  have start := start.resolve_left lower
  refine ⟨e, mem, available, ?_, ?_⟩
  · simp only [pageUp, pageSize] at *
    omega
  · have down : e.pagesEnd ≤ e.rEnd :=
      Nat.le_trans (Nat.div_mul_le_self _ _) (Nat.min_le_left _ _)
    have whole : e.rEnd = e.addr + e.len := Nat.mod_eq_of_lt (by omega)
    rw [← whole, ← Nat.succ_mul]
    exact Nat.le_trans fits down

/-- **Physical pages over whole runs.**  In every run from `pmm_init` the allocator keeps its
promise, if sums of the map do not wrap and no available entry starts in the last page of the
address space.  Otherwise the page loop of `pmm_init` wraps and marks other pages.  Where it does
not, the bits after it say exactly which pages are free (`pmmInit_spec`), and every call keeps
what is held apart from what is free. -/
theorem pmmRun_correct {mem : ByteMemory} {mbInfo kernelStart kernelEnd : Nat}
    {entries : List MmapEntry} {p : Pmm} {calls : List PmmCall} {s : PmmState}
    (info : mbInfo < 2 ^ 32) (image : kernelEnd < 2 ^ 64)
    (map : memoryMap mem mbInfo = some entries)
    (noWrap : ∀ e ∈ entries, e.addr + e.len + 4095 < 2 ^ 64)
    (lower : ∀ e ∈ entries, e.type = 1 → pageUp e.addr + pageSize ≠ 2 ^ 64)
    (start : pmmInit mem mbInfo kernelStart kernelEnd = some p)
    (run : Run PmmStep ⟨p, []⟩ calls s) : PmmCorrect entries s := by
  obtain ⟨p', start', ok, counted, total, -, bits⟩ :=
    pmmInit_spec kernelStart map info image
  obtain rfl : p = p' := Option.some.inj (start.symm.trans start')
  refine (run.invariant (PmmInv entries) (fun inv step => step.inv inv) ?_).correct
  refine ⟨ok, counted, List.nodup_nil, fun k lt clear => ?_, fun _ none => by cases none⟩
  have not : ¬ ((∃ e ∈ entries, e.Frees k) → Reserved mem mbInfo kernelStart kernelEnd k) :=
    fun all => by
      rw [(bits k).mpr ⟨total ▸ lt, all⟩] at clear
      cases clear
  obtain ⟨⟨e, mem, frees⟩, unreserved⟩ := Classical.not_imp.mp not
  refine ⟨?_, frees.inEntry mem (noWrap e mem) (lower e mem frees.1)⟩
  rintro rfl
  exact unreserved (.inl ⟨by decide, by decide⟩)

/-- A boot information block at `base` whose memory map has one entry. -/
def infoBlock (base : Nat) (entry : List UInt8) : ByteMemory := fun a =>
  ([56, 0, 0, 0, 0, 0, 0, 0, 6, 0, 0, 0, 40, 0, 0, 0, 24, 0, 0, 0, 0, 0, 0, 0] ++ entry).getD
    (a - base) 0

/-- An information block for 9 MiB of memory. -/
def smallMap : ByteMemory :=
  infoBlock 0x100000 [0, 0, 0, 0, 0, 0, 0, 0, 0, 0, 0x90, 0, 0, 0, 0, 0, 1]

/-- An information block whose one available entry has no bytes and starts in the last
page of the address space. -/
def lastPageMap : ByteMemory :=
  infoBlock 0x100000 [0, 0xF0, 0xFF, 0xFF, 0xFF, 0xFF, 0xFF, 0xFF, 0, 0, 0, 0, 0, 0, 0, 0, 1]

/-- A page is taken from a small memory. -/
theorem pmmRun_correct_small :
    ∃ p s, pmmInit smallMap 0x100000 0x200000 0x300000 = some p ∧
      Run PmmStep ⟨p, []⟩ [.alloc] s ∧ PmmCorrect [⟨0, 0x900000, 1⟩] s := by
  have map : memoryMap smallMap 0x100000 = some [⟨0, 0x900000, 1⟩] := by decide +kernel
  obtain ⟨p, start, -⟩ :=
    pmmInit_spec 0x200000 map (by decide) (by decide : 0x300000 < 2 ^ 64)
  have run : Run PmmStep ⟨p, []⟩ [.alloc] _ := .single (.alloc _)
  exact ⟨p, _, start, run, pmmRun_correct (by decide) (by decide) map (by decide) (by decide)
    start run⟩

/-- **The exception.**  No sum of the map wraps, yet the second pass frees all memory above
8 MiB, and `pmm_alloc_page` hands out a page that lies in no entry. -/
theorem pmmInit_wraps :
    ∃ p, memoryMap lastPageMap 0x100000 = some [⟨2 ^ 64 - 4096, 0, 1⟩] ∧
      (∀ e ∈ [(⟨2 ^ 64 - 4096, 0, 1⟩ : MmapEntry)], e.addr + e.len + 4095 < 2 ^ 64) ∧
      0 < totalPages [⟨2 ^ 64 - 4096, 0, 1⟩] ∧
      pmmInit lastPageMap 0x100000 0x200000 0x300000 = some p ∧
      ¬ PmmCorrect [⟨2 ^ 64 - 4096, 0, 1⟩] ⟨p, []⟩ := by
  have map : memoryMap lastPageMap 0x100000 = some [⟨2 ^ 64 - 4096, 0, 1⟩] := by decide +kernel
  have size : mbSize lastPageMap 0x100000 = 56 := by decide +kernel
  have managed : totalPages [⟨2 ^ 64 - 4096, 0, 1⟩] = 0x100000 := by decide +kernel
  obtain ⟨p, start, ok, -, total, -, bits⟩ :=
    pmmInit_spec 0x200000 map (by decide) (by decide : 0x300000 < 2 ^ 64)
  refine ⟨p, map, by decide, by rw [managed]; decide, start, fun correct => ?_⟩
  -- page 0x800 is free, so the allocator does not fail
  have clear : bitmapTest p.bitmap 0x800 = false := by
    rw [Bool.eq_false_iff, Ne, bits, managed]
    rintro ⟨-, all⟩
    rcases all ⟨_, List.mem_singleton_self _, rfl, .inl (by decide), by decide⟩ with
      low | kernel | block
    · exact absurd low.2 (by decide)
    · exact absurd kernel.2 (by decide)
    · exact absurd block.2 (by rw [size]; decide)
  have succeeds : (pmmAllocPage p).1 ≠ 0 := fun fails => by
    have all := (correct.complete p.searchHint correct.hint).mp fails 0x800
      (by rw [total, managed]; decide)
    rw [clear] at all
    cases all
  obtain ⟨-, -, ⟨e, mem, -, lo, hi⟩, -⟩ := correct.returned succeeds
  obtain rfl := List.mem_singleton.mp mem
  exact absurd (Nat.le_trans (Nat.add_le_add_right lo pageSize) hi) (by decide)

/-! ## Reserved memory -/

/-- `pmm_alloc_page` answers with an address. -/
def AllocStep (p : Pmm) (phys : Nat) (q : Pmm) : Prop := pmmAllocPage p = (phys, q)

/-- A page that is handed out was free and managed at the start of the run. -/
theorem allocRun_returned {p q : Pmm} {returned : List Nat} (run : Run AllocStep p returned q)
    (hint : p.searchHint ≤ p.totalPages) :
    ∀ phys ∈ returned, phys ≠ 0 →
      ∃ k < p.totalPages, phys = k * pageSize ∧ bitmapTest p.bitmap k = false := by
  induction run with
  | nil p => simp
  | cons one _ ih =>
      rename_i p t u phys rest
      intro page mem nonzero
      rcases pmmAllocPage_cases hint with ⟨fails, -⟩ | ⟨i, inside, clear, takes⟩
      · obtain ⟨rfl, rfl⟩ := Prod.mk.inj (one.symm.trans fails)
        rcases List.mem_cons.mp mem with rfl | later
        · exact absurd rfl nonzero
        · exact ih hint page later nonzero
      · obtain ⟨rfl, rfl⟩ := Prod.mk.inj (one.symm.trans takes)
        rcases List.mem_cons.mp mem with rfl | later
        · exact ⟨i, inside, rfl, clear⟩
        · obtain ⟨k, lt, eq, clear'⟩ := ih inside page later nonzero
          refine ⟨k, lt, eq, ?_⟩
          simp only [bitmapTest_set, Bool.or_eq_false_iff] at clear'
          exact clear'.2

/-- Every free page is handed out in the end: each call takes a free page, and there are
only so many. -/
theorem allocRun_exhausts (n : Nat) {p : Pmm} (hint : p.searchHint ≤ p.totalPages) {k : Nat}
    (inside : k < p.totalPages) (clear : bitmapTest p.bitmap k = false)
    (few : p.totalPages - p.used.card ≤ n) :
    ∃ returned q, Run AllocStep p returned q ∧ k * pageSize ∈ returned := by
  induction n generalizing p with
  | zero =>
      have proper : p.used.card < p.totalPages := by
        have subset : p.used ⊂ Finset.range p.totalPages := by
          refine Finset.ssubset_iff_subset_ne.mpr ⟨Finset.filter_subset _ _, fun all => ?_⟩
          have mem : k ∈ p.used := by rw [all]; exact Finset.mem_range.mpr inside
          rw [mem_used, clear] at mem
          exact absurd mem.2 (by decide)
        simpa using Finset.card_lt_card subset
      omega
  | succ n ih =>
      rcases pmmAllocPage_cases hint with ⟨-, all⟩ | ⟨i, insidei, cleari, takes⟩
      · rw [all k inside] at clear
        cases clear
      by_cases same : i = k
      · subst same
        exact ⟨_, _, .single takes, List.mem_singleton_self _⟩
      · have new : i ∉ p.used := by
          rw [mem_used, cleari]
          simp
        have more : (p.take i).2.used.card = p.used.card + 1 := by
          rw [Pmm.take, used_set insidei, Finset.card_insert_of_notMem new]
        have total : (p.take i).2.totalPages = p.totalPages := rfl
        obtain ⟨returned, q, run, mem⟩ := ih (p := (p.take i).2) insidei inside
          (by simp [Pmm.take, bitmapTest_set, clear, Ne.symm same]) (by rw [more, total]; omega)
        exact ⟨_, q, .cons takes run, List.mem_cons_of_mem _ mem⟩

/-- The page at `phys` shares a byte with the range from `start` to `limit`. -/
def Overlaps (start limit phys : Nat) : Prop :=
  ∃ x, phys ≤ x ∧ x < phys + pageSize ∧ start ≤ x ∧ x < limit

/-- The page at `phys` holds reserved memory. -/
def HoldsReserved (mem : ByteMemory) (mbInfo kernelStart kernelEnd phys : Nat) : Prop :=
  Overlaps 0 0x800000 phys ∨ Overlaps kernelStart kernelEnd phys ∨
    Overlaps mbInfo (mbInfo + mbSize mem mbInfo) phys

/-- Page `k` is the first or the last of a range, and the range covers it in part only. -/
def Edge (start limit k : Nat) : Prop :=
  start < limit ∧ (k = start / pageSize ∧ ¬ pageSize ∣ start ∨
    k = limit / pageSize ∧ ¬ pageSize ∣ limit)

/-- The edges of the kernel image and of the info block are in use after `pmm_init`: not
managed, freed by no entry, or inside another reserved range. -/
def EdgesUsed (mem : ByteMemory) (entries : List MmapEntry) (mbInfo kernelStart kernelEnd : Nat) :
    Prop :=
  ∀ k < totalPages entries,
    Edge kernelStart kernelEnd k ∨ Edge mbInfo (mbInfo + mbSize mem mbInfo) k →
    (∃ e ∈ entries, e.Frees k) → Reserved mem mbInfo kernelStart kernelEnd k

/-- A managed page with memory of a range is one that `mark_used` marks, or an edge. -/
theorem Overlaps.reserves_or_edge {start limit k : Nat} (low : k < maxPages) :
    Overlaps start limit (k * pageSize) →
      Reserves start limit k ∨ Edge start limit k := by
  rintro ⟨x, lo, hi, from_start, to_limit⟩
  simp only [Reserves, Edge, pageUp, pageDown, pageSize, maxPages] at *
  omega

/-- An edge holds memory of its range. -/
theorem Edge.overlaps {start limit k : Nat} (edge : Edge start limit k) :
    Overlaps start limit (k * pageSize) := by
  obtain ⟨some, ⟨rfl, part⟩ | ⟨rfl, part⟩⟩ := edge
  · refine ⟨start, ?_, ?_, le_rfl, some⟩ <;> simp only [pageSize] at * <;> omega
  · refine ⟨limit - 1, ?_, ?_, ?_, ?_⟩ <;> simp only [pageSize] at * <;> omega

/-- **Reserved memory is handed out exactly when an edge is free.**  No run of `pmm_alloc_page`
after `pmm_init` returns a page with memory of the first 8 MiB, the kernel image or the info
block, if and only if the edges of the two ranges are in use.  `mark_used` marks the pages that
lie wholly in a range, so only a page that a range covers in part can be handed out with reserved
bytes; if such a page is free, allocating until nothing is left returns it (`allocRun_exhausts`).
-/
theorem pmm_reserved_iff {mem : ByteMemory} {mbInfo kernelStart kernelEnd : Nat}
    {entries : List MmapEntry} (info : mbInfo < 2 ^ 32) (image : kernelEnd < 2 ^ 64)
    (map : memoryMap mem mbInfo = some entries) :
    (∀ p, pmmInit mem mbInfo kernelStart kernelEnd = some p →
      ∀ returned q, Run AllocStep p returned q → ∀ phys ∈ returned, phys ≠ 0 →
        ¬ HoldsReserved mem mbInfo kernelStart kernelEnd phys) ↔
      EdgesUsed mem entries mbInfo kernelStart kernelEnd := by
  obtain ⟨p, start, ok, -, total, -, bits⟩ :=
    pmmInit_spec kernelStart map info image
  constructor
  · intro never k managed edge freed
    by_contra unreserved
    have clear : bitmapTest p.bitmap k = false := by
      rw [Bool.eq_false_iff, Ne, bits]
      exact fun used => unreserved (used.2 freed)
    obtain ⟨returned, q, run, mem⟩ :=
      allocRun_exhausts _ ok.hint (total ▸ managed) clear le_rfl
    refine never p start returned q run _ mem ?_ (.inr (edge.imp Edge.overlaps Edge.overlaps))
    refine Nat.mul_ne_zero ?_ (by decide)
    rintro rfl
    exact unreserved (.inl ⟨by decide, by decide⟩)
  · intro edges p' start' returned q run phys mem nonzero holds
    obtain rfl : p = p' := Option.some.inj (start.symm.trans start')
    obtain ⟨k, lt, rfl, clear⟩ := allocRun_returned run ok.hint phys mem nonzero
    rw [total] at lt
    have low : k < maxPages := Nat.lt_of_lt_of_le lt (total ▸ ok.total)
    rw [Bool.eq_false_iff, Ne, bits] at clear
    refine clear ⟨lt, fun freed => ?_⟩
    rcases holds with first | kernel | block
    · rcases Overlaps.reserves_or_edge low first with marked | ⟨-, edge⟩
      · exact .inl marked
      · rcases edge with ⟨-, part⟩ | ⟨-, part⟩ <;> exact absurd (by decide) part
    · exact (Overlaps.reserves_or_edge low kernel).elim (fun marked => .inr (.inl marked))
        fun edge => edges k lt (.inl edge) freed
    · exact (Overlaps.reserves_or_edge low block).elim (fun marked => .inr (.inr marked))
        fun edge => edges k lt (.inr edge) freed

/-- With the kernel image and the info block in the first 8 MiB, reserved memory is never
handed out: their edges lie there as well. -/
theorem pmm_reserved_iff_small :
    memoryMap smallMap 0x100000 = some [⟨0, 0x900000, 1⟩] ∧
      ∀ p, pmmInit smallMap 0x100000 0x200000 0x300800 = some p →
        ∀ returned q, Run AllocStep p returned q → ∀ phys ∈ returned, phys ≠ 0 →
          ¬ HoldsReserved smallMap 0x100000 0x200000 0x300800 phys := by
  have map : memoryMap smallMap 0x100000 = some [⟨0, 0x900000, 1⟩] := by decide +kernel
  have size : mbSize smallMap 0x100000 = 56 := by decide +kernel
  refine ⟨map, (pmm_reserved_iff (by decide) (by decide) map).mpr
    fun k managed edge freed => .inl ?_⟩
  rw [size] at edge
  have first : k < 0x800 := by
    rcases edge with ⟨-, ⟨eq, -⟩ | ⟨eq, -⟩⟩ | ⟨-, ⟨eq, -⟩ | ⟨eq, -⟩⟩ <;> rw [eq] <;> decide
  refine ⟨Nat.zero_le _, ?_⟩
  simp only [pageDown, pageSize]
  omega

/-- An information block in the middle of the page at 8 MiB, for 16 MiB of memory. -/
def highMap : ByteMemory :=
  infoBlock 0x800008 [0, 0, 0, 0, 0, 0, 0, 0, 0, 0, 0, 1, 0, 0, 0, 0, 1]

/-- **The exception.**  `mark_used` marks no page for an info block inside one page, and
`pmm_alloc_page` hands this page out. -/
theorem pmm_reserved_lost :
    ∃ p returned q, pmmInit highMap 0x800008 0x200000 0x300000 = some p ∧
      Run AllocStep p returned q ∧
      ∃ phys ∈ returned, phys ≠ 0 ∧ HoldsReserved highMap 0x800008 0x200000 0x300000 phys := by
  have map : memoryMap highMap 0x800008 = some [⟨0, 0x1000000, 1⟩] := by decide +kernel
  have size : mbSize highMap 0x800008 = 56 := by decide +kernel
  have managed : totalPages [⟨0, 0x1000000, 1⟩] = 0x1000 := by decide
  obtain ⟨p, start, ok, -, total, -, bits⟩ :=
    pmmInit_spec 0x200000 map (by decide) (by decide : 0x300000 < 2 ^ 64)
  have clear : bitmapTest p.bitmap 0x800 = false := by
    rw [Bool.eq_false_iff, Ne, bits]
    rintro ⟨-, all⟩
    rcases all ⟨_, List.mem_singleton_self _, rfl, .inr (by decide), by decide⟩ with
      low | kernel | block
    · exact absurd low.2 (by decide)
    · exact absurd kernel.2 (by decide)
    · exact absurd block.2 (by rw [size]; decide)
  obtain ⟨returned, q, run, mem⟩ :=
    allocRun_exhausts _ ok.hint (k := 0x800) (by rw [total, managed]; decide) clear le_rfl
  refine ⟨p, returned, q, start, run, _, mem, by decide, .inr (.inr ?_)⟩
  exact ⟨0x800008, by decide, by decide, le_rfl, by rw [size]; decide⟩

end Flyos
