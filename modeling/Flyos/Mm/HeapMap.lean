import Flyos.Mm.CopyBytes
import Flyos.Mm.IdentitySpec
import Flyos.Mm.Rights

/-!
# The memory behind the heap

`heap_init` takes a page for each of its 512 pages.  Its loop ends when there is none; a page
that `vmm_map` could not map, because there was no page for a table, it does not notice.
Either way it writes `HEAP_SIZE` to the first block.  `heapInit_covered` says when the heap
is there.

The entries of tables that `vmm_map` makes are writable, so the pages below an empty entry of
the PML4 are writable when they are mapped so (`LinksWritable`).
-/

namespace Flyos

open TableTree

variable {s t u : Vmm} {p : List (Fin 512)} {f : Nat} {i first : Fin 512}

/-! ## Pages that may be written -/

/-- All entries behind entry `first` of the PML4 may be written through. -/
def LinksWritable (first : Fin 512) (s : Vmm) : Prop :=
  ∀ q h j, s.table q = some h → [first] <+: q ++ [j] → slot q.length (s.mem h j) ≠ .empty →
    s.mem h j &&& vmmWritable ≠ 0

/-- So may the pages that are mapped there. -/
theorem LinksWritable.writeMay {v : Nat} (links : LinksWritable (tableIdx v 39) s)
    (mapped : pageAt s (path v) ≠ none) : writeMay s v = true := by
  refine passes_of_walk
    (fun at_q (below : [tableIdx v 39] <+: _ ++ [_]) some => ?_) rfl (fun cons => ?_)
    fun none => mapped ?_
  · simp [hasBits, links _ _ _ at_q below some]
  · obtain ⟨rfl, -⟩ := List.cons.inj cons
    exact List.prefix_rfl
  · rw [List.length_nil] at none
    rw [pageAt, none, Option.map_none]

/-- A new table is linked with an entry that may be written through. -/
theorem LinksWritable.grow (links : LinksWritable first s) (root : t.root = s.root)
    (at_p : s.table p = some f) {np : Nat} (grows : Grows slot s.mem t.mem s.root p i np)
    (link : t.mem f i &&& vmmWritable ≠ 0)
    (old : ∀ h j, h ≠ np → ¬ (h = f ∧ j = i) → t.mem h j = s.mem h j)
    (new : ∀ j, [first] <+: p ++ [i] ++ [j] → slot (p ++ [i]).length (t.mem np j) ≠ .empty →
      t.mem np j &&& vmmWritable ≠ 0) : LinksWritable first t := by
  intro q h j at_q below some
  rw [Vmm.table, root] at at_q
  rcases grows.reach_cases at_p at_q with ⟨rfl, rfl⟩ | before
  · exact new j below some
  · by_cases here : h = f ∧ j = i
    · rw [here.1, here.2]
      exact link
    · have same := old h j (fun eq => grows.fresh q (eq ▸ before)) here
      rw [same] at some ⊢
      exact links q h j before below some

/-- A level of the walk down. -/
theorem LinksWritable.next (tree : PageTree Entry s) (links : LinksWritable first s)
    (at_p : s.table p = some f) (upper : p.length < 3) :
    LinksWritable first (nextTable s f i).2 := by
  obtain ⟨allocated, outcome⟩ := allocPage_spec tree
  have links' : LinksWritable first s.allocPage.2 := links
  rcases nextTable_cases s f i (allocPage_frame tree.pmm) with
    ⟨-, -, eval⟩ | ⟨-, frame, eval⟩ | ⟨-, eval⟩
  · rw [eval]
    exact links'
  · obtain ⟨-, -, ⟨k, eq, inRange⟩, fresh, used⟩ := outcome.resolve_left fun failed => frame failed.1
    obtain ⟨-, grows⟩ := allocated.tree.grow (i := i) (g := fun _ => 0) at_p fresh used
      (eq ▸ slot_link inRange upper) (fun j h => by simp)
      (eq ▸ entry_link inRange (eq ▸ frame) upper) fun j => entry_zero _
    have unlike : s.allocPage.1 ≠ f := fun eq => fresh p (eq ▸ at_p)
    rw [eval]
    refine links'.grow rfl at_p grows ?_ (fun h j other off => ?_) fun j _ some => ?_
    · simpa only [Vmm.set, and_self, if_true] using (link_bits s.allocPage.1).2
    · simp only [Vmm.set, Vmm.zeroPage, Vmm.fillPage, if_neg off, if_neg other]
    · simp [Vmm.set, Vmm.zeroPage, Vmm.fillPage, unlike] at some
  · obtain ⟨-, tables, -⟩ := tree.or_user (i := i) at_p
    rw [eval]
    intro q h j at_q below some
    rw [tables] at at_q
    by_cases here : h = f ∧ j = i
    · obtain ⟨rfl, rfl⟩ := here
      simp only [Vmm.set, and_self, if_true, slot_or_user] at some ⊢
      have bit := links q h j at_q below some
      rw [Nat.and_or_distrib_right]
      exact fun none => bit (Nat.or_eq_zero_iff.mp none).1
    · simp only [Vmm.set, if_neg here] at some ⊢
      exact links q h j at_q below some

/-- The split of a large page. -/
theorem LinksWritable.split (tree : PageTree Entry s) (links : LinksWritable first s)
    (at_p : s.table p = some f) (level : p.length = 2) :
    LinksWritable first (splitHugePd s f i).2 := by
  obtain ⟨allocated, outcome⟩ := allocPage_spec tree
  have links' : LinksWritable first s.allocPage.2 := links
  rcases splitHugePd_cases s f i with ⟨-, eval⟩ | ⟨-, -, eval⟩ | ⟨huge, frame, eval⟩
  · rw [eval]
    exact links
  · rw [eval]
    exact links'
  · obtain ⟨⟨clean, -⟩, ⟨absent, -⟩⟩ := tree.entries at_p i
    have present : s.mem f i &&& vmmPresent ≠ 0 := fun none => huge (absent level none)
    obtain ⟨-, -, ⟨k, eq, inRange⟩, fresh, used⟩ := outcome.resolve_left fun failed => frame failed.1
    obtain ⟨-, grows⟩ := allocated.tree.grow (i := i) (g := smallPages (s.mem f i)) at_p
      fresh used (eq ▸ slot_link inRange (by omega)) (fun j h => slot_bottom (by omega))
      (eq ▸ entry_link inRange (eq ▸ frame) (by omega)) fun j => by
        rw [level]
        exact entry_small j clean
    have unlike : s.allocPage.1 ≠ f := fun eq => fresh p (eq ▸ at_p)
    rw [eval]
    refine links'.grow rfl at_p grows ?_ (fun h j other off => ?_) fun j below _ => ?_
    · simpa only [Vmm.set, and_self, if_true] using (link_bits s.allocPage.1).2
    · simp only [Vmm.set, Vmm.fillPage, if_neg off, if_neg other]
    · -- a small page has the bit of its large page
      have large : s.mem f i &&& vmmWritable ≠ 0 := by
        refine links p f i at_p (List.prefix_of_prefix_length_le below (List.prefix_append _ _) ?_) ?_
        · simp
        · rw [level, slot_large present huge]
          simp
      simpa [Vmm.set, Vmm.fillPage, unlike, (smallPages_bits (s.mem f i) j).1] using large

/-- **`vmm_map` of a page that may be written** keeps it so. -/
theorem LinksWritable.map (tree : PageTree Entry s) (links : LinksWritable first s) {phys : Nat}
    (clean : phys < 2 ^ 52) (virt : Nat) :
    PageTree Entry (vmmMap s virt phys vmmWritable) ∧
      LinksWritable first (vmmMap s virt phys vmmWritable) := by
  refine vmmMap_keeps tree clean virt vmmWritable links (fun tree links => links.next tree)
    (fun tree links => links.split tree) fun {t p f i} tree links at_p last => ?_
  intro q h j at_q below some
  rw [table_set tree at_p last] at at_q
  by_cases here : h = f ∧ j = i
  · simp only [Vmm.set, here, and_self, if_true]
    simp [Nat.and_or_distrib_right, vmmWritable, vmmPresent]
  · simp only [Vmm.set, if_neg here] at some ⊢
    exact links q h j at_q below some

/-! ## `heap_init` -/

/-- A word stored at a virtual address; `none` is a page fault. -/
def Vmm.storeWord (s : Vmm) (virt e : Nat) : Option Vmm :=
  (pageAt s (path virt)).map fun frame => s.set frame (wordIdx virt) e

/-- A word read at a virtual address. -/
def Vmm.loadWord (s : Vmm) (virt : Nat) : Option Nat :=
  (pageAt s (path virt)).map fun frame => s.mem frame (wordIdx virt)

/-- `heap_init` on the page tables: the pages, and the header of the first block. -/
def heapInitAt (s : Vmm) : Option Vmm :=
  (heapInitMap s).bind fun s =>
    (s.storeWord heapStart heapSize).bind fun s =>
      (s.storeWord (heapStart + 8) 1).bind fun s =>
        (s.storeWord (heapStart + 16) 0).bind fun s => s.storeWord (heapStart + 24) 0

/-- **The heap that the first block describes is there**: every address of
`[HEAP_START, HEAP_START + head->size)` is mapped and may be written, to a frame that was
taken for its page. -/
def HeapCovered (s t : Vmm) : Prop :=
  ∃ n, t.loadWord heapStart = some n ∧ ∀ a < n, ∃ f,
    pageAt t (path (heapStart + a)) = some f ∧ Fresh s t f ∧ (∀ q, t.table q ≠ some f) ∧
      writeMay t (heapStart + a) = true ∧
      ∀ b < n, pageAt t (path (heapStart + b)) = some f → b / pageSize = a / pageSize

/-- The pages of the heap. -/
def heapVas : List Nat := pagesBetween heapStart heapEnd

/-- The loop of `heap_init`, over its pages. -/
theorem heapInitMap_eq (s : Vmm) : heapInitMap s = some (runPages heapPage heapVas s).2 := by
  rw [heapInitMap, pageLoop_eq (by decide) (allPages_enough (by decide))]
  rfl

/-- A turn of it. -/
theorem heapPage_fresh : FreshTurn heapPage where
  ends := fun va s none => by rw [heapPage]; simp only [none, if_true]
  maps := fun va s tree null page =>
    ⟨_, vmmWritable, fetched_alloc tree null page, by
      rw [heapPage]
      simp only [page, if_false]⟩

/-- The pages that it maps may be written. -/
theorem heapRun_links (tree : PageTree Entry s) (links : LinksWritable first s)
    (vas : List Nat) : LinksWritable first (runPages heapPage vas s).2 := by
  suffices kept : PageTree Entry (runPages heapPage vas s).2 ∧
      LinksWritable first (runPages heapPage vas s).2 from kept.2
  refine runPages_keeps (P := fun t => PageTree Entry t ∧ LinksWritable first t)
    (fun va t kept => ?_) ⟨tree, links⟩
  obtain ⟨allocated, outcome⟩ := allocPage_spec kept.1
  rw [heapPage]
  by_cases page : t.allocPage.1 = 0
  · simp only [page, if_true]
    exact ⟨allocated.tree, kept.2⟩
  · obtain ⟨-, -, ⟨k, eq, inRange⟩, -⟩ := outcome.resolve_left fun failed => page failed.1
    simp only [page, if_false]
    refine LinksWritable.map allocated.tree kept.2 ?_ va
    rw [eq]
    simp only [maxPages, pageSize] at *
    omega

/-! ### The first block -/

/-- A word of the first page of the heap. -/
theorem storeWord_head (found : pageAt s (path heapStart) = some f) {o : Nat}
    (low : o < pageSize) (e : Nat) :
    s.storeWord (heapStart + o) e = some (s.set f (wordIdx (heapStart + o)) e) := by
  have same : path (heapStart + o) = path heapStart := by
    rw [path_eq_iff]
    simp only [pageNumber, heapStart, pageSize] at *
    omega
  rw [Vmm.storeWord, same, found, Option.map_some]

/-- **The header of the first block**, in a frame that is no table. -/
theorem head_stored (tree : PageTree Entry s) (found : pageAt s (path heapStart) = some f)
    (data : ∀ q, s.table q ≠ some f) :
    ∃ t, ((s.storeWord heapStart heapSize).bind fun s =>
        (s.storeWord (heapStart + 8) 1).bind fun s =>
          (s.storeWord (heapStart + 16) 0).bind fun s => s.storeWord (heapStart + 24) 0) = some t ∧
      Keeps s t ∧ (∀ q, t.table q = s.table q) ∧ t.pmm = s.pmm ∧
      (∀ h, h ≠ f → t.mem h = s.mem h) ∧ t.loadWord heapStart = some heapSize := by
  have step : ∀ {u : Vmm}, Keeps s u → (∀ q, u.table q = s.table q) → ∀ i e,
      Keeps s (u.set f i e) ∧ ∀ q, (u.set f i e).table q = s.table q := fun keeps tables i e => by
    obtain ⟨keeps', tables'⟩ := set_data keeps.tree (fun q at_q => data q ((tables q).symm.trans at_q)) i e
    exact ⟨keeps.trans keeps', fun q => (tables' q).trans (tables q)⟩
  have here : ∀ {u : Vmm}, Keeps s u → pageAt u (path heapStart) = some f := fun keeps =>
    (keeps.pages heapStart).trans found
  obtain ⟨keeps₁, tables₁⟩ := step ⟨rfl, tree, fun _ => rfl⟩ (fun _ => rfl)
    (wordIdx (heapStart + 0)) heapSize
  obtain ⟨keeps₂, tables₂⟩ := step keeps₁ tables₁ (wordIdx (heapStart + 8)) 1
  obtain ⟨keeps₃, tables₃⟩ := step keeps₂ tables₂ (wordIdx (heapStart + 16)) 0
  obtain ⟨keeps₄, tables₄⟩ := step keeps₃ tables₃ (wordIdx (heapStart + 24)) 0
  refine ⟨_, ?_, keeps₄, tables₄, rfl, fun h other => ?_, ?_⟩
  · rw [← Nat.add_zero heapStart, storeWord_head found (by decide), Option.bind_some,
      Nat.add_zero, storeWord_head (here keeps₁) (by decide), Option.bind_some,
      storeWord_head (here keeps₂) (by decide), Option.bind_some,
      storeWord_head (here keeps₃) (by decide)]
  · funext j
    simp [Vmm.set, other]
  · have apart : wordIdx heapStart ≠ wordIdx (heapStart + 8) ∧
        wordIdx heapStart ≠ wordIdx (heapStart + 16) ∧
        wordIdx heapStart ≠ wordIdx (heapStart + 24) := by decide
    rw [Vmm.loadWord, here keeps₄, Option.map_some]
    simp [Vmm.set, apart]

/-! ### What the pages cost -/

theorem mem_heapVas {va : Nat} :
    va ∈ heapVas ↔ heapStart ≤ va ∧ va < heapEnd ∧ va % pageSize = 0 := by
  rw [heapVas, mem_pagesBetween]
  simp only [heapStart, pageSize]

/-- The page of an address of the heap. -/
theorem heapVas_page {a : Nat} (low : a < heapSize) :
    heapStart + a / pageSize * pageSize ∈ heapVas ∧
      path (heapStart + a) = path (heapStart + a / pageSize * pageSize) := by
  rw [mem_heapVas, path_eq_iff]
  simp only [heapStart, heapEnd, heapSize, heapPages, pageNumber, pageSize] at *
  omega

/-- Its pages differ. -/
theorem heapVas_path {va va' : Nat} (member : va ∈ heapVas) (member' : va' ∈ heapVas)
    (same : path va = path va') : va = va' := by
  rw [path_eq_iff] at same
  rw [mem_heapVas] at member member'
  simp only [heapStart, heapEnd, heapSize, heapPages, pageNumber, pageSize] at *
  omega

/-- They are behind the same three tables. -/
theorem heapVas_dirs {va : Nat} (member : va ∈ heapVas) : dirs va = dirs heapStart := by
  rw [mem_heapVas] at member
  have same : ∀ {shift}, 21 ≤ shift → tableIdx va shift = tableIdx heapStart shift := by
    intro shift large
    rw [Fin.ext_iff, tableIdx_val, tableIdx_val]
    obtain ⟨k, rfl⟩ : ∃ k, shift = 21 + k := ⟨shift - 21, by omega⟩
    have low : va / 2 ^ 21 = heapStart / 2 ^ 21 := by
      simp only [heapStart, heapEnd, heapSize, heapPages, pageSize] at *
      omega
    rw [Nat.pow_add, ← Nat.div_div_eq_div_mul, low, Nat.div_div_eq_div_mul]
  simp only [dirs, same (show 21 ≤ 39 by decide), same (show 21 ≤ 30 by decide),
    same (show 21 ≤ 21 by decide)]

/-- **The cost of pages of the heap**: one each, and three for the tables. -/
theorem heap_need (empty : s.table [tableIdx heapStart 39] = none) {vas : List Nat}
    (some : vas ≠ []) (inside : ∀ va ∈ vas, va ∈ heapVas) : mapNeed s vas = vas.length + 3 := by
  have all : missing s vas = (dirs heapStart).toFinset := by
    ext q
    rw [mem_missing, List.mem_toFinset]
    constructor
    · rintro ⟨⟨va, member, below⟩, -⟩
      rwa [← heapVas_dirs (inside va member)]
    · intro below
      obtain ⟨va, rest, rfl⟩ := List.exists_cons_of_ne_nil some
      refine ⟨⟨va, List.mem_cons_self, ?_⟩, ?_⟩
      · rwa [heapVas_dirs (inside va List.mem_cons_self)]
      · by_contra there
        have up : ∀ {i}, s.table [tableIdx heapStart 39, i] ≠ none → False := fun there =>
          table_above (p := [tableIdx heapStart 39]) there empty
        simp only [dirs, List.mem_cons, List.not_mem_nil, or_false] at below
        rcases below with rfl | rfl | rfl
        · exact there empty
        · exact up there
        · exact up (table_above (p := [tableIdx heapStart 39, tableIdx heapStart 30]) there)
  have three : (dirs heapStart).toFinset.card = 3 := by decide
  rw [mapNeed, all, three]

theorem length_heapVas : heapVas.length = heapPages := by
  rw [heapVas, pagesBetween, List.length_map, List.length_range]
  decide

theorem nodup_heapVas : heapVas.Nodup := by
  refine List.Nodup.map (fun j k same => ?_) List.nodup_range
  simp only [pageSize] at same
  omega

/-- The first of them. -/
theorem heapVas_cons : ∃ rest, heapVas = heapStart :: rest :=
  ⟨_, pagesBetween_cons (by decide)⟩

/-! ### The heap -/

/-- The page tables before `heap_init`: nothing is behind the entry of the heap. -/
structure BeforeHeap (s : Vmm) : Prop where
  tree : PageTree Entry s
  null : Taken s 0
  empty : s.table [tableIdx heapStart 39] = none

/-- The entry itself is empty. -/
theorem BeforeHeap.slot (before : BeforeHeap s) :
    slot 0 (s.mem s.root (tableIdx heapStart 39)) = .empty := by
  by_cases absent : s.mem s.root (tableIdx heapStart 39) &&& vmmPresent = 0
  · exact slot_absent absent
  · have link := slot_dir (d := 0) (by decide) absent
    have there : s.table [tableIdx heapStart 39] = some _ :=
      reach_link (p := []) (show s.table [] = some s.root from rfl) link
    rw [before.empty] at there
    cases there

/-- Nothing is mapped there. -/
theorem BeforeHeap.unmapped (before : BeforeHeap s) {va : Nat} (member : va ∈ heapVas) :
    pageAt s (path va) = none := by
  have top : tableIdx va 39 = tableIdx heapStart 39 :=
    (List.cons.inj (List.cons.inj (heapVas_dirs member)).1).1
  rw [pageAt, path, walk, top, before.slot, Option.map_none]

/-- So all that is there may be written. -/
theorem BeforeHeap.links (before : BeforeHeap s) :
    LinksWritable (tableIdx heapStart 39) s := by
  intro q h j at_q below some
  exfalso
  cases q with
  | nil =>
      obtain rfl := Option.some.inj at_q
      rw [List.nil_append, List.cons_prefix_cons] at below
      rw [← below.1] at some
      exact some before.slot
  | cons i rest =>
      rw [List.cons_append, List.cons_prefix_cons] at below
      have split : s.table ([i] ++ rest) = _ :=
        reach_append (m := s.mem) (d := 0) (f := s.root) (p := [i]) (q := rest)
      rw [show reach Flyos.slot s.mem 0 s.root [i] = none from below.1 ▸ before.empty] at split
      exact absurd (at_q.symm.trans split) (Option.some_ne_none h)

/-- **Pages for all**: the heap is there. -/
theorem heapInitAt_covered (before : BeforeHeap s) (room : heapPages + 3 ≤ freePages s.pmm) :
    ∃ t, heapInitAt s = some t ∧ HeapCovered s t := by
  have links := heapRun_links before.tree before.links heapVas
  rcases heapPage_fresh.run heapVas (Mapped.refl before.tree) before.null with
    ⟨-, mapped⟩ | ⟨done, va, sub, short, -⟩
  swap
  · -- no part of the pages costs more than all
    rw [List.nil_append] at sub
    rw [heap_need before.empty (by simp) fun w mem => sub.subset mem] at short
    have := sub.length_le
    rw [length_heapVas] at this
    omega
  rw [List.nil_append] at mapped
  rw [heapInitAt, heapInitMap_eq, Option.bind_some]
  generalize (runPages heapPage heapVas s).2 = t at *
  have first : heapStart ∈ heapVas := by
    obtain ⟨rest, eq⟩ := heapVas_cons
    rw [eq]
    exact List.mem_cons_self
  obtain ⟨f, found, -, -, data⟩ := mapped.frame heapStart first
  obtain ⟨u, stored, keeps, tables, pmm, kept, size⟩ := head_stored mapped.tree found data
  refine ⟨u, stored, heapSize, size, fun a low => ?_⟩
  obtain ⟨member, here⟩ := heapVas_page low
  obtain ⟨g, at_g, -, fresh, clear⟩ := mapped.frame _ member
  have mapped_a : pageAt u (path (heapStart + a)) = some g := by
    rw [here, keeps.pages]
    exact at_g
  refine ⟨g, mapped_a, ⟨fresh.1, ?_⟩, fun q at_q => clear q ((tables q).symm.trans at_q), ?_,
    fun b low' same => ?_⟩
  · rw [Taken, pmm]
    exact fresh.2
  · refine LinksWritable.writeMay (fun q h j at_q below some => ?_) (by rw [mapped_a]; simp)
    rw [tables] at at_q
    rw [kept h fun eq => data q (eq ▸ at_q)] at some ⊢
    have top : tableIdx (heapStart + a) 39 = tableIdx heapStart 39 := by
      rw [(List.cons.inj here).1]
      exact (List.cons.inj (List.cons.inj (heapVas_dirs member)).1).1
    exact links q h j at_q (top ▸ below) some
  · obtain ⟨member', here'⟩ := heapVas_page low'
    rw [here', keeps.pages, ← at_g] at same
    have eq := heapVas_path member' member (mapped.own _ member' _ member same)
    simp only [pageSize] at eq ⊢
    omega

/-- **Not a page**: `heap_init` faults at the first block. -/
theorem heapInitAt_faults (before : BeforeHeap s) (short : freePages s.pmm < 4) :
    heapInitAt s = none := by
  obtain ⟨rest, eq⟩ := heapVas_cons
  have member : heapStart ∈ heapVas := by
    rw [eq]
    exact List.mem_cons_self
  have stuck : Stuck s (runPages heapPage heapVas s).2 [] := by
    rcases heapPage_fresh.cases (Mapped.refl before.tree) before.null heapStart with
      ⟨-, mapped⟩ | ⟨-, stuck⟩
    · have cost := mapped.spent.free
      rw [List.nil_append, heap_need before.empty (by simp) (by simpa using member),
        List.length_singleton] at cost
      omega
    · rw [eq, runPages]
      split
      case isTrue => exact heapPage_fresh.run_stuck stuck before.null rest
      case isFalse => exact stuck
  rw [heapInitAt, heapInitMap_eq, Option.bind_some, Vmm.storeWord, stuck.other _ (by simp),
    before.unmapped member, Option.map_none, Option.bind_none]

/-- **Pages for some**: the heap is not there. -/
theorem heapInitAt_uncovered (before : BeforeHeap s) (some : 4 ≤ freePages s.pmm)
    (short : freePages s.pmm < heapPages + 3) :
    ∃ t, heapInitAt s = Option.some t ∧ ¬ HeapCovered s t := by
  rw [heapInitAt, heapInitMap_eq, Option.bind_some]
  rcases heapPage_fresh.run heapVas (Mapped.refl before.tree) before.null with
    ⟨-, mapped⟩ | ⟨done, va, sub, less, stuck⟩
  · have cost := mapped.spent.free
    rw [List.nil_append, heap_need before.empty (by obtain ⟨rest, eq⟩ := heapVas_cons; simp [eq])
      (fun _ mem => mem), length_heapVas] at cost
    omega
  rw [List.nil_append] at sub
  generalize (runPages heapPage heapVas s).2 = t at *
  have inside : ∀ w ∈ done ++ [va], w ∈ heapVas := fun w mem => sub.subset mem
  have member : va ∈ heapVas := inside va (by simp)
  have first : heapStart ∈ done := by
    obtain ⟨rest, eq⟩ := heapVas_cons
    cases done with
    | nil =>
        rw [heap_need before.empty (by simp) inside] at less
        simp only [List.nil_append, List.length_singleton] at less
        omega
    | cons w ws =>
        rw [eq, List.cons_append, List.cons_prefix_cons] at sub
        rw [sub.1]
        exact List.mem_cons_self
  obtain ⟨f, found, -, data⟩ := stuck.frame heapStart first
  obtain ⟨u, stored, keeps, -, -, -, size⟩ := head_stored stuck.tree found data
  refine ⟨u, stored, ?_⟩
  rintro ⟨n, recorded, covered⟩
  obtain rfl := Option.some.inj (size.symm.trans recorded)
  -- the page that the loop got stuck at is part of the heap
  have later : ∀ w ∈ done, path va ≠ path w := by
    intro w mem same
    obtain rfl := heapVas_path member (inside w (by simp [mem])) same
    have once := sub.sublist.nodup nodup_heapVas
    rw [List.nodup_append] at once
    exact once.2.2 va mem va (List.mem_singleton_self va) rfl
  have bounds := mem_heapVas.mp member
  obtain ⟨g, there, -⟩ := covered (va - heapStart) (by
    simp only [heapEnd] at bounds
    omega)
  rw [show heapStart + (va - heapStart) = va by omega, keeps.pages, stuck.other va later,
    before.unmapped member] at there
  cases there

/-! ## At boot -/

/-- The tables of `boot.S` have nothing there. -/
theorem KernelImage.Holds.beforeHeap {img : KernelImage} {rest : PageTables} {pmm : Pmm}
    (holds : img.Holds rest pmm) : BeforeHeap (img.boot rest pmm).vmm where
  tree := img.tree_boot rest holds
  null := holds.null
  empty := by
    by_contra there
    obtain ⟨f, at_q⟩ := Option.ne_none_iff_exists'.mp there
    rcases img.table_boot rest pmm at_q with ⟨eq, -⟩ | ⟨eq, -⟩ | ⟨eq, -⟩
    · cases eq
    · exact absurd (List.cons.inj eq).1 (by decide)
    · cases (List.cons.inj eq).2

/-- **When the heap is there**: from `heap_init` on, every address of the heap that the first
block describes is mapped and may be written, exactly when there were pages for all of it and the
three tables; or so few that `heap_init` faults.  The loop maps page after page and stops at the
first that it does not get, and the first block is written with its full size all the same.  What
has to be there is a page for each page of the heap and three page tables. -/
theorem heapInit_covered {img : KernelImage} {rest : PageTables} {pmm : Pmm}
    (holds : img.Holds rest pmm) :
    (∀ t, heapInitAt (img.boot rest pmm).vmm = some t →
        HeapCovered (img.boot rest pmm).vmm t) ↔
      freePages pmm < 4 ∨ 515 ≤ freePages pmm := by
  have before := holds.beforeHeap
  constructor
  · intro covers
    by_contra between
    rw [not_or, not_lt, not_le] at between
    obtain ⟨t, ran, fails⟩ := heapInitAt_uncovered before between.1 between.2
    exact fails (covers t ran)
  · rintro (short | room) t ran
    · rw [heapInitAt_faults before short] at ran
      cases ran
    · obtain ⟨u, ran', covered⟩ := heapInitAt_covered before room
      obtain rfl := Option.some.inj (ran'.symm.trans ran)
      exact covered

/-- `pages` pages of memory, of which those above 8 MiB are free. -/
def eighthUsed (pages : Nat) : Pmm := { ninthFree with totalPages := pages }

theorem freePages_eighthUsed {pages : Nat} (large : 0x800 ≤ pages) :
    freePages (eighthUsed pages) = pages - 0x800 := by
  have used : (eighthUsed pages).used = Finset.range 0x800 := by
    ext k
    rw [Pmm.mem_used, show (eighthUsed pages).bitmap = ninthFree.bitmap from rfl, ninthFree_bits,
      decide_eq_true_iff, Finset.mem_range]
    exact and_iff_right_of_imp fun low => low.trans_le large
  rw [freePages, used, Finset.card_range]
  rfl

/-- With 12 MiB of memory the heap is there. -/
theorem heapInit_covered_twelve :
    515 ≤ freePages (eighthUsed 0xC00) ∧
      ∀ t, heapInitAt (smallImage.boot (fun _ _ => 0) (eighthUsed 0xC00)).vmm = some t →
        HeapCovered (smallImage.boot (fun _ _ => 0) (eighthUsed 0xC00)).vmm t := by
  have room : 515 ≤ freePages (eighthUsed 0xC00) := by
    rw [freePages_eighthUsed (by decide)]
    decide
  refine ⟨room, (heapInit_covered ⟨⟨by decide, by decide⟩, fun k reserved inside => ?_⟩).mpr
    (.inr room)⟩
  rw [show (smallImage.boot (fun _ _ => 0) (eighthUsed 0xC00)).vmm.pmm.bitmap =
    ninthFree.bitmap from rfl, ninthFree_bits, decide_eq_true_iff]
  have ends : pageDown 0x800000 = 0x800000 ∧ pageDown smallImage.kernelEnd = 0x203000 := by
    decide
  rw [Nat.mul_div_cancel k (by decide)]
  simp only [Reserves, ends, pageSize] at reserved
  omega

/-- **With 9 MiB it is not**, and `heap_init` does not say so. -/
theorem heapInit_uncovered :
    pmmInit nineMiB 0x400000 KernelImage.kernelStart smallImage.kernelEnd = some ninthFree ∧
      ∃ t, heapInitAt smallMachine.vmm = some t ∧ ¬ HeapCovered smallMachine.vmm t := by
  have holds := smallImage.holds_boot (fun _ _ => 0) (by decide) ninthFree_start
  have free : freePages ninthFree = 0x100 := freePages_eighthUsed (by decide)
  refine ⟨ninthFree_start, heapInitAt_uncovered holds.beforeHeap ?_ ?_⟩
  · change 4 ≤ freePages ninthFree
    omega
  · change freePages ninthFree < heapPages + 3
    rw [free]
    decide

end Flyos
