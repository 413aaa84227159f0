import Flyos.Mm.Identity
import Flyos.Mm.Mapped

/-!
# What a program takes to load

`user_load_elf` and `user_setup_stack_at` are loops over lists of pages (`pageLoop_eq`).
When there are as many pages as these take, every page is mapped to a fresh frame
(`loadSegments_mapped`, `userSetupStackAt_mapped`); the bytes of a segment are copied to
the frames of its own pages (`Mapped.copyBytes`).
-/

namespace Flyos

open TableTree

/-! ## Loops over pages -/

/-- The pages of a range. -/
def pagesBetween (first last : Nat) : List Nat :=
  (List.range ((last - first + (pageSize - 1)) / pageSize)).map fun k => first + k * pageSize

theorem mem_pagesBetween {first last va : Nat} :
    va ∈ pagesBetween first last ↔ first ≤ va ∧ va < last ∧ va % pageSize = first % pageSize := by
  rw [pagesBetween, List.mem_map]
  constructor
  · rintro ⟨k, member, rfl⟩
    rw [List.mem_range] at member
    simp only [pageSize] at *
    omega
  · rintro ⟨low, high, aligned⟩
    refine ⟨(va - first) / pageSize, List.mem_range.mpr ?_, ?_⟩
    · simp only [pageSize] at *
      omega
    · simp only [pageSize] at *
      omega

/-- The first page of a range. -/
theorem pagesBetween_cons {first last : Nat} (more : first < last) :
    pagesBetween first last = first :: pagesBetween (first + pageSize) last := by
  have count : (last - first + (pageSize - 1)) / pageSize =
      (last - (first + pageSize) + (pageSize - 1)) / pageSize + 1 := by
    simp only [pageSize]
    omega
  rw [pagesBetween, count, List.range_succ_eq_map, List.map_cons, List.map_map, pagesBetween]
  refine congrArg₂ List.cons (by omega) (List.map_congr_left fun k _ => ?_)
  simp only [Function.comp_apply, pageSize]
  omega

/-- A loop over a list of pages with a body that may end it. -/
def runPages (body : Nat → Vmm → Bool × Vmm) : List Nat → Vmm → Bool × Vmm
  | [], s => (true, s)
  | va :: vas, s => if (body va s).1 then runPages body vas (body va s).2 else (false, (body va s).2)

/-- What every turn keeps. -/
theorem runPages_keeps {P : Vmm → Prop} {body : Nat → Vmm → Bool × Vmm}
    (turn : ∀ va s, P s → P (body va s).2) {vas : List Nat} {s : Vmm} (start : P s) :
    P (runPages body vas s).2 := by
  induction vas generalizing s with
  | nil => exact start
  | cons va vas ih =>
      rw [runPages]
      split
      case isTrue => exact ih (turn va s start)
      case isFalse => exact turn va s start

/-- **The loop over addresses is one over pages.** -/
theorem pageLoop_eq {body : Nat → Vmm → Bool × Vmm} {fuel va last : Nat} {s : Vmm}
    (ends : last + pageSize ≤ 2 ^ 64) (enough : (last - va + (pageSize - 1)) / pageSize < fuel) :
    pageLoop body fuel va last s = some (runPages body (pagesBetween va last) s) := by
  induction fuel generalizing va s with
  | zero => exact absurd enough (Nat.not_lt_zero _)
  | succ fuel ih =>
      rw [pageLoop]
      by_cases more : va < last
      · rw [if_pos more, pagesBetween_cons more, runPages]
        have next : (va + pageSize) % 2 ^ 64 = va + pageSize := Nat.mod_eq_of_lt (by omega)
        dsimp only
        by_cases goes : (body va s).1 = true
        · rw [if_pos goes, if_pos goes, next]
          refine ih ?_
          simp only [pageSize] at *
          omega
        · rw [if_neg goes, if_neg goes]
      · have none : pagesBetween va last = [] := by
          rw [List.eq_nil_iff_forall_not_mem]
          intro w member
          have := mem_pagesBetween.mp member
          omega
        rw [if_neg more, none, runPages]

/-- There are turns for all pages there can be. -/
theorem allPages_enough {va last : Nat} (ends : last + pageSize ≤ 2 ^ 64) :
    (last - va + (pageSize - 1)) / pageSize < allPages := by
  simp only [allPages, pageSize] at *
  omega

variable {s t u : Vmm} {vas vas' : List Nat}

/-- More pages do not cost less. -/
theorem mapNeed_append_le (s : Vmm) (vas vas' : List Nat) :
    mapNeed s vas ≤ mapNeed s (vas ++ vas') := by
  have sub : missing s vas ⊆ missing s (vas ++ vas') := fun q member => by
    obtain ⟨⟨va, mem, below⟩, none⟩ := mem_missing.mp member
    exact mem_missing.mpr ⟨⟨va, List.mem_append_left _ mem, below⟩, none⟩
  have := Finset.card_le_card sub
  rw [mapNeed, mapNeed, List.length_append]
  omega

/-- The pages that are left are enough for the pages to come. -/
theorem Mapped.room (mapped : Mapped s t vas) (room : mapNeed s (vas ++ vas') ≤ freePages s.pmm) :
    mapNeed t vas' ≤ freePages t.pmm := by
  rw [mapped.need] at room
  have := mapped.spent.free
  omega

/-- **A loop** whose turns map fresh frames. -/
theorem runPages_mapped {body : Nat → Vmm → Bool × Vmm}
    (turn : ∀ va s, PageTree Entry s → Taken s 0 → mapNeed s [va] ≤ freePages s.pmm →
      (body va s).1 = true ∧ Mapped s (body va s).2 [va])
    (tree : PageTree Entry s) (null : Taken s 0) (room : mapNeed s vas ≤ freePages s.pmm) :
    (runPages body vas s).1 = true ∧ Mapped s (runPages body vas s).2 vas := by
  induction vas generalizing s with
  | nil => exact ⟨rfl, .refl tree⟩
  | cons va vas ih =>
      obtain ⟨goes, mapped⟩ := turn va s tree null
        ((mapNeed_append_le s [va] vas).trans room)
      obtain ⟨done, more⟩ := ih mapped.tree (mapped.taken 0 null) (mapped.room room)
      rw [runPages, goes, if_pos rfl]
      exact ⟨done, mapped.trans more⟩

/-- The turn of a loop that takes a frame and maps a page to it, and ends without one. -/
structure FreshTurn (body : Nat → Vmm → Bool × Vmm) : Prop where
  ends : ∀ va s, s.allocPage.1 = 0 → body va s = (false, s.allocPage.2)
  maps : ∀ va s, PageTree Entry s → Taken s 0 → s.allocPage.1 ≠ 0 →
    ∃ z flags, Fetched s z s.allocPage.1 ∧ body va s = (true, vmmMap z va s.allocPage.1 flags)

/-- The loader's. -/
theorem elfPage_fresh : FreshTurn elfPage where
  ends := fun va s none => by rw [elfPage]; simp only [none, if_true]
  maps := fun va s tree null page =>
    ⟨_, vmmWritable ||| vmmUser, fetched_zeroed tree null page, by
      rw [elfPage]
      simp only [page, if_false]⟩

/-- With pages enough, the page is mapped. -/
theorem FreshTurn.mapped {body : Nat → Vmm → Bool × Vmm} (turn : FreshTurn body) {va : Nat} (tree : PageTree Entry s)
    (null : Taken s 0) (room : mapNeed s [va] ≤ freePages s.pmm) :
    (body va s).1 = true ∧ Mapped s (body va s).2 [va] := by
  obtain ⟨z, flags, got, eval⟩ := turn.maps va s tree null (page_of_room tree null room)
  rw [eval]
  exact ⟨rfl, got.mapped tree null flags room⟩

/-- A turn of the stack. -/
theorem stackPage_mapped (va : Nat) (tree : PageTree Entry s) (null : Taken s 0)
    (room : mapNeed s [va] ≤ freePages s.pmm) :
    (stackPage va s).1 = true ∧ Mapped s (stackPage va s).2 [va] :=
  ⟨rfl, (fetched_zeroed tree null (page_of_room tree null room)).mapped tree null _ room⟩

/-! ## The bytes of a segment -/

/-- A store in a frame that holds no table. -/
theorem set_data (tree : PageTree Entry s) {f : Nat} (data : ∀ q, s.table q ≠ some f)
    (i : Fin 512) (e : Nat) :
    Keeps s (s.set f i e) ∧ ∀ q, (s.set f i e).table q = s.table q := by
  have grown := Grown.set tree.pmm f i e
  obtain ⟨tree', tables, walks⟩ := tree.of_kept grown.cr3 grown.pmm grown.taken
    fun q h at_q => by
      refine grown.kept h (tree.inUse at_q) ?_
      simpa using fun same : h = f => data q (same ▸ at_q)
  exact ⟨⟨rfl, tree', fun v => congrArg (Option.map physPage) (walks (path v))⟩, tables⟩

/-- A store in a frame that was free and holds no table. -/
theorem Mapped.set {f : Nat} (mapped : Mapped s t vas) (new : ¬ Taken s f)
    (data : ∀ q, t.table q ≠ some f) (i : Fin 512) (e : Nat) : Mapped s (t.set f i e) vas := by
  have grown := Grown.set mapped.tree.pmm f i e
  obtain ⟨⟨-, tree, pages⟩, tables⟩ := set_data mapped.tree data i e
  refine ⟨tree, mapped.cr3, mapped.taken, ?_, ?_, ?_, ⟨mapped.spent.used, mapped.spent.free⟩, ?_,
    ?_, ?_⟩
  · intro g used data'
    rw [grown.kept g (mapped.taken g used) ?_, mapped.kept g used data']
    simpa using fun same : g = f => new (same ▸ used)
  · intro q h at_q
    exact mapped.table q h ((tables q).symm.trans at_q)
  · intro q
    rw [tables, mapped.absent]
  · intro va member
    obtain ⟨g, found, nonzero, fresh, clear⟩ := mapped.frame va member
    exact ⟨g, (pages va).trans found, nonzero, fresh, fun q at_q =>
      clear q ((tables q).symm.trans at_q)⟩
  · intro va member va' member' same
    rw [pages, pages] at same
    exact mapped.own va member va' member' same
  · intro v off
    rw [pages, mapped.other v off]

/-- A byte stored in one of the pages. -/
theorem Mapped.storeByte {va virt : Nat} (mapped : Mapped s t vas) (member : va ∈ vas)
    (here : path virt = path va) (b : UInt8) :
    ∃ t', t.storeByte virt b = some t' ∧ Mapped s t' vas := by
  obtain ⟨f, found, -, fresh, data⟩ := mapped.frame va member
  rw [← here] at found
  exact ⟨_, by rw [Vmm.storeByte, found, Option.map_some], mapped.set fresh.1 data _ _⟩

/-- **The bytes of a segment** go to its pages. -/
theorem Mapped.copyBytes (elf : ByteMemory) {ph : Phdr} (mapped : Mapped s t vas)
    (inside : ∀ k < ph.pFilesz, ∃ va ∈ vas, path ((ph.pVaddr + k) % 2 ^ 64) = path va) :
    ∃ t', copyBytes elf ph t = some t' ∧ Mapped s t' vas := by
  have each : ∀ k ∈ List.range ph.pFilesz, ∃ va ∈ vas, path ((ph.pVaddr + k) % 2 ^ 64) = path va :=
    fun k member => inside k (List.mem_range.mp member)
  rw [Flyos.copyBytes]
  generalize List.range ph.pFilesz = ks at each
  induction ks generalizing t with
  | nil => exact ⟨t, rfl, mapped⟩
  | cons k ks ih =>
      obtain ⟨va, member, here⟩ := each k List.mem_cons_self
      obtain ⟨t', stored, mapped'⟩ :=
        mapped.storeByte member here (elf ((ph.pOffset + k) % 2 ^ 64))
      obtain ⟨t'', copied, mapped''⟩ := ih mapped' fun j mem => each j (List.mem_cons_of_mem _ mem)
      refine ⟨t'', ?_, mapped''⟩
      rw [List.foldlM_cons, stored]
      exact copied

/-! ## Programs -/

/-- The pages of a segment that is loaded. -/
def Phdr.loadPages (ph : Phdr) : List Nat :=
  if ph.pType = ptLoad then pagesBetween ph.pages.1 ph.pages.2 else []

/-- The pages of a program. -/
def loadPages (elf : ByteMemory) : List Nat :=
  (List.range (ePhnum elf)).flatMap fun i => (phdr elf i).loadPages

/-- A segment with no more bytes in the file than in memory, and none of them in the last page
of the addresses. -/
structure Phdr.Fits (ph : Phdr) : Prop where
  filesz : ph.pFilesz ≤ ph.pMemsz
  ends : ph.pVaddr + ph.pMemsz + 0xFFF < 2 ^ 64

/-- Its addresses do not wrap. -/
theorem Phdr.Fits.bounds {ph : Phdr} (fits : ph.Fits) :
    ph.pages = (pageDown ph.pVaddr, pageDown (ph.pVaddr + ph.pMemsz + 0xFFF)) ∧
      pageDown (ph.pVaddr + ph.pMemsz + 0xFFF) + pageSize ≤ 2 ^ 64 := by
  have ends := fits.ends
  refine ⟨?_, ?_⟩
  · rw [Phdr.pages, Nat.mod_eq_of_lt ends]
  · simp only [pageDown, pageSize]
    omega

/-- Its bytes lie in its pages. -/
theorem Phdr.Fits.bytes {ph : Phdr} (fits : ph.Fits) (load : ph.pType = ptLoad) {k : Nat}
    (inside : k < ph.pMemsz) :
    ∃ va ∈ ph.loadPages, path ((ph.pVaddr + k) % 2 ^ 64) = path va := by
  have ends := fits.ends
  refine ⟨pageDown (ph.pVaddr + k), ?_, ?_⟩
  · rw [Phdr.loadPages, if_pos load, fits.bounds.1, mem_pagesBetween]
    simp only [pageDown, pageSize]
    omega
  · rw [path_eq_iff, Nat.mod_eq_of_lt (by omega)]
    simp only [pageNumber, pageDown, pageSize]
    omega

/-- A segment as linkers make it: no more bytes in the file than in memory, below the
stack of a child. -/
structure Phdr.Linked (ph : Phdr) : Prop where
  filesz : ph.pFilesz ≤ ph.pMemsz
  low : ph.pVaddr + ph.pMemsz ≤ childStackBase

theorem Phdr.Linked.fits {ph : Phdr} (linked : ph.Linked) : ph.Fits := by
  have low := linked.low
  simp only [childStackBase] at low
  exact ⟨linked.filesz, by omega⟩

/-- The addresses of a linked segment do not wrap. -/
theorem Phdr.Linked.bounds {ph : Phdr} (linked : ph.Linked) :
    ph.pages = (pageDown ph.pVaddr, pageDown (ph.pVaddr + ph.pMemsz + 0xFFF)) ∧
      pageDown (ph.pVaddr + ph.pMemsz + 0xFFF) + pageSize ≤ 2 ^ 64 :=
  linked.fits.bounds

/-- **Its pages**: aligned, and below the stack. -/
theorem Phdr.Linked.page {ph : Phdr} (linked : ph.Linked) {va : Nat} (member : va ∈ ph.loadPages) :
    va % pageSize = 0 ∧ va < childStackBase := by
  have low := linked.low
  unfold Phdr.loadPages at member
  split at member
  case isTrue =>
    rw [linked.bounds.1, mem_pagesBetween] at member
    simp only [pageDown, pageSize, childStackBase] at *
    omega
  case isFalse => exact absurd member List.not_mem_nil

/-- Its bytes in the file lie in them. -/
theorem Phdr.Linked.bytes {ph : Phdr} (linked : ph.Linked) (load : ph.pType = ptLoad) {k : Nat}
    (inside : k < ph.pFilesz) :
    ∃ va ∈ ph.loadPages, path ((ph.pVaddr + k) % 2 ^ 64) = path va :=
  linked.fits.bytes load (Nat.lt_of_lt_of_le inside linked.filesz)

/-- The loop over some headers and then others. -/
theorem loadSegments_append {elf : ByteMemory} (is js : List Nat) : loadSegments elf (is ++ js) s =
    (loadSegments elf is s).bind fun r =>
      if r.1 then loadSegments elf js r.2 else some (false, r.2) := by
  induction is generalizing s with
  | nil => rfl
  | cons i is ih =>
      rw [List.cons_append, loadSegments, loadSegments, Option.bind_assoc]
      refine congrArg _ (funext fun r => ?_)
      cases r.1 with
      | false => rfl
      | true => exact ih

/-- **A segment is loaded** when there are pages enough. -/
theorem loadSegment_mapped (elf : ByteMemory) {ph : Phdr} (tree : PageTree Entry s)
    (null : Taken s 0) (fits : ph.pType = ptLoad → ph.Fits)
    (room : mapNeed s ph.loadPages ≤ freePages s.pmm) :
    ∃ t, loadSegment elf ph s = some (true, t) ∧ Mapped s t ph.loadPages := by
  rw [loadSegment]
  by_cases load : ph.pType = ptLoad
  · have fits := fits load
    rw [if_neg (not_not.mpr load)]
    have pages : ph.loadPages = pagesBetween ph.pages.1 ph.pages.2 := if_pos load
    have ends : ph.pages.2 + pageSize ≤ 2 ^ 64 := by rw [fits.bounds.1]; exact fits.bounds.2
    rw [pageLoop_eq ends (allPages_enough ends), ← pages, Option.bind_some]
    obtain ⟨done, mapped⟩ := runPages_mapped (fun va s => elfPage_fresh.mapped) tree null room
    obtain ⟨t, copied, mapped'⟩ := mapped.copyBytes elf fun k less =>
      fits.bytes load (Nat.lt_of_lt_of_le less fits.filesz)
    rw [if_pos done, copied]
    exact ⟨t, rfl, mapped'⟩
  · rw [if_pos load, show ph.loadPages = [] from if_neg load]
    exact ⟨s, rfl, .refl tree⟩

/-- **All segments are.** -/
theorem loadSegments_mapped {elf : ByteMemory} {is : List Nat} (tree : PageTree Entry s)
    (null : Taken s 0) (fits : ∀ i ∈ is, (phdr elf i).pType = ptLoad → (phdr elf i).Fits)
    (room : mapNeed s (is.flatMap fun i => (phdr elf i).loadPages) ≤ freePages s.pmm) :
    ∃ t, loadSegments elf is s = some (true, t) ∧
      Mapped s t (is.flatMap fun i => (phdr elf i).loadPages) := by
  induction is generalizing s with
  | nil => exact ⟨s, rfl, .refl tree⟩
  | cons i is ih =>
      rw [List.flatMap_cons] at room ⊢
      obtain ⟨t, one, mapped⟩ := loadSegment_mapped elf tree null
        (fits i List.mem_cons_self) ((mapNeed_append_le s _ _).trans room)
      obtain ⟨u, rest, more⟩ := ih mapped.tree (mapped.taken 0 null)
        (fun j mem => fits j (List.mem_cons_of_mem _ mem)) (mapped.room room)
      refine ⟨u, ?_, mapped.trans more⟩
      rw [loadSegments, one, Option.bind_some, if_pos rfl, rest]

/-- The pages of the stack of a child. -/
def stackPages : List Nat := pagesBetween childStackBase (childStackBase + childStackSize)

end Flyos
