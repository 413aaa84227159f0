import Flyos.Mm.IdentitySpec
import Flyos.Mm.SelfMapped
import Flyos.Task.Exec

/-!
# When an exec is all or nothing

An exec that answers -1 should leave the address space of its caller alone (`Unchanged`),
and one that answers 0 should have mapped every page of the program and of its stack to a
fresh frame of its own (`Loaded`).  The loader gives up when there is no page left, but
what it has mapped until then stays mapped, and `vmm_map` and the loop of the stack do not
report that there is none.  `sysExec_allOrNothing` says when none of this matters
(`ExecFits`).
-/

namespace Flyos

open TableTree

/-! ## What an exec promises -/

/-- A program as the linker scripts make it. -/
structure AppImage (elf : ByteMemory) : Prop where
  magic : elf 0 = 0x7F ∧ elf 1 = 0x45 ∧ elf 2 = 0x4C ∧ elf 3 = 0x46
  entry : eEntry elf ≠ 0
  linked : ∀ i < ePhnum elf, (phdr elf i).pType = ptLoad → (phdr elf i).Linked

/-- The pages of a program and of its stack. -/
def execPages (elf : ByteMemory) : List Nat := loadPages elf ++ stackPages

/-- Every page is translated as before, and the memory in use behind it is the same. -/
structure Unchanged (s s' : Vmm) : Prop where
  pages : ∀ v, pageAt s' (path v) = pageAt s (path v)
  bytes : ∀ v f, pageAt s (path v) = some f → Taken s f → (∀ q, s.table q ≠ some f) →
    s'.mem f = s.mem f

/-- Every page has a fresh frame of its own, and none has page 0. -/
structure Loaded (elf : ByteMemory) (s s' : Vmm) : Prop where
  frame : ∀ va ∈ execPages elf, ∃ f, pageAt s' (path va) = some f ∧ f ≠ 0 ∧ Fresh s s' f
  own : ∀ va ∈ execPages elf, ∀ va' ∈ execPages elf,
    pageAt s' (path va) = pageAt s' (path va') → va = va'

/-- **All or nothing.** -/
def ExecAllOrNothing (elf : ByteMemory) (s : Vmm) (r : Option (Int × ExecState)) : Prop :=
  ∃ s', (r = some (-1, s') ∧ Unchanged s s'.vmm) ∨ (r = some (0, s') ∧ Loaded elf s s'.vmm)

/-! ## The condition -/

/-- Header `i` is the first with pages, and `va` the first of these. -/
structure FirstSegment (elf : ByteMemory) (i va : Nat) (ps : List Nat) : Prop where
  inside : i < ePhnum elf
  before : ∀ j < i, (phdr elf j).loadPages = []
  pages : (phdr elf i).loadPages = va :: ps

/-- The bytes of the segment in the file are those of the memory they are copied to. -/
def InPlace (elf : ByteMemory) (ph : Phdr) (s : Vmm) : Prop :=
  ∀ k < ph.pFilesz, ∃ f, pageAt s (path (ph.address k)) = some f ∧ Taken s f ∧
    (∀ q, s.table q ≠ some f) ∧ byteIn s.mem f (ph.address k) = (ph.byte elf k).toNat

/-- There are so few pages that the loader gives up before it has changed anything: none
at all, or too few to map the first page, and a second one in the same segment, or in
another one when copying the bytes of the first makes no difference. -/
def Starved (elf : ByteMemory) (s : Vmm) : Prop :=
  ∃ i va ps, FirstSegment elf i va ps ∧
    (freePages s.pmm = 0 ∨ freePages s.pmm < mapNeed s [va] ∧
      (ps ≠ [] ∨ InPlace elf (phdr elf i) s ∧
        ∃ j, i < j ∧ j < ePhnum elf ∧ (phdr elf j).loadPages ≠ []))

/-- **The condition.**  There are pages for everything, or the loader gives up in time. -/
def ExecFits (elf : ByteMemory) (s : Vmm) : Prop :=
  mapNeed s (execPages elf) ≤ freePages s.pmm ∨ Starved elf s

/-- The state an exec is called in: where pages of the program or of its stack are mapped, it
is to memory in use that is no table; and page 0, which the loop of the stack clears when there
is no other, is mapped to itself, holds no table, and is none of these pages. -/
structure Orderly (elf : ByteMemory) (s : Vmm) : Prop where
  data : MapsData s (execPages elf)
  zero : ∀ q, s.table q ≠ some 0
  zeroSelf : Translated.Self s 0
  zeroOff : ∀ va ∈ execPages elf, path 0 ≠ path va

variable {elf : ByteMemory} {s t u : Vmm} {i va : Nat} {ps : List Nat}

/-! ## Pages -/

/-- Pages of the lower half with the same indices are the same. -/
theorem page_eq {v w : Nat} (aligned : v % pageSize = 0) (aligned' : w % pageSize = 0)
    (low : v < 2 ^ 47) (low' : w < 2 ^ 47) (same : path v = path w) : v = w := by
  rw [path_eq_iff] at same
  simp only [pageNumber, pageSize] at *
  omega

/-- The pages of a program are aligned, and below the stack. -/
theorem AppImage.page (image : AppImage elf) {v : Nat} (member : v ∈ loadPages elf) :
    v % pageSize = 0 ∧ v < childStackBase := by
  obtain ⟨i, inside, member⟩ := List.mem_flatMap.mp member
  have load : (phdr elf i).pType = ptLoad := by
    by_contra other
    rw [Phdr.loadPages, if_neg other] at member
    exact absurd member List.not_mem_nil
  exact (image.linked i (List.mem_range.mp inside) load).page member

/-- The last page of the stack is none of the program. -/
theorem AppImage.apart (image : AppImage elf) {v : Nat} (member : v ∈ loadPages elf) :
    path 0x7F003000 ≠ path v := by
  intro same
  obtain ⟨aligned, low⟩ := image.page member
  simp only [childStackBase] at low
  have := page_eq (by decide) aligned (by decide) (by omega) same
  omega

/-! ## The loader -/

/-- The headers behind the first with pages. -/
def laterHeaders (elf : ByteMemory) (i : Nat) : List Nat :=
  (List.range (ePhnum elf - (i + 1))).map fun k => i + 1 + k

theorem FirstSegment.range (first : FirstSegment elf i va ps) :
    List.range (ePhnum elf) = List.range i ++ i :: laterHeaders elf i := by
  have count : ePhnum elf = i + 1 + (ePhnum elf - (i + 1)) := by
    have := first.inside
    omega
  conv_lhs => rw [count, List.range_add, List.range_succ]
  rw [laterHeaders, List.append_assoc]
  rfl

/-- The headers before the first with pages load nothing. -/
theorem FirstSegment.nothing (first : FirstSegment elf i va ps) (image : AppImage elf) (s : Vmm)
    {is : List Nat} (below : ∀ j ∈ is, j < i) : loadSegments elf is s = some (true, s) := by
  induction is with
  | nil => rfl
  | cons j is ih =>
      have less := below j List.mem_cons_self
      have one := Phdr.Linked.nothing elf
        (image.linked j (less.trans first.inside)) (first.before j less) s
      rw [loadSegments, one, Option.bind_some, if_pos rfl]
      exact ih fun k mem => below k (List.mem_cons_of_mem _ mem)

/-- The loader from the first page on. -/
theorem FirstSegment.runThrough (first : FirstSegment elf i va ps) (image : AppImage elf)
    (s : Vmm) (later : List Nat) : loadSegments elf (List.range i ++ i :: later) s =
      (loadSegment elf (phdr elf i) s).bind fun r =>
        if r.1 then loadSegments elf later r.2 else some (false, r.2) := by
  rw [loadSegments_append, first.nothing image s fun j mem => List.mem_range.mp mem,
    Option.bind_some, if_pos rfl, loadSegments]

/-- **The loader up to the first page.** -/
theorem FirstSegment.run (first : FirstSegment elf i va ps) (image : AppImage elf) (s : Vmm) :
    loadSegments elf (List.range (ePhnum elf)) s = (loadSegment elf (phdr elf i) s).bind fun r =>
      if r.1 then loadSegments elf (laterHeaders elf i) r.2 else some (false, r.2) := by
  rw [first.range, first.runThrough image]

/-- It is loaded. -/
theorem FirstSegment.load (first : FirstSegment elf i va ps) : (phdr elf i).pType = ptLoad := by
  by_contra other
  have pages := first.pages
  rw [Phdr.loadPages, if_neg other] at pages
  cases pages

/-- A state with the same pages, and the same memory behind them. -/
theorem Unchanged.of_stuck (stuck : Stuck s t [])
    (kept : ∀ f, Taken s f → (∀ q, s.table q ≠ some f) → t.mem f = s.mem f) : Unchanged s t :=
  ⟨fun v => stuck.other v (by simp), fun _ f _ used data => kept f used data⟩

/-- **No page at all**: the loader gives up at once. -/
theorem FirstSegment.empty (first : FirstSegment elf i va ps) (image : AppImage elf)
    (tree : PageTree Entry s) (null : Taken s 0) (empty : freePages s.pmm = 0) :
    ∃ t, loadSegments elf (List.range (ePhnum elf)) s = some (false, t) ∧ Unchanged s t := by
  obtain ⟨eval, keeps, -⟩ := elfPage_fresh.empty tree null empty va
  refine ⟨s.allocPage.2, ?_, keeps.pages, fun _ _ _ _ _ => rfl⟩
  rw [first.run image, loadSegment_eq first.load (image.linked i first.inside first.load),
    first.pages, runPages, eval]
  rfl

/-- Too few pages for the first: the loader goes on, and nothing is mapped. -/
theorem elfPage_short (tree : PageTree Entry s) (null : Taken s 0) (some : 0 < freePages s.pmm)
    (short : freePages s.pmm < mapNeed s [va]) :
    ∃ u, elfPage va s = (true, u) ∧ Stuck s u [] ∧
      ∀ f, Taken s f → (∀ q, s.table q ≠ Option.some f) → u.mem f = s.mem f := by
  obtain ⟨goes, u⟩ := elfPage_fresh.short tree null some short
  exact ⟨_, Prod.ext goes rfl, (Mapped.refl tree).stuck u.keeps u.taken u.table u.empty, u.kept⟩

/-- The headers behind the first with pages are linked. -/
theorem AppImage.later (image : AppImage elf) (i : Nat) :
    ∀ j ∈ laterHeaders elf i, (phdr elf j).pType = ptLoad → (phdr elf j).Linked := by
  intro j mem
  obtain ⟨k, inside, rfl⟩ := List.mem_map.mp mem
  have := List.mem_range.mp inside
  exact image.linked _ (by omega)

/-- Some of them have pages. -/
theorem later_pages : ((laterHeaders elf i).flatMap fun j => (phdr elf j).loadPages) ≠ [] ↔
    ∃ j, i < j ∧ j < ePhnum elf ∧ (phdr elf j).loadPages ≠ [] := by
  rw [Ne, List.flatMap_eq_nil_iff]
  simp only [laterHeaders, List.mem_map, List.mem_range, not_forall]
  constructor
  · rintro ⟨j, ⟨k, inside, rfl⟩, some⟩
    exact ⟨_, by omega, by omega, some⟩
  · rintro ⟨j, after, inside, some⟩
    exact ⟨j, ⟨j - (i + 1), by omega, by omega⟩, some⟩

/-- **A second page in the segment**: the loader gives up there. -/
theorem FirstSegment.second (first : FirstSegment elf i va ps) (image : AppImage elf)
    (tree : PageTree Entry s) (null : Taken s 0) (some : 0 < freePages s.pmm)
    (short : freePages s.pmm < mapNeed s [va]) (second : ps ≠ []) :
    ∃ t, loadSegments elf (List.range (ePhnum elf)) s = Option.some (false, t) ∧
      Unchanged s t := by
  obtain ⟨u, goes, stuck, kept⟩ := elfPage_short tree null some short
  obtain ⟨w, ps, rfl⟩ := List.exists_cons_of_ne_nil second
  obtain ⟨fails, mem, stuck'⟩ := elfPage_fresh.stuck stuck null w
  refine ⟨(elfPage w u).2, ?_, .of_stuck stuck' (by rwa [mem])⟩
  rw [first.run image, loadSegment_eq first.load (image.linked i first.inside first.load),
    first.pages, runPages, goes, if_pos rfl, runPages, fails]
  rfl

/-- The only page of its segment: the bytes are copied, and the loader gives up at the next
page there is. -/
theorem FirstSegment.only (first : FirstSegment elf i va []) (image : AppImage elf)
    (goes : elfPage va s = (true, u)) :
    loadSegments elf (List.range (ePhnum elf)) s = (copyBytes elf (phdr elf i) u).bind fun v =>
      loadSegments elf (laterHeaders elf i) v := by
  rw [first.run image, loadSegment_eq first.load (image.linked i first.inside first.load),
    first.pages, runPages, goes, if_pos rfl, runPages, if_pos rfl, Option.bind_map]
  rfl

/-- Bytes in place are copied without effect when nothing was mapped. -/
theorem InPlace.copied (inPlace : InPlace elf (phdr elf i) s) (stuck : Stuck s u [])
    (kept : ∀ f, Taken s f → (∀ q, s.table q ≠ some f) → u.mem f = s.mem f) :
    copyBytes elf (phdr elf i) u = some u := by
  refine copyBytes_inPlace fun k inside => ?_
  obtain ⟨f, found, used, data, same⟩ := inPlace k inside
  refine ⟨f, (stuck.other _ (by simp)).trans found, ?_⟩
  rw [← same, byteIn, byteIn, kept f used data]

/-- **Bytes in place**: the copy makes no difference. -/
theorem FirstSegment.inPlace (first : FirstSegment elf i va []) (image : AppImage elf)
    (tree : PageTree Entry s) (null : Taken s 0) (some : 0 < freePages s.pmm)
    (short : freePages s.pmm < mapNeed s [va]) (inPlace : InPlace elf (phdr elf i) s)
    (later : ∃ j, i < j ∧ j < ePhnum elf ∧ (phdr elf j).loadPages ≠ []) :
    ∃ t, loadSegments elf (List.range (ePhnum elf)) s = Option.some (false, t) ∧
      Unchanged s t := by
  obtain ⟨u, goes, stuck, kept⟩ := elfPage_short tree null some short
  obtain ⟨t, ends, mem, stuck'⟩ := loadSegments_stuck elf stuck null (image.later i)
  refine ⟨t, ?_, .of_stuck stuck' (by rwa [mem])⟩
  rw [first.only image goes, inPlace.copied stuck kept, Option.bind_some, ends]
  have nonempty := later_pages.mpr later
  rw [List.isEmpty_eq_false_iff.mpr nonempty]

/-- **A starved loader gives up before it has changed anything.** -/
theorem Starved.unchanged (starved : Starved elf s) (image : AppImage elf)
    (tree : PageTree Entry s) (null : Taken s 0) :
    ∃ t, loadSegments elf (List.range (ePhnum elf)) s = some (false, t) ∧ Unchanged s t := by
  obtain ⟨i, va, ps, first, few⟩ := starved
  by_cases empty : freePages s.pmm = 0
  · exact first.empty image tree null empty
  · have some := Nat.pos_of_ne_zero empty
    obtain ⟨short, second | ⟨inPlace, later⟩⟩ := few.resolve_left empty
    · exact first.second image tree null some short second
    · by_cases second : ps = []
      · subst second
        exact first.inPlace image tree null some short inPlace later
      · exact first.second image tree null some short second

/-- **On its way** it has mapped nothing. -/
theorem Starved.nearby (starved : Starved elf s) (image : AppImage elf) (tree : PageTree Entry s)
    (null : Taken s 0) {pre post vas : List Nat} (split : List.range (ePhnum elf) = pre ++ post)
    (ran : loadSegments elf pre s = some (true, t)) : Nearby s t vas := by
  obtain ⟨i, va, ps, first, few⟩ := starved
  have before : ∀ is : List Nat, (∀ j ∈ is, j < i) → loadSegments elf is s = some (true, t) →
      Nearby s t vas := fun is below ran => by
    rw [first.nothing image s below] at ran
    obtain rfl : s = t := (Prod.mk.inj (Option.some.inj ran)).2
    exact .refl tree
  rw [first.range, List.append_eq_append_iff] at split
  rcases split with ⟨is, rfl, rest⟩ | ⟨is, range, -⟩
  swap
  · refine before pre (fun j member => List.mem_range.mp ?_) ran
    rw [range]
    exact List.mem_append_left _ member
  cases is with
  | nil => exact before _ (fun j member => List.mem_range.mp member) (by simpa using ran)
  | cons j later =>
      obtain ⟨rfl, behind⟩ := List.cons.inj rest
      have linked := image.linked i first.inside first.load
      rw [first.runThrough image, loadSegment_eq first.load linked, first.pages, runPages] at ran
      by_cases empty : freePages s.pmm = 0
      · obtain ⟨eval, -⟩ := elfPage_fresh.empty tree null empty va
        rw [eval] at ran
        simp at ran
      obtain ⟨short, enough⟩ := few.resolve_left empty
      obtain ⟨u, goes, stuck, kept⟩ := elfPage_short tree null (Nat.pos_of_ne_zero empty) short
      rw [goes, if_pos rfl] at ran
      cases ps with
      | cons w ps =>
          obtain ⟨fails, -⟩ := elfPage_fresh.stuck stuck null w
          rw [runPages, fails] at ran
          simp at ran
      | nil =>
          obtain ⟨inPlace, -⟩ := enough.resolve_left fun some => some rfl
          rw [runPages, if_pos rfl, inPlace.copied stuck kept, Option.map_some, Option.bind_some,
            if_pos rfl] at ran
          obtain ⟨t', ends, -, stuck'⟩ := loadSegments_stuck elf stuck null fun j member =>
            image.later i j (by rw [behind]; exact List.mem_append_left _ member)
          obtain rfl : t' = t := (Prod.mk.inj (Option.some.inj (ends.symm.trans ran))).2
          exact stuck'.nearby (by simp)

/-! ## When there are too few pages -/

/-- An answer of -1. -/
theorem ExecAllOrNothing.unchanged {s' : ExecState} (whole : ExecAllOrNothing elf s (some (-1, s'))) :
    Unchanged s s'.vmm := by
  obtain ⟨s'', ⟨ran, same⟩ | ⟨ran, -⟩⟩ := whole
  · rwa [(Prod.mk.inj (Option.some.inj ran)).2]
  · exact absurd (Prod.mk.inj (Option.some.inj ran)).1 (by decide)

/-- An answer of 0. -/
theorem ExecAllOrNothing.loaded {s' : ExecState} (whole : ExecAllOrNothing elf s (some (0, s'))) :
    Loaded elf s s'.vmm := by
  obtain ⟨s'', ⟨ran, -⟩ | ⟨ran, same⟩⟩ := whole
  · exact absurd (Prod.mk.inj (Option.some.inj ran)).1 (by decide)
  · rwa [(Prod.mk.inj (Option.some.inj ran)).2]

section

variable {apps : List App} {name : Option CString} {app : App} {s : ExecState}

/-- A loader that answers with an entry has gone through. -/
theorem userLoadElf_entry {elf : ByteMemory} {s : Vmm} {r : Nat × Vmm}
    (ran : userLoadElf elf s = some r) (entry : r.1 ≠ 0) :
    ∃ t, loadSegments elf (List.range (ePhnum elf)) s = some (true, t) ∧ r = (eEntry elf, t) := by
  rw [userLoadElf] at ran
  split at ran
  case isTrue =>
    obtain rfl := Option.some.inj ran
    exact absurd rfl entry
  case isFalse =>
    obtain ⟨⟨goes, t⟩, loaded, rfl⟩ := Option.map_eq_some_iff.mp ran
    cases goes with
    | false => exact absurd rfl entry
    | true => exact ⟨t, loaded, rfl⟩

/-- **`SYS_EXEC` through its own page tables** does what it does on frames, when all states
between two segments are near, and page 0 is harmless or not needed. -/
theorem sysExec_translated (found : appsFind apps (name.getD hello) = some app)
    (self : SelfMapped s.vmm (execPages app.elf)) (null : Taken s.vmm 0)
    (near : ∀ pre post, List.range (ePhnum app.elf) = pre ++ post → ∀ t,
      loadSegments app.elf pre s.vmm = some (true, t) → Nearby s.vmm t (execPages app.elf))
    (stack : ∀ t, loadSegments app.elf (List.range (ePhnum app.elf)) s.vmm = some (true, t) →
      mapNeed t stackPages ≤ freePages t.pmm ∨ Orderly app.elf s.vmm) :
    Translated.sysExec apps name s = sysExec apps name s := by
  obtain ⟨same, words⟩ := self.loadSegments_eq null (fun i member va page =>
    List.mem_append_left _ (List.mem_flatMap.mpr ⟨i, member, page⟩)) near
  have loader : Translated.userLoadElf app.elf s.vmm = userLoadElf app.elf s.vmm := by
    rw [Translated.userLoadElf, userLoadElf, same]
  rw [Translated.sysExec, sysExec, found]
  dsimp only
  rw [loader]
  cases ran : userLoadElf app.elf s.vmm with
  | none => rw [Option.bind_none, Option.bind_none]
  | some r =>
      rw [Option.bind_some, Option.bind_some]
      split
      case isTrue => rfl
      case isFalse entry =>
        obtain ⟨t, loaded, rfl⟩ := userLoadElf_entry ran entry
        have here : Nearby s.vmm t (execPages app.elf) :=
          near (List.range (ePhnum app.elf)) [] (List.append_nil _).symm t loaded
        have inside : ∀ va ∈ stackPages, va ∈ execPages app.elf := fun va member =>
          List.mem_append_right _ member
        have stack_eq := self.stack_eq here (words _ loaded) null inside
          ((stack t loaded).imp_right fun orderly =>
            ⟨orderly.zeroSelf, orderly.zeroOff, orderly.zero⟩)
        exact congrArg (Option.map fun vmm =>
          ((0 : Int), (⟨vmm, eEntry app.elf, childStackBase + childStackSize⟩ : ExecState))) stack_eq

/-- The pages of some headers. -/
theorem prefix_pages {pre post : List Nat} (split : List.range (ePhnum elf) = pre ++ post) :
    ∀ va ∈ pre.flatMap fun i => (phdr elf i).loadPages, va ∈ execPages elf := by
  intro va member
  rw [execPages, loadPages, split, List.flatMap_append]
  exact List.mem_append_left _ (List.mem_append_left _ member)

/-- With pages enough, or too few for a change, this is so. -/
theorem ExecFits.translated (fits : ExecFits app.elf s.vmm)
    (found : appsFind apps (name.getD hello) = some app) (image : AppImage app.elf)
    (tree : PageTree Entry s.vmm) (null : Taken s.vmm 0)
    (self : SelfMapped s.vmm (execPages app.elf)) :
    Translated.sysExec apps name s = sysExec apps name s := by
  have linked : ∀ i ∈ List.range (ePhnum app.elf), (phdr app.elf i).pType = ptLoad →
      (phdr app.elf i).Fits :=
    fun i member load => (image.linked i (List.mem_range.mp member) load).fits
  rcases fits with room | starved
  · refine sysExec_translated found self null (fun pre post split t ran => ?_) fun t loaded => ?_
    · have room' := (mapNeed_append_le _ _ _).trans room
      rw [loadPages, split, List.flatMap_append] at room'
      rw [split] at linked
      obtain ⟨u, ran', mapped⟩ := loadSegments_mapped tree null
        (fun i member => linked i (List.mem_append_left _ member))
        ((mapNeed_append_le _ _ _).trans room')
      obtain rfl : u = t := (Prod.mk.inj (Option.some.inj (ran'.symm.trans ran))).2
      exact mapped.nearby (prefix_pages split)
    · obtain ⟨u, ran', mapped⟩ := loadSegments_mapped tree null linked
        ((mapNeed_append_le _ _ _).trans room)
      obtain rfl : u = t := (Prod.mk.inj (Option.some.inj (ran'.symm.trans loaded))).2
      exact .inl (mapped.room room)
  · refine sysExec_translated found self null (fun pre post split t ran =>
      starved.nearby image tree null split ran) fun t loaded => ?_
    obtain ⟨u, ran, -⟩ := starved.unchanged image tree null
    exact absurd (Prod.mk.inj (Option.some.inj (ran.symm.trans loaded))).1 (by decide)

/-- So it is in an orderly state, with any number of pages. -/
theorem Orderly.translated (orderly : Orderly app.elf s.vmm)
    (found : appsFind apps (name.getD hello) = some app) (image : AppImage app.elf)
    (tree : PageTree Entry s.vmm) (null : Taken s.vmm 0)
    (self : SelfMapped s.vmm (execPages app.elf)) :
    Translated.sysExec apps name s = sysExec apps name s := by
  refine sysExec_translated found self null (fun pre post split t ran => ?_) fun t _ => .inr orderly
  have inside := prefix_pages split
  rcases loadSegments_cases (Mapped.refl tree) null
    (fun i member => image.linked i (List.mem_range.mp (split ▸ List.mem_append_left _ member)))
    (fun va member => orderly.data va (inside va member)) ran with
    ⟨-, mapped⟩ | ⟨done, va, sub, -, stuck⟩
  · rw [List.nil_append] at mapped
    exact mapped.nearby inside
  · rw [List.nil_append] at sub
    exact stuck.nearby fun w member => inside w (sub.subset (List.mem_append_left _ member))

end

/-! ## Two machines -/

end Flyos
