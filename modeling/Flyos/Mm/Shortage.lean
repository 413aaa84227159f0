import Flyos.Mm.Loading

/-!
# Running out of pages in the loader

When there are too few pages for a program, the loader maps some of its pages and then is
`Stuck`: there is no page left.  From then on no page of a segment is mapped
(`elfPage_stuck`), but `vmm_map` and the allocation of a stack page fail without notice, so
the bytes of a segment may be copied to what was mapped before, and stack pages are mapped
to page 0 (`stackPage_short`).
-/

namespace Flyos

open TableTree

variable {s t u : Vmm} {vas vas' : List Nat}

/-- What is mapped at the pages is memory in use, and no table. -/
def MapsData (s : Vmm) (vas : List Nat) : Prop :=
  ∀ va ∈ vas, ∀ a, pageAt s (path va) = some a → Taken s a ∧ ∀ q, s.table q ≠ some a

/-- `t` is `s` with some pages mapped to fresh frames, and no page is free. -/
structure Stuck (s t : Vmm) (vas : List Nat) : Prop where
  tree : PageTree Entry t
  cr3 : t.cr3 = s.cr3
  taken : ∀ f, Taken s f → Taken t f
  table : ∀ q h, t.table q = some h → s.table q = some h ∨ ¬ Taken s h
  frame : ∀ va ∈ vas, ∃ f, pageAt t (path va) = some f ∧ Fresh s t f ∧ ∀ q, t.table q ≠ some f
  other : ∀ v, (∀ va ∈ vas, path v ≠ path va) → pageAt t (path v) = pageAt s (path v)
  empty : freePages t.pmm = 0

/-- Where the tables lead to the same pages, and no page is left. -/
theorem Mapped.stuck (mapped : Mapped s t vas) (keeps : Keeps t u)
    (taken : ∀ f, Taken t f → Taken u f)
    (table : ∀ q h, u.table q = some h → t.table q = some h ∨ ¬ Taken t h)
    (empty : freePages u.pmm = 0) : Stuck s u vas where
  tree := keeps.tree
  cr3 := keeps.cr3.trans mapped.cr3
  taken := fun f used => taken f (mapped.taken f used)
  table := fun q h at_q => by
    rcases table q h at_q with old | free
    · exact mapped.table q h old
    · exact .inr fun used => free (mapped.taken h used)
  frame := fun va member => by
    obtain ⟨f, found, -, fresh, data⟩ := mapped.frame va member
    refine ⟨f, (keeps.pages va).trans found, ⟨fresh.1, taken f fresh.2⟩, fun q at_q => ?_⟩
    exact (table q f at_q).elim (data q) fun free => free fresh.2
  other := fun v off => (keeps.pages v).trans (mapped.other v off)
  empty := empty

/-! ## One page too many -/

/-- An allocation when no page is free. -/
theorem allocPage_empty (tree : PageTree Entry s) (null : Taken s 0)
    (empty : freePages s.pmm = 0) : s.allocPage.1 = 0 ∧ s.allocPage.2.pmm = s.pmm := by
  rcases allocPage_spent tree.pmm null with ⟨none, same, -⟩ | ⟨-, spent⟩
  · exact ⟨none, same⟩
  · have := spent.free
    omega

/-- The state of a call of `vmm_map` that ran out of pages. -/
structure Short (s u : Vmm) : Prop where
  keeps : Keeps s u
  taken : ∀ f, Taken s f → Taken u f
  kept : ∀ f, Taken s f → (∀ q, s.table q ≠ some f) → u.mem f = s.mem f
  table : ∀ q h, u.table q = some h → s.table q = some h ∨ ¬ Taken s h
  empty : freePages u.pmm = 0

/-- **Pages for the frame but not for the tables**: `vmm_map` maps nothing. -/
theorem Fetched.short {z : Vmm} {phys : Nat} (got : Fetched s z phys) (null : Taken s 0)
    {va : Nat} (flags : Nat) (short : freePages s.pmm < mapNeed s [va]) :
    Short s (vmmMap z va phys flags) := by
  rw [mapNeed, List.length_singleton] at short
  rcases vmmMap_cases got.keeps.tree (got.grown.taken 0 null) va phys flags with
    ⟨t, pt, makes, -⟩ | ⟨new, -, makes, empty⟩
  · -- all the tables would have been too many
    have cost := makes.spent.free
    rw [got.missing] at cost
    have := got.spent.free
    omega
  · refine ⟨got.keeps.trans makes.keeps, fun f used => makes.taken f (got.grown.taken f used),
      fun f used data => ?_, fun q h at_q => ?_, empty⟩
    · rw [makes.kept f (got.grown.taken f used) fun q at_q =>
        data q ((got.tables q).symm.trans at_q)]
      exact got.grown.kept f used (by simp)
    · exact (makes.table at_q).imp (fun old => (got.tables q).symm.trans old)
        fun free used => free (got.grown.taken h used)

/-! ## Loops -/

variable {body : Nat → Vmm → Bool × Vmm}

/-- Without a page the loop ends. -/
theorem FreshTurn.empty (turn : FreshTurn body) (tree : PageTree Entry s) (null : Taken s 0)
    (empty : freePages s.pmm = 0) (va : Nat) : body va s = (false, s.allocPage.2) ∧
      Keeps s s.allocPage.2 ∧ s.allocPage.2.pmm = s.pmm := by
  obtain ⟨none, same⟩ := allocPage_empty tree null empty
  exact ⟨turn.ends va s none, (allocPage_spec tree).1, same⟩

/-- With a page but without enough the loop goes on, and nothing is mapped. -/
theorem FreshTurn.short (turn : FreshTurn body) {va : Nat} (tree : PageTree Entry s)
    (null : Taken s 0) (some : 0 < freePages s.pmm) (short : freePages s.pmm < mapNeed s [va]) :
    (body va s).1 = true ∧ Short s (body va s).2 := by
  have page : s.allocPage.1 ≠ 0 := by
    rcases allocPage_spent tree.pmm null with ⟨-, -, empty⟩ | ⟨page, -⟩
    · omega
    · exact page
  obtain ⟨z, flags, got, eval⟩ := turn.maps va s tree null page
  rw [eval]
  exact ⟨rfl, got.short null flags short⟩

/-- **A turn**: the page is mapped, or there is no page left. -/
theorem FreshTurn.cases (turn : FreshTurn body) (mapped : Mapped s t vas) (null : Taken s 0)
    (va : Nat) : ((body va t).1 = true ∧ Mapped s (body va t).2 (vas ++ [va])) ∨
      freePages s.pmm < mapNeed s (vas ++ [va]) ∧ Stuck s (body va t).2 vas := by
  have null' := mapped.taken 0 null
  by_cases room : mapNeed t [va] ≤ freePages t.pmm
  · obtain ⟨goes, more⟩ := turn.mapped mapped.tree null' room
    exact .inl ⟨goes, mapped.trans more⟩
  · have short : freePages s.pmm < mapNeed s (vas ++ [va]) := by
      have sum := mapped.need [va]
      have spent := mapped.spent.free
      omega
    refine .inr ⟨short, ?_⟩
    by_cases empty : freePages t.pmm = 0
    · obtain ⟨eval, keeps, same⟩ := turn.empty mapped.tree null' empty va
      rw [eval]
      exact mapped.stuck keeps (fun f used => by rwa [Taken, same]) (fun q h at_q => .inl at_q)
        (by rw [same, empty])
    · obtain ⟨-, u⟩ := turn.short mapped.tree null' (Nat.pos_of_ne_zero empty) (not_le.mp room)
      exact mapped.stuck u.keeps u.taken u.table u.empty

/-- **Stuck, no page is mapped.** -/
theorem FreshTurn.stuck (turn : FreshTurn body) (stuck : Stuck s t vas) (null : Taken s 0)
    (va : Nat) : (body va t).1 = false ∧ (body va t).2.mem = t.mem ∧
      Stuck s (body va t).2 vas := by
  obtain ⟨eval, keeps, same⟩ := turn.empty stuck.tree (stuck.taken 0 null) stuck.empty va
  rw [eval]
  refine ⟨rfl, rfl, keeps.tree, keeps.cr3.trans stuck.cr3, fun f used => ?_, stuck.table,
    fun w member => ?_, fun v off => (keeps.pages v).trans (stuck.other v off), ?_⟩
  · rw [Taken, same]
    exact stuck.taken f used
  · obtain ⟨f, found, fresh, data⟩ := stuck.frame w member
    refine ⟨f, (keeps.pages w).trans found, ⟨fresh.1, ?_⟩, data⟩
    rw [Taken, same]
    exact fresh.2
  · rw [same, stuck.empty]

/-- Nor does the rest of the loop. -/
theorem FreshTurn.run_stuck (turn : FreshTurn body) (stuck : Stuck s t vas) (null : Taken s 0)
    (ps : List Nat) : Stuck s (runPages body ps t).2 vas := by
  cases ps with
  | nil => exact stuck
  | cons w ps =>
      obtain ⟨fails, -, stuck'⟩ := turn.stuck stuck null w
      rw [runPages, fails]
      exact stuck'

/-- **A loop**: all pages are mapped, or it gets stuck before one of them. -/
theorem FreshTurn.run (turn : FreshTurn body) (ps : List Nat) (mapped : Mapped s t vas)
    (null : Taken s 0) :
    ((runPages body ps t).1 = true ∧ Mapped s (runPages body ps t).2 (vas ++ ps)) ∨
      ∃ done va, done ++ [va] <+: vas ++ ps ∧ freePages s.pmm < mapNeed s (done ++ [va]) ∧
        Stuck s (runPages body ps t).2 done := by
  induction ps generalizing t vas with
  | nil => exact .inl ⟨rfl, by rwa [List.append_nil]⟩
  | cons va ps ih =>
      rw [runPages]
      rcases turn.cases mapped null va with ⟨goes, more⟩ | ⟨short, stuck⟩
      · rw [if_pos goes]
        rcases ih more with ⟨done, all⟩ | ⟨done, w, sub, short, stuck⟩
        · exact .inl ⟨done, by rwa [List.append_assoc] at all⟩
        · exact .inr ⟨done, w, by rwa [List.append_assoc vas] at sub, short, stuck⟩
      · refine .inr ⟨vas, va, ?_, short, ?_⟩
        · exact ⟨ps, by rw [List.append_assoc]; rfl⟩
        · split
          case isFalse => exact stuck
          case isTrue => exact turn.run_stuck stuck null ps

/-! ## Segments -/

/-- A store in memory that is no table. -/
theorem Stuck.set {f : Nat} (stuck : Stuck s t vas) (data : ∀ q, t.table q ≠ some f)
    (i : Fin 512) (e : Nat) : Stuck s (t.set f i e) vas := by
  obtain ⟨⟨-, tree, pages⟩, tables⟩ := set_data stuck.tree data i e
  refine ⟨tree, stuck.cr3, stuck.taken, fun q h at_q => ?_, fun va member => ?_, fun v off => ?_,
    stuck.empty⟩
  · exact stuck.table q h ((tables q).symm.trans at_q)
  · obtain ⟨g, found, fresh, clear⟩ := stuck.frame va member
    exact ⟨g, (pages va).trans found, fresh, fun q at_q => clear q ((tables q).symm.trans at_q)⟩
  · rw [pages, stuck.other v off]

/-- What is mapped at the pages of a program is no table. -/
theorem Stuck.data {all : List Nat} (stuck : Stuck s t vas) (maps : MapsData s all) {va f : Nat}
    (member : va ∈ all) (found : pageAt t (path va) = some f) (q : List (Fin 512)) :
    t.table q ≠ some f := by
  by_cases fresh : ∃ w ∈ vas, path va = path w
  · obtain ⟨w, mem, same⟩ := fresh
    obtain ⟨g, at_w, -, clear⟩ := stuck.frame w mem
    rw [same, at_w] at found
    exact Option.some.inj found ▸ clear q
  · rw [stuck.other va fun w mem same => fresh ⟨w, mem, same⟩] at found
    obtain ⟨used, clear⟩ := maps va member f found
    exact fun at_q => (stuck.table q f at_q).elim (clear q) fun free => free used

/-- **The bytes of a segment** may be copied when the loader is stuck. -/
theorem Stuck.copyBytes {elf : ByteMemory} {ph : Phdr} {all : List Nat} (stuck : Stuck s t vas)
    (maps : MapsData s all)
    (inside : ∀ k < ph.pFilesz, ∃ va ∈ all, path ((ph.pVaddr + k) % 2 ^ 64) = path va)
    (copied : copyBytes elf ph t = some u) : Stuck s u vas := by
  have each : ∀ k ∈ List.range ph.pFilesz, ∃ va ∈ all, path ((ph.pVaddr + k) % 2 ^ 64) = path va :=
    fun k member => inside k (List.mem_range.mp member)
  rw [Flyos.copyBytes] at copied
  generalize List.range ph.pFilesz = ks at each copied
  induction ks generalizing t with
  | nil => exact Option.some.inj copied ▸ stuck
  | cons k ks ih =>
      rw [List.foldlM_cons, Option.bind_eq_bind, Option.bind_eq_some_iff] at copied
      obtain ⟨t', stored, rest⟩ := copied
      obtain ⟨f, found, rfl⟩ := Option.map_eq_some_iff.mp stored
      obtain ⟨va, member, here⟩ := each k List.mem_cons_self
      rw [here] at found
      exact ih (stuck.set (stuck.data maps member found) _ _)
        (fun j mem => each j (List.mem_cons_of_mem _ mem)) rest

/-- A segment without pages has no bytes. -/
theorem Phdr.Linked.nothing (elf : ByteMemory) {ph : Phdr}
    (linked : ph.pType = ptLoad → ph.Linked) (none : ph.loadPages = []) (s : Vmm) :
    loadSegment elf ph s = some (true, s) := by
  rw [loadSegment]
  by_cases load : ph.pType = ptLoad
  · have linked := linked load
    have pages : ph.loadPages = pagesBetween ph.pages.1 ph.pages.2 := if_pos load
    have ends : ph.pages.2 + pageSize ≤ 2 ^ 64 := by rw [linked.bounds.1]; exact linked.bounds.2
    have bytes : ph.pFilesz = 0 := by
      by_contra positive
      obtain ⟨va, member, -⟩ := linked.bytes load (Nat.pos_of_ne_zero positive)
      rw [none] at member
      exact absurd member List.not_mem_nil
    rw [if_neg (not_not.mpr load), pageLoop_eq ends (allPages_enough ends), ← pages, none,
      Option.bind_some, runPages, if_pos rfl, copyBytes, bytes]
    rfl
  · rw [if_pos load]

/-- A segment, as a loop over its pages and the copy of its bytes. -/
theorem loadSegment_eq {elf : ByteMemory} {ph : Phdr} (load : ph.pType = ptLoad)
    (linked : ph.Linked) (s : Vmm) : loadSegment elf ph s =
      if (runPages elfPage ph.loadPages s).1 then
        (copyBytes elf ph (runPages elfPage ph.loadPages s).2).map fun s => (true, s)
      else some (false, (runPages elfPage ph.loadPages s).2) := by
  have pages : ph.loadPages = pagesBetween ph.pages.1 ph.pages.2 := if_pos load
  have ends : ph.pages.2 + pageSize ≤ 2 ^ 64 := by rw [linked.bounds.1]; exact linked.bounds.2
  rw [loadSegment, if_neg (not_not.mpr load), pageLoop_eq ends (allPages_enough ends), ← pages,
    Option.bind_some]

/-- **Stuck, a segment with pages ends the loader.** -/
theorem loadSegment_stuck (elf : ByteMemory) {ph : Phdr} (stuck : Stuck s t vas)
    (null : Taken s 0) (linked : ph.pType = ptLoad → ph.Linked) :
    ∃ t', loadSegment elf ph t = some (ph.loadPages.isEmpty, t') ∧ t'.mem = t.mem ∧
      Stuck s t' vas := by
  cases pages : ph.loadPages with
  | nil => exact ⟨t, Phdr.Linked.nothing elf linked pages t, rfl, stuck⟩
  | cons va ps =>
      have load : ph.pType = ptLoad := by
        by_contra other
        rw [Phdr.loadPages, if_neg other] at pages
        cases pages
      obtain ⟨fails, mem, stuck'⟩ := elfPage_fresh.stuck stuck null va
      refine ⟨_, ?_, mem, stuck'⟩
      rw [loadSegment_eq load (linked load), pages, runPages, fails]
      rfl

/-- So do the segments: with no pages left, the loader ends at the first that has some. -/
theorem loadSegments_stuck (elf : ByteMemory) {is : List Nat} (stuck : Stuck s t vas)
    (null : Taken s 0) (linked : ∀ i ∈ is, (phdr elf i).pType = ptLoad → (phdr elf i).Linked) :
    ∃ t', loadSegments elf is t =
        some ((is.flatMap fun i => (phdr elf i).loadPages).isEmpty, t') ∧ t'.mem = t.mem ∧
      Stuck s t' vas := by
  induction is generalizing t with
  | nil => exact ⟨t, rfl, rfl, stuck⟩
  | cons i is ih =>
      obtain ⟨t', one, mem, stuck'⟩ := loadSegment_stuck elf stuck null
        (linked i List.mem_cons_self)
      rw [loadSegments, one, Option.bind_some, List.flatMap_cons]
      cases pages : (phdr elf i).loadPages with
      | nil =>
          rw [List.nil_append, ← mem]
          exact ih stuck' fun j later => linked j (List.mem_cons_of_mem _ later)
      | cons va ps => exact ⟨t', rfl, mem, stuck'⟩

/-- **A segment** is loaded, or the loader gets stuck in it. -/
theorem loadSegment_cases {elf : ByteMemory} {ph : Phdr} {r : Bool × Vmm}
    (mapped : Mapped s t vas) (null : Taken s 0) (linked : ph.pType = ptLoad → ph.Linked)
    (maps : MapsData s ph.loadPages) (ran : loadSegment elf ph t = some r) :
    (r.1 = true ∧ Mapped s r.2 (vas ++ ph.loadPages)) ∨
      ∃ done va, done ++ [va] <+: vas ++ ph.loadPages ∧
        freePages s.pmm < mapNeed s (done ++ [va]) ∧ Stuck s r.2 done := by
  by_cases load : ph.pType = ptLoad
  · have linked := linked load
    rw [loadSegment_eq load linked] at ran
    rcases elfPage_fresh.run ph.loadPages mapped null with
      ⟨goes, more⟩ | ⟨done, va, sub, short, stuck⟩
    · obtain ⟨t', copied, more'⟩ := more.copyBytes elf fun k inside => by
        obtain ⟨va, member, here⟩ := linked.bytes load inside
        exact ⟨va, List.mem_append_right _ member, here⟩
      rw [if_pos goes, copied] at ran
      obtain rfl := Option.some.inj ran
      exact .inl ⟨rfl, more'⟩
    · refine .inr ⟨done, va, sub, short, ?_⟩
      split at ran
      case isTrue =>
        obtain ⟨u, copied, rfl⟩ := Option.map_eq_some_iff.mp ran
        exact stuck.copyBytes maps (fun k => linked.bytes load) copied
      case isFalse => exact Option.some.inj ran ▸ stuck
  · rw [loadSegment, if_pos load] at ran
    obtain rfl := Option.some.inj ran
    rw [show ph.loadPages = [] from if_neg load, List.append_nil]
    exact .inl ⟨rfl, mapped⟩

/-- **The segments** are loaded, or the loader gets stuck in one of them. -/
theorem loadSegments_cases {elf : ByteMemory} {is : List Nat} {r : Bool × Vmm}
    (mapped : Mapped s t vas) (null : Taken s 0)
    (linked : ∀ i ∈ is, (phdr elf i).pType = ptLoad → (phdr elf i).Linked)
    (maps : MapsData s (is.flatMap fun i => (phdr elf i).loadPages))
    (ran : loadSegments elf is t = some r) :
    (r.1 = true ∧ Mapped s r.2 (vas ++ is.flatMap fun i => (phdr elf i).loadPages)) ∨
      ∃ done va, done ++ [va] <+: (vas ++ is.flatMap fun i => (phdr elf i).loadPages) ∧
        freePages s.pmm < mapNeed s (done ++ [va]) ∧ Stuck s r.2 done := by
  induction is generalizing t vas with
  | nil =>
      obtain rfl := Option.some.inj ran
      exact .inl ⟨rfl, by rwa [List.flatMap_nil, List.append_nil]⟩
  | cons i is ih =>
      rw [List.flatMap_cons] at maps ⊢
      obtain ⟨v, one, rest⟩ := Option.bind_eq_some_iff.mp ran
      have linked' : ∀ j ∈ is, (phdr elf j).pType = ptLoad → (phdr elf j).Linked :=
        fun j mem => linked j (List.mem_cons_of_mem _ mem)
      rcases loadSegment_cases mapped null (linked i List.mem_cons_self)
        (fun va mem => maps va (List.mem_append_left _ mem)) one with
        ⟨goes, more⟩ | ⟨done, va, sub, short, stuck⟩
      · rw [if_pos goes] at rest
        rw [← List.append_assoc]
        exact ih more linked' (fun va mem => maps va (List.mem_append_right _ mem)) rest
      · refine .inr ⟨done, va, ?_, short, ?_⟩
        · rw [← List.append_assoc]
          exact sub.trans (List.prefix_append _ _)
        · split at rest
          case isTrue =>
            obtain ⟨w, ends, -, stuck'⟩ := loadSegments_stuck elf stuck null linked'
            obtain rfl := Option.some.inj (ends.symm.trans rest)
            exact stuck'
          case isFalse => exact Option.some.inj rest ▸ stuck

/-! ## The stack -/

/-- Filling a frame that is no table keeps the tables and the translations. -/
theorem fill_keeps (tree : PageTree Entry s) {f : Nat} (data : ∀ q, s.table q ≠ some f)
    (g : Fin 512 → Nat) :
    Keeps s (s.fillPage f g) ∧ ∀ q, (s.fillPage f g).table q = s.table q := by
  have grown := Grown.fillPage tree.pmm f g
  obtain ⟨tree', tables, walks⟩ := tree.of_kept grown.cr3 grown.pmm grown.taken
    fun q h at_q => by
      refine grown.kept h (tree.inUse at_q) ?_
      simpa using fun same : h = f => data q (same ▸ at_q)
  exact ⟨⟨rfl, tree', fun v => congrArg (Option.map physPage) (walks (path v))⟩, tables⟩

end Flyos
