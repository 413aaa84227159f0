import Flyos.Mm.MapCost

/-!
# Fresh frames for pages

`Mapped` is what a loop does that maps pages, each to a fresh frame, when there are as many
pages as it takes (`mapNeed`): one for each turn, and one for each table that is missing.
One turn is `mapFresh_mapped`, and loops are put together with `Mapped.trans`.
-/

namespace Flyos

open TableTree

/-- The pages it takes to map fresh pages. -/
def mapNeed (s : Vmm) (vas : List Nat) : Nat := vas.length + (missing s vas).card

variable {s t u : Vmm} {f : Nat} {p : List (Fin 512)} {i : Fin 512}

/-- `t` is `s` with the pages `vas` mapped, each to a frame of its own. -/
structure Mapped (s t : Vmm) (vas : List Nat) : Prop where
  tree : PageTree Entry t
  cr3 : t.cr3 = s.cr3
  taken : ∀ f, Taken s f → Taken t f
  /-- Frames in use that are no tables are as they were. -/
  kept : ∀ f, Taken s f → (∀ q, s.table q ≠ some f) → t.mem f = s.mem f
  table : ∀ q h, t.table q = some h → s.table q = some h ∨ ¬ Taken s h
  absent : ∀ q, t.table q = none ↔ s.table q = none ∧ ∀ va ∈ vas, q ∉ dirs va
  spent : Spent s t (mapNeed s vas)
  frame : ∀ va ∈ vas, ∃ f, pageAt t (path va) = some f ∧ f ≠ 0 ∧ Fresh s t f ∧
    ∀ q, t.table q ≠ some f
  own : ∀ va ∈ vas, ∀ va' ∈ vas, pageAt t (path va) = pageAt t (path va') → path va = path va'
  other : ∀ v, (∀ va ∈ vas, path v ≠ path va) → pageAt t (path v) = pageAt s (path v)

/-- No pages. -/
theorem Mapped.refl (tree : PageTree Entry s) : Mapped s s [] where
  tree := tree
  cr3 := rfl
  taken := fun _ used => used
  kept := fun _ _ _ => rfl
  table := fun _ _ at_q => .inl at_q
  absent := fun q => ⟨fun none => ⟨none, by simp⟩, fun both => both.1⟩
  spent := ⟨by simp [mapNeed, missing], by simp [mapNeed, missing]⟩
  frame := by simp
  own := by simp
  other := fun _ _ => rfl

/-- **The cost is a sum.** -/
theorem Mapped.need {vas : List Nat} (mapped : Mapped s t vas) (vas' : List Nat) :
    mapNeed s (vas ++ vas') = mapNeed s vas + mapNeed t vas' := by
  have union : missing s (vas ++ vas') = missing s vas ∪ missing t vas' := by
    ext q
    rw [Finset.mem_union, mem_missing, mem_missing, mem_missing, mapped.absent]
    constructor
    · rintro ⟨⟨va, member, below⟩, none⟩
      by_cases first : ∃ va ∈ vas, q ∈ dirs va
      · exact .inl ⟨first, none⟩
      · rcases List.mem_append.mp member with here | there
        · exact absurd ⟨va, here, below⟩ first
        · exact .inr ⟨⟨va, there, below⟩, none, fun w mem on => first ⟨w, mem, on⟩⟩
    · rintro (⟨⟨va, member, below⟩, none⟩ | ⟨⟨va, member, below⟩, none, -⟩)
      · exact ⟨⟨va, List.mem_append_left _ member, below⟩, none⟩
      · exact ⟨⟨va, List.mem_append_right _ member, below⟩, none⟩
  have apart : Disjoint (missing s vas) (missing t vas') := by
    refine Finset.disjoint_left.mpr fun q first second => ?_
    obtain ⟨⟨va, member, below⟩, -⟩ := mem_missing.mp first
    exact ((mapped.absent q).mp (mem_missing.mp second).2).2 va member below
  rw [mapNeed, mapNeed, mapNeed, union, Finset.card_union_of_disjoint apart, List.length_append]
  omega

/-- Pages and more pages.  A page that is mapped again has the later frame. -/
theorem Mapped.trans {vas vas' : List Nat} (mapped : Mapped s t vas) (more : Mapped t u vas') :
    Mapped s u (vas ++ vas') where
  tree := more.tree
  cr3 := more.cr3.trans mapped.cr3
  taken := fun f used => more.taken f (mapped.taken f used)
  kept := fun f used data => by
    rw [more.kept f (mapped.taken f used) fun q at_q => ?_, mapped.kept f used data]
    exact (mapped.table q f at_q).elim (data q) fun free => free used
  table := fun q h at_q => by
    rcases more.table q h at_q with old | free
    · exact mapped.table q h old
    · exact .inr fun used => free (mapped.taken h used)
  absent := fun q => by
    rw [more.absent, mapped.absent, and_assoc]
    simp only [List.mem_append, or_imp, forall_and]
  spent := by
    rw [mapped.need]
    exact mapped.spent.trans more.spent
  frame := fun va member => by
    by_cases again : ∃ w ∈ vas', path va = path w
    · obtain ⟨w, mem, same⟩ := again
      obtain ⟨f, found, nonzero, fresh, data⟩ := more.frame w mem
      exact ⟨f, same ▸ found, nonzero, fresh.mono mapped.taken fun _ used => used, data⟩
    · have mem : va ∈ vas := (List.mem_append.mp member).resolve_right fun mem =>
        again ⟨va, mem, rfl⟩
      obtain ⟨f, found, nonzero, fresh, data⟩ := mapped.frame va mem
      refine ⟨f, ?_, nonzero, fresh.mono (fun _ used => used) more.taken, fun q at_q => ?_⟩
      · rw [more.other va fun w mem same => again ⟨w, mem, same⟩, found]
      · exact (more.table q f at_q).elim (data q) fun free => free fresh.2
  own := fun va member va' member' same => by
    -- a frame of the first part is in use when the second part takes its own
    have apart : ∀ v ∈ vas, ∀ w ∈ vas', (∀ w ∈ vas', path v ≠ path w) →
        pageAt u (path v) ≠ pageAt u (path w) := by
      intro v mem w mem' once same
      obtain ⟨f, found, -, fresh, -⟩ := mapped.frame v mem
      obtain ⟨f', found', -, fresh', -⟩ := more.frame w mem'
      rw [more.other v once, found, found'] at same
      obtain rfl := Option.some.inj same
      exact fresh'.1 fresh.2
    by_cases again : ∃ w ∈ vas', path va = path w <;>
      by_cases again' : ∃ w ∈ vas', path va' = path w
    · obtain ⟨w, mem, eq⟩ := again
      obtain ⟨w', mem', eq'⟩ := again'
      rw [eq, eq'] at same ⊢
      exact more.own w mem w' mem' same
    · obtain ⟨w, mem, eq⟩ := again
      have mem' : va' ∈ vas := (List.mem_append.mp member').resolve_right fun mem =>
        again' ⟨va', mem, rfl⟩
      rw [eq] at same
      exact absurd same.symm (apart va' mem' w mem fun w mem eq => again' ⟨w, mem, eq⟩)
    · obtain ⟨w, mem, eq⟩ := again'
      have mem' : va ∈ vas := (List.mem_append.mp member).resolve_right fun mem =>
        again ⟨va, mem, rfl⟩
      rw [eq] at same
      exact absurd same (apart va mem' w mem fun w mem eq => again ⟨w, mem, eq⟩)
    · have mem : va ∈ vas := (List.mem_append.mp member).resolve_right fun mem =>
        again ⟨va, mem, rfl⟩
      have mem' : va' ∈ vas := (List.mem_append.mp member').resolve_right fun mem =>
        again' ⟨va', mem, rfl⟩
      rw [more.other va fun w mem eq => again ⟨w, mem, eq⟩,
        more.other va' fun w mem eq => again' ⟨w, mem, eq⟩] at same
      exact mapped.own va mem va' mem' same
  other := fun v off => by
    rw [more.other v fun va mem => off va (List.mem_append_right _ mem),
      mapped.other v fun va mem => off va (List.mem_append_left _ mem)]

/-- A store in a table of the last level moves no table. -/
theorem table_set (tree : PageTree Entry s) (at_p : s.table p = some f) (last : p.length = 3)
    (e : Nat) (q : List (Fin 512)) : (s.set f i e).table q = s.table q := by
  have same := (tree.eqOff (e := e) (i := i) at_p).sameOff
  by_cases through : p ++ [i] <+: q
  · -- no table is that deep
    have deep : 3 < q.length := by
      have := through.length_le
      rw [List.length_append, last] at this
      exact this
    have nothing : s.table q = none := by
      by_contra found
      obtain ⟨h, at_q⟩ := Option.ne_none_iff_exists'.mp found
      have := table_depth at_q
      omega
    rw [nothing]
    by_contra found
    obtain ⟨h, at_q⟩ := Option.ne_none_iff_exists'.mp found
    have := table_depth at_q
    omega
  · exact same.reach_eq through

/-- `z` is `s` with the frame `phys` taken, in which anything may be written. -/
structure Fetched (s z : Vmm) (phys : Nat) : Prop where
  grown : Grown s z []
  fresh : Fresh s z phys
  nonnull : phys ≠ 0
  frame : ∃ k, phys = k * pageSize ∧ k < maxPages
  keeps : Keeps s z
  tables : ∀ q, z.table q = s.table q
  spent : Spent s z 1

/-- A frame is taken as it is. -/
theorem fetched_alloc (tree : PageTree Entry s) (null : Taken s 0) (page : s.allocPage.1 ≠ 0) :
    Fetched s s.allocPage.2 s.allocPage.1 := by
  obtain ⟨grown, found, -⟩ := allocPage_grown tree.pmm
  obtain ⟨k, eq, inRange, fresh⟩ := found page
  rcases allocPage_spent tree.pmm null with ⟨none, -⟩ | ⟨-, spent⟩
  · exact absurd none page
  · exact ⟨grown, fresh, page, ⟨k, eq, inRange⟩, (allocPage_spec tree).1, fun _ => rfl, spent⟩

/-- A frame is taken and cleared. -/
theorem fetched_zeroed (tree : PageTree Entry s) (null : Taken s 0) (page : s.allocPage.1 ≠ 0) :
    Fetched s (s.allocPage.2.zeroPage s.allocPage.1) s.allocPage.1 := by
  obtain ⟨fills, new, frame⟩ := fillPage_grown tree.pmm page fun _ => 0
  obtain ⟨tree', tables, walks⟩ := tree.of_kept fills.cr3 fills.pmm fills.taken fun q h at_q =>
    fills.kept h (tree.inUse at_q) (by simp)
  rcases allocPage_spent tree.pmm null with ⟨none, -⟩ | ⟨-, spent⟩
  · exact absurd none page
  · exact ⟨fills, new, page, frame,
      ⟨rfl, tree', fun v => congrArg (Option.map physPage) (walks (path v))⟩, tables,
      ⟨spent.used, spent.free⟩⟩

/-- The tables that are missing are the same. -/
theorem Fetched.missing {z : Vmm} {phys : Nat} (got : Fetched s z phys) (vas : List Nat) :
    missing z vas = missing s vas := by
  ext q
  rw [mem_missing, mem_missing, got.tables]

/-- **A page mapped to a frame just taken**, when there are pages enough. -/
theorem Fetched.mapped {z : Vmm} {phys : Nat} (got : Fetched s z phys) (tree : PageTree Entry s)
    (null : Taken s 0) {va : Nat} (flags : Nat) (room : mapNeed s [va] ≤ freePages s.pmm) :
    Mapped s (vmmMap z va phys flags) [va] := by
  rw [mapNeed, List.length_singleton] at room
  obtain ⟨k, eq, inRange⟩ := got.frame
  have clean : phys < 2 ^ 52 := by
    rw [eq]
    simp only [maxPages, pageSize] at *
    omega
  have whole : phys / pageSize * pageSize = phys := by
    rw [eq, Nat.mul_div_cancel k (by decide)]
  have fresh : ∀ f, Taken s f → f ≠ phys := fun f used same => got.fresh.1 (same ▸ used)
  rcases vmmMap_cases got.keeps.tree (got.grown.taken 0 null) va phys flags with
    ⟨t, pt, makes, at_pt, eval⟩ | ⟨some, fewer, makes, empty⟩
  · rw [got.missing] at makes
    obtain ⟨tree', others, found⟩ := makes.keeps.tree.write (e := pageEntry phys flags)
      (i := tableIdx va 12) at_pt rfl (entry_mapped flags clean)
    rw [show slot 3 (pageEntry phys flags) = _ from slot_mapped flags clean, whole] at found
    have tables' := table_set makes.keeps.tree (i := tableIdx va 12) at_pt rfl (pageEntry phys flags)
    rw [eval]
    have apart : ∀ q h, t.table q = some h → s.table q = some h ∨ ¬ Taken z h := fun q h at_q =>
      (makes.table at_q).imp_left fun old => (got.tables q).symm.trans old
    have taken : ∀ f, Taken s f → Taken t f := fun f used =>
      makes.taken f (got.grown.taken f used)
    refine ⟨tree', makes.keeps.cr3.trans got.grown.cr3, taken,
      fun f used data => ?_, fun q h at_q => ?_, fun q => ?_, ?_, fun w member => ?_,
      fun w member w' member' _ => ?_, fun v off => ?_⟩
    · have unlike : f ≠ pt := fun here => (apart _ _ at_pt).elim
        (fun old => data _ (here ▸ old)) fun free => free (here ▸ got.grown.taken f used)
      rw [show (t.set pt (tableIdx va 12) (pageEntry phys flags)).mem f = t.mem f from
        (Grown.set makes.keeps.tree.pmm pt _ _).kept f (taken f used)
          (by simpa using unlike), makes.kept f (got.grown.taken f used) fun q at_q => ?_]
      · exact got.grown.kept f used (by simp)
      · exact data q ((got.tables q).symm.trans at_q)
    · rw [tables'] at at_q
      exact (apart q h at_q).imp_right fun free used => free (got.grown.taken h used)
    · rw [tables']
      constructor
      · intro none
        have before : s.table q = Option.none := by
          by_contra there
          exact makes.ne_none (by rwa [got.tables q]) none
        refine ⟨before, fun w member below => ?_⟩
        obtain rfl := List.mem_singleton.mp member
        obtain ⟨-, h, at_q, -⟩ := makes.made q (mem_missing.mpr ⟨⟨w, member, below⟩, before⟩)
        rw [none] at at_q
        cases at_q
      · rintro ⟨none, off⟩
        rw [makes.old q fun mem => ?_, got.tables, none]
        obtain ⟨⟨w, member, below⟩, -⟩ := mem_missing.mp mem
        exact off w member below
    · rw [mapNeed, List.length_singleton]
      exact got.spent.trans ⟨makes.spent.used, makes.spent.free⟩
    · obtain rfl := List.mem_singleton.mp member
      refine ⟨phys, found, got.nonnull, ⟨got.fresh.1, makes.taken phys got.fresh.2⟩,
        fun q at_q => ?_⟩
      rw [tables'] at at_q
      exact (apart q phys at_q).elim (fun old => got.fresh.1 (tree.inUse old))
        fun free => free got.fresh.2
    · rw [List.mem_singleton.mp member, List.mem_singleton.mp member']
    · have off := off va (List.mem_singleton_self _)
      rw [others _ (not_prefix_path off), makes.keeps.pages, got.keeps.pages]
  · have more := Finset.card_lt_card fewer
    rw [got.missing] at more
    have free := makes.spent.free
    have free' := got.spent.free
    omega

/-- With pages enough there is one. -/
theorem page_of_room (tree : PageTree Entry s) (null : Taken s 0) {va : Nat}
    (room : mapNeed s [va] ≤ freePages s.pmm) : s.allocPage.1 ≠ 0 := by
  rw [mapNeed, List.length_singleton] at room
  rcases allocPage_spent tree.pmm null with ⟨-, -, empty⟩ | ⟨page, -⟩
  · omega
  · exact page

end Flyos
