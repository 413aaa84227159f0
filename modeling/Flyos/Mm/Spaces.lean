import Flyos.Mm.CloneInv
import Flyos.Mm.VmmSpec

/-!
# Many address spaces at once

Address spaces share tables: all that come from one PML4 by `vmm_clone_pml4` have its
tables below the top, and a deep copy has those of the upper half.  A shared table
lies at the same place in every tree it is in (`Spaces.apart`), so a change of one
entry is a change of the same edge in each of them.

`MapStep` is what `vmm_map` does to all the trees, in parts and as a whole
(`vmmMap_mapStep`): no table is moved, new tables are fresh, and no page is translated
differently but the one mapped.
-/

namespace Flyos

open TableTree

/-- The machine in the address space of a PML4. -/
def Vmm.inSpace (s : Vmm) (root : Nat) : Vmm := { s with cr3 := root }

/-- Trees of tables with legal entries, in which a shared table has one place. -/
structure Spaces (s : Vmm) (roots : List Nat) : Prop where
  root : ∀ R ∈ roots, R &&& addrMask = R
  trees : ∀ R ∈ roots, PageTree Entry (s.inSpace R)
  apart : ∀ R ∈ roots, ∀ R' ∈ roots, ∀ p q f, reach slot s.mem 0 R p = some f →
    reach slot s.mem 0 R' q = some f → p = q

theorem Spaces.inSpace_root {s : Vmm} {roots : List Nat} (spaces : Spaces s roots) {R : Nat}
    (member : R ∈ roots) (t : Vmm) : (t.inSpace R).root = R := spaces.root R member

/-- Tables are in use. -/
theorem Spaces.taken {s : Vmm} {roots : List Nat} (spaces : Spaces s roots) {R f : Nat}
    (member : R ∈ roots) {p : List (Fin 512)} (at_p : reach slot s.mem 0 R p = some f) :
    Taken s f := by
  have tree := spaces.trees R member
  exact tree.inUse (show (s.inSpace R).table p = some f by
    rwa [Vmm.table, spaces.inSpace_root member])

/-- **What a step of `vmm_map` does to all trees.** -/
structure MapStep (roots : List Nat) (virt frame : Nat) (s t : Vmm) : Prop where
  cr3 : t.cr3 = s.cr3
  total : t.pmm.totalPages = s.pmm.totalPages
  taken : ∀ f, Taken s f → Taken t f
  spaces : Spaces t roots
  tables : ∀ R ∈ roots, ∀ q h, reach slot t.mem 0 R q = some h →
    reach slot s.mem 0 R q = some h ∨ ¬ Taken s h
  pages : ∀ R ∈ roots, ∀ v, pageAt (t.inSpace R) (path v) = pageAt (s.inSpace R) (path v) ∨
    path v = path virt ∧ pageAt (t.inSpace R) (path v) = some frame

theorem MapStep.trans {roots : List Nat} {virt frame : Nat} {s t u : Vmm}
    (h : MapStep roots virt frame s t) (h' : MapStep roots virt frame t u) :
    MapStep roots virt frame s u where
  cr3 := h'.cr3.trans h.cr3
  total := h'.total.trans h.total
  taken := fun f used => h'.taken f (h.taken f used)
  spaces := h'.spaces
  tables := fun R member q g at_q => by
    rcases h'.tables R member q g at_q with old | new
    · exact h.tables R member q g old
    · exact .inr fun used => new (h.taken g used)
  pages := fun R member v => by
    rcases h'.pages R member v with same | mapped
    · rw [same]
      exact h.pages R member v
    · exact .inr mapped

/-- Where the tables are kept, so is the tree, with all lookups in it. -/
theorem PageTree.of_kept {s t : Vmm} (tree : PageTree Entry s) (cr3 : t.cr3 = s.cr3)
    (ok : t.pmm.Ok) (taken : ∀ f, Taken s f → Taken t f)
    (kept : ∀ q h, s.table q = some h → t.mem h = s.mem h) :
    PageTree Entry t ∧ (∀ q, t.table q = s.table q) ∧
      ∀ is, walk slot t.mem 0 s.root is = walk slot s.mem 0 s.root is := by
  have root : t.root = s.root := by rw [Vmm.root, cr3, Vmm.root]
  have tables : ∀ q, t.table q = s.table q := fun q => by
    rw [Vmm.table, root]
    exact reach_eq_of_tables fun p h _ at_p => kept p h at_p
  refine ⟨⟨fun p q f at_p at_q => ?_, fun {p f} at_p i => ?_, ok, fun {p f} at_p => ?_⟩, tables,
    fun is => walk_eq_of_tables fun p h _ at_p => kept p h at_p⟩
  · exact tree.distinct p q f ((tables p).symm.trans at_p) ((tables q).symm.trans at_q)
  · rw [tables p] at at_p
    rw [kept p f at_p]
    exact tree.entries at_p i
  · exact taken f (tree.inUse ((tables p).symm.trans at_p))

/-- The same in all trees. -/
theorem Spaces.of_kept {roots : List Nat} {s t : Vmm} (spaces : Spaces s roots) (ok : t.pmm.Ok)
    (taken : ∀ f, Taken s f → Taken t f)
    (kept : ∀ R ∈ roots, ∀ q h, reach slot s.mem 0 R q = some h → t.mem h = s.mem h) :
    Spaces t roots ∧ ∀ R ∈ roots,
      (∀ q, reach slot t.mem 0 R q = reach slot s.mem 0 R q) ∧
        ∀ is, walk slot t.mem 0 R is = walk slot s.mem 0 R is := by
  have each : ∀ R ∈ roots, PageTree Entry (t.inSpace R) ∧
      (∀ q, reach slot t.mem 0 R q = reach slot s.mem 0 R q) ∧
      ∀ is, walk slot t.mem 0 R is = walk slot s.mem 0 R is := by
    intro R member
    have at_root := spaces.inSpace_root member
    obtain ⟨tree, tables, walks⟩ := (spaces.trees R member).of_kept (t := t.inSpace R) rfl ok
      taken fun q h at_q => kept R member q h (by rwa [Vmm.table, at_root] at at_q)
    refine ⟨tree, fun q => ?_, fun is => ?_⟩
    · have := tables q
      rwa [Vmm.table, Vmm.table, spaces.inSpace_root member, at_root] at this
    · have := walks is
      rwa [at_root] at this
  refine ⟨⟨spaces.root, fun R member => (each R member).1,
    fun R member R' member' p q f at_p at_q => ?_⟩, fun R member => (each R member).2⟩
  rw [(each R member).2.1] at at_p
  rw [(each R' member').2.1] at at_q
  exact spaces.apart R member R' member' p q f at_p at_q

/-- A step that changes no table. -/
theorem MapStep.quiet {roots : List Nat} {s t : Vmm} (virt frame : Nat) (spaces : Spaces s roots)
    (cr3 : t.cr3 = s.cr3) (ok : t.pmm.Ok) (total : t.pmm.totalPages = s.pmm.totalPages)
    (taken : ∀ f, Taken s f → Taken t f)
    (kept : ∀ R ∈ roots, ∀ q h, reach slot s.mem 0 R q = some h → t.mem h = s.mem h) :
    MapStep roots virt frame s t := by
  obtain ⟨spaces', each⟩ := spaces.of_kept ok taken kept
  refine ⟨cr3, total, taken, spaces', fun R member q h at_q => ?_, fun R member v => .inl ?_⟩
  · rw [(each R member).1] at at_q
    exact .inl at_q
  · rw [pageAt, pageAt, spaces.inSpace_root member, spaces.inSpace_root member]
    exact congrArg (Option.map physPage) ((each R member).2 _)

/-- What a change of one edge does to a tree it is in. -/
structure EdgeStep (virt frame : Nat) (p : List (Fin 512)) (i : Fin 512) (s t : Vmm) : Prop where
  tree : PageTree Entry t
  tables : ∀ q h, t.table q = some h → s.table q = some h ∨ q = p ++ [i] ∧ ¬ Taken s h
  pages : ∀ v, pageAt t (path v) = pageAt s (path v) ∨
    path v = path virt ∧ pageAt t (path v) = some frame

/-- **A change of one entry** changes the trees that have its table, and those in the
same way. -/
theorem MapStep.of_edge {roots : List Nat} {virt frame R₀ f : Nat} {p : List (Fin 512)}
    {i : Fin 512} {s t : Vmm} (spaces : Spaces s roots) (member₀ : R₀ ∈ roots)
    (at_p : reach slot s.mem 0 R₀ p = some f) (grown : Grown s t [f])
    (inTree : ∀ R ∈ roots, reach slot s.mem 0 R p = some f →
      EdgeStep virt frame p i (s.inSpace R) (t.inSpace R)) :
    MapStep roots virt frame s t := by
  -- a tree has the changed table at `p`, or it is as it was
  have each : ∀ R ∈ roots, EdgeStep virt frame p i (s.inSpace R) (t.inSpace R) := by
    intro R member
    by_cases within : reach slot s.mem 0 R p = some f
    · exact inTree R member within
    · have at_root := spaces.inSpace_root member
      obtain ⟨tree, tables, walks⟩ := (spaces.trees R member).of_kept (t := t.inSpace R) rfl
        grown.pmm grown.taken fun q h at_q => by
          rw [Vmm.table, at_root] at at_q
          refine grown.kept h (spaces.taken member at_q) fun same => within ?_
          obtain rfl := List.mem_singleton.mp same
          rwa [← spaces.apart R member R₀ member₀ q p h at_q at_p]
      exact ⟨tree, fun q h at_q => .inl ((tables q).symm.trans at_q),
        fun v => .inl (congrArg (Option.map physPage) (walks _))⟩
  have tables : ∀ R ∈ roots, ∀ q h, reach slot t.mem 0 R q = some h →
      reach slot s.mem 0 R q = some h ∨ q = p ++ [i] ∧ ¬ Taken s h := by
    intro R member q h at_q
    have := (each R member).tables q h (by rwa [Vmm.table, spaces.inSpace_root member])
    rwa [Vmm.table, spaces.inSpace_root member] at this
  refine ⟨grown.cr3, grown.total, grown.taken, ⟨spaces.root, fun R member => (each R member).tree,
    fun R member R' member' q q' h at_q at_q' => ?_⟩, fun R member q h at_q =>
    (tables R member q h at_q).imp_right And.right, fun R member v => (each R member).pages v⟩
  · rcases tables R member q h at_q with old | ⟨rfl, new⟩ <;>
      rcases tables R' member' q' h at_q' with old' | ⟨rfl, new'⟩
    · exact spaces.apart R member R' member' q q' h old old'
    · exact absurd (spaces.taken member old) new'
    · exact absurd (spaces.taken member' old') new
    · rfl

/-! ## The parts of `vmm_map` -/

/-- The frames that are handed out. -/
theorem allocPage_frame {s : Vmm} (ok : s.pmm.Ok) (some : s.allocPage.1 ≠ 0) :
    ∃ k, s.allocPage.1 = k * pageSize ∧ k < maxPages :=
  (fillPage_grown ok some fun _ => 0).2.2

/-- `next_table` writes to its table, and to a fresh one. -/
theorem nextTable_grown {s : Vmm} (ok : s.pmm.Ok) (f : Nat) (i : Fin 512) :
    Grown s (nextTable s f i).2 [f] := by
  rcases nextTable_cases s f i (allocPage_frame ok) with ⟨-, -, eval⟩ | ⟨-, frame, eval⟩ | ⟨-, eval⟩
  · rw [eval]
    exact (allocPage_grown ok).1.weaken (by simp)
  · rw [eval]
    have fills := (fillPage_grown ok frame fun _ => 0).1
    exact fills.trans (.set fills.pmm f i _)
  · rw [eval]
    exact .set ok f i _

/-- `split_huge_pd` too. -/
theorem splitHugePd_grown {s : Vmm} (ok : s.pmm.Ok) (f : Nat) (i : Fin 512) :
    Grown s (splitHugePd s f i).2 [f] := by
  rcases splitHugePd_cases s f i with ⟨-, eval⟩ | ⟨-, -, eval⟩ | ⟨-, frame, eval⟩
  · rw [eval]
    exact .refl ok _
  · rw [eval]
    exact (allocPage_grown ok).1.weaken (by simp)
  · rw [eval]
    have fills := (fillPage_grown ok frame (smallPages (s.mem f i))).1
    exact fills.trans (.set fills.pmm f i _)

/-- `next_table` does not look at CR3. -/
theorem nextTable_inSpace (s : Vmm) (R f : Nat) (i : Fin 512) :
    nextTable (s.inSpace R) f i = ((nextTable s f i).1, (nextTable s f i).2.inSpace R) := by
  unfold nextTable
  simp only [Vmm.inSpace, Vmm.allocPage, Vmm.zeroPage, Vmm.fillPage, Vmm.set]
  split
  · split <;> rfl
  · rfl

/-- Neither does `split_huge_pd`. -/
theorem splitHugePd_inSpace (s : Vmm) (R f : Nat) (i : Fin 512) :
    splitHugePd (s.inSpace R) f i = ((splitHugePd s f i).1, (splitHugePd s f i).2.inSpace R) := by
  by_cases small : s.mem f i &&& vmmHuge = 0
  · rw [splitHugePd, if_pos (show (s.inSpace R).mem f i &&& vmmHuge = 0 from small), splitHugePd,
      if_pos small]
  · rw [splitHugePd, if_neg (show ¬ (s.inSpace R).mem f i &&& vmmHuge = 0 from small),
      splitHugePd, if_neg small]
    by_cases null : s.allocPage.1 = 0
    · rw [if_pos (show (s.inSpace R).allocPage.1 = 0 from null), if_pos null]
      rfl
    · rw [if_neg (show ¬ (s.inSpace R).allocPage.1 = 0 from null), if_neg null]
      rfl

/-- **`next_table` in one tree.** -/
theorem nextTable_edge {s : Vmm} {p : List (Fin 512)} {f : Nat} {i : Fin 512}
    (virt frame : Nat) (tree : PageTree Entry s) (at_p : s.table p = some f)
    (upper : p.length < 3) (small : p.length = 2 → s.mem f i &&& vmmHuge = 0) :
    EdgeStep virt frame p i s (nextTable s f i).2 := by
  obtain ⟨keeps, -⟩ := nextTable_spec (i := i) tree at_p upper small
  have pages : ∀ v, _ ∨ _ := fun v => Or.inl (b := path v = path virt ∧
    pageAt (nextTable s f i).2 (path v) = some frame) (keeps.pages v)
  have root : (nextTable s f i).2.root = s.root := by rw [Vmm.root, keeps.cr3, Vmm.root]
  rcases nextTable_cases s f i (allocPage_frame tree.pmm) with
    ⟨-, -, eval⟩ | ⟨absent, some, eval⟩ | ⟨-, eval⟩
  · rw [eval] at keeps pages ⊢
    exact ⟨keeps.tree, fun q h at_q => .inl at_q, pages⟩
  · obtain ⟨allocated, outcome⟩ := allocPage_spec tree
    obtain ⟨-, -, ⟨k, eq, inRange⟩, fresh, used⟩ :=
      outcome.resolve_left fun failed => some failed.1
    obtain ⟨-, grows⟩ := allocated.tree.grow (i := i) at_p fresh used
      (eq ▸ slot_link inRange upper) (fun j h => by simp)
      (eq ▸ entry_link inRange (eq ▸ some) upper) fun j => entry_zero _
    have new : ¬ Taken s s.allocPage.1 := (fillPage_grown tree.pmm some fun _ => 0).2.1.1
    rw [eval] at keeps pages root ⊢
    refine ⟨keeps.tree, fun q h at_q => ?_, pages⟩
    rw [Vmm.table, root] at at_q
    rcases grows.reach_cases at_p at_q with ⟨rfl, rfl⟩ | old
    · exact .inr ⟨rfl, new⟩
    · exact .inl old
  · obtain ⟨-, tables, -⟩ := tree.or_user (i := i) at_p
    rw [eval] at keeps pages ⊢
    exact ⟨keeps.tree, fun q h at_q => .inl ((tables q).symm.trans at_q), pages⟩

/-- **`split_huge_pd` in one tree.** -/
theorem splitHugePd_edge {s : Vmm} {p : List (Fin 512)} {f : Nat} {i : Fin 512}
    (virt frame : Nat) (tree : PageTree Entry s) (at_p : s.table p = some f)
    (level : p.length = 2) : EdgeStep virt frame p i s (splitHugePd s f i).2 := by
  obtain ⟨keeps, -⟩ := splitHugePd_spec (i := i) tree at_p level
  have pages : ∀ v, _ ∨ _ := fun v => Or.inl (b := path v = path virt ∧
    pageAt (splitHugePd s f i).2 (path v) = some frame) (keeps.pages v)
  have root : (splitHugePd s f i).2.root = s.root := by rw [Vmm.root, keeps.cr3, Vmm.root]
  rcases splitHugePd_cases s f i with ⟨-, eval⟩ | ⟨-, -, eval⟩ | ⟨huge, some, eval⟩
  · rw [eval] at keeps pages ⊢
    exact ⟨keeps.tree, fun q h at_q => .inl at_q, pages⟩
  · rw [eval] at keeps pages ⊢
    exact ⟨keeps.tree, fun q h at_q => .inl at_q, pages⟩
  · obtain ⟨⟨clean, -⟩, -⟩ := tree.entries at_p i
    obtain ⟨allocated, outcome⟩ := allocPage_spec tree
    obtain ⟨-, -, ⟨k, eq, inRange⟩, fresh, used⟩ :=
      outcome.resolve_left fun failed => some failed.1
    obtain ⟨-, grows⟩ := allocated.tree.grow (i := i) (g := smallPages (s.mem f i)) at_p
      fresh used (eq ▸ slot_link inRange (by omega)) (fun j h => slot_bottom (by omega))
      (eq ▸ entry_link inRange (eq ▸ some) (by omega)) fun j => by
        rw [level]
        exact entry_small j clean
    have new : ¬ Taken s s.allocPage.1 :=
      (fillPage_grown tree.pmm some (smallPages (s.mem f i))).2.1.1
    rw [eval] at keeps pages root ⊢
    refine ⟨keeps.tree, fun q h at_q => ?_, pages⟩
    rw [Vmm.table, root] at at_q
    rcases grows.reach_cases at_p at_q with ⟨rfl, rfl⟩ | old
    · exact .inr ⟨rfl, new⟩
    · exact .inl old

/-- **A store in a page table in one tree.** -/
theorem write_edge {s : Vmm} {p : List (Fin 512)} {f e frame : Nat} {i : Fin 512} {virt : Nat}
    (tree : PageTree Entry s) (at_p : s.table p = some f) (last : p.length = 3)
    (on : p ++ [i] = path virt) (legal : Entry 3 e) (leaf : slot 3 e = .leaf frame) :
    EdgeStep virt frame p i s (s.set f i e) := by
  have same := (tree.eqOff (e := e) (i := i) at_p).sameOff
  obtain ⟨tree', others, mapped⟩ := tree.write (i := i) at_p last legal
  refine ⟨tree', fun q h at_q => .inl ?_, fun v => ?_⟩
  · exact same.reach_of_noLink (fun _ _ _ => slot_bottom last.ge) at_q
  · by_cases here : path v = path virt
    · refine .inr ⟨here, ?_⟩
      rw [here, ← on, mapped, leaf]
    · refine .inl (others _ fun through => here ?_)
      rw [← on]
      exact (through.eq_of_length (by simp [path, last])).symm

/-! ## `vmm_map` -/

section

variable {s : Vmm} {roots : List Nat} {f : Nat} {p : List (Fin 512)} {i : Fin 512}

/-- The tables of CR3. -/
theorem Spaces.current (spaces : Spaces s roots) (member : s.cr3 ∈ roots) :
    PageTree Entry s ∧ s.root = s.cr3 :=
  ⟨spaces.trees s.cr3 member, spaces.root s.cr3 member⟩

/-- A change in the tree of CR3 in all trees. -/
theorem MapStep.of_edge_current {virt frame : Nat} {t : Vmm} (spaces : Spaces s roots)
    (member : s.cr3 ∈ roots) (at_p : s.table p = some f) (grown : Grown s t [f])
    (inTree : ∀ R ∈ roots, (s.inSpace R).table p = some f →
      EdgeStep virt frame p i (s.inSpace R) (t.inSpace R)) :
    MapStep roots virt frame s t := by
  refine .of_edge (i := i) spaces member ?_ grown fun R member' within => inTree R member' ?_
  · rwa [Vmm.table, (spaces.current member).2] at at_p
  · rwa [Vmm.table, spaces.inSpace_root member']

/-- `next_table` in all trees. -/
theorem nextTable_mapStep (virt frame : Nat) (spaces : Spaces s roots) (member : s.cr3 ∈ roots)
    (at_p : s.table p = some f) (upper : p.length < 3)
    (small : p.length = 2 → s.mem f i &&& vmmHuge = 0) :
    MapStep roots virt frame s (nextTable s f i).2 := by
  refine .of_edge_current (i := i) spaces member at_p
    (nextTable_grown (spaces.current member).1.pmm f i) fun R member' within => ?_
  have edge := nextTable_edge (i := i) virt frame (spaces.trees R member') within upper small
  rwa [nextTable_inSpace] at edge

/-- `split_huge_pd` in all trees. -/
theorem splitHugePd_mapStep (virt frame : Nat) (spaces : Spaces s roots)
    (member : s.cr3 ∈ roots) (at_p : s.table p = some f) (level : p.length = 2) :
    MapStep roots virt frame s (splitHugePd s f i).2 := by
  refine .of_edge_current (i := i) spaces member at_p
    (splitHugePd_grown (spaces.current member).1.pmm f i) fun R member' within => ?_
  have edge := splitHugePd_edge (i := i) virt frame (spaces.trees R member') within level
  rwa [splitHugePd_inSpace] at edge

/-- The store at the end of `vmm_map` in all trees. -/
theorem write_mapStep {virt frame e : Nat} (spaces : Spaces s roots) (member : s.cr3 ∈ roots)
    (at_p : s.table p = some f) (last : p.length = 3) (on : p ++ [i] = path virt)
    (legal : Entry 3 e) (leaf : slot 3 e = .leaf frame) :
    MapStep roots virt frame s (s.set f i e) := by
  refine .of_edge_current (i := i) spaces member at_p
    (.set (spaces.current member).1.pmm f i e) fun R member' within => ?_
  exact write_edge (spaces.trees R member') within last on legal leaf

/-- **`vmm_map` in all trees**, whether it maps or runs out of frames. -/
theorem vmmMap_mapStep (spaces : Spaces s roots) (member : s.cr3 ∈ roots) {phys : Nat}
    (clean : phys < 2 ^ 52) (virt flags : Nat) :
    MapStep roots virt (phys / pageSize * pageSize) s (vmmMap s virt phys flags) := by
  simp only [vmmMap]
  generalize framed : phys / pageSize * pageSize = frame
  have at₀ : s.table [] = some s.root := rfl
  have step₁ := nextTable_mapStep (i := tableIdx virt 39) virt frame spaces member at₀
    (by simp) (by simp)
  obtain ⟨-, outcome₁⟩ := nextTable_spec (i := tableIdx virt 39) (spaces.current member).1 at₀
    (by simp) (by simp)
  generalize nextTable s s.root (tableIdx virt 39) = r₁ at *
  rcases outcome₁ with ⟨null, -⟩ | ⟨pdpt, -, at₁⟩
  · rwa [if_pos null]
  rw [if_neg pdpt]
  replace member : r₁.2.cr3 ∈ roots := step₁.cr3 ▸ member
  have step₂ := nextTable_mapStep (i := tableIdx virt 30) virt frame step₁.spaces member at₁
    (by simp) (by simp)
  obtain ⟨-, outcome₂⟩ := nextTable_spec (i := tableIdx virt 30)
    (step₁.spaces.current member).1 at₁ (by simp) (by simp)
  replace step₂ := step₁.trans step₂
  generalize nextTable r₁.2 r₁.1 (tableIdx virt 30) = r₂ at *
  rcases outcome₂ with ⟨null, -⟩ | ⟨pd, -, at₂⟩
  · rwa [if_pos null]
  rw [if_neg pd]
  replace member : r₂.2.cr3 ∈ roots := (step₂.cr3.trans step₁.cr3.symm) ▸ member
  have step₃ := splitHugePd_mapStep (i := tableIdx virt 21) virt frame step₂.spaces
    member at₂ (by simp)
  obtain ⟨-, outcome₃⟩ := splitHugePd_spec (i := tableIdx virt 21)
    (step₂.spaces.current member).1 at₂ (by simp)
  replace step₃ := step₂.trans step₃
  generalize splitHugePd r₂.2 r₂.1 (tableIdx virt 21) = r₃ at *
  rcases outcome₃ with ⟨failed, -⟩ | ⟨done, -, at₃, small⟩
  · rwa [if_pos (show r₃.1 < 0 by omega)]
  rw [if_neg (show ¬ r₃.1 < 0 by omega), if_neg (not_not.mpr small)]
  replace member : r₃.2.cr3 ∈ roots := (step₃.cr3.trans step₂.cr3.symm) ▸ member
  have step₄ := nextTable_mapStep (i := tableIdx virt 21) virt frame step₃.spaces member at₃
    (by simp) fun _ => small
  obtain ⟨-, outcome₄⟩ := nextTable_spec (i := tableIdx virt 21)
    (step₃.spaces.current member).1 at₃ (by simp) fun _ => small
  replace step₄ := step₃.trans step₄
  generalize nextTable r₃.2 r₂.1 (tableIdx virt 21) = r₄ at *
  rcases outcome₄ with ⟨null, -⟩ | ⟨pt, -, at₄⟩
  · rwa [if_pos null]
  rw [if_neg pt]
  replace member : r₄.2.cr3 ∈ roots := (step₄.cr3.trans step₃.cr3.symm) ▸ member
  exact step₄.trans (write_mapStep step₄.spaces member at₄ rfl (path_eq virt).symm
    (entry_mapped flags clean) (framed ▸ slot_mapped flags clean))

end

end Flyos
