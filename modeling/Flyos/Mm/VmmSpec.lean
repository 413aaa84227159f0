import Flyos.Mm.PageTree

/-!
# `vmm_map` and `vmm_unmap` are map updates

One specification for each function of `vmm.c`, each from those of the functions
it calls: allocation (`allocPage_spec`), a level of the walk down
(`nextTable_spec`), the split of a large page (`splitHugePd_spec`).  Each of
these keeps the tree and every translation (`Keeps`), so `vmm_map` may stop after
any of them; its last store is the only one that maps.
-/

namespace Flyos

open TableTree

/-- The entries `split_huge_pd` makes of that of a large page. -/
def smallPages (e : Nat) : Fin 512 → Nat := fun j =>
  ((e &&& hugeMask) + j * pageSize) ||| (e &&& 0xFFF) ||| vmmPresent ||| vmmUser

/-- `t` is a tree state with the translations of `s`. -/
structure Keeps (s t : Vmm) : Prop where
  cr3 : t.cr3 = s.cr3
  tree : PageTree Entry t
  pages : ∀ v, pageAt t (path v) = pageAt s (path v)

theorem Keeps.trans {s t u : Vmm} (h : Keeps s t) (h' : Keeps t u) : Keeps s u :=
  ⟨h'.cr3.trans h.cr3, h'.tree, fun v => (h'.pages v).trans (h.pages v)⟩

/-- **What an allocation does** to a tree: nothing but mark frames used; a frame
it answers with is in range and no table of the tree. -/
theorem allocPage_spec {s : Vmm} (tree : PageTree Entry s) :
    Keeps s s.allocPage.2 ∧
      ((s.allocPage.1 = 0 ∧ s.allocPage.2.oom = true) ∨
        s.allocPage.1 ≠ 0 ∧ s.allocPage.2.oom = s.oom ∧
          (∃ k, s.allocPage.1 = k * pageSize ∧ k < maxPages) ∧
          (∀ q, s.table q ≠ some s.allocPage.1) ∧
          bitmapTest s.allocPage.2.pmm.bitmap (s.allocPage.1 / pageSize) = true) := by
  obtain ⟨pmm, total, kept, taken⟩ := pmmAllocPage_spec tree.pmm
  have tree' : PageTree Entry s.allocPage.2 := ⟨tree.distinct, tree.entries, pmm,
    fun at_q small => kept _ (tree.inUse at_q (total ▸ small))⟩
  refine ⟨⟨rfl, tree', fun _ => rfl⟩, ?_⟩
  by_cases null : (pmmAllocPage s.pmm).1 = 0
  · exact .inl ⟨null, by simp [Vmm.allocPage, null]⟩
  · obtain ⟨k, eq, inside, clear, used⟩ := taken null
    have page : (pmmAllocPage s.pmm).1 / pageSize = k := by
      rw [eq]
      simp only [pageSize]
      omega
    have bound := tree.pmm.total
    refine .inr ⟨null, by simp [Vmm.allocPage, null], ⟨k, eq, by omega⟩, fun q at_q => ?_, ?_⟩
    · have marked := tree.inUse at_q (by rw [Vmm.allocPage, page]; exact inside)
      rw [Vmm.allocPage, page, clear] at marked
      exact absurd marked (by decide)
    · rw [Vmm.allocPage, page]
      exact used

/-- A new link keeps the translations when it does so for the pages behind it. -/
theorem Keeps.grow {s t : Vmm} {p : List (Fin 512)} {f np : Nat} {i : Fin 512}
    (cr3 : t.cr3 = s.cr3) (tree : PageTree Entry t)
    (grows : Grows slot s.mem t.mem s.root p i np) (at_p : s.table p = some f)
    (behind : ∀ v rest, path v = p ++ [i] ++ rest →
      (walk slot t.mem (p.length + 1) np rest).map physPage =
        (walk slot s.mem p.length f (i :: rest)).map physPage) : Keeps s t := by
  have root : t.root = s.root := by rw [Vmm.root, cr3, Vmm.root]
  refine ⟨cr3, tree, fun v => ?_⟩
  by_cases off : p ++ [i] <+: path v
  · obtain ⟨rest, through⟩ := off
    have new : t.table (p ++ [i]) = some np := by
      rw [Vmm.table, root]
      exact reach_link (grows.same.reach_self.trans at_p) (grows.link f at_p)
    have after : pageAt t (p ++ [i] ++ rest) =
        (walk slot t.mem (p.length + 1) np rest).map physPage := by
      rw [pageAt, walk_append new, Nat.zero_add, List.length_append, List.length_singleton]
    have before : pageAt s (p ++ [i] ++ rest) =
        (walk slot s.mem p.length f (i :: rest)).map physPage := by
      rw [pageAt, List.append_assoc, walk_append at_p, Nat.zero_add]
      rfl
    rw [← through, after, before, behind v rest through.symm]
  · rw [pageAt, root]
    exact congrArg (Option.map physPage) (grows.same.walk_eq off)

/-- The three things `next_table` may do: nothing but fail to allocate, link a fresh
empty table, or set the user bit. -/
theorem nextTable_cases (s : Vmm) (f : Nat) (i : Fin 512)
    (frames : s.allocPage.1 ≠ 0 → ∃ k, s.allocPage.1 = k * pageSize ∧ k < maxPages) :
    (s.mem f i &&& vmmPresent = 0 ∧ s.allocPage.1 = 0 ∧ nextTable s f i = (0, s.allocPage.2)) ∨
      (s.mem f i &&& vmmPresent = 0 ∧ s.allocPage.1 ≠ 0 ∧
        nextTable s f i = (s.allocPage.1, (s.allocPage.2.zeroPage s.allocPage.1).set f i
          (s.allocPage.1 ||| vmmPresent ||| vmmWritable ||| vmmUser))) ∨
      (s.mem f i &&& vmmPresent ≠ 0 ∧ nextTable s f i =
        (s.mem f i &&& addrMask, s.set f i (s.mem f i ||| vmmUser))) := by
  by_cases absent : s.mem f i &&& vmmPresent = 0
  · by_cases null : s.allocPage.1 = 0
    · exact .inl ⟨absent, null, by rw [nextTable, if_pos absent, if_pos null]⟩
    · obtain ⟨k, eq, inRange⟩ := frames null
      refine .inr (.inl ⟨absent, null, ?_⟩)
      rw [nextTable, if_pos absent, if_neg null]
      refine Prod.ext ?_ rfl
      simp only [Vmm.set, and_self, if_true, eq]
      exact (link_and inRange).1
  · refine .inr (.inr ⟨absent, ?_⟩)
    rw [nextTable, if_neg absent]
    refine Prod.ext ?_ rfl
    simp only [Vmm.set, and_self, if_true, Nat.and_or_distrib_right,
      show vmmUser &&& addrMask = 0 from rfl, Nat.or_zero]

/-- The three things `split_huge_pd` may do: nothing, nothing but fail to allocate, or
link a fresh table of small pages. -/
theorem splitHugePd_cases (s : Vmm) (f : Nat) (i : Fin 512) :
    (s.mem f i &&& vmmHuge = 0 ∧ splitHugePd s f i = (0, s)) ∨
      (s.mem f i &&& vmmHuge ≠ 0 ∧ s.allocPage.1 = 0 ∧
        splitHugePd s f i = (-1, s.allocPage.2)) ∨
      (s.mem f i &&& vmmHuge ≠ 0 ∧ s.allocPage.1 ≠ 0 ∧
        splitHugePd s f i = (0, (s.allocPage.2.fillPage s.allocPage.1 (smallPages (s.mem f i))).set
          f i (s.allocPage.1 ||| vmmPresent ||| vmmWritable ||| vmmUser))) := by
  by_cases small : s.mem f i &&& vmmHuge = 0
  · exact .inl ⟨small, by rw [splitHugePd, if_pos small]⟩
  · by_cases null : s.allocPage.1 = 0
    · exact .inr (.inl ⟨small, null, by rw [splitHugePd, if_neg small, if_pos null]⟩)
    · refine .inr (.inr ⟨small, null, ?_⟩)
      rw [splitHugePd, if_neg small, if_neg null]
      simp only [Vmm.zeroPage, Vmm.fillPage_fillPage]
      rfl

/-- **What `next_table` does** at entry `i` of the table at path `p`: it answers
with the table at `p ++ [i]`, which was there or is new and empty; or there is no
frame for it and nothing happens. -/
theorem nextTable_spec {s : Vmm} {p : List (Fin 512)} {f : Nat} {i : Fin 512}
    (tree : PageTree Entry s) (at_p : s.table p = some f) (upper : p.length < 3)
    (small : p.length = 2 → s.mem f i &&& vmmHuge = 0) :
    Keeps s (nextTable s f i).2 ∧
      (((nextTable s f i).1 = 0 ∧ (nextTable s f i).2.oom = true) ∨
        (nextTable s f i).1 ≠ 0 ∧ (nextTable s f i).2.oom = s.oom ∧
          (nextTable s f i).2.table (p ++ [i]) = some (nextTable s f i).1) := by
  obtain ⟨allocated, outcome⟩ := allocPage_spec tree
  have frames : s.allocPage.1 ≠ 0 → ∃ k, s.allocPage.1 = k * pageSize ∧ k < maxPages :=
    fun frame => (outcome.resolve_left fun failed => frame failed.1).2.2.1
  rcases nextTable_cases s f i frames with ⟨-, null, eval⟩ | ⟨absent, frame, eval⟩ | ⟨present, eval⟩
  · rw [eval]
    exact ⟨allocated, .inl ⟨rfl, (outcome.resolve_right fun done => done.1 null).2⟩⟩
  · obtain ⟨-, oom, ⟨k, eq, inRange⟩, fresh, used⟩ :=
      outcome.resolve_left fun failed => frame failed.1
    obtain ⟨grown, grows⟩ := allocated.tree.grow (i := i) at_p fresh used
      (eq ▸ slot_link inRange upper) (fun j h => by simp)
      (eq ▸ entry_link inRange (eq ▸ frame) upper) fun j => entry_zero _
    rw [eval]
    refine ⟨allocated.trans (.grow rfl grown grows at_p fun v rest _ => ?_), .inr ⟨frame, oom,
      reach_link (grows.same.reach_self.trans at_p) (grows.link f at_p)⟩⟩
    -- nothing was behind the entry, and nothing is behind the empty table
    have before : walk slot s.allocPage.2.mem p.length f (i :: rest) = none := by
      simp only [walk, show s.allocPage.2.mem = s.mem from rfl, slot_absent absent]
    rw [before]
    cases rest with
    | nil => rfl
    | cons j rest =>
        have unlike : s.allocPage.1 ≠ f := fun eq => fresh p (eq ▸ at_p)
        simp [walk, Vmm.set, Vmm.zeroPage, Vmm.fillPage, unlike]
  · obtain ⟨tree', tables, pages⟩ := tree.or_user (i := i) at_p
    have link : slot p.length (s.mem f i) = .table (s.mem f i &&& addrMask) := by
      by_cases two : p.length = 2
      · rw [two, slot_pd present (small two)]
      · exact slot_dir (by omega) present
    rw [eval]
    refine ⟨⟨rfl, tree', fun v => pages (path v)⟩, .inr ⟨?_, rfl, ?_⟩⟩
    · exact ((tree.entries at_p i).2.notNull _ link)
    · exact (tables _).trans (reach_link at_p link)

/-- Behind an entry of a page directory, a path has one index. -/
theorem path_rest {p rest : List (Fin 512)} {i : Fin 512} {v : Nat} (level : p.length = 2)
    (through : path v = p ++ [i] ++ rest) : ∃ j, rest = [j] := by
  have lengths := congrArg List.length through
  simp only [path, List.length_append, List.length_cons, List.length_nil] at lengths
  exact List.length_eq_one_iff.mp (by omega)

/-- **What `split_huge_pd` does** at entry `i` of a page directory: the entry is no
large page afterwards; or there is no frame for the small ones and nothing
happens. -/
theorem splitHugePd_spec {s : Vmm} {p : List (Fin 512)} {f : Nat} {i : Fin 512}
    (tree : PageTree Entry s) (at_p : s.table p = some f) (level : p.length = 2) :
    Keeps s (splitHugePd s f i).2 ∧
      (((splitHugePd s f i).1 = -1 ∧ (splitHugePd s f i).2.oom = true) ∨
        (splitHugePd s f i).1 = 0 ∧ (splitHugePd s f i).2.oom = s.oom ∧
          (splitHugePd s f i).2.table p = some f ∧
          (splitHugePd s f i).2.mem f i &&& vmmHuge = 0) := by
  obtain ⟨allocated, outcome⟩ := allocPage_spec tree
  rcases splitHugePd_cases s f i with ⟨small, eval⟩ | ⟨-, null, eval⟩ | ⟨huge, frame, eval⟩
  · rw [eval]
    exact ⟨⟨rfl, tree, fun _ => rfl⟩, .inr ⟨rfl, rfl, at_p, small⟩⟩
  · rw [eval]
    exact ⟨allocated, .inl ⟨rfl, (outcome.resolve_right fun done => done.1 null).2⟩⟩
  · obtain ⟨⟨clean, -⟩, ⟨absent, -⟩⟩ := tree.entries at_p i
    have present : s.mem f i &&& vmmPresent ≠ 0 := fun none => huge (absent level none)
    obtain ⟨-, oom, ⟨k, eq, inRange⟩, fresh, used⟩ :=
      outcome.resolve_left fun failed => frame failed.1
    obtain ⟨grown, grows⟩ := allocated.tree.grow (i := i) (g := smallPages (s.mem f i)) at_p
      fresh used (eq ▸ slot_link inRange (by omega)) (fun j h => slot_bottom (by omega))
      (eq ▸ entry_link inRange (eq ▸ frame) (by omega)) fun j => by
        rw [level]
        exact entry_small j clean
    rw [eval]
    refine ⟨allocated.trans (.grow rfl grown grows at_p fun v rest through => ?_), .inr ⟨rfl,
      oom, grows.same.reach_self.trans at_p, ?_⟩⟩
    · obtain ⟨j, rfl⟩ := path_rest level through
      have unlike : s.allocPage.1 ≠ f := fun eq => fresh p (eq ▸ at_p)
      -- the large page with offset `j` before, small page `j` after
      have after : walk slot ((s.allocPage.2.fillPage s.allocPage.1 (smallPages (s.mem f i))).set
          f i (s.allocPage.1 ||| vmmPresent ||| vmmWritable ||| vmmUser)).mem (p.length + 1)
          s.allocPage.1 [j] = some ((s.mem f i &&& hugeMask) + j * pageSize, []) := by
        simp only [walk, Vmm.set, Vmm.fillPage, unlike, false_and, if_false, if_true, level,
          smallPages, slot_small j clean]
      have before : walk slot s.mem p.length f [i, j] = some (s.mem f i &&& hugeMask, [j]) := by
        simp only [walk, level, slot_large present huge]
      rw [after, show s.allocPage.2.mem = s.mem from rfl, before]
      rfl
    · simp only [Vmm.set, and_self, if_true, eq]
      exact (link_and inRange).2.2

/-- An address of another page does not go through the entry of `virt`. -/
theorem not_prefix_path {v virt : Nat} (other : path v ≠ path virt) :
    ¬ [tableIdx virt 39, tableIdx virt 30, tableIdx virt 21] ++ [tableIdx virt 12] <+: path v :=
  fun pre => other (pre.eq_of_length (by simp [path])).symm

/-- What a call of `vmm_map` may do: keep the tree, and map the page and no other
when no allocation fails, translate as before when one does. -/
structure Maps (s : Vmm) (virt phys : Nat) (t : Vmm) : Prop where
  tree : PageTree Entry t
  failed : t.oom = true → ∀ v, pageAt t (path v) = pageAt s (path v)
  mapped : t.oom = false → pageAt t (path virt) = some (phys / pageSize * pageSize) ∧
    ∀ v, path v ≠ path virt → pageAt t (path v) = pageAt s (path v)

/-- Every early return of `vmm_map`: the tree is kept and an allocation has failed. -/
theorem Maps.of_failed {s t : Vmm} {virt phys : Nat} (keeps : Keeps s t) (oom : t.oom = true) :
    Maps s virt phys t :=
  ⟨keeps.tree, fun _ => keeps.pages, fun none => absurd (oom.symm.trans none) (by decide)⟩

/-- **`vmm_map`** maps. -/
theorem vmmMap_spec {s : Vmm} (tree : PageTree Entry s) (quiet : s.oom = false) {phys : Nat}
    (clean : phys < 2 ^ 52) (virt flags : Nat) :
    Maps s virt phys (vmmMap s virt phys flags) := by
  simp only [vmmMap]
  obtain ⟨keeps₁, outcome₁⟩ := nextTable_spec (p := []) (i := tableIdx virt 39) tree rfl
    (by simp) (by simp)
  generalize nextTable s s.root (tableIdx virt 39) = r₁ at *
  rcases outcome₁ with ⟨null, oom⟩ | ⟨pdpt, oom₁, at₁⟩
  · rw [if_pos null]
    exact .of_failed keeps₁ oom
  rw [if_neg pdpt]
  obtain ⟨keeps₂, outcome₂⟩ := nextTable_spec (i := tableIdx virt 30) keeps₁.tree at₁
    (by simp) (by simp)
  replace keeps₂ := keeps₁.trans keeps₂
  generalize nextTable r₁.2 r₁.1 (tableIdx virt 30) = r₂ at *
  rcases outcome₂ with ⟨null, oom⟩ | ⟨pd, oom₂, at₂⟩
  · rw [if_pos null]
    exact .of_failed keeps₂ oom
  rw [if_neg pd]
  obtain ⟨keeps₃, outcome₃⟩ := splitHugePd_spec (i := tableIdx virt 21) keeps₂.tree at₂ (by simp)
  replace keeps₃ := keeps₂.trans keeps₃
  generalize splitHugePd r₂.2 r₂.1 (tableIdx virt 21) = r₃ at *
  rcases outcome₃ with ⟨failed, oom⟩ | ⟨done, oom₃, at₃, small⟩
  · rw [if_pos (show r₃.1 < 0 by omega)]
    exact .of_failed keeps₃ oom
  rw [if_neg (show ¬ r₃.1 < 0 by omega), if_neg (not_not.mpr small)]
  obtain ⟨keeps₄, outcome₄⟩ := nextTable_spec (i := tableIdx virt 21) keeps₃.tree at₃
    (by simp) (fun _ => small)
  replace keeps₄ := keeps₃.trans keeps₄
  generalize nextTable r₃.2 r₂.1 (tableIdx virt 21) = r₄ at *
  rcases outcome₄ with ⟨null, oom⟩ | ⟨pt, oom₄, at₄⟩
  · rw [if_pos null]
    exact .of_failed keeps₄ oom
  rw [if_neg pt]
  obtain ⟨tree', others, mapped⟩ := keeps₄.tree.write (i := tableIdx virt 12) at₄ rfl
    (entry_mapped flags clean)
  rw [slot_mapped flags clean] at mapped
  refine ⟨tree', fun oom => ?_, fun _ => ⟨mapped, fun v other => ?_⟩⟩
  · have none : r₄.2.oom = false := by rw [oom₄, oom₃, oom₂, oom₁, quiet]
    exact absurd (none.symm.trans oom) (by decide)
  · exact (others _ (not_prefix_path other)).trans (keeps₄.pages v)

/-- **What every step of `vmm_map` keeps**, `vmm_map` keeps. -/
theorem vmmMap_keeps {P : Vmm → Prop} {s : Vmm} (tree : PageTree Entry s) {phys : Nat}
    (clean : phys < 2 ^ 52) (virt flags : Nat) (start : P s)
    (next : ∀ {t p f i}, PageTree Entry t → P t → t.table p = some f → p.length < 3 →
      P (nextTable t f i).2)
    (split : ∀ {t p f i}, PageTree Entry t → P t → t.table p = some f → p.length = 2 →
      P (splitHugePd t f i).2)
    (store : ∀ {t p f i}, PageTree Entry t → P t → t.table p = some f → p.length = 3 →
      P (t.set f i ((phys &&& pageMask) ||| (flags &&& 0xFFF) ||| vmmPresent))) :
    PageTree Entry (vmmMap s virt phys flags) ∧ P (vmmMap s virt phys flags) := by
  simp only [vmmMap]
  obtain ⟨keeps₁, outcome₁⟩ := nextTable_spec (p := []) (i := tableIdx virt 39) tree rfl
    (by simp) (by simp)
  have kept₁ := next (p := []) (i := tableIdx virt 39) tree start rfl (by simp)
  generalize nextTable s s.root (tableIdx virt 39) = r₁ at *
  rcases outcome₁ with ⟨null, -⟩ | ⟨pdpt, -, at₁⟩
  · rw [if_pos null]
    exact ⟨keeps₁.tree, kept₁⟩
  rw [if_neg pdpt]
  obtain ⟨keeps₂, outcome₂⟩ := nextTable_spec (i := tableIdx virt 30) keeps₁.tree at₁
    (by simp) (by simp)
  have kept₂ := next (i := tableIdx virt 30) keeps₁.tree kept₁ at₁ (by simp)
  generalize nextTable r₁.2 r₁.1 (tableIdx virt 30) = r₂ at *
  rcases outcome₂ with ⟨null, -⟩ | ⟨pd, -, at₂⟩
  · rw [if_pos null]
    exact ⟨keeps₂.tree, kept₂⟩
  rw [if_neg pd]
  obtain ⟨keeps₃, outcome₃⟩ := splitHugePd_spec (i := tableIdx virt 21) keeps₂.tree at₂ (by simp)
  have kept₃ := split (i := tableIdx virt 21) keeps₂.tree kept₂ at₂ (by simp)
  generalize splitHugePd r₂.2 r₂.1 (tableIdx virt 21) = r₃ at *
  rcases outcome₃ with ⟨failed, -⟩ | ⟨done, -, at₃, small⟩
  · rw [if_pos (show r₃.1 < 0 by omega)]
    exact ⟨keeps₃.tree, kept₃⟩
  rw [if_neg (show ¬ r₃.1 < 0 by omega), if_neg (not_not.mpr small)]
  obtain ⟨keeps₄, outcome₄⟩ := nextTable_spec (i := tableIdx virt 21) keeps₃.tree at₃
    (by simp) (fun _ => small)
  have kept₄ := next (i := tableIdx virt 21) keeps₃.tree kept₃ at₃ (by simp)
  generalize nextTable r₃.2 r₂.1 (tableIdx virt 21) = r₄ at *
  rcases outcome₄ with ⟨null, -⟩ | ⟨pt, -, at₄⟩
  · rw [if_pos null]
    exact ⟨keeps₄.tree, kept₄⟩
  rw [if_neg pt]
  exact ⟨(keeps₄.tree.write at₄ rfl (entry_mapped flags clean)).1, store keeps₄.tree kept₄ at₄ rfl⟩

/-- A page mapped by an entry of the last level. -/
def Mapped4K (s : Vmm) (virt : Nat) : Prop :=
  ∃ a, walk slot s.mem 0 s.root (path virt) = some (a, [])

/-- `vmm_unmap` clears the entry in the table of the last level, if there is one. -/
theorem vmmUnmap_eq (s : Vmm) (virt : Nat) :
    vmmUnmap s virt = match s.table [tableIdx virt 39, tableIdx virt 30, tableIdx virt 21] with
      | some pt => s.set pt (tableIdx virt 12) 0
      | none => s := by
  simp only [vmmUnmap, Vmm.table, reach]
  by_cases h₁ : s.mem s.root (tableIdx virt 39) &&& vmmPresent = 0
  · simp only [if_pos h₁, slot_absent h₁]
  simp only [if_neg h₁, slot_dir (d := 0) (by decide) h₁]
  generalize s.mem s.root (tableIdx virt 39) &&& addrMask = pdpt
  by_cases h₂ : s.mem pdpt (tableIdx virt 30) &&& vmmPresent = 0
  · simp only [if_pos h₂, slot_absent h₂]
  simp only [if_neg h₂, slot_dir (d := 0 + 1) (by decide) h₂]
  generalize s.mem pdpt (tableIdx virt 30) &&& addrMask = pd
  by_cases h₃ : s.mem pd (tableIdx virt 21) &&& vmmPresent = 0
  · simp only [if_pos h₃, slot_absent h₃]
  by_cases huge : s.mem pd (tableIdx virt 21) &&& vmmHuge = 0
  · simp only [if_neg h₃, if_neg (not_not.mpr huge), slot_pd h₃ huge]
  · simp only [if_neg h₃, if_pos huge, slot_large h₃ huge]

/-- **`vmm_unmap`** keeps the tree, and unmaps a page mapped by an entry of the last
level and no other. -/
theorem vmmUnmap_spec {s : Vmm} (tree : PageTree Entry s) (virt : Nat) :
    PageTree Entry (vmmUnmap s virt) ∧
      (Mapped4K s virt → pageAt (vmmUnmap s virt) (path virt) = none ∧
        ∀ v, path v ≠ path virt → pageAt (vmmUnmap s virt) (path v) = pageAt s (path v)) := by
  rw [vmmUnmap_eq]
  cases at_pt : s.table [tableIdx virt 39, tableIdx virt 30, tableIdx virt 21] with
  | none =>
      refine ⟨tree, fun ⟨a, found⟩ => ?_⟩
      rw [path_eq] at found
      obtain ⟨pt, at_pt', -⟩ := walk_exact found
      rw [Vmm.table, at_pt'] at at_pt
      cases at_pt
  | some pt =>
      obtain ⟨tree', others, unmapped⟩ := tree.write (i := tableIdx virt 12) at_pt rfl
        (entry_zero 3)
      exact ⟨tree', fun _ => ⟨unmapped, fun v other => others _ (not_prefix_path other)⟩⟩

/-! ## The functions on addresses -/

/-- The address a page is translated to, for `vmm_get_phys`. -/
theorem vmmGetPhys_congr {s t : Vmm} {v : Nat} (same : pageAt t (path v) = pageAt s (path v)) :
    vmmGetPhys t v = vmmGetPhys s v := by
  rw [vmmGetPhys_eq, vmmGetPhys_eq, same]

/-- **Updates of a table tree.**  On a tree of distinct frames, `vmm_map` with every
allocation succeeding makes `vmm_get_phys` answer with the new page on every
address of the page, and leaves it as it was on every address of another page; a
failed allocation leaves it as it was everywhere.  `vmm_unmap` of a page mapped by
an entry of the last level unmaps that page only.  The tree is kept in every case. -/
theorem vmm_update {s : Vmm} (tree : PageTree Entry s) (quiet : s.oom = false) {phys : Nat}
    (clean : phys < 2 ^ 52) (virt flags : Nat) :
    PageTree Entry (vmmMap s virt phys flags) ∧
      ((vmmMap s virt phys flags).oom = false →
        (∀ v, pageNumber v = pageNumber virt →
          vmmGetPhys (vmmMap s virt phys flags) v = phys / pageSize * pageSize + v % pageSize) ∧
        ∀ v, pageNumber v ≠ pageNumber virt →
          vmmGetPhys (vmmMap s virt phys flags) v = vmmGetPhys s v) ∧
      ((vmmMap s virt phys flags).oom = true →
        ∀ v, vmmGetPhys (vmmMap s virt phys flags) v = vmmGetPhys s v) ∧
      PageTree Entry (vmmUnmap s virt) ∧
      (Mapped4K s virt →
        (∀ v, pageNumber v = pageNumber virt → vmmGetPhys (vmmUnmap s virt) v = 0) ∧
        ∀ v, pageNumber v ≠ pageNumber virt →
          vmmGetPhys (vmmUnmap s virt) v = vmmGetPhys s v) := by
  obtain ⟨tree', failed, mapped⟩ := vmmMap_spec tree quiet clean virt flags
  obtain ⟨tree'', unmapped⟩ := vmmUnmap_spec tree virt
  refine ⟨tree', fun done => ⟨fun v same => ?_, fun v other => ?_⟩,
    fun oom v => vmmGetPhys_congr (failed oom v), tree'',
    fun small => ⟨fun v same => ?_, fun v other => ?_⟩⟩
  · rw [vmmGetPhys_eq, (path_eq_iff v virt).mpr same, (mapped done).1]
    rfl
  · exact vmmGetPhys_congr ((mapped done).2 v fun eq => other ((path_eq_iff v virt).mp eq))
  · rw [vmmGetPhys_eq, (path_eq_iff v virt).mpr same, (unmapped small).1]
    rfl
  · exact vmmGetPhys_congr ((unmapped small).2 v fun eq => other ((path_eq_iff v virt).mp eq))

/-! ## Corner cases

Three inputs outside the theorem: an alias of the page at a non-canonical address,
a table in frame 0, and an entry of a page directory that is absent but marked as a
large page. -/

/-- Four pages in use and four free, the PML4 in page 1, and entries only at index 0:
in frame `f`, the entry `g f`. -/
def spine (g : Nat → Nat) : Vmm where
  mem := fun f j => if j = 0 then g f else 0
  pmm := { bitmap := fun _ => 0x0F#8, totalPages := 8, usedPages := 4, searchHint := 4 }
  cr3 := 0x1000
  oom := false

/-- The tables of such a tree lie along index 0. -/
theorem reach_spine {g : Nat → Nat} {d h f : Nat} {p : List (Fin 512)}
    (at_p : reach slot (spine g).mem d h p = some f) :
    (p = [] ∧ f = h) ∨ ∃ q k, p = 0 :: q ∧ slot d (g h) = .table k ∧
      reach slot (spine g).mem (d + 1) k q = some f := by
  cases p with
  | nil => exact .inl ⟨rfl, (Option.some.inj at_p).symm⟩
  | cons j q =>
      by_cases first : j = 0
      · subst first
        simp only [reach, spine, if_true] at at_p
        cases entry : slot d (g h) with
        | table k =>
            rw [entry] at at_p
            exact .inr ⟨q, k, rfl, rfl, at_p⟩
        | _ => simp [entry] at at_p
      · simp [reach, spine, first] at at_p

/-- Such a tree is one of distinct frames with legal entries when its tables are
among those of a list. -/
theorem pageTree_spine {ok : Nat → Nat → Prop} {g : Nat → Nat}
    (tables : List (List (Fin 512) × Nat))
    (all : ∀ p f, (spine g).table p = some f → (p, f) ∈ tables)
    (distinct : ∀ x ∈ tables, ∀ y ∈ tables, x.2 = y.2 → x.1 = y.1) (zero : ∀ d, ok d 0)
    (legal : ∀ x ∈ tables, ok x.1.length (g x.2)) (low : ∀ x ∈ tables, x.2 < 0x4000) :
    PageTree ok (spine g) where
  distinct := fun p q f at_p at_q => distinct _ (all p f at_p) _ (all q f at_q) rfl
  entries := fun {p f} at_p i => by
    simp only [spine]
    split
    case isTrue => exact legal _ (all p f at_p)
    case isFalse => exact zero _
  pmm := ⟨show 8 ≤ maxPages by decide, show 4 ≤ 8 by decide⟩
  inUse := fun {p f} at_p _ => by
    have used : ∀ k < 4, bitmapTest (fun _ => 0x0F#8) k = true := by decide
    have small := low _ (all p f at_p)
    exact used _ (by simp only [pageSize] at *; omega)

/-- A tree of one empty table. -/
theorem pageTree_empty {ok : Nat → Nat → Prop} (zero : ∀ d, ok d 0) :
    PageTree ok (spine fun _ => 0) := by
  refine pageTree_spine [([], 0x1000)] (fun p f at_p => ?_) (by decide) zero
    (fun _ _ => zero _) (by decide)
  rcases reach_spine at_p with ⟨rfl, rfl⟩ | ⟨q, k, rfl, link, -⟩
  · simp [Vmm.root, spine, addrMask]
  · cases link

/-- Entries for a spine of three tables. -/
def upperEntries (e₁ e₂ e₃ f : Nat) : Nat :=
  if f = 0x1000 then e₁ else if f = 0x2000 then e₂ else if f = 0x3000 then e₃ else 0

/-- A tree of three tables. -/
theorem pageTree_upper {ok : Nat → Nat → Prop} {e₁ e₂ e₃ : Nat}
    (link₁ : slot 0 e₁ = .table 0x2000) (link₂ : slot 1 e₂ = .table 0x3000)
    (noLink : ∀ k, slot 2 e₃ ≠ .table k) (zero : ∀ d, ok d 0) (ok₁ : ok 0 e₁) (ok₂ : ok 1 e₂)
    (ok₃ : ok 2 e₃) : PageTree ok (spine (upperEntries e₁ e₂ e₃)) := by
  refine pageTree_spine [([], 0x1000), ([0], 0x2000), ([0, 0], 0x3000)] (fun p f at_p => ?_)
    (by decide) zero ?_ (by decide)
  · have root : (spine (upperEntries e₁ e₂ e₃)).root = 0x1000 := by
      simp [Vmm.root, spine, addrMask]
    rw [Vmm.table, root] at at_p
    rcases reach_spine at_p with ⟨rfl, rfl⟩ | ⟨q, k, rfl, link, at_q⟩
    · simp
    · obtain rfl : k = 0x2000 := (Slot.table.inj (link₁.symm.trans link)).symm
      rcases reach_spine at_q with ⟨rfl, rfl⟩ | ⟨q, k, rfl, link, at_q⟩
      · simp
      · obtain rfl : k = 0x3000 := (Slot.table.inj (link₂.symm.trans link)).symm
        rcases reach_spine at_q with ⟨rfl, rfl⟩ | ⟨q, k, rfl, link, -⟩
        · simp
        · exact absurd link (noLink k)
  · intro x mem
    simp only [List.mem_cons, List.not_mem_nil, or_false] at mem
    rcases mem with rfl | rfl | rfl
    · exact ok₁
    · exact ok₂
    · exact ok₃

/-- The first page mapped in an empty tree. -/
theorem vmm_update_empty :
    vmmGetPhys (vmmMap (spine fun _ => 0) 0x5000 0x9000 0) 0x5123 = 0x9123 :=
  ((vmm_update (pageTree_empty entry_zero) rfl (by decide) 0x5000 0).2.1 (by decide +kernel)).1
    0x5123 (by decide)

/-- `vmm_map` changes the alias, does not map behind a table in frame 0, and splits
the entry that is no large page. -/
theorem vmmMap_corners :
    (∃ s, PageTree EntryOk s ∧ (vmmMap s 0 0x9000 0).oom = false ∧
      vmmGetPhys (vmmMap s 0 0x9000 0) (2 ^ 48) ≠ vmmGetPhys s (2 ^ 48)) ∧
    (∃ s, PageTree EntryOk s ∧ (vmmMap s 0 0x9000 0).oom = false ∧
      vmmGetPhys (vmmMap s 0 0x9000 0) 0 ≠ 0x9000) ∧
    ∃ s, PageTree EntryOk s ∧ (vmmMap s 0 0x9000 0).oom = false ∧
      vmmGetPhys (vmmMap s 0 0x9000 0) 0x1000 ≠ vmmGetPhys s 0x1000 := by
  refine ⟨⟨spine fun _ => 0, ?_, by decide +kernel, by decide +kernel⟩,
    ⟨spine fun f => if f = 0x1000 then 1 else 0, ?_, by decide +kernel, by decide +kernel⟩,
    ⟨spine (upperEntries 0x2001 0x3001 0x80), ?_, by decide +kernel, by decide +kernel⟩⟩
  · exact pageTree_empty fun d => (entry_zero d).1
  · refine pageTree_spine [([], 0x1000), ([0], 0)] (fun p f at_p => ?_) (by decide)
      (fun d => (entry_zero d).1) ?_ (by decide)
    · rcases reach_spine at_p with ⟨rfl, rfl⟩ | ⟨q, k, rfl, link, at_q⟩
      · simp [Vmm.root, spine, addrMask]
      · obtain rfl : k = 0 := (Slot.table.inj link).symm
        rcases reach_spine at_q with ⟨rfl, rfl⟩ | ⟨q, k, rfl, link, -⟩
        · simp
        · cases link
    · intro x mem
      simp only [List.mem_cons, List.not_mem_nil, or_false] at mem
      rcases mem with rfl | rfl <;> exact ⟨by decide, by decide⟩
  · exact pageTree_upper rfl rfl (fun _ => nofun) (fun d => (entry_zero d).1)
      ⟨by decide, by decide⟩ ⟨by decide, by decide⟩ ⟨by decide, by decide⟩

end Flyos
