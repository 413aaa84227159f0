import Flyos.Mm.CloneCount
import Flyos.Mm.Spaces

/-!
# What mapping pages costs

`vmm_map` takes a page for every table that its address goes through and that is
`missing`, and none else.  With fewer pages it takes those there are and maps nothing
(`vmmMap_cases`).
-/

namespace Flyos

open TableTree

/-- The tables an address goes through, below the PML4. -/
def dirs (virt : Nat) : List (List (Fin 512)) :=
  [[tableIdx virt 39], [tableIdx virt 39, tableIdx virt 30],
    [tableIdx virt 39, tableIdx virt 30, tableIdx virt 21]]

/-- Those of some pages that are not there. -/
def missing (s : Vmm) (vas : List Nat) : Finset (List (Fin 512)) :=
  (vas.flatMap dirs).toFinset.filter fun q => s.table q = none

theorem mem_missing {s : Vmm} {vas : List Nat} {q : List (Fin 512)} :
    q ∈ missing s vas ↔ (∃ va ∈ vas, q ∈ dirs va) ∧ s.table q = none := by
  rw [missing, Finset.mem_filter, List.mem_toFinset, List.mem_flatMap]

/-! ## Making tables -/

/-- `t` is `s` with the tables `new`, each in a frame taken for it. -/
structure Makes (s t : Vmm) (new : Finset (List (Fin 512))) : Prop where
  keeps : Keeps s t
  taken : ∀ f, Taken s f → Taken t f
  /-- Frames in use that are no tables are as they were. -/
  kept : ∀ f, Taken s f → (∀ q, s.table q ≠ some f) → t.mem f = s.mem f
  old : ∀ q, q ∉ new → t.table q = s.table q
  made : ∀ q ∈ new, s.table q = none ∧ ∃ h, t.table q = some h ∧ ¬ Taken s h
  spent : Spent s t new.card

variable {s t u : Vmm} {new new' : Finset (List (Fin 512))} {f virt frame : Nat}
  {p q : List (Fin 512)} {i : Fin 512}

/-- Tables stay tables. -/
theorem Makes.isSome (makes : Makes s t new) {h : Nat} (at_q : s.table q = some h) :
    t.table q = some h := by
  refine (makes.old q fun member => ?_).trans at_q
  rw [(makes.made q member).1] at at_q
  cases at_q

/-- A table is an old one, or it is in a frame that was free. -/
theorem Makes.table (makes : Makes s t new) {h : Nat} (at_q : t.table q = some h) :
    s.table q = some h ∨ ¬ Taken s h := by
  by_cases member : q ∈ new
  · obtain ⟨-, h', at_q', free⟩ := makes.made q member
    obtain rfl := Option.some.inj (at_q.symm.trans at_q')
    exact .inr free
  · exact .inl ((makes.old q member).symm.trans at_q)

theorem Makes.trans (makes : Makes s t new) (makes' : Makes t u new') :
    Makes s u (new ∪ new') where
  keeps := makes.keeps.trans makes'.keeps
  taken := fun f used => makes'.taken f (makes.taken f used)
  kept := fun f used data => by
    rw [makes'.kept f (makes.taken f used) fun q at_q => ?_, makes.kept f used data]
    exact (makes.table at_q).elim (data q) fun free => free used
  old := fun q other => by
    rw [Finset.mem_union, not_or] at other
    rw [makes'.old q other.2, makes.old q other.1]
  made := fun q member => by
    by_cases first : q ∈ new
    · obtain ⟨none, h, at_q, free⟩ := makes.made q first
      exact ⟨none, h, makes'.isSome at_q, free⟩
    · obtain ⟨none, h, at_q, free⟩ :=
        makes'.made q ((Finset.mem_union.mp member).resolve_left first)
      exact ⟨(makes.old q first).symm.trans none, h, at_q, fun used => free (makes.taken h used)⟩
  spent := by
    have apart : Disjoint new new' := by
      refine Finset.disjoint_left.mpr fun q first second => ?_
      obtain ⟨-, h, at_q, -⟩ := makes.made q first
      rw [(makes'.made q second).1] at at_q
      cases at_q
    rw [Finset.card_union_of_disjoint apart]
    exact makes.spent.trans makes'.spent

/-- A step that leaves all tables where they are. -/
theorem Makes.still (keeps : Keeps s t) (pmm : t.pmm = s.pmm) (tables : ∀ q, t.table q = s.table q)
    (kept : ∀ f, Taken s f → (∀ q, s.table q ≠ some f) → t.mem f = s.mem f) : Makes s t ∅ where
  keeps := keeps
  taken := fun f used => by rwa [Taken, pmm]
  kept := kept
  old := fun q _ => tables q
  made := fun q member => absurd member (Finset.notMem_empty q)
  spent := by rw [Finset.card_empty]; exact ⟨by rw [pmm]; rfl, by rw [pmm]; rfl⟩

/-- What a step does that is to make the table at `q`: it is there, or it is new, or there
is no page for it. -/
structure MakesTable (s t : Vmm) (q : List (Fin 512)) (made : Prop) : Prop where
  makes : ∃ new ⊆ {q}, Makes s t new
  done : made → t.table q ≠ none
  failed : ¬ made → freePages t.pmm = 0 ∧ t.table q = none

/-- **A new table** is linked. -/
theorem linked_makes (tree : PageTree Entry s) (null : Taken s 0) (at_p : s.table p = some f)
    (upper : p.length < 3) {g : Fin 512 → Nat} (page : s.allocPage.1 ≠ 0)
    (flat : ∀ j h, slot (p.length + 1) (g j) ≠ .table h) (legals : ∀ j, Entry (p.length + 1) (g j))
    (before : s.table (p ++ [i]) = none)
    (linked : t = (s.allocPage.2.fillPage s.allocPage.1 g).set f i
      (s.allocPage.1 ||| vmmPresent ||| vmmWritable ||| vmmUser)) (keeps : Keeps s t) :
    Makes s t {p ++ [i]} ∧ t.table (p ++ [i]) ≠ none := by
  obtain ⟨allocated, outcome⟩ := allocPage_spec tree
  obtain ⟨-, -, ⟨k, eq, inRange⟩, fresh, used⟩ := outcome.resolve_left fun failed => page failed.1
  obtain ⟨-, grows⟩ := allocated.tree.grow (i := i) (g := g) at_p fresh used
    (eq ▸ slot_link inRange upper) flat (eq ▸ entry_link inRange (eq ▸ page) upper) legals
  obtain ⟨fills, new, -⟩ := fillPage_grown tree.pmm page g
  have grown := fills.trans (.set fills.pmm f i
    (s.allocPage.1 ||| vmmPresent ||| vmmWritable ||| vmmUser))
  have root : t.root = s.root := by rw [Vmm.root, keeps.cr3, Vmm.root]
  rw [← linked] at grown grows
  have made : t.table (p ++ [i]) = some s.allocPage.1 := by
    have at_new := reach_link (grows.same.reach_self.trans at_p) (grows.link f at_p)
    rwa [← show t.root = s.allocPage.2.root from root] at at_new
  have spent : Spent s t 1 := by
    rcases allocPage_spent tree.pmm null with ⟨none, -⟩ | ⟨-, spent⟩
    · exact absurd none page
    · rw [linked]
      exact ⟨spent.used, spent.free⟩
  refine ⟨⟨keeps, grown.taken, fun x taken data => grown.kept x taken ?_, fun q other => ?_,
    fun q member => ?_, spent⟩, by rw [made]; exact Option.some_ne_none _⟩
  · simpa using fun same : x = f => data p (same ▸ at_p)
  · have off : q ≠ p ++ [i] := fun same => other (Finset.mem_singleton.mpr same)
    by_cases through : p ++ [i] <+: q
    · -- nothing is behind the new table, and nothing was behind the entry
      obtain ⟨rest, rfl⟩ := through
      have nothing : s.table (p ++ [i] ++ rest) = none := by
        have split : s.table (p ++ [i] ++ rest) = _ :=
          reach_append (m := s.mem) (d := 0) (f := s.root) (p := p ++ [i]) (q := rest)
        rwa [show reach slot s.mem 0 s.root (p ++ [i]) = none from before] at split
      rw [nothing]
      by_contra found
      obtain ⟨h, at_q⟩ := Option.ne_none_iff_exists'.mp found
      rw [Vmm.table, root] at at_q
      rcases grows.reach_cases at_p at_q with ⟨same, -⟩ | old
      · exact off same
      · exact absurd (nothing.symm.trans old) (Option.some_ne_none h).symm
    · rw [Vmm.table, root]
      exact grows.same.reach_eq through
  · obtain rfl := Finset.mem_singleton.mp member
    exact ⟨before, _, made, new.1⟩

/-- The table behind an entry. -/
theorem table_behind (at_p : s.table p = some f) : s.table (p ++ [i]) =
    match slot p.length (s.mem f i) with
    | .table g => some g
    | _ => none := by
  have split : s.table (p ++ [i]) = _ :=
    reach_append (m := s.mem) (d := 0) (f := s.root) (p := p) (q := [i])
  rw [show reach slot s.mem 0 s.root p = some f from at_p, Option.bind_some, Nat.zero_add] at split
  rw [split, reach]
  cases slot p.length (s.mem f i) <;> rfl

/-- Above a table there is one. -/
theorem table_above (there : s.table (p ++ [i]) ≠ none) : s.table p ≠ none := by
  obtain ⟨h, at_q⟩ := Option.ne_none_iff_exists'.mp there
  obtain ⟨g, at_p, -⟩ := reach_snoc at_q
  rw [Vmm.table, at_p]
  exact Option.some_ne_none g

/-- A failed allocation makes nothing. -/
theorem Makes.alloc (tree : PageTree Entry s) (null : Taken s 0) (failed : s.allocPage.1 = 0) :
    Makes s s.allocPage.2 ∅ ∧ freePages s.allocPage.2.pmm = 0 := by
  rcases allocPage_spent tree.pmm null with ⟨-, same, none⟩ | ⟨page, -⟩
  · refine ⟨.still (allocPage_spec tree).1 same (fun _ => rfl) fun _ _ _ => rfl, ?_⟩
    rw [same, none]
  · exact absurd failed page

/-- **`next_table`** makes the table behind an entry. -/
theorem nextTable_makes (tree : PageTree Entry s) (null : Taken s 0) (at_p : s.table p = some f)
    (upper : p.length < 3) (small : p.length = 2 → s.mem f i &&& vmmHuge = 0) :
    MakesTable s (nextTable s f i).2 (p ++ [i]) ((nextTable s f i).1 ≠ 0) := by
  obtain ⟨keeps, outcome⟩ := nextTable_spec (i := i) tree at_p upper small
  rcases nextTable_cases s f i (allocPage_frame tree.pmm) with
    ⟨absent, failed, eval⟩ | ⟨absent, page, eval⟩ | ⟨present, eval⟩
  · obtain ⟨makes, none⟩ := Makes.alloc tree null failed
    rw [eval]
    refine ⟨⟨∅, Finset.empty_subset _, makes⟩, fun done => absurd rfl done, fun _ => ⟨none, ?_⟩⟩
    exact (table_behind (s := s) at_p).trans (by rw [slot_absent absent])
  · have before : s.table (p ++ [i]) = none := by rw [table_behind at_p, slot_absent absent]
    rw [eval] at keeps ⊢
    obtain ⟨makes, made⟩ := linked_makes tree null at_p upper page (fun j h => by simp)
      (fun j => entry_zero _) before rfl keeps
    exact ⟨⟨_, subset_rfl, makes⟩, fun _ => made, fun none => absurd page none⟩
  · obtain ⟨-, tables, -⟩ := tree.or_user (i := i) at_p
    rw [eval] at keeps outcome ⊢
    have makes : Makes s (s.set f i (s.mem f i ||| vmmUser)) ∅ :=
      .still keeps rfl tables fun x used data =>
        (Grown.set tree.pmm f i _).kept x used (by simpa using fun same : x = f => data p (same ▸ at_p))
    obtain ⟨made, -, there⟩ := outcome.resolve_left fun failed => by
      refine (tree.entries at_p i).2.notNull (s.mem f i &&& addrMask) ?_ failed.1
      by_cases two : p.length = 2
      · rw [two, slot_pd present (small two)]
      · exact slot_dir (by omega) present
    refine ⟨⟨∅, Finset.empty_subset _, makes⟩, fun _ => ?_, fun none => absurd made none⟩
    rw [there]
    exact Option.some_ne_none _

/-- **`split_huge_pd`** makes the table behind an entry of a page directory, when it was a
large page. -/
theorem splitHugePd_makes (tree : PageTree Entry s) (null : Taken s 0) (at_p : s.table p = some f)
    (level : p.length = 2) :
    (s.mem f i &&& vmmHuge = 0 ∧ splitHugePd s f i = (0, s)) ∨
      MakesTable s (splitHugePd s f i).2 (p ++ [i]) (¬ (splitHugePd s f i).1 < 0) := by
  obtain ⟨keeps, outcome⟩ := splitHugePd_spec (i := i) tree at_p level
  rcases splitHugePd_cases s f i with small | ⟨huge, failed, eval⟩ | ⟨huge, page, eval⟩
  · exact .inl small
  all_goals
    obtain ⟨⟨clean, -⟩, ⟨absent, -⟩⟩ := tree.entries at_p i
    have present : s.mem f i &&& vmmPresent ≠ 0 := fun none => huge (absent level none)
    have before : s.table (p ++ [i]) = none := by
      rw [table_behind at_p, level, slot_large present huge]
    rw [eval] at keeps ⊢
  · obtain ⟨makes, none⟩ := Makes.alloc tree null failed
    exact .inr ⟨⟨∅, Finset.empty_subset _, makes⟩, fun done => absurd (show (-1 : Int) < 0 by decide) done,
      fun _ => ⟨none, before⟩⟩
  · obtain ⟨makes, made⟩ := linked_makes tree null at_p (by omega) page
      (fun j h => slot_bottom (by omega)) (fun j => by rw [level]; exact entry_small j clean)
      before rfl keeps
    exact .inr ⟨⟨_, subset_rfl, makes⟩, fun _ => made, fun none => absurd (show ¬ (0 : Int) < 0 by decide) none⟩

/-! ## `vmm_map` -/

/-- The last store of `vmm_map` in the table `pt`. -/
def pageEntry (phys flags : Nat) : Nat := (phys &&& pageMask) ||| (flags &&& 0xFFF) ||| vmmPresent

/-- Some tables of an address are made, and then there is no page for the next one. -/
def OutOfPages (s t : Vmm) (virt : Nat) : Prop :=
  ∃ new ⊂ missing s [virt], Makes s t new ∧ freePages t.pmm = 0

/-- A table that cannot be made. -/
theorem Makes.outOfPages (makes : Makes s t new) (sub : new ⊆ (dirs virt).toFinset)
    (empty : freePages t.pmm = 0) (member : q ∈ dirs virt) (absent : t.table q = none) :
    OutOfPages s t virt := by
  refine ⟨new, Finset.ssubset_iff_subset_ne.mpr ⟨fun r mem => ?_, fun all => ?_⟩, makes, empty⟩
  · exact mem_missing.mpr ⟨⟨virt, List.mem_singleton_self _, List.mem_toFinset.mp (sub mem)⟩,
      (makes.made r mem).1⟩
  · have before : s.table q = none := by
      by_contra found
      obtain ⟨h, at_q⟩ := Option.ne_none_iff_exists'.mp found
      rw [makes.isSome at_q] at absent
      cases absent
    have mem : q ∈ new := by
      rw [all]
      exact mem_missing.mpr ⟨⟨virt, List.mem_singleton_self _, member⟩, before⟩
    obtain ⟨-, h, at_q, -⟩ := makes.made q mem
    rw [absent] at at_q
    cases at_q

/-- When all tables are there, those made were missing. -/
theorem Makes.all (makes : Makes s t new) (sub : new ⊆ (dirs virt).toFinset)
    (there : ∀ q ∈ dirs virt, t.table q ≠ none) : Makes s t (missing s [virt]) := by
  have all : missing s [virt] = new := by
    ext q
    rw [mem_missing]
    constructor
    · rintro ⟨⟨va, member, below⟩, none⟩
      obtain rfl := List.mem_singleton.mp member
      by_contra other
      exact there q below ((makes.old q other).trans none)
    · intro mem
      exact ⟨⟨virt, List.mem_singleton_self _, List.mem_toFinset.mp (sub mem)⟩,
        (makes.made q mem).1⟩
  rwa [all]

/-- Tables that are there stay there. -/
theorem Makes.ne_none (makes : Makes s t new) (there : s.table q ≠ none) : t.table q ≠ none := by
  obtain ⟨h, at_q⟩ := Option.ne_none_iff_exists'.mp there
  rw [makes.isSome at_q]
  exact Option.some_ne_none h

/-- One step more on the way down. -/
theorem Makes.step {made : Prop} (virt : Nat) (makes : Makes s t new) (sub : new ⊆ (dirs virt).toFinset)
    (table : MakesTable t u q made) (member : q ∈ dirs virt) :
    (∃ new ⊆ (dirs virt).toFinset, Makes s u new) ∧ (¬ made → OutOfPages s u virt) := by
  obtain ⟨⟨new', sub', makes'⟩, -, failed⟩ := table
  have sub' : new ∪ new' ⊆ (dirs virt).toFinset :=
    Finset.union_subset sub fun r mem => by
      obtain rfl := Finset.mem_singleton.mp (sub' mem)
      exact List.mem_toFinset.mpr member
  refine ⟨⟨_, sub', makes.trans makes'⟩, fun none => ?_⟩
  exact (makes.trans makes').outOfPages sub' (failed none).1 member (failed none).2

/-- **`vmm_map` makes the tables that are missing** and maps the page, or runs out of pages. -/
theorem vmmMap_cases (tree : PageTree Entry s) (null : Taken s 0) (virt phys flags : Nat) :
    (∃ t pt, Makes s t (missing s [virt]) ∧
        t.table [tableIdx virt 39, tableIdx virt 30, tableIdx virt 21] = some pt ∧
        vmmMap s virt phys flags = t.set pt (tableIdx virt 12) (pageEntry phys flags)) ∨
      OutOfPages s (vmmMap s virt phys flags) virt := by
  simp only [vmmMap]
  have start : Makes s s ∅ := .still ⟨rfl, tree, fun _ => rfl⟩ rfl (fun _ => rfl) fun _ _ _ => rfl
  obtain ⟨-, outcome₁⟩ := nextTable_spec (p := []) (i := tableIdx virt 39) tree rfl
    (by simp) (by simp)
  have table₁ := nextTable_makes (p := []) (i := tableIdx virt 39) tree null rfl (by simp) (by simp)
  generalize nextTable s s.root (tableIdx virt 39) = r₁ at *
  obtain ⟨⟨new₁, sub₁, makes₁⟩, failed₁⟩ := start.step virt (by simp) table₁ (by simp [dirs])
  rcases outcome₁ with ⟨null₁, -⟩ | ⟨pdpt, -, at₁⟩
  · rw [if_pos null₁]
    exact .inr (failed₁ (not_not.mpr null₁))
  rw [if_neg pdpt]
  have tree₁ := makes₁.keeps.tree
  obtain ⟨-, outcome₂⟩ := nextTable_spec (i := tableIdx virt 30) tree₁ at₁ (by simp) (by simp)
  have table₂ := nextTable_makes (i := tableIdx virt 30) tree₁ (makes₁.taken 0 null) at₁ (by simp)
    (by simp)
  generalize nextTable r₁.2 r₁.1 (tableIdx virt 30) = r₂ at *
  obtain ⟨⟨new₂, sub₂, makes₂⟩, failed₂⟩ := makes₁.step virt sub₁ table₂ (by simp [dirs])
  rcases outcome₂ with ⟨null₂, -⟩ | ⟨pd, -, at₂⟩
  · rw [if_pos null₂]
    exact .inr (failed₂ (not_not.mpr null₂))
  rw [if_neg pd]
  have tree₂ := makes₂.keeps.tree
  obtain ⟨-, outcome₃⟩ := splitHugePd_spec (i := tableIdx virt 21) tree₂ at₂ (by simp)
  have split₃ : (∃ new ⊆ (dirs virt).toFinset, Makes s (splitHugePd r₂.2 r₂.1 (tableIdx virt 21)).2
      new) ∧ ((splitHugePd r₂.2 r₂.1 (tableIdx virt 21)).1 < 0 →
        OutOfPages s (splitHugePd r₂.2 r₂.1 (tableIdx virt 21)).2 virt) := by
    rcases splitHugePd_makes (i := tableIdx virt 21) tree₂ (makes₂.taken 0 null) at₂ (by simp) with
      ⟨-, eval⟩ | table₃
    · rw [eval]
      exact ⟨⟨new₂, sub₂, makes₂⟩, fun failed => absurd failed (show ¬ (0 : Int) < 0 by decide)⟩
    · exact (makes₂.step virt sub₂ table₃ (by simp [dirs])).imp_right fun failed below =>
        failed (not_not.mpr below)
  generalize splitHugePd r₂.2 r₂.1 (tableIdx virt 21) = r₃ at *
  obtain ⟨⟨new₃, sub₃, makes₃⟩, failed₃⟩ := split₃
  rcases outcome₃ with ⟨failed, -⟩ | ⟨done, -, at₃, small⟩
  · have below : r₃.1 < 0 := by omega
    rw [if_pos below]
    exact .inr (failed₃ below)
  rw [if_neg (show ¬ r₃.1 < 0 by omega), if_neg (not_not.mpr small)]
  have tree₃ := makes₃.keeps.tree
  obtain ⟨-, outcome₄⟩ := nextTable_spec (i := tableIdx virt 21) tree₃ at₃ (by simp)
    (fun _ => small)
  have table₄ := nextTable_makes (i := tableIdx virt 21) tree₃ (makes₃.taken 0 null) at₃ (by simp)
    (fun _ => small)
  generalize nextTable r₃.2 r₂.1 (tableIdx virt 21) = r₄ at *
  obtain ⟨⟨new₄, sub₄, makes₄⟩, failed₄⟩ := makes₃.step virt sub₃ table₄ (by simp [dirs])
  rcases outcome₄ with ⟨null₄, -⟩ | ⟨pt, -, at₄⟩
  · rw [if_pos null₄]
    exact .inr (failed₄ (not_not.mpr null₄))
  rw [if_neg pt]
  refine .inl ⟨r₄.2, r₄.1, makes₄.all sub₄ fun q below => ?_, at₄, rfl⟩
  -- the tables on the way to the last one
  have last : r₄.2.table [tableIdx virt 39, tableIdx virt 30, tableIdx virt 21] ≠ none := by
    rw [show r₄.2.table [tableIdx virt 39, tableIdx virt 30, tableIdx virt 21] = _ from at₄]
    exact Option.some_ne_none _
  have middle := table_above (p := [tableIdx virt 39, tableIdx virt 30]) last
  have first := table_above (p := [tableIdx virt 39]) middle
  simp only [dirs, List.mem_cons, List.not_mem_nil, or_false] at below
  rcases below with rfl | rfl | rfl
  · exact first
  · exact middle
  · exact last

end Flyos
