import Flyos.Mm.PageEntry

/-!
# What `vmm_map` and `vmm_unmap` do to a table tree

A state holds a `PageTree` when its tables lie in distinct frames, its entries
are legal and every frame of the tree that the page allocator manages is marked
used.  `pageAt` is the physical page a page number is translated to, and
`vmmGetPhys_eq` that `vmm_get_phys` computes it.

Building tables on the way down (`nextTable_spec`) and splitting a large page
(`splitHugePd_spec`) grow the tree and leave every translation as it was; the one
store at the end (`PageTree.write`) changes the translation of one page.
-/

namespace Flyos

open TableTree

/-- The four table indices of an address. -/
def path (virt : Nat) : List (Fin 512) :=
  [tableIdx virt 39, tableIdx virt 30, tableIdx virt 21, tableIdx virt 12]

/-- The bits of an address that the four levels look at.  Bits 48 to 63 are not
among them; in a canonical address they repeat bit 47. -/
def pageNumber (virt : Nat) : Nat := virt / pageSize % 2 ^ 36

/-- The page inside a leaf: a leaf of the page directory has one index left. -/
def physPage : Nat × List (Fin 512) → Nat
  | (a, []) => a
  | (a, j :: _) => a + j * pageSize

/-- The physical page an index list is translated to. -/
def pageAt (s : Vmm) (is : List (Fin 512)) : Option Nat :=
  (walk slot s.mem 0 s.root is).map physPage

/-- The table at a path below the PML4. -/
abbrev Vmm.table (s : Vmm) (p : List (Fin 512)) : Option Nat := reach slot s.mem 0 s.root p

/-- A tree of tables with entries as `ok` has them, in frames of its own. -/
structure PageTree (ok : Nat → Nat → Prop) (s : Vmm) : Prop where
  distinct : Distinct slot s.mem s.root
  entries : ∀ {p f}, s.table p = some f → ∀ i, ok p.length (s.mem f i)
  pmm : s.pmm.Ok
  inUse : ∀ {p f}, s.table p = some f → f / pageSize < s.pmm.totalPages →
    bitmapTest s.pmm.bitmap (f / pageSize) = true

/-! ## Indices and page numbers -/

theorem tableIdx_val (virt shift : Nat) :
    (tableIdx virt shift).val = virt / 2 ^ shift % 512 := by
  rw [← Nat.shiftRight_eq_div_pow]
  exact Nat.and_two_pow_sub_one_eq_mod _ 9

/-- The path of an address, as its table and the index there. -/
theorem path_eq (virt : Nat) : path virt =
    [tableIdx virt 39, tableIdx virt 30, tableIdx virt 21] ++ [tableIdx virt 12] := rfl

/-- Addresses have the same indices when they have the same page number. -/
theorem path_eq_iff (v w : Nat) : path v = path w ↔ pageNumber v = pageNumber w := by
  simp only [path, List.cons.injEq, Fin.ext_iff, tableIdx_val, and_true, pageNumber, pageSize]
  omega

/-- `vmm_get_phys` translates the page and adds the offset. -/
theorem vmmGetPhys_eq (s : Vmm) (virt : Nat) :
    vmmGetPhys s virt = ((pageAt s (path virt)).map (· + virt % pageSize)).getD 0 := by
  have low : virt &&& 0xFFF = virt % pageSize := and_low12 virt
  have high : virt &&& 0x1FFFFF = tableIdx virt 12 * pageSize + virt % pageSize := by
    rw [show virt &&& 0x1FFFFF = virt % 2 ^ 21 from Nat.and_two_pow_sub_one_eq_mod virt 21,
      tableIdx_val]
    simp only [pageSize]
    omega
  simp only [vmmGetPhys, pageAt, path, low, high, walk]
  by_cases h₁ : s.mem s.root (tableIdx virt 39) &&& vmmPresent = 0
  · simp only [if_pos h₁, slot_absent h₁]
    rfl
  simp only [if_neg h₁, slot_dir (d := 0) (by decide) h₁]
  generalize s.mem s.root (tableIdx virt 39) &&& addrMask = pdpt
  by_cases h₂ : s.mem pdpt (tableIdx virt 30) &&& vmmPresent = 0
  · simp only [if_pos h₂, slot_absent h₂]
    rfl
  simp only [if_neg h₂, slot_dir (d := 0 + 1) (by decide) h₂]
  generalize s.mem pdpt (tableIdx virt 30) &&& addrMask = pd
  by_cases h₃ : s.mem pd (tableIdx virt 21) &&& vmmPresent = 0
  · simp only [if_pos h₃, slot_absent h₃]
    rfl
  by_cases huge : s.mem pd (tableIdx virt 21) &&& vmmHuge = 0
  · simp only [if_neg h₃, if_neg (not_not.mpr huge), slot_pd h₃ huge]
    generalize s.mem pd (tableIdx virt 21) &&& addrMask = pt
    by_cases h₄ : s.mem pt (tableIdx virt 12) &&& vmmPresent = 0
    · simp only [if_pos h₄, slot_absent h₄]
      rfl
    · simp only [if_neg h₄, slot_pt h₄]
      rfl
  · simp only [if_neg h₃, if_pos huge, slot_large h₃ huge]
    simp [physPage, Nat.add_assoc]

/-! ## Changing a tree -/

/-- Tables lie at most three levels below the PML4. -/
theorem table_depth {s : Vmm} {p : List (Fin 512)} {f : Nat} (at_p : s.table p = some f) :
    p.length ≤ 3 := by
  rcases List.eq_nil_or_concat p with rfl | ⟨q, i, rfl⟩
  · simp
  · rw [List.concat_eq_append] at at_p ⊢
    obtain ⟨g, -, link⟩ := reach_snoc at_p
    by_contra deep
    refine slot_bottom ?_ link
    simp only [List.length_append, List.length_singleton] at deep
    omega

/-- A store to one entry of a table changes one edge of the tree. -/
theorem PageTree.eqOff {s : Vmm} {ok : Nat → Nat → Prop} {p : List (Fin 512)} {f e : Nat}
    {i : Fin 512} (tree : PageTree ok s) (at_p : s.table p = some f) :
    EqOff slot s.mem (s.set f i e).mem s.root p i where
  keep := fun {q g j} at_q edge => by
    have other : ¬ (g = f ∧ j = i) := by
      rintro ⟨rfl, rfl⟩
      exact edge (by rw [tree.distinct _ _ _ at_q at_p])
    simp only [Vmm.set, if_neg other]

/-- So does filling a frame outside the tree before that. -/
theorem PageTree.eqOff_fill {s : Vmm} {ok : Nat → Nat → Prop} {p : List (Fin 512)}
    {f e np : Nat} {i : Fin 512} {g : Fin 512 → Nat} (tree : PageTree ok s)
    (at_p : s.table p = some f) (fresh : ∀ q, s.table q ≠ some np) :
    EqOff slot s.mem ((s.fillPage np g).set f i e).mem s.root p i where
  keep := fun {q h j} at_q edge => by
    have old : h ≠ np := fun eq => fresh q (eq ▸ at_q)
    have other : ¬ (h = f ∧ j = i) := by
      rintro ⟨rfl, rfl⟩
      exact edge (by rw [tree.distinct _ _ _ at_q at_p])
    simp only [Vmm.set, Vmm.fillPage, if_neg old, if_neg other]

/-- A tree with no tables but those of a given tree. -/
theorem PageTree.of_sub {s t : Vmm} {ok : Nat → Nat → Prop} (tree : PageTree ok s)
    (pmm : t.pmm = s.pmm) (sub : ∀ {q h}, t.table q = some h → s.table q = some h)
    (entries : ∀ {q h}, s.table q = some h → ∀ i, ok q.length (t.mem h i)) : PageTree ok t where
  distinct := fun _ _ _ at_q at_r => tree.distinct _ _ _ (sub at_q) (sub at_r)
  entries := fun at_q => entries (sub at_q)
  pmm := pmm ▸ tree.pmm
  inUse := fun at_q => pmm ▸ tree.inUse (sub at_q)

/-- Entries after a store of a legal entry. -/
theorem PageTree.entries_set {s : Vmm} {ok : Nat → Nat → Prop} {p q : List (Fin 512)}
    {f e h : Nat} {i : Fin 512} (tree : PageTree ok s) (at_p : s.table p = some f)
    (legal : ok p.length e) (at_q : s.table q = some h) (j : Fin 512) :
    ok q.length ((s.set f i e).mem h j) := by
  simp only [Vmm.set]
  split
  case isTrue here =>
    obtain ⟨rfl, rfl⟩ := here
    rwa [tree.distinct _ _ _ at_q at_p]
  case isFalse => exact tree.entries at_q j

/-- **Setting the user bit** on an entry changes no translation. -/
theorem PageTree.or_user {s : Vmm} {p : List (Fin 512)} {f : Nat} {i : Fin 512}
    (tree : PageTree Entry s) (at_p : s.table p = some f) :
    PageTree Entry (s.set f i (s.mem f i ||| vmmUser)) ∧
      (∀ q, (s.set f i (s.mem f i ||| vmmUser)).table q = s.table q) ∧
      ∀ is, pageAt (s.set f i (s.mem f i ||| vmmUser)) is = pageAt s is := by
  have same := (tree.eqOff (e := s.mem f i ||| vmmUser) (i := i) at_p).sameOff
  have edge : ∀ g, s.table p = some g → slot p.length
      ((s.set f i (s.mem f i ||| vmmUser)).mem g i) = slot p.length (s.mem g i) := by
    intro g at_p'
    obtain rfl := Option.some.inj (at_p.symm.trans at_p')
    simp only [Vmm.set, and_self, if_true, slot_or_user]
  have tables : ∀ q, (s.set f i (s.mem f i ||| vmmUser)).table q = s.table q := fun q =>
    (same.all edge q i).reach_self
  refine ⟨tree.of_sub rfl (fun at_q => (tables _).symm.trans at_q)
    (fun at_q j => tree.entries_set at_p (tree.entries at_p i).or_user at_q j), tables,
    fun is => ?_⟩
  exact congrArg (Option.map physPage) ((same.all edge is i).walk_eq not_edge_prefix)

/-- **A store in a table of the last level** changes the translation of one page. -/
theorem PageTree.write {s : Vmm} {p : List (Fin 512)} {f e : Nat} {i : Fin 512}
    (tree : PageTree Entry s) (at_p : s.table p = some f) (last : p.length = 3)
    (legal : Entry 3 e) :
    PageTree Entry (s.set f i e) ∧
      (∀ is, ¬ p ++ [i] <+: is → pageAt (s.set f i e) is = pageAt s is) ∧
      pageAt (s.set f i e) (p ++ [i]) =
        match slot 3 e with
        | .leaf a => some a
        | _ => none := by
  have same := (tree.eqOff (e := e) (i := i) at_p).sameOff
  have sub : ∀ {q h}, (s.set f i e).table q = some h → s.table q = some h := fun at_q =>
    same.reach_of_noLink (fun _ _ _ => slot_bottom last.ge) at_q
  refine ⟨tree.of_sub rfl sub fun at_q j => tree.entries_set at_p (last.symm ▸ legal) at_q j,
    fun is off => congrArg (Option.map physPage) (same.walk_eq off), ?_⟩
  have here : (s.set f i e).table p = some f := same.reach_self.trans at_p
  rw [pageAt, walk_append here, Nat.zero_add, last]
  simp only [walk, Vmm.set, and_self, if_true]
  cases entry : slot 3 e with
  | table g => exact absurd entry (slot_bottom le_rfl)
  | _ => rfl

/-- **Linking a fresh table** whose entries are no links. -/
theorem PageTree.grow {s : Vmm} {p : List (Fin 512)} {f e np : Nat} {i : Fin 512}
    {g : Fin 512 → Nat} (tree : PageTree Entry s) (at_p : s.table p = some f)
    (fresh : ∀ q, s.table q ≠ some np)
    (used : bitmapTest s.pmm.bitmap (np / pageSize) = true)
    (link : slot p.length e = .table np) (flat : ∀ j h, slot (p.length + 1) (g j) ≠ .table h)
    (legal : Entry p.length e) (legals : ∀ j, Entry (p.length + 1) (g j)) :
    PageTree Entry ((s.fillPage np g).set f i e) ∧
      Grows slot s.mem ((s.fillPage np g).set f i e).mem s.root p i np := by
  have unlike : np ≠ f := fun eq => fresh p (eq ▸ at_p)
  have grows : Grows slot s.mem ((s.fillPage np g).set f i e).mem s.root p i np :=
    { same := (tree.eqOff_fill at_p fresh).sameOff
      fresh := fresh
      link := fun h at_p' => by
        obtain rfl := Option.some.inj (at_p.symm.trans at_p')
        simpa only [Vmm.set, and_self, if_true] using link
      flat := fun j h => by
        have other : ¬ (np = f ∧ j = i) := fun eq => unlike eq.1
        simpa only [Vmm.set, Vmm.fillPage, if_neg other, if_true] using flat j h }
  refine ⟨?_, grows⟩
  have tables : ∀ {q h}, ((s.fillPage np g).set f i e).table q = some h →
      (q = p ++ [i] ∧ h = np) ∨ s.table q = some h := fun at_q => grows.reach_cases at_p at_q
  refine ⟨grows.distinct at_p tree.distinct, fun {q h} at_q j => ?_, tree.pmm, fun at_q => ?_⟩
  · rcases tables at_q with ⟨rfl, rfl⟩ | old
    · simpa [Vmm.set, Vmm.fillPage, unlike] using legals j
    · have kept : h ≠ np := fun eq => fresh q (eq ▸ old)
      have stored := tree.entries_set (i := i) at_p legal old j
      simpa only [Vmm.set, Vmm.fillPage, if_neg kept] using stored
  · rcases tables at_q with ⟨rfl, rfl⟩ | old
    · exact fun _ => used
    · exact tree.inUse old

end Flyos
