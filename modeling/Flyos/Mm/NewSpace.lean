import Flyos.Mm.Identity

/-!
# New address spaces keep the identity map

`NewSpace` is what the invariant needs of a new PML4: its tables are fresh or those of
the current tree at the same place, it maps what the current one maps or fresh frames,
and it maps the protected pages as the current one does.

`vmm_clone_pml4` always gives such a space.  `vmm_clone_pml4_deep` gives one when the
protected pages lie in large pages (`Unsplit`), for these are shared; a small page is
copied to another frame.
-/

namespace Flyos

open TableTree

/-- `root` in `t` is a new address space with the translations that the current one has
in `s`, but for pages of fresh frames. -/
structure NewSpace (s₀ s t : Vmm) (root : Nat) : Prop where
  grown : Grown s t []
  aligned : root &&& addrMask = root
  tables : ∀ p f, reach slot t.mem 0 root p = some f → Fresh s t f ∨ s.table p = some f
  once : ∀ p q f, reach slot t.mem 0 root p = some f → reach slot t.mem 0 root q = some f →
    ¬ Taken s f → p = q
  entries : ∀ p f, reach slot t.mem 0 root p = some f → ∀ i, Entry p.length (t.mem f i)
  pages : ∀ v a, pageAt (t.inSpace root) (path v) = some a → pageAt s (path v) = some a ∨
    Fresh s t a ∧ ∀ q, reach slot t.mem 0 root q ≠ some a
  same : ∀ f, Protected s₀ f → f < 2 ^ 30 → pageAt (t.inSpace root) (path f) = pageAt s (path f)

section

variable {s₀ s t : Vmm} {roots : List Nat} {root : Nat}

/-- Among the spaces there are, a new one has its place. -/
theorem Identity.addSpaces (inv : Identity s₀ s roots) (space : NewSpace s₀ s t root)
    (old : Spaces t roots)
    (kept : ∀ R ∈ roots, ∀ q, reach slot t.mem 0 R q = reach slot s.mem 0 R q) :
    Spaces t (root :: roots) := by
  obtain ⟨tree, current⟩ := inv.spaces.current inv.current
  have at_root : (t.inSpace root).root = root := space.aligned
  have distinct : Distinct slot t.mem root := by
    intro p q f at_p at_q
    by_cases used : Taken s f
    · have at_p' := (space.tables p f at_p).resolve_left fun fresh => fresh.1 used
      have at_q' := (space.tables q f at_q).resolve_left fun fresh => fresh.1 used
      exact tree.distinct p q f at_p' at_q'
    · exact space.once p q f at_p at_q used
  -- a table of the new tree and of an old one is one of the current tree
  have apart : ∀ R ∈ roots, ∀ p q f, reach slot t.mem 0 root p = some f →
      reach slot t.mem 0 R q = some f → p = q := by
    intro R member p q f at_p at_q
    rw [kept R member] at at_q
    have at_p' := (space.tables p f at_p).resolve_left fun fresh =>
      fresh.1 (inv.spaces.taken member at_q)
    rw [Vmm.table, current] at at_p'
    exact inv.spaces.apart s.cr3 inv.current R member p q f at_p' at_q
  refine ⟨fun R member => ?_, fun R member => ?_, fun R member R' member' p q f at_p at_q => ?_⟩
  · rcases List.mem_cons.mp member with rfl | before
    · exact space.aligned
    · exact old.root R before
  · rcases List.mem_cons.mp member with rfl | before
    · refine ⟨by rwa [at_root], fun {p f} at_p i => ?_, space.grown.pmm, fun {p f} at_p => ?_⟩
      · rw [Vmm.table, at_root] at at_p
        exact space.entries p f at_p i
      · rw [Vmm.table, at_root] at at_p
        rcases space.tables p f at_p with fresh | shared
        · exact fresh.2
        · exact space.grown.taken f (tree.inUse shared)
    · exact old.trees R before
  · rcases List.mem_cons.mp member with rfl | before <;>
      rcases List.mem_cons.mp member' with rfl | before'
    · exact distinct p q f at_p at_q
    · exact apart R' before' p q f at_p at_q
    · exact (apart R before q p f at_q at_p).symm
    · exact old.apart R before R' before' p q f at_p at_q

/-- **A new address space keeps the identity map.** -/
theorem Identity.addSpace (inv : Identity s₀ s roots) (space : NewSpace s₀ s t root) :
    Identity s₀ t (root :: roots) := by
  obtain ⟨-, current⟩ := inv.spaces.current inv.current
  obtain ⟨old, kept⟩ := inv.spaces.of_kept space.grown.pmm space.grown.taken
    fun R member q h at_q => space.grown.kept h (inv.spaces.taken member at_q) (by simp)
  have pages : ∀ R ∈ roots, ∀ is, pageAt (t.inSpace R) is = pageAt (s.inSpace R) is := by
    intro R member is
    rw [pageAt, pageAt, inv.spaces.inSpace_root member, inv.spaces.inSpace_root member]
    exact congrArg (Option.map physPage) ((kept R member).2 is)
  -- data is in use before, so none of the fresh tables
  have data : ∀ a, Data s roots a → Data t (root :: roots) a := by
    intro a data
    refine ⟨space.grown.taken a data.1, fun R member q at_q => ?_⟩
    rcases List.mem_cons.mp member with rfl | before
    · have shared := (space.tables q a at_q).resolve_left fun fresh => fresh.1 data.1
      rw [Vmm.table, current] at shared
      exact data.2 s.cr3 inv.current q shared
    · rw [(kept R before).1] at at_q
      exact data.2 R before q at_q
  refine ⟨inv.null, space.grown.total.trans inv.total,
    fun f used => space.grown.taken f (inv.taken f used),
    inv.addSpaces space old fun R member => (kept R member).1,
    space.grown.cr3 ▸ List.mem_cons_of_mem _ inv.current, fun R member q h at_q => ?_,
    fun R member f guarded low => ?_, fun R member v a clear found => ?_⟩
  · rcases List.mem_cons.mp member with rfl | before
    · rcases space.tables q h at_q with fresh | shared
      · exact .inl fun used => fresh.1 (inv.taken h used)
      · rw [Vmm.table, current] at shared
        exact inv.tables s.cr3 inv.current q h shared
    · rw [(kept R before).1] at at_q
      exact inv.tables R before q h at_q
  · rcases List.mem_cons.mp member with rfl | before
    · rw [space.same f guarded low]
      exact inv.same s.cr3 inv.current f guarded low
    · rw [pages R before]
      exact inv.same R before f guarded low
  · rcases List.mem_cons.mp member with rfl | before
    · rcases space.pages v a found with shared | ⟨fresh, noTable⟩
      · exact data a (inv.data s.cr3 inv.current v a clear shared)
      · refine ⟨fresh.2, fun R' member' q at_q => ?_⟩
        rcases List.mem_cons.mp member' with rfl | before'
        · exact noTable q at_q
        · rw [(kept R' before').1] at at_q
          exact fresh.1 (inv.spaces.taken before' at_q)
    · rw [pages R before] at found
      exact data a (inv.data R before v a clear found)

end

/-! ## `vmm_clone_pml4` -/

section

variable {s₀ s : Vmm} {roots : List Nat}

/-- A shallow copy is a new space. -/
theorem vmmClonePml4_newSpace (inv : Identity s₀ s roots) (done : (vmmClonePml4 s).1 ≠ 0) :
    NewSpace s₀ s (vmmClonePml4 s).2 (vmmClonePml4 s).1 := by
  obtain ⟨tree, -⟩ := inv.spaces.current inv.current
  by_cases null : s.allocPage.1 = 0
  · exact absurd (by simp only [vmmClonePml4, null, if_true]) done
  obtain ⟨grown, fresh, k, eq, inRange⟩ := fillPage_grown tree.pmm null (s.allocPage.2.mem s.root)
  rw [show vmmClonePml4 s = (s.allocPage.1, s.allocPage.2.fillPage s.allocPage.1
    (s.allocPage.2.mem s.root)) by simp only [vmmClonePml4, null, if_false]]
  simp only
  have copied : ∀ i, (s.allocPage.2.fillPage s.allocPage.1 (s.allocPage.2.mem s.root)).mem
      s.allocPage.1 i = s.mem s.root i := fun i => by
    simp only [Vmm.fillPage, if_true]
    rfl
  generalize s.allocPage.2.fillPage s.allocPage.1 (s.allocPage.2.mem s.root) = t
    at grown fresh copied ⊢
  generalize s.allocPage.1 = root at *
  have shares := fun i => shared_entry (d := 0) (copied i)
    fun p f at_p => grown.kept f (tree.inUse (p := i :: p) at_p) (by simp)
  have aligned : root &&& addrMask = root := eq ▸ (frame_and inRange).1
  have pages : ∀ v, pageAt (t.inSpace root) (path v) = pageAt s (path v) := fun v => by
    rw [pageAt, show (t.inSpace root).root = root from aligned]
    exact congrArg (Option.map physPage) (shares (tableIdx v 39) _).2.1
  refine ⟨grown, aligned, fun p f at_p => ?_, fun p q f at_p at_q new => ?_,
    fun p f at_p i => ?_, fun v a found => .inl ((pages v).symm.trans found), fun f _ _ => pages f⟩
  · cases p with
    | nil => exact .inl (Option.some.inj at_p ▸ fresh)
    | cons i p => exact .inr ((shares i p).1.symm.trans at_p)
  · have root_only : ∀ r, reach slot t.mem 0 root r = some f → r = [] := fun r at_r => by
      cases r with
      | nil => rfl
      | cons i r => exact absurd (tree.inUse ((shares i r).1.symm.trans at_r)) new
    rw [root_only p at_p, root_only q at_q]
  · cases p with
    | nil =>
        obtain rfl : root = f := Option.some.inj at_p
        rw [copied]
        exact tree.entries (p := []) rfl i
    | cons j p =>
        have at_p' := (shares j p).1.symm.trans at_p
        rw [grown.kept f (tree.inUse at_p') (by simp)]
        exact tree.entries at_p' i

/-! ## `vmm_clone_pml4_deep` -/

/-- No protected page is mapped as a small page. -/
def Unsplit (s₀ s : Vmm) : Prop :=
  ∀ f, Protected s₀ f → f < 2 ^ 30 → ∀ a, walk slot s.mem 0 s.root (path f) ≠ some (a, [])

/-- Alike entries have the same two flags that matter. -/
theorem Alike.bits {e e' : Nat} (alike : Alike e e') :
    e' &&& vmmPresent = e &&& vmmPresent ∧ e' &&& vmmHuge = e &&& vmmHuge := by
  have low : ∀ x flag : Nat, 0xFFF &&& flag = flag → x &&& flag = (x &&& 0xFFF) &&& flag :=
    fun x flag eq => by rw [Nat.and_assoc, eq]
  rw [low e' vmmPresent rfl, low e' vmmHuge rfl, alike.flags, ← low e vmmPresent rfl,
    ← low e vmmHuge rfl]
  exact ⟨rfl, rfl⟩

/-- The copy of a legal entry is legal. -/
theorem EntryCopy.entry {fb : FbInfo} {s₀ s t : Vmm} {d e e' : Nat}
    (copy : EntryCopy fb s₀ s t d e e') (null : Taken s 0) (legal : Entry d e) : Entry d e' := by
  have alike_legal : Alike e e' → (∀ f, slot d e' = .table f → f ≠ 0) → Entry d e' := by
    intro alike notNull
    obtain ⟨present, huge⟩ := alike.bits
    refine ⟨⟨alike.clean legal.1.clean, ?_⟩, ⟨?_, notNull⟩⟩
    · rw [present, huge]
      exact legal.1.noLeaf
    · rw [present, huge]
      exact legal.2.absent
  cases copy with
  | empty => exact entry_zero d
  | leaf _ leaf' alike _ =>
      refine alike_legal alike fun f link => ?_
      rw [leaf'] at link
      cases link
  | table _ link' alike new _ =>
      refine alike_legal alike fun f link zero => ?_
      obtain rfl := Slot.table.inj (link'.symm.trans link)
      exact new.1 (zero ▸ null)

/-- What the copy needs of its source. -/
theorem Identity.cloneSource (inv : Identity s₀ s roots) (unsplit : Unsplit s₀ s) :
    CloneSource s s.root := by
  obtain ⟨tree, current⟩ := inv.spaces.current inv.current
  refine ⟨Dvd.intro_left _ (addrMask_aligned s.cr3), fun p f at_p => tree.inUse at_p,
    fun v a _ found => ?_⟩
  by_cases clear : Clear s₀ v
  · refine (inv.data s.cr3 inv.current v a clear ?_).1
    change pageAt s (path v) = some a
    rw [pageAt, found]
    rfl
  · simp only [Clear, not_forall, not_not] at clear
    obtain ⟨f, guarded, low, same⟩ := clear
    exact absurd (same ▸ found) (unsplit f guarded low a)

/-- The PML4 of the copy is the frame taken first. -/
theorem vmmClonePml4Deep_root {fb : FbInfo} {s : Vmm} {src : Nat}
    (done : (vmmClonePml4Deep fb s src).1 ≠ 0) :
    s.allocPage.1 ≠ 0 ∧ (vmmClonePml4Deep fb s src).1 = s.allocPage.1 := by
  unfold vmmClonePml4Deep at done ⊢
  by_cases null : s.allocPage.1 = 0
  · simp [null] at done
  · simp only [null, if_false] at done ⊢
    split at done
    case isTrue copied => exact ⟨null, by rw [if_pos copied]⟩
    case isFalse => exact absurd rfl done

/-- **A page of the copy** is that of the source, or the copy of a small page. -/
theorem Cloned.pageOf {fb : FbInfo} {t u : Vmm} {root : Nat} (source : CloneSource s s.root)
    (grown : Grown s t []) (aligned : root &&& addrMask = root)
    (loop : Cloned fb s lowerHalf 3 0 s.root root (List.finRange 512) u (true, t)) (v : Nat) :
    pageAt (t.inSpace root) (path v) = pageAt s (path v) ∨
      (∃ a, walk slot s.mem 0 s.root (path v) = some (a, [])) ∧
        ∀ x, pageAt (t.inSpace root) (path v) = some x → Fresh u t x ∧
          lowerHalf (tableIdx v 39) = true ∧ walk slot t.mem 0 root (path v) = some (x, []) := by
  rw [pageAt, pageAt, show (t.inSpace root).root = root from aligned]
  change (walk slot t.mem 0 root (path v)).map physPage = _ ∨ _ ∧
    ∀ x, (walk slot t.mem 0 root (path v)).map physPage = some x → _
  cases half : lowerHalf (tableIdx v 39) with
  | false => exact .inl (congrArg (Option.map physPage) (loop.upper source grown half _).2.1)
  | true =>
      rcases loop.lookup half with ⟨before, after⟩ | ⟨a, a', rest, before, after, content⟩
      · exact .inl (congrArg (Option.map physPage) (after.trans before.symm))
      rcases content with ⟨rfl, -, fresh, -⟩ | ⟨-, rfl⟩
      · refine .inr ⟨⟨a, before⟩, fun x found => ?_⟩
        obtain rfl : a' = x := by
          rw [after] at found
          exact Option.some.inj found
        exact ⟨fresh, rfl, after⟩
      · exact .inl (congrArg (Option.map physPage) (after.trans before.symm))

/-- The entries of the tables of the copy are legal. -/
theorem Cloned.legal {fb : FbInfo} {t u : Vmm} {root : Nat} (tree : PageTree Entry s) (zero : Taken s 0)
    (source : CloneSource s s.root) (grown : Grown s t [])
    (ready : Ready s lowerHalf 0 s.root root u)
    (loop : Cloned fb s lowerHalf 3 0 s.root root (List.finRange 512) u (true, t))
    {p : List (Fin 512)} {f : Nat} (at_p : reach slot t.mem 0 root p = some f) (i : Fin 512) :
    Entry p.length (t.mem f i) := by
  cases p with
  | nil =>
      obtain rfl : root = f := Option.some.inj at_p
      have legal := tree.entries (p := []) rfl i
      cases half : lowerHalf i with
      | true => exact (loop.lower ready half).entry zero legal
      | false =>
          rw [loop.shared rfl i (List.mem_finRange i) half]
          exact legal
  | cons j p =>
      cases half : lowerHalf j with
      | true =>
          obtain ⟨-, g, at_g, below⟩ := Copy.reach (loop.lower ready half) at_p
          have copy := below i
          rw [Nat.zero_add, Nat.add_comm 1] at copy
          exact EntryCopy.entry copy zero (tree.entries (p := j :: p) at_g i)
      | false =>
          have at_p' := (loop.upper source grown half p).1.symm.trans at_p
          rw [grown.kept f (tree.inUse at_p') (by simp)]
          exact tree.entries at_p' i

/-- **A deep copy is a new space** when the protected pages lie in large pages. -/
theorem vmmClonePml4Deep_newSpace {fb : FbInfo} (inv : Identity s₀ s roots)
    (unsplit : Unsplit s₀ s) (done : (vmmClonePml4Deep fb s s.root).1 ≠ 0) :
    NewSpace s₀ s (vmmClonePml4Deep fb s s.root).2 (vmmClonePml4Deep fb s s.root).1 := by
  obtain ⟨tree, -⟩ := inv.spaces.current inv.current
  have source := inv.cloneSource unsplit
  obtain ⟨grown, loops, -⟩ := @vmmClonePml4Deep_spec fb s s.root tree.pmm source
  obtain ⟨u, since, ready, loop⟩ := loops done
  obtain ⟨null, first⟩ := vmmClonePml4Deep_root done
  obtain ⟨k, eq, inRange⟩ := allocPage_frame tree.pmm null
  have aligned : (vmmClonePml4Deep fb s s.root).1 &&& addrMask =
      (vmmClonePml4Deep fb s s.root).1 := by
    rw [first, eq]
    exact (frame_and inRange).1
  generalize (vmmClonePml4Deep fb s s.root).2 = t at *
  generalize (vmmClonePml4Deep fb s s.root).1 = root at *
  have zero : Taken s 0 := inv.taken 0 (not_not.mp fun free => inv.null (.inl free))
  have mine : Fresh s t root := ⟨ready.new, loop.grown.taken root ready.mine⟩
  refine ⟨grown, aligned, fun p f at_p => ?_, fun p q f at_p at_q new => ?_,
    fun p f at_p => loop.legal tree zero source grown ready at_p, fun v a found => ?_,
    fun f guarded low => ?_⟩
  · rcases loop.tables source grown at_p with ⟨-, rfl⟩ | ⟨-, -, -, -, fresh⟩ | shared
    · exact .inl mine
    · exact .inl (fresh.mono since.taken fun _ used => used)
    · exact .inr shared
  · rcases loop.tables source grown at_p with ⟨rfl, rfl⟩ | ⟨i, p', rfl, half, fresh⟩ | shared
    · rcases loop.tables source grown at_q with ⟨rfl, -⟩ | ⟨-, -, -, -, fresh⟩ | shared
      · rfl
      · exact absurd ready.mine fresh.1
      · exact absurd (tree.inUse shared) new
    · rcases loop.tables source grown at_q with ⟨-, rfl⟩ | ⟨j, q', rfl, half', -⟩ | shared
      · exact absurd ready.mine fresh.1
      · exact loop.apart rfl i (List.mem_finRange i) j (List.mem_finRange j) half half' p' q' f
          (.inl at_p) (.inl at_q) new
      · exact absurd (tree.inUse shared) new
    · exact absurd (tree.inUse shared) new
  · rcases loop.pageOf source grown aligned v with same | ⟨-, copied⟩
    · exact .inl (same ▸ found)
    · obtain ⟨fresh, half, after⟩ := copied a found
      have new := ready.free fresh
      refine .inr ⟨fresh.mono since.taken fun _ used => used, fun q at_q => ?_⟩
      rcases loop.tables source grown at_q with ⟨-, rfl⟩ | ⟨j, q, rfl, half', -⟩ | shared
      · exact fresh.1 ready.mine
      · have same := loop.apart rfl j (List.mem_finRange j) (tableIdx v 39) (List.mem_finRange _)
          half' half q _ a (.inl at_q) (.inr ⟨rfl, after⟩) new
        have shallow := table_depth (s := t.inSpace root) (p := j :: q) (f := a)
          (by rwa [Vmm.table, show (t.inSpace root).root = root from aligned])
        rw [same] at shallow
        simp at shallow
      · exact new (tree.inUse shared)
  · rcases loop.pageOf source grown aligned f with same | ⟨⟨a, small⟩, -⟩
    · exact same
    · exact absurd small (unsplit f guarded low a)

end

end Flyos
