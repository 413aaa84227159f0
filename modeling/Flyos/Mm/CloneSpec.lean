import Flyos.Mm.CloneInv

/-!
# A deep copy is isolated from its source

`vmm_clone_pml4_deep` on a tree whose tables and lower-half pages are in use.  What
the copy promises is `Isolated`: the same addresses are mapped with the same flags, a
page outside the framebuffer has a frame of its own that was free before and holds
the same contents, and writing through a copied page on one side changes no page on
the other.

Isolation is between small pages of the lower half.  Large pages and the upper half
are shared, and the large pages of the identity map cover the fresh frames too
(`clone_aliased`).
-/

namespace Flyos

open TableTree

/-- The tables of a tree and its small pages in the lower half are in use. -/
structure CloneSource (s : Vmm) (src : Nat) : Prop where
  aligned : pageSize ∣ src
  tables : ∀ p f, reach slot s.mem 0 src p = some f → Taken s f
  pages : ∀ v a, lowerHalf (tableIdx v 39) = true →
    walk slot s.mem 0 src (path v) = some (a, []) → Taken s a

/-- The frames it takes to copy a tree. -/
def cloneNeed (fb : FbInfo) (s : Vmm) (src : Nat) : Nat :=
  1 + ((List.finRange 512).map fun i =>
    if lowerHalf i then framesFor fb s.mem 3 0 (s.mem src i) else 0).sum

/-- What is read through a small page. -/
def readPage (m : PageTables) (root v : Nat) : Option (Fin 512 → Nat) :=
  match walk slot m 0 root (path v) with
  | some (a, []) => some (m a)
  | _ => none

/-- **What the copy promises**: `root` in `t` is a copy of `src` in `s`. -/
structure Isolated (fb : FbInfo) (s : Vmm) (src : Nat) (t : Vmm) (root : Nat) : Prop where
  translated : ∀ v, (walk slot t.mem 0 root (path v)).isSome =
    (walk slot s.mem 0 src (path v)).isSome
  flags : ∀ v, (trail slot t.mem 0 root (path v)).map (· &&& 0xFFF) =
    (trail slot s.mem 0 src (path v)).map (· &&& 0xFFF)
  upper : ∀ i, lowerHalf i = false → t.mem root i = s.mem src i
  copied : ∀ v a, lowerHalf (tableIdx v 39) = true →
    walk slot s.mem 0 src (path v) = some (a, []) → fb.covers a = false →
    ∃ a', walk slot t.mem 0 root (path v) = some (a', []) ∧ ¬ Taken s a' ∧ t.mem a' = s.mem a ∧
      ∀ w, lowerHalf (tableIdx w 39) = true →
        walk slot t.mem 0 root (path w) = some (a', []) → path w = path v
  shared : ∀ v a rest, lowerHalf (tableIdx v 39) = true →
    walk slot s.mem 0 src (path v) = some (a, rest) → (rest = [] → fb.covers a = true) →
    walk slot t.mem 0 root (path v) = some (a, rest)
  kept : ∀ f, Taken s f → t.mem f = s.mem f
  /-- Writing through a page of the copy changes no small page of the source, -/
  writeCopy : ∀ v a a', lowerHalf (tableIdx v 39) = true →
    walk slot s.mem 0 src (path v) = some (a, []) → fb.covers a = false →
    walk slot t.mem 0 root (path v) = some (a', []) →
    ∀ i e w, lowerHalf (tableIdx w 39) = true →
      readPage (t.set a' i e).mem src w = readPage t.mem src w
  /-- and writing through the page of the source changes none of the copy. -/
  writeSource : ∀ v a, lowerHalf (tableIdx v 39) = true →
    walk slot s.mem 0 src (path v) = some (a, []) → fb.covers a = false →
    ∀ i e w, lowerHalf (tableIdx w 39) = true →
      readPage (t.set a i e).mem root w = readPage t.mem root w

/-- Every list of four indices is the path of an address. -/
theorem path_surj {p : List (Fin 512)} (full : p.length = 4) : ∃ v, path v = p := by
  obtain ⟨a, b, c, d, rfl⟩ : ∃ a b c d, p = [a, b, c, d] := by
    rcases p with _ | ⟨a, _ | ⟨b, _ | ⟨c, _ | ⟨d, _ | ⟨e, p⟩⟩⟩⟩⟩ <;> simp at full
    exact ⟨a, b, c, d, rfl⟩
  refine ⟨a * 2 ^ 39 + b * 2 ^ 30 + c * 2 ^ 21 + d * 2 ^ 12, ?_⟩
  have := a.isLt
  have := b.isLt
  have := c.isLt
  have := d.isLt
  simp only [path, List.cons.injEq, Fin.ext_iff, tableIdx_val, and_true]
  omega

/-- The source is as the loops need it. -/
theorem CloneSource.sourceOk {s : Vmm} {src : Nat} (source : CloneSource s src) :
    SourceOk s lowerHalf 0 src where
  tables := source.tables
  pages := fun i p a here full found => by
    obtain ⟨v, whole⟩ := path_surj (p := i :: p) (by simp only [List.length_cons]; omega)
    refine source.pages v a ?_ (whole ▸ found)
    obtain ⟨rfl, -⟩ := List.cons.inj whole
    exact here

/-- The copy as a loop over the PML4. -/
theorem vmmClonePml4Deep_spec {fb : FbInfo} {s : Vmm} {src : Nat} (ok : s.pmm.Ok)
    (source : CloneSource s src) :
    Grown s (vmmClonePml4Deep fb s src).2 [] ∧
      ((vmmClonePml4Deep fb s src).1 ≠ 0 → ∃ u, Grown s u [] ∧
        Ready s lowerHalf 0 src (vmmClonePml4Deep fb s src).1 u ∧
        Cloned fb s lowerHalf 3 0 src (vmmClonePml4Deep fb s src).1 (List.finRange 512) u
          (true, (vmmClonePml4Deep fb s src).2)) ∧
      (Taken s 0 → cloneNeed fb s src ≤ freePages s.pmm →
        (vmmClonePml4Deep fb s src).1 ≠ 0) := by
  obtain ⟨grown, -, room⟩ := allocPage_grown ok
  unfold vmmClonePml4Deep
  by_cases null : s.allocPage.1 = 0
  · simp only [null, if_true]
    refine ⟨grown, fun none => absurd rfl none, fun zero free => ?_⟩
    exact absurd null (room zero (by rw [cloneNeed] at free; omega)).1
  · obtain ⟨fills, fresh, -⟩ := fillPage_grown ok null fun _ => 0
    have ready : Ready s lowerHalf 0 src s.allocPage.1 (s.allocPage.2.zeroPage s.allocPage.1) :=
      ⟨fills, source.sourceOk, fresh.2, fresh.1⟩
    have loop := forEntries_cloned (fun i u => @clonePml4_cloned fb s u src s.allocPage.1 i)
      (List.nodup_finRange 512) ready
    have left : Taken s 0 → 0 < freePages s.pmm →
        freePages (s.allocPage.2.zeroPage s.allocPage.1).pmm + 1 = freePages s.pmm :=
      fun zero free => (room zero free).2
    simp only [null, if_false]
    generalize s.allocPage.2.zeroPage s.allocPage.1 = u at ready loop left ⊢
    generalize forEntries (clonePml4 fb src s.allocPage.1) (List.finRange 512) u = r at loop ⊢
    obtain ⟨done, t⟩ := r
    have whole : Grown s t [] :=
      (ready.since.trans loop.grown).weaken (by simpa using fresh.1)
    cases done with
    | false =>
        refine ⟨whole, fun none => absurd rfl none, fun zero free => ?_⟩
        rw [cloneNeed] at free
        have one := left zero (by omega)
        have := (loop.enough (ready.since.taken 0 zero) (by omega)).1
        cases this
    | true => exact ⟨whole, fun _ => ⟨u, ready.since, ready, loop⟩, fun _ _ => null⟩

/-! ## Reading and writing through pages -/

/-- A store outside the tables and the frame of a page leaves what is read there. -/
theorem readPage_set {s : Vmm} {root x w : Nat} (i : Fin 512) (e : Nat)
    (tables : ∀ p f, p <+: path w → reach slot s.mem 0 root p = some f → f ≠ x)
    (pages : ∀ a, walk slot s.mem 0 root (path w) = some (a, []) → a ≠ x) :
    readPage (s.set x i e).mem root w = readPage s.mem root w := by
  have kept : ∀ f, f ≠ x → (s.set x i e).mem f = s.mem f := fun f other => by
    funext j
    simp [Vmm.set, other]
  have same : walk slot (s.set x i e).mem 0 root (path w) = walk slot s.mem 0 root (path w) :=
    walk_eq_of_tables fun p f below at_p => kept f (tables p f below at_p)
  rw [readPage, same, readPage]
  split
  case h_1 a found => rw [kept a (pages a found)]
  case h_2 => rfl

section

variable {fb : FbInfo} {s t u : Vmm} {src root : Nat}

/-- The copy of an entry of the lower half. -/
theorem Cloned.lower (ready : Ready s lowerHalf 0 src root u)
    (loop : Cloned fb s lowerHalf 3 0 src root (List.finRange 512) u (true, t)) {i : Fin 512}
    (low : lowerHalf i = true) : EntryCopy fb s s t 0 (s.mem src i) (t.mem root i) :=
  (loop.copied rfl i (List.mem_finRange i) low).mono ready.since.taken (fun _ used => used)
    fun _ _ => rfl

/-- The upper half is shared. -/
theorem Cloned.upper (source : CloneSource s src) (grown : Grown s t [])
    (loop : Cloned fb s lowerHalf 3 0 src root (List.finRange 512) u (true, t)) {i : Fin 512}
    (high : lowerHalf i = false) (p : List (Fin 512)) :
    reach slot t.mem 0 root (i :: p) = reach slot s.mem 0 src (i :: p) ∧
      walk slot t.mem 0 root (i :: p) = walk slot s.mem 0 src (i :: p) ∧
      trail slot t.mem 0 root (i :: p) = trail slot s.mem 0 src (i :: p) :=
  shared_entry (loop.shared rfl i (List.mem_finRange i) high)
    (fun p f at_p => grown.kept f (source.tables (i :: p) f at_p) (by simp)) p

/-- A frame taken by the loop was free before the call. -/
theorem Ready.free (ready : Ready s lowerHalf 0 src root u) {f : Nat} (fresh : Fresh u t f) :
    ¬ Taken s f := fun used => fresh.1 (ready.since.taken f used)

/-- **The tables of the copy**: the root, those below an entry of the lower half, which
are new, and those that are shared. -/
theorem Cloned.tables (source : CloneSource s src) (grown : Grown s t [])
    (loop : Cloned fb s lowerHalf 3 0 src root (List.finRange 512) u (true, t))
    {p : List (Fin 512)} {f : Nat} (at_p : reach slot t.mem 0 root p = some f) :
    (p = [] ∧ f = root) ∨ (∃ i q, p = i :: q ∧ lowerHalf i = true ∧ Fresh u t f) ∨
      reach slot s.mem 0 src p = some f := by
  cases p with
  | nil => exact .inl ⟨rfl, (Option.some.inj at_p).symm⟩
  | cons i p =>
      cases half : lowerHalf i with
      | true =>
          have copy := loop.copied rfl i (List.mem_finRange i) half
          exact .inr (.inl ⟨i, p, rfl, half, (Copy.reach copy at_p).1⟩)
      | false => exact .inr (.inr ((loop.upper source grown half p).1.symm.trans at_p))

/-- **A page of the lower half and its copy**: a small page outside the framebuffer has
a frame that was free and holds the same, any other page has the same frame. -/
theorem Cloned.lookup
    (loop : Cloned fb s lowerHalf 3 0 src root (List.finRange 512) u (true, t)) {v : Nat}
    (low : lowerHalf (tableIdx v 39) = true) :
    (walk slot s.mem 0 src (path v) = none ∧ walk slot t.mem 0 root (path v) = none) ∨
      ∃ a a' rest, walk slot s.mem 0 src (path v) = some (a, rest) ∧
        walk slot t.mem 0 root (path v) = some (a', rest) ∧
        ((rest = [] ∧ fb.covers a = false ∧ Fresh u t a' ∧ t.mem a' = s.mem a) ∨
          ((rest = [] → fb.covers a = true) ∧ a' = a)) := by
  rcases Copy.walk (loop.copied rfl _ (List.mem_finRange _) low)
    [tableIdx v 30, tableIdx v 21, tableIdx v 12] with none | ⟨k, a, a', rest, before, after,
      content, depth⟩
  · exact .inl none
  · refine .inr ⟨a, a', rest, before, after, ?_⟩
    have last : k = 3 ↔ rest = [] := by
      rw [← List.length_eq_zero_iff]
      simp only [List.length_cons, List.length_nil] at depth
      omega
    unfold PageCopy at content
    split at content
    case isTrue small => exact .inl ⟨last.mp small.1, small.2, content.1, content.2⟩
    case isFalse other =>
      exact .inr ⟨fun small => by simpa [last.mpr small] using other, content⟩

/-- The loops leave an isolated copy. -/
theorem Cloned.isolated (source : CloneSource s src) (grown : Grown s t [])
    (ready : Ready s lowerHalf 0 src root u)
    (loop : Cloned fb s lowerHalf 3 0 src root (List.finRange 512) u (true, t)) :
    Isolated fb s src t root := by
  have sourceKept : ∀ p f, reach slot s.mem 0 src p = some f → t.mem f = s.mem f := fun p f at_p =>
    grown.kept f (source.tables p f at_p) (by simp)
  refine ⟨fun v => ?_, fun v => ?_, fun i => loop.shared rfl i (List.mem_finRange i),
    fun v a low found outside => ?_,
    fun v a rest low found small => ?_, fun f used => grown.kept f used (by simp),
    fun v a a' low found outside found' i e w low' => ?_,
    fun v a low found outside i e w low' => ?_⟩
  · cases half : lowerHalf (tableIdx v 39) with
    | true =>
        rcases loop.lookup half with ⟨before, after⟩ | ⟨a, a', rest, before, after, -⟩
        · rw [before, after]
        · rw [before, after]
          rfl
    | false =>
        exact congrArg Option.isSome (loop.upper source grown half _).2.1
  · cases half : lowerHalf (tableIdx v 39) with
    | true => exact Copy.trail (· &&& 0xFFF) (fun _ _ alike => alike.flags) (loop.lower ready half) _
    | false =>
        exact congrArg (List.map (· &&& 0xFFF)) (loop.upper source grown half _).2.2
  · rcases loop.lookup low with ⟨none, -⟩ | ⟨b, a', rest, before, after, content⟩
    · exact absurd (none.symm.trans found) nofun
    · obtain ⟨rfl, rfl⟩ : b = a ∧ rest = [] := by simpa using before.symm.trans found
      obtain ⟨-, -, fresh, same⟩ := content.resolve_right fun shared => by
        rw [shared.1 rfl] at outside
        cases outside
      have free := ready.free fresh
      refine ⟨a', after, free, same, fun w low' found' => ?_⟩
      exact loop.apart rfl _ (List.mem_finRange _) _ (List.mem_finRange _) low' low _ _ a'
        (.inr ⟨rfl, found'⟩) (.inr ⟨rfl, after⟩) free
  · rcases loop.lookup low with ⟨none, -⟩ | ⟨b, a', rest', before, after, content⟩
    · exact absurd (none.symm.trans found) nofun
    · obtain ⟨rfl, rfl⟩ : b = a ∧ rest' = rest := by simpa using before.symm.trans found
      obtain ⟨-, rfl⟩ := content.resolve_left fun copied => by
        rw [small copied.1] at copied
        exact absurd copied.2.1 nofun
      exact after
  · -- the frame written to was free, so it is no table or page of the source
    rcases loop.lookup low with ⟨none, -⟩ | ⟨b, b', rest, before, after, content⟩
    · exact absurd (none.symm.trans found) nofun
    obtain ⟨rfl, rfl⟩ : b = a ∧ rest = [] := by simpa using before.symm.trans found
    obtain rfl : b' = a' := by simpa using after.symm.trans found'
    obtain ⟨-, -, fresh, -⟩ := content.resolve_right fun shared => by
      rw [shared.1 rfl] at outside
      cases outside
    have free := ready.free fresh
    refine readPage_set i e (fun p f _ at_p same => free ?_) fun c at_c same => free ?_
    · rw [reach_eq_of_tables fun p h _ at_p => sourceKept p h at_p] at at_p
      exact same ▸ source.tables p f at_p
    · rw [walk_eq_of_tables fun p h _ at_p => sourceKept p h at_p] at at_c
      exact same ▸ source.pages w c low' at_c
  · -- the frame written to was in use, so it is no table or copied page of the copy
    have used : Taken s a := source.pages v a low found
    refine readPage_set i e (fun p f below at_p same => ?_) fun c at_c same => ?_
    · cases p with
      | nil =>
          obtain rfl : root = f := Option.some.inj at_p
          exact ready.new (same ▸ used)
      | cons j p =>
          obtain rfl : j = tableIdx w 39 := (List.cons_prefix_cons.mp below).1
          exact (Copy.reach (loop.lower ready low') at_p).1.1 (same ▸ used)
    · rcases loop.lookup low' with ⟨-, none⟩ | ⟨b, b', rest, -, after, content⟩
      · exact absurd (none.symm.trans at_c) nofun
      obtain ⟨rfl, rfl⟩ : b' = c ∧ rest = [] := by simpa using after.symm.trans at_c
      rcases content with ⟨-, -, fresh, -⟩ | ⟨covered, rfl⟩
      · exact ready.free fresh (same ▸ used)
      · rw [← same, covered rfl] at outside
        cases outside

end

/-- **Isolation of a deep copy.**  With enough free pages the call succeeds, and what it returns
is an isolated copy of the source.  The tables of the source must form a tree of frames
(`CloneSource`), which is counted beforehand: a clone needs a page for each table and each
private page, and with these the copying loops run through without a failed allocation. -/
theorem vmmClone_isolated {fb : FbInfo} {s : Vmm} {src : Nat} (ok : s.pmm.Ok) (null : Taken s 0)
    (source : CloneSource s src) (room : cloneNeed fb s src ≤ freePages s.pmm) :
    (vmmClonePml4Deep fb s src).1 ≠ 0 ∧
      Isolated fb s src (vmmClonePml4Deep fb s src).2 (vmmClonePml4Deep fb s src).1 := by
  obtain ⟨grown, loops, enough⟩ := @vmmClonePml4Deep_spec fb s src ok source
  obtain ⟨u, -, ready, loop⟩ := loops (enough null room)
  exact ⟨enough null room, loop.isolated source grown ready⟩

/-- A tree with small entries, in low frames that are in use. -/
theorem cloneSource_low {s : Vmm} {src n : Nat} (aligned : pageSize ∣ src) (low : src < n)
    (entries : ∀ f i, s.mem f i < n) (used : ∀ f < n, Taken s f) : CloneSource s src where
  aligned := aligned
  tables := fun p f at_p => by
    rcases List.eq_nil_or_concat p with rfl | ⟨q, i, rfl⟩
    · exact Option.some.inj at_p ▸ used src low
    · rw [List.concat_eq_append] at at_p
      obtain ⟨g, -, link⟩ := reach_snoc at_p
      rw [slot_table_addr link]
      exact used _ (Nat.lt_of_le_of_lt Nat.and_le_left (entries g i))
  pages := fun v a _ found => by
    rw [path_eq] at found
    obtain ⟨g, -, leaf⟩ := walk_exact found
    rw [slot_bottom_leaf (d := 3) (by decide) leaf]
    exact used _ (Nat.lt_of_le_of_lt Nat.and_le_left (entries g _))

/-- Eight pages in use and eight free: a large page that maps all of them to themselves,
and the small page `0x5000` at `0x200000`. -/
def forkable : Vmm where
  mem := fun f j =>
    if f = 0x1000 ∧ j = 0 then 0x2003
    else if f = 0x2000 ∧ j = 0 then 0x3003
    else if f = 0x3000 ∧ j = 0 then 0x83
    else if f = 0x3000 ∧ j = 1 then 0x4007
    else if f = 0x4000 ∧ j = 0 then 0x5007
    else 0
  pmm := { bitmap := fun k => if k = 0 then 0xFF#8 else 0#8, totalPages := 16, usedPages := 8
           searchHint := 8 }
  cr3 := 0x1000
  oom := false

theorem forkable_ok : forkable.pmm.Ok := ⟨by decide, by decide⟩

theorem forkable_used (f : Nat) (low : f < 0x8000) : Taken forkable f := by
  have bits : ∀ k < 8, bitmapTest forkable.pmm.bitmap k = true := by decide
  exact fun _ => bits _ (by simp only [pageSize]; omega)

theorem forkable_source : CloneSource forkable 0x1000 := by
  refine cloneSource_low (by decide) (n := 0x8000) (by decide) (fun f i => ?_) forkable_used
  simp only [forkable]
  repeat' split
  all_goals decide

theorem forkable_room : cloneNeed ⟨0, 0, 0⟩ forkable 0x1000 ≤ freePages forkable.pmm := by
  decide +kernel

/-- The copy of that tree maps its small page to a frame that was free. -/
theorem vmmClone_isolated_forkable :
    Isolated ⟨0, 0, 0⟩ forkable 0x1000 (vmmClonePml4Deep ⟨0, 0, 0⟩ forkable 0x1000).2
      (vmmClonePml4Deep ⟨0, 0, 0⟩ forkable 0x1000).1 :=
  (vmmClone_isolated forkable_ok (forkable_used 0 (by decide)) forkable_source forkable_room).2

/-- The identity map of that tree covers its free pages. -/
theorem forkable_identity : ∀ k < 16,
    walk slot forkable.mem 0 0x1000 (path (k * pageSize)) =
      some (0, [tableIdx (k * pageSize) 12]) ∧
    lowerHalf (tableIdx (k * pageSize) 39) = true ∧
    physPage (0, [tableIdx (k * pageSize) 12]) = k * pageSize ∧
    pageNumber (k * pageSize) ≠ pageNumber 0x200000 := by
  decide +kernel

/-- The fresh frame of its small page is mapped at another page of the copy too. -/
theorem clone_aliased : CloneSource forkable 0x1000 ∧
    cloneNeed ⟨0, 0, 0⟩ forkable 0x1000 ≤ freePages forkable.pmm ∧
    ∃ v w a', pageNumber w ≠ pageNumber v ∧ lowerHalf (tableIdx v 39) = true ∧
      walk slot forkable.mem 0 0x1000 (path v) = some (0x5000, []) ∧
      walk slot (vmmClonePml4Deep ⟨0, 0, 0⟩ forkable 0x1000).2.mem 0
        (vmmClonePml4Deep ⟨0, 0, 0⟩ forkable 0x1000).1 (path v) = some (a', []) ∧
      (walk slot (vmmClonePml4Deep ⟨0, 0, 0⟩ forkable 0x1000).2.mem 0
        (vmmClonePml4Deep ⟨0, 0, 0⟩ forkable 0x1000).1 (path w)).map physPage = some a' := by
  obtain ⟨grown, loops, enough⟩ :=
    @vmmClonePml4Deep_spec ⟨0, 0, 0⟩ forkable 0x1000 forkable_ok forkable_source
  obtain ⟨u, -, ready, loop⟩ := loops (enough (forkable_used 0 (by decide)) forkable_room)
  have copy := loop.isolated forkable_source grown ready
  clear enough loops loop ready grown u
  generalize vmmClonePml4Deep ⟨0, 0, 0⟩ forkable 0x1000 = r at copy ⊢
  have mapped : walk slot forkable.mem 0 0x1000 (path 0x200000) = some (0x5000, []) := by
    decide +kernel
  obtain ⟨a', found, free, -⟩ := copy.copied 0x200000 0x5000 (by decide) mapped (by decide)
  -- a frame handed out is one of the sixteen pages
  obtain ⟨k, low, rfl⟩ : ∃ k < 16, a' = k * pageSize := by
    rw [Taken, Classical.not_imp] at free
    rw [path_eq] at found
    obtain ⟨g, -, leaf⟩ := walk_exact found
    refine ⟨a' / pageSize, free.1, ?_⟩
    rw [slot_bottom_leaf (by decide) leaf, addrMask_aligned]
  obtain ⟨there, half, page, other⟩ := forkable_identity k low
  have shared := copy.shared (k * pageSize) 0 _ half there fun no => by cases no
  refine ⟨forkable_source, forkable_room, 0x200000, k * pageSize, k * pageSize, other, by decide,
    mapped, found, ?_⟩
  rw [shared]
  exact congrArg some page

end Flyos
