import Flyos.Mm.CopyBytes
import Flyos.Mm.IdentitySpec
import Flyos.Mm.Translated

/-!
# When the loader finds its frames

The C code reaches a frame by the virtual address of the same number (`Flyos.Mm.Translated`).
That is the frame itself where the page is mapped to itself, and a call of the loader maps
pages of its own.  `SelfMapped` is the state before such a call in which this does no harm:
the tables on the way to the pages of the call and all free pages are mapped to themselves,
and none of them is a page of the call.

Every state that the call goes through is `Nearby`: its tables are those of the state before
or in frames that were free then, and pages other than those of the call are translated as
before.  So the functions do on translated addresses what they do on frames
(`SelfMapped.vmmMap_eq`, `SelfMapped.loadSegments_eq`, `SelfMapped.stack_eq`).

Where the identity map is there (`Identity`) and covers all memory, this holds of every list
of pages that is clear of it (`Identity.selfMapped`).
-/

namespace Flyos

open TableTree

/-- Words have 64 bits. -/
def Words (s : Vmm) : Prop := ∀ f i, s.mem f i < 2 ^ 64

namespace Translated

variable {s t u : Vmm} {f : Nat} {p : List (Fin 512)} {i : Fin 512}

/-! ## Tables at their own addresses -/

/-- The page of this number is mapped to itself. -/
def Self (s : Vmm) (f : Nat) : Prop := pageAt s (path f) = some f

/-- An entry that is found at its own address, -/
theorem Self.load (self : Self s f) (i : Fin 512) : loadEntry s f i = some (s.mem f i) := by
  rw [loadEntry, self]
  rfl

/-- and stored there. -/
theorem Self.store (self : Self s f) (i : Fin 512) (e : Nat) :
    storeEntry s f i e = some (s.set f i e) := by
  rw [storeEntry, self]
  rfl

/-- It stays found where the translations are kept. -/
theorem Self.keeps (self : Self s f) (keeps : Keeps s t) : Self t f :=
  (keeps.pages f).trans self

/-- A word of which the lowest bytes have been cleared. -/
def clearBytes (e n : Nat) : Nat := e / 256 ^ n * 256 ^ n

/-- One more byte. -/
theorem setByte_clearBytes (e n : Nat) : setByte (clearBytes e n) n 0 = clearBytes e (n + 1) := by
  have positive : 0 < 256 ^ n := Nat.pow_pos (by decide)
  rw [setByte_eq, clearBytes, Nat.mul_div_cancel _ positive, Nat.mul_mod_left, UInt8.toNat_zero,
    Nat.add_zero, Nat.add_zero, clearBytes, Nat.pow_succ, ← Nat.div_div_eq_div_mul]
  ring

/-- All eight. -/
theorem clearBytes_eight {e : Nat} (word : e < 2 ^ 64) : clearBytes e 8 = 0 := by
  rw [clearBytes, Nat.div_eq_of_lt (by simpa using word), Nat.zero_mul]

/-- A frame of which the first `n` bytes have been cleared. -/
def cleared (s : Vmm) (f n : Nat) : Vmm :=
  s.fillPage f fun j => clearBytes (s.mem f j) (min 8 (n - 8 * j))

theorem cleared_zero (s : Vmm) (f : Nat) : cleared s f 0 = s := by
  cases s with
  | mk mem pmm cr3 oom =>
      simp only [cleared, Vmm.fillPage, Nat.zero_sub, Nat.min_zero, clearBytes, Nat.pow_zero,
        Nat.div_one, Nat.mul_one, Vmm.mk.injEq, and_true]
      funext g j
      split
      case isTrue here => rw [here]
      case isFalse => rfl

/-- All of them. -/
theorem cleared_all (words : Words s) (f : Nat) : cleared s f pageSize = s.zeroPage f := by
  rw [cleared, Vmm.zeroPage]
  congr 1
  funext j
  have all : min 8 (pageSize - 8 * j) = 8 := by
    have := j.isLt
    simp only [pageSize]
    omega
  rw [all, clearBytes_eight (words f j)]

/-- The next byte. -/
theorem cleared_succ (s : Vmm) (f n : Nat) (inside : n < pageSize) :
    (cleared s f n).set f (wordIdx n) (setByte ((cleared s f n).mem f (wordIdx n)) (n % 8) 0) =
      cleared s f (n + 1) := by
  simp only [cleared, Vmm.set, Vmm.fillPage, if_true, Vmm.mk.injEq, and_true]
  simp only [pageSize] at inside
  have word : (wordIdx n : Nat) = n / 8 := by
    simp only [wordIdx, pageSize]
    omega
  funext g j
  by_cases here : g = f
  · simp only [here, true_and, if_true]
    by_cases same : j = wordIdx n
    · have before : min 8 (n - 8 * (wordIdx n : Nat)) = n % 8 := by omega
      have after : min 8 (n + 1 - 8 * (wordIdx n : Nat)) = n % 8 + 1 := by omega
      rw [if_pos same, same, before, setByte_clearBytes, after]
    · have other : (j : Nat) ≠ n / 8 := fun eq => same (Fin.ext (eq.trans word.symm))
      have kept : min 8 (n + 1 - 8 * (j : Nat)) = min 8 (n - 8 * j) := by omega
      rw [if_neg same, kept]
  · simp only [here, false_and, if_false]

/-- **A frame at its own address is cleared**, byte by byte, when it is no table. -/
theorem Self.zeroPage (self : Self s f) (aligned : f % pageSize = 0) (tree : PageTree Entry s)
    (data : ∀ q, s.table q ≠ some f) (words : Words s) : zeroPage s f = some (s.zeroPage f) := by
  suffices upTo : ∀ n ≤ pageSize, (List.range n).foldlM
      (fun s k => s.storeByte (f + k) 0) s = some (cleared s f n) by
    rw [Translated.zeroPage, upTo pageSize le_rfl, cleared_all words]
  intro n
  induction n with
  | zero => exact fun _ => by rw [cleared_zero]; rfl
  | succ n ih =>
      intro inside
      have found : pageAt (cleared s f n) (path (f + n)) = some f := by
        have same : path (f + n) = path f := by
          rw [path_eq_iff]
          simp only [pageNumber, pageSize] at *
          omega
        rw [same]
        exact self.keeps (fill_keeps tree data _).1
      have place : wordIdx (f + n) = wordIdx n ∧ (f + n) % 8 = n % 8 := by
        simp only [wordIdx, Fin.mk.injEq, pageSize] at *
        omega
      rw [List.range_succ, List.foldlM_append, ih (by omega)]
      simp only [List.foldlM_cons, List.foldlM_nil, Option.bind_eq_bind, Option.bind_some,
        storeByte_eq found, place.1, place.2]
      rw [cleared_succ s f n (by omega)]
      rfl

/-- **A table of 512 entries is filled** entry by entry, when it is in no tree yet. -/
theorem Self.fill (self : Self s f) (tree : PageTree Entry s) (data : ∀ q, s.table q ≠ some f)
    (g : Fin 512 → Nat) :
    (List.finRange 512).foldlM (fun s i => storeEntry s f i (g i)) s = some (s.fillPage f g) := by
  have some_of : ∀ is : List (Fin 512), ∀ s : Vmm, Self s f → PageTree Entry s →
      (∀ q, s.table q ≠ some f) → is.foldlM (fun s i => storeEntry s f i (g i)) s =
        some (s.fillPage f fun j => if j ∈ is then g j else s.mem f j) := by
    intro is
    induction is with
    | nil =>
        intro s self tree data
        refine congrArg some ?_
        cases s with
        | mk mem pmm cr3 oom =>
            simp only [Vmm.fillPage, List.not_mem_nil, if_false, Vmm.mk.injEq, and_true]
            funext h j
            split
            case isTrue here => rw [here]
            case isFalse => rfl
    | cons i is ih =>
        intro s self tree data
        obtain ⟨keeps, tables⟩ := set_data tree data i (g i)
        rw [List.foldlM_cons, self.store]
        refine (ih _ (self.keeps keeps) keeps.tree fun q => by rw [tables]; exact data q).trans ?_
        simp only [Vmm.fillPage, Vmm.set, true_and, Option.some.injEq, Vmm.mk.injEq, and_true]
        funext h j
        by_cases here : h = f
        · by_cases same : j = i
          · simp [here, same]
          · simp [here, same]
        · simp [here]
  rw [some_of _ s self tree data]
  simp only [List.mem_finRange, if_true]

/-! ## Tables -/

/-- A frame that is handed out: aligned, and in no tree. -/
theorem alloc_data (tree : PageTree Entry s) (some : s.allocPage.1 ≠ 0) :
    s.allocPage.1 % pageSize = 0 ∧ s.allocPage.1 < 2 ^ 64 ∧ ∀ q, s.table q ≠ Option.some s.allocPage.1 := by
  obtain ⟨-, outcome⟩ := allocPage_spec tree
  obtain ⟨-, -, ⟨k, eq, inRange⟩, fresh, -⟩ := outcome.resolve_left fun failed => some failed.1
  refine ⟨by rw [eq, Nat.mul_mod_left], ?_, fresh⟩
  simp only [maxPages, pageSize] at *
  omega

/-- **`next_table`** at tables that are mapped to themselves. -/
theorem Self.nextTable (self : Self s f) (tree : PageTree Entry s) (words : Words s)
    (fresh : s.allocPage.1 ≠ 0 → Self s s.allocPage.1) (at_p : s.table p = some f)
    (upper : p.length < 3) (small : p.length = 2 → s.mem f i &&& vmmHuge = 0) :
    nextTable s f i = some (Flyos.nextTable s f i) := by
  have found : Self (Flyos.nextTable s f i).2 f :=
    self.keeps (nextTable_spec (i := i) tree at_p upper small).1
  rw [Translated.nextTable, self.load, Option.bind_some]
  rw [Flyos.nextTable] at found ⊢
  by_cases absent : s.mem f i &&& vmmPresent = 0
  · rw [if_pos absent] at found
    rw [if_pos absent, if_pos absent]
    by_cases null : s.allocPage.1 = 0
    · simp only [null, if_true]
    · obtain ⟨aligned, -, data⟩ := alloc_data tree null
      have tree' := (allocPage_spec tree).1.tree
      have zeroed : Translated.zeroPage s.allocPage.2 s.allocPage.1 =
          some (s.allocPage.2.zeroPage s.allocPage.1) :=
        Self.zeroPage (s := s.allocPage.2) (fresh null) aligned tree' data words
      have parent : Self (s.allocPage.2.zeroPage s.allocPage.1) f :=
        Self.keeps (s := s.allocPage.2) self (fill_keeps tree' data _).1
      simp only [null, if_false] at found ⊢
      rw [zeroed, Option.bind_some, parent.store, Option.bind_some, found.load, Option.map_some]
  · rw [if_neg absent] at found
    rw [if_neg absent, if_neg absent, self.store, Option.bind_some, found.load, Option.map_some]

/-- **`split_huge_pd`** likewise. -/
theorem Self.splitHugePd (self : Self s f) (tree : PageTree Entry s) (words : Words s)
    (fresh : s.allocPage.1 ≠ 0 → Self s s.allocPage.1) :
    splitHugePd s f i = some (Flyos.splitHugePd s f i) := by
  rw [Translated.splitHugePd, self.load, Option.bind_some, Flyos.splitHugePd]
  by_cases small : s.mem f i &&& vmmHuge = 0
  · rw [if_pos small, if_pos small]
  rw [if_neg small, if_neg small]
  by_cases null : s.allocPage.1 = 0
  · simp only [null, if_true]
  obtain ⟨aligned, -, data⟩ := alloc_data tree null
  have tree' := (allocPage_spec tree).1.tree
  have table : Self s.allocPage.2 s.allocPage.1 := fresh null
  have zeroed := table.zeroPage aligned tree' data words
  obtain ⟨keeps, tables⟩ := fill_keeps tree' data fun _ => 0
  have data' : ∀ q, (s.allocPage.2.fillPage s.allocPage.1 fun _ => 0).table q ≠
      some s.allocPage.1 := fun q => by
    rw [tables]
    exact data q
  have filled := (table.keeps keeps).fill keeps.tree data'
  have parent : ∀ g, Self ((s.allocPage.2.zeroPage s.allocPage.1).fillPage s.allocPage.1 g) f :=
    fun g => (Self.keeps (s := s.allocPage.2) self keeps).keeps (fill_keeps keeps.tree data' g).1
  simp only [null, if_false]
  rw [zeroed, Option.bind_some, Vmm.zeroPage, filled, Option.bind_some]
  exact congrArg (Option.map fun s => ((0 : Int), s)) ((parent _).store i _)

/-! ## Words -/

theorem words_set (words : Words s) {e : Nat} (small : e < 2 ^ 64) : Words (s.set f i e) := by
  intro g j
  simp only [Vmm.set]
  split
  case isTrue => exact small
  case isFalse => exact words g j

theorem words_fill (words : Words s) {g : Fin 512 → Nat} (small : ∀ j, g j < 2 ^ 64) :
    Words (s.fillPage f g) := by
  intro h j
  simp only [Vmm.fillPage]
  split
  case isTrue => exact small j
  case isFalse => exact words h j

/-- A link is a word. -/
theorem link_lt {k : Nat} (small : k < 2 ^ 64) : k ||| vmmPresent ||| vmmWritable ||| vmmUser < 2 ^ 64 :=
  Nat.or_lt_two_pow (Nat.or_lt_two_pow (Nat.or_lt_two_pow small (by decide)) (by decide)) (by decide)

theorem words_nextTable (words : Words s) (tree : PageTree Entry s) :
    Words (Flyos.nextTable s f i).2 := by
  rcases nextTable_cases s f i (allocPage_frame tree.pmm) with
    ⟨-, -, eval⟩ | ⟨-, page, eval⟩ | ⟨-, eval⟩
  · rw [eval]
    exact words
  · rw [eval]
    have zeroed : Words (s.allocPage.2.zeroPage s.allocPage.1) :=
      words_fill (s := s.allocPage.2) words fun _ => by decide
    exact words_set zeroed (link_lt (alloc_data tree page).2.1)
  · rw [eval]
    exact words_set words (Nat.or_lt_two_pow (words f i) (by decide))

theorem words_splitHugePd (words : Words s) (tree : PageTree Entry s) :
    Words (Flyos.splitHugePd s f i).2 := by
  rcases splitHugePd_cases s f i with ⟨-, eval⟩ | ⟨-, -, eval⟩ | ⟨-, page, eval⟩
  · rw [eval]
    exact words
  · rw [eval]
    exact words
  · rw [eval]
    have filled : Words (s.allocPage.2.fillPage s.allocPage.1 (smallPages (s.mem f i))) := by
      refine words_fill (s := s.allocPage.2) words fun j => ?_
      have word := words f i
      have address : (s.mem f i &&& hugeMask) + j * pageSize < 2 ^ 64 := by
        rw [and_hugeMask]
        have := j.isLt
        simp only [pageSize]
        omega
      exact Nat.or_lt_two_pow (Nat.or_lt_two_pow (Nat.or_lt_two_pow address
        (Nat.lt_of_le_of_lt Nat.and_le_right (by decide))) (by decide)) (by decide)
    exact words_set filled (link_lt (alloc_data tree page).2.1)

theorem words_vmmMap (words : Words s) (tree : PageTree Entry s) {phys : Nat}
    (clean : phys < 2 ^ 52) (virt flags : Nat) : Words (Flyos.vmmMap s virt phys flags) :=
  (vmmMap_keeps (P := Words) tree clean virt flags words (fun tree words _ _ =>
    words_nextTable words tree) (fun tree words _ _ => words_splitHugePd words tree)
    fun _ words _ _ => words_set words ((entry_mapped flags clean).1.clean.trans (by decide))).2

/-- A byte stored in a word leaves a word. -/
theorem setByte_lt {e k : Nat} (word : e < 2 ^ 64) (place : k < 8) (b : UInt8) :
    setByte e k b < 2 ^ 64 := by
  have byte := b.toNat_lt
  rw [setByte_eq]
  have cases : k = 0 ∨ k = 1 ∨ k = 2 ∨ k = 3 ∨ k = 4 ∨ k = 5 ∨ k = 6 ∨ k = 7 := by omega
  rcases cases with rfl | rfl | rfl | rfl | rfl | rfl | rfl | rfl <;> omega

theorem words_storeByte (words : Words s) {virt : Nat} {b : UInt8}
    (stored : s.storeByte virt b = some t) : Words t := by
  obtain ⟨frame, -, rfl⟩ := Option.map_eq_some_iff.mp stored
  exact words_set words (setByte_lt (words frame _) (Nat.mod_lt _ (by decide)) b)

theorem words_copyBytes (words : Words s) {elf : ByteMemory} {ph : Phdr}
    (copied : copyBytes elf ph s = some t) : Words t := by
  rw [copyBytes] at copied
  generalize List.range ph.pFilesz = ks at copied
  induction ks generalizing s with
  | nil => exact Option.some.inj copied ▸ words
  | cons k ks ih =>
      rw [List.foldlM_cons, Option.bind_eq_bind, Option.bind_eq_some_iff] at copied
      obtain ⟨u, stored, rest⟩ := copied
      exact ih (words_storeByte words stored) rest

end Translated

/-! ## The states of a call -/

variable {s t u : Vmm} {vas done : List Nat} {va h : Nat}

/-- **A state on the way** of a call that maps the pages `vas`. -/
structure Nearby (s t : Vmm) (vas : List Nat) : Prop where
  tree : PageTree Entry t
  cr3 : t.cr3 = s.cr3
  taken : ∀ f, Taken s f → Taken t f
  table : ∀ q h, t.table q = some h → s.table q = some h ∨ ¬ Taken s h
  other : ∀ v, (∀ va ∈ vas, path v ≠ path va) → pageAt t (path v) = pageAt s (path v)

theorem Nearby.refl (tree : PageTree Entry s) : Nearby s s vas :=
  ⟨tree, rfl, fun _ used => used, fun _ _ at_q => .inl at_q, fun _ _ => rfl⟩

/-- Some of the pages are mapped, -/
theorem Mapped.nearby (mapped : Mapped s t done) (inside : ∀ va ∈ done, va ∈ vas) :
    Nearby s t vas :=
  ⟨mapped.tree, mapped.cr3, mapped.taken, mapped.table, fun v off =>
    mapped.other v fun va member => off va (inside va member)⟩

/-- or some, and there is no page for the others. -/
theorem Stuck.nearby (stuck : Stuck s t done) (inside : ∀ va ∈ done, va ∈ vas) :
    Nearby s t vas :=
  ⟨stuck.tree, stuck.cr3, stuck.taken, stuck.table, fun v off =>
    stuck.other v fun va member => off va (inside va member)⟩

/-- A step that makes tables. -/
theorem Nearby.makes {new : Finset (List (Fin 512))} (near : Nearby s t vas)
    (makes : Makes t u new) : Nearby s u vas where
  tree := makes.keeps.tree
  cr3 := makes.keeps.cr3.trans near.cr3
  taken := fun f used => makes.taken f (near.taken f used)
  table := fun q h at_q => by
    rcases makes.table at_q with old | free
    · exact near.table q h old
    · exact .inr fun used => free (near.taken h used)
  other := fun v off => (makes.keeps.pages v).trans (near.other v off)

/-- A step that keeps the tables, the translations and what is in use. -/
theorem Nearby.still (near : Nearby s t vas) (keeps : Keeps t u)
    (taken : ∀ f, Taken t f → Taken u f) (tables : ∀ q, u.table q = t.table q) :
    Nearby s u vas where
  tree := keeps.tree
  cr3 := keeps.cr3.trans near.cr3
  taken := fun f used => taken f (near.taken f used)
  table := fun q h at_q => near.table q h ((tables q).symm.trans at_q)
  other := fun v off => (keeps.pages v).trans (near.other v off)

/-- **`vmm_map`** of one of the pages. -/
theorem Nearby.vmmMap (near : Nearby s t vas) (null : Taken s 0) (member : va ∈ vas) {phys : Nat}
    (clean : phys < 2 ^ 52) (flags : Nat) : Nearby s (vmmMap t va phys flags) vas := by
  rcases vmmMap_cases near.tree (near.taken 0 null) va phys flags with
    ⟨u, pt, makes, at_pt, eval⟩ | ⟨new, -, makes, -⟩
  swap
  · exact near.makes makes
  have made := near.makes makes
  obtain ⟨tree, others, -⟩ := made.tree.write (e := pageEntry phys flags) (i := tableIdx va 12)
    at_pt rfl (entry_mapped flags clean)
  rw [eval]
  refine ⟨tree, made.cr3, made.taken, fun q h at_q => ?_, fun v off => ?_⟩
  · rw [table_set made.tree at_pt rfl] at at_q
    exact made.table q h at_q
  · exact (others _ (not_prefix_path (off va member))).trans (made.other v off)

/-- Tables are aligned. -/
theorem table_aligned {q : List (Fin 512)} (at_q : t.table q = some h) :
    h / pageSize * pageSize = h := by
  rcases List.eq_nil_or_concat q with rfl | ⟨q, i, rfl⟩
  · obtain rfl : t.root = h := Option.some.inj at_q
    exact addrMask_aligned t.cr3
  · rw [List.concat_eq_append] at at_q
    obtain ⟨g, -, link⟩ := reach_snoc at_q
    rw [slot_table_addr link]
    exact addrMask_aligned _

/-! ## The state before a call -/

/-- **What a call that maps the pages `vas` works on is mapped to itself**, and none of it is
one of these pages: the tables on the way to the pages, and the pages that are free. -/
structure SelfMapped (s : Vmm) (vas : List Nat) : Prop where
  words : Words s
  tables : ∀ va ∈ vas, ∀ q ∈ [] :: dirs va, ∀ h, s.table q = some h →
    Translated.Self s h ∧ ∀ w ∈ vas, path h ≠ path w
  free : ∀ k, ¬ Taken s (k * pageSize) →
    Translated.Self s (k * pageSize) ∧ ∀ w ∈ vas, path (k * pageSize) ≠ path w

/-- A free page stays at its own address, -/
theorem SelfMapped.free_at (self : SelfMapped s vas) (near : Nearby s t vas) {k : Nat}
    (free : ¬ Taken s (k * pageSize)) : Translated.Self t (k * pageSize) := by
  obtain ⟨own, off⟩ := self.free k free
  exact (near.other _ off).trans own

/-- and so do the tables on the way, old and new. -/
theorem SelfMapped.table_at (self : SelfMapped s vas) (near : Nearby s t vas) (member : va ∈ vas)
    {q : List (Fin 512)} (below : q ∈ [] :: dirs va) (at_q : t.table q = some h) :
    Translated.Self t h := by
  rcases near.table q h at_q with old | free
  · obtain ⟨own, off⟩ := self.tables va member q below h old
    exact (near.other _ off).trans own
  · rw [← table_aligned at_q] at free ⊢
    exact self.free_at near free

/-- A frame that is handed out is at its own address. -/
theorem SelfMapped.alloc (self : SelfMapped s vas) (near : Nearby s t vas)
    (some : t.allocPage.1 ≠ 0) : Translated.Self t t.allocPage.1 := by
  obtain ⟨-, found, -⟩ := allocPage_grown near.tree.pmm
  obtain ⟨k, eq, -, fresh⟩ := found some
  rw [eq] at fresh ⊢
  exact self.free_at near fun used => fresh.1 (near.taken _ used)

/-- `next_table` at a table on the way, -/
theorem SelfMapped.nextTable_at (self : SelfMapped s vas) (near : Nearby s t vas)
    (words : Words t) (null : Taken s 0) (member : va ∈ vas) {p : List (Fin 512)} {f : Nat}
    {i : Fin 512} (below : p ∈ [] :: dirs va) (at_p : t.table p = some f) (upper : p.length < 3)
    (small : p.length = 2 → t.mem f i &&& vmmHuge = 0) :
    Translated.nextTable t f i = some (nextTable t f i) ∧ Nearby s (nextTable t f i).2 vas ∧
      Words (nextTable t f i).2 := by
  obtain ⟨⟨_, -, makes⟩, -, -⟩ :=
    nextTable_makes (i := i) near.tree (near.taken 0 null) at_p upper small
  have own := self.table_at near member below at_p
  exact ⟨own.nextTable near.tree words (self.alloc near) at_p upper small, near.makes makes,
    Translated.words_nextTable words near.tree⟩

/-- and `split_huge_pd`. -/
theorem SelfMapped.splitHugePd_at (self : SelfMapped s vas) (near : Nearby s t vas)
    (words : Words t) (null : Taken s 0) (member : va ∈ vas) {p : List (Fin 512)} {f : Nat}
    {i : Fin 512} (below : p ∈ [] :: dirs va) (at_p : t.table p = some f) (level : p.length = 2) :
    Translated.splitHugePd t f i = some (splitHugePd t f i) ∧
      Nearby s (splitHugePd t f i).2 vas ∧ Words (splitHugePd t f i).2 := by
  have own := self.table_at near member below at_p
  refine ⟨own.splitHugePd near.tree words (self.alloc near), ?_,
    Translated.words_splitHugePd words near.tree⟩
  rcases splitHugePd_makes (i := i) near.tree (near.taken 0 null) at_p level with
    ⟨-, eval⟩ | ⟨⟨_, -, makes⟩, -, -⟩
  · rw [eval]
    exact near
  · exact near.makes makes

/-- **`vmm_map` on translated addresses** does what it does on frames. -/
theorem SelfMapped.vmmMap_eq (self : SelfMapped s vas) (near : Nearby s t vas) (words : Words t)
    (null : Taken s 0) (member : va ∈ vas) (phys flags : Nat) :
    Translated.vmmMap t va phys flags = some (vmmMap t va phys flags) := by
  rw [Translated.vmmMap, vmmMap]
  dsimp only
  have at₀ : t.table [] = some t.root := rfl
  obtain ⟨eval₁, near₁, words₁⟩ := self.nextTable_at (i := tableIdx va 39) near words null member
    (by simp) at₀ (by simp) (by simp)
  obtain ⟨-, outcome₁⟩ := nextTable_spec (i := tableIdx va 39) near.tree at₀ (by simp) (by simp)
  rw [eval₁, Option.bind_some]
  generalize nextTable t t.root (tableIdx va 39) = r₁ at *
  rcases outcome₁ with ⟨null₁, -⟩ | ⟨pdpt, -, at₁⟩
  · rw [if_pos null₁, if_pos null₁]
  obtain ⟨eval₂, near₂, words₂⟩ := self.nextTable_at (i := tableIdx va 30) near₁ words₁ null member
    (by simp [dirs]) at₁ (by simp) (by simp)
  obtain ⟨-, outcome₂⟩ := nextTable_spec (i := tableIdx va 30) near₁.tree at₁ (by simp) (by simp)
  rw [if_neg pdpt, if_neg pdpt, eval₂, Option.bind_some]
  generalize nextTable r₁.2 r₁.1 (tableIdx va 30) = r₂ at *
  rcases outcome₂ with ⟨null₂, -⟩ | ⟨pd, -, at₂⟩
  · rw [if_pos null₂, if_pos null₂]
  obtain ⟨eval₃, near₃, words₃⟩ := self.splitHugePd_at (i := tableIdx va 21) near₂ words₂ null
    member (by simp [dirs]) at₂ (by simp)
  obtain ⟨-, outcome₃⟩ := splitHugePd_spec (i := tableIdx va 21) near₂.tree at₂ (by simp)
  rw [if_neg pd, if_neg pd, eval₃, Option.bind_some]
  generalize splitHugePd r₂.2 r₂.1 (tableIdx va 21) = r₃ at *
  rcases outcome₃ with ⟨failed, -⟩ | ⟨done, -, at₃, small⟩
  · rw [if_pos (show r₃.1 < 0 by omega), if_pos (show r₃.1 < 0 by omega)]
  have whole : ¬ r₃.1 < 0 := by omega
  obtain ⟨eval₄, near₄, -⟩ := self.nextTable_at (i := tableIdx va 21) near₃ words₃ null member
    (by simp [dirs]) at₃ (by simp) fun _ => small
  obtain ⟨-, outcome₄⟩ := nextTable_spec (i := tableIdx va 21) near₃.tree at₃ (by simp)
    fun _ => small
  rw [if_neg whole, if_neg whole, (self.table_at near₃ member (by simp [dirs]) at₃).load,
    Option.bind_some, if_neg (not_not.mpr small), if_neg (not_not.mpr small), eval₄,
    Option.bind_some]
  generalize nextTable r₃.2 r₂.1 (tableIdx va 21) = r₄ at *
  rcases outcome₄ with ⟨null₄, -⟩ | ⟨pt, -, at₄⟩
  · rw [if_pos null₄, if_pos null₄]
  rw [if_neg pt, if_neg pt]
  exact (self.table_at near₄ member (by simp [dirs]) at₄).store _ _

/-! ## Loops over pages -/

/-- A frame that is handed out, cleared. -/
theorem SelfMapped.zeroPage_eq (self : SelfMapped s vas) (near : Nearby s t vas) (words : Words t)
    (some : t.allocPage.1 ≠ 0) :
    Translated.zeroPage t.allocPage.2 t.allocPage.1 =
        Option.some (t.allocPage.2.zeroPage t.allocPage.1) ∧
      Nearby s (t.allocPage.2.zeroPage t.allocPage.1) vas ∧
      Words (t.allocPage.2.zeroPage t.allocPage.1) := by
  obtain ⟨aligned, -, data⟩ := Translated.alloc_data near.tree some
  have taken := (allocPage_grown near.tree.pmm).1.taken
  have keeps := (allocPage_spec near.tree).1
  obtain ⟨zeroed, tables⟩ := fill_keeps keeps.tree (f := t.allocPage.1) data fun _ => 0
  have own : Translated.Self t.allocPage.2 t.allocPage.1 := self.alloc near some
  exact ⟨own.zeroPage aligned keeps.tree data words,
    near.still (keeps.trans zeroed) taken tables,
    Translated.words_fill (s := t.allocPage.2) words fun _ => by decide⟩

/-- **A turn of the loader.** -/
theorem SelfMapped.elfPage_eq (self : SelfMapped s vas) (near : Nearby s t vas) (words : Words t)
    (null : Taken s 0) (member : va ∈ vas) :
    Translated.elfPage va t = some (elfPage va t) ∧ Nearby s (elfPage va t).2 vas ∧
      Words (elfPage va t).2 := by
  rw [Translated.elfPage, elfPage]
  by_cases none : t.allocPage.1 = 0
  · simp only [none, if_true, true_and]
    exact ⟨near.still (allocPage_spec near.tree).1 (allocPage_grown near.tree.pmm).1.taken
      fun _ => rfl, words⟩
  · simp only [none, if_false]
    obtain ⟨zeroed, near', words'⟩ := self.zeroPage_eq near words none
    obtain ⟨k, eq, inRange⟩ := allocPage_frame near.tree.pmm none
    have clean : t.allocPage.1 < 2 ^ 52 := by
      rw [eq]
      simp only [maxPages, pageSize] at *
      omega
    rw [zeroed, Option.bind_some, self.vmmMap_eq near' words' null member]
    exact ⟨rfl, near'.vmmMap null member clean _, Translated.words_vmmMap words' near'.tree clean _ _⟩

/-- **A turn of the stack**, which clears page 0 when there is no other. -/
theorem SelfMapped.stackPage_eq (self : SelfMapped s vas) (near : Nearby s t vas) (words : Words t)
    (null : Taken s 0) (member : va ∈ vas)
    (page : t.allocPage.1 ≠ 0 ∨ Translated.Self t 0 ∧ ∀ q, t.table q ≠ some 0) :
    Translated.stackPage va t = some (stackPage va t) ∧ Nearby s (stackPage va t).2 vas ∧
      Words (stackPage va t).2 := by
  rw [Translated.stackPage, stackPage]
  dsimp only
  obtain ⟨zeroed, near', words', clean⟩ : Translated.zeroPage t.allocPage.2 t.allocPage.1 =
      some (t.allocPage.2.zeroPage t.allocPage.1) ∧
      Nearby s (t.allocPage.2.zeroPage t.allocPage.1) vas ∧
      Words (t.allocPage.2.zeroPage t.allocPage.1) ∧ t.allocPage.1 < 2 ^ 52 := by
    by_cases none : t.allocPage.1 = 0
    · obtain ⟨own, data⟩ := page.resolve_left (not_not.mpr none)
      have keeps := (allocPage_spec near.tree).1
      obtain ⟨zeroed, tables⟩ := fill_keeps keeps.tree data fun _ => 0
      rw [none]
      exact ⟨Translated.Self.zeroPage (s := t.allocPage.2) own rfl keeps.tree data words,
        near.still (keeps.trans zeroed) (allocPage_grown near.tree.pmm).1.taken tables,
        Translated.words_fill (s := t.allocPage.2) words fun _ => by decide, by decide⟩
    · obtain ⟨zeroed, near', words'⟩ := self.zeroPage_eq near words none
      obtain ⟨k, eq, inRange⟩ := allocPage_frame near.tree.pmm none
      refine ⟨zeroed, near', words', ?_⟩
      rw [eq]
      simp only [maxPages, pageSize] at *
      omega
  rw [zeroed, Option.bind_some, self.vmmMap_eq near' words' null member]
  exact ⟨rfl, near'.vmmMap null member clean _, Translated.words_vmmMap words' near'.tree clean _ _⟩

/-- **Loops that do the same in every turn** do the same, and keep what the turns keep. -/
theorem Translated.pageLoop_eq {P : Nat → Vmm → Prop} {body : Nat → Vmm → Bool × Vmm}
    {body' : Nat → Vmm → Option (Bool × Vmm)} {first last : Nat} (ends : last + pageSize ≤ 2 ^ 64)
    (turn : ∀ va ∈ pagesBetween first last, ∀ t, P va t →
      body' va t = some (body va t) ∧ P (va + pageSize) (body va t).2) {fuel : Nat}
    (start : P first s) :
    Translated.pageLoop body' fuel first last s = Flyos.pageLoop body fuel first last s ∧
      ∀ r, Flyos.pageLoop body fuel first last s = some r → ∃ va, P va r.2 := by
  induction fuel generalizing first s with
  | zero => exact ⟨rfl, fun r done => by cases done⟩
  | succ fuel ih =>
      rw [Translated.pageLoop, Flyos.pageLoop]
      by_cases more : first < last
      · obtain ⟨same, kept⟩ := turn first (by rw [pagesBetween_cons more]; simp) s start
        have next : (first + pageSize) % 2 ^ 64 = first + pageSize := Nat.mod_eq_of_lt (by omega)
        rw [if_pos more, if_pos more, same, Option.bind_some, next]
        dsimp only
        split
        case isTrue =>
          refine ih (fun va member => turn va ?_) kept
          rw [pagesBetween_cons more]
          exact List.mem_cons_of_mem _ member
        case isFalse =>
          refine ⟨rfl, fun r done => ⟨first + pageSize, ?_⟩⟩
          obtain rfl := Option.some.inj done
          exact kept
      · rw [if_neg more, if_neg more]
        refine ⟨rfl, fun r done => ⟨first, ?_⟩⟩
        obtain rfl := Option.some.inj done
        exact start

/-! ## Programs -/

variable {elf : ByteMemory} {ph : Phdr}

/-- **A segment.** -/
theorem SelfMapped.loadSegment_eq (self : SelfMapped s vas) (near : Nearby s t vas)
    (words : Words t) (null : Taken s 0) (inside : ∀ va ∈ ph.loadPages, va ∈ vas) :
    Translated.loadSegment elf ph t = loadSegment elf ph t ∧
      ∀ r, loadSegment elf ph t = some r → Words r.2 := by
  rw [Translated.loadSegment, loadSegment]
  by_cases load : ph.pType = ptLoad
  · have pages : ph.loadPages = pagesBetween ph.pages.1 ph.pages.2 := if_pos load
    have loop : Translated.pageLoop Translated.elfPage allPages ph.pages.1 ph.pages.2 t =
        pageLoop elfPage allPages ph.pages.1 ph.pages.2 t ∧
        ∀ r, pageLoop elfPage allPages ph.pages.1 ph.pages.2 t = some r →
          ∃ va : Nat, Nearby s r.2 vas ∧ Words r.2 :=
      Translated.pageLoop_eq (P := fun _ u => Nearby s u vas ∧ Words u) (pageDown_room _)
        (fun va member u kept => self.elfPage_eq kept.1 kept.2 null (inside va (pages ▸ member)))
        ⟨near, words⟩
    obtain ⟨same, keeps⟩ := loop
    rw [if_neg (not_not.mpr load), if_neg (not_not.mpr load), same]
    refine ⟨rfl, fun r ran => ?_⟩
    obtain ⟨u, loop, after⟩ := Option.bind_eq_some_iff.mp ran
    obtain ⟨-, -, words'⟩ := keeps u loop
    split at after
    case isTrue =>
      obtain ⟨v, copied, rfl⟩ := Option.map_eq_some_iff.mp after
      exact Translated.words_copyBytes words' copied
    case isFalse => exact Option.some.inj after ▸ words'
  · rw [if_pos load, if_pos load]
    exact ⟨rfl, fun r ran => Option.some.inj ran ▸ words⟩

/-- **All segments**, when every state between two of them is near. -/
theorem SelfMapped.loadSegments_eq (self : SelfMapped s vas) (null : Taken s 0) {is : List Nat}
    (inside : ∀ i ∈ is, ∀ va ∈ (phdr elf i).loadPages, va ∈ vas)
    (near : ∀ pre post, is = pre ++ post → ∀ t, loadSegments elf pre s = some (true, t) →
      Nearby s t vas) :
    Translated.loadSegments elf is s = loadSegments elf is s ∧
      ∀ r, loadSegments elf is s = some r → Words r.2 := by
  suffices rest : ∀ post pre t, is = pre ++ post → loadSegments elf pre s = some (true, t) →
      Words t → Translated.loadSegments elf post t = loadSegments elf post t ∧
        ∀ r, loadSegments elf post t = some r → Words r.2 from
    rest is [] s rfl rfl self.words
  intro post
  induction post with
  | nil => exact fun pre t _ _ words => ⟨rfl, fun r ran => Option.some.inj ran ▸ words⟩
  | cons i post ih =>
      intro pre t split before words
      have member : i ∈ is := by rw [split]; simp
      obtain ⟨same, words'⟩ : Translated.loadSegment elf (phdr elf i) t =
          loadSegment elf (phdr elf i) t ∧
          ∀ r, loadSegment elf (phdr elf i) t = some r → Words r.2 :=
        self.loadSegment_eq (near pre _ split t before) words null (inside i member)
      rw [Translated.loadSegments, loadSegments, same]
      cases one : loadSegment elf (phdr elf i) t with
      | none => exact ⟨rfl, fun r ran => by cases ran⟩
      | some r =>
          obtain ⟨goes, u⟩ := r
          simp only [Option.bind_some]
          cases goes with
          | false => exact ⟨rfl, fun r ran => Option.some.inj ran ▸ words' _ one⟩
          | true =>
              refine ih (pre ++ [i]) u (by rw [split, List.append_assoc]; rfl) ?_ (words' _ one)
              rw [loadSegments_append, before, Option.bind_some, if_pos rfl, loadSegments, one]
              rfl

/-- With pages enough, they are. -/
theorem SelfMapped.loadSegments_room (self : SelfMapped s vas) (tree : PageTree Entry s)
    (null : Taken s 0) {is : List Nat}
    (inside : ∀ i ∈ is, ∀ va ∈ (phdr elf i).loadPages, va ∈ vas)
    (fits : ∀ i ∈ is, (phdr elf i).pType = ptLoad → (phdr elf i).Fits)
    (room : mapNeed s (is.flatMap fun i => (phdr elf i).loadPages) ≤ freePages s.pmm) :
    Translated.loadSegments elf is s = loadSegments elf is s ∧
      ∀ r, loadSegments elf is s = some r → Words r.2 := by
  refine self.loadSegments_eq null inside fun pre post split t ran => ?_
  subst split
  rw [List.flatMap_append] at room
  obtain ⟨u, ran', mapped⟩ := loadSegments_mapped tree null
    (fun i member => fits i (List.mem_append_left _ member)) ((mapNeed_append_le s _ _).trans room)
  obtain rfl : u = t := (Prod.mk.inj (Option.some.inj (ran'.symm.trans ran))).2
  refine mapped.nearby fun va member => ?_
  obtain ⟨i, mem, page⟩ := List.mem_flatMap.mp member
  exact inside i (List.mem_append_left _ mem) va page

/-- **`user_load_elf`** likewise. -/
theorem SelfMapped.userLoadElf_eq (self : SelfMapped s vas) (tree : PageTree Entry s)
    (null : Taken s 0) (inside : ∀ va ∈ loadPages elf, va ∈ vas)
    (fits : ∀ i < ePhnum elf, (phdr elf i).pType = ptLoad → (phdr elf i).Fits)
    (room : mapNeed s (loadPages elf) ≤ freePages s.pmm) :
    Translated.userLoadElf elf s = userLoadElf elf s := by
  rw [Translated.userLoadElf, userLoadElf, (self.loadSegments_room tree null
    (fun i member va page => inside va (List.mem_flatMap.mpr ⟨i, member, page⟩))
    (fun i member => fits i (List.mem_range.mp member)) room).1]

/-- **The stack**: with pages enough, or when page 0 is mapped to itself. -/
theorem SelfMapped.stack_eq (self : SelfMapped s vas) (near : Nearby s t vas) (words : Words t)
    (null : Taken s 0) (inside : ∀ va ∈ stackPages, va ∈ vas)
    (pages : mapNeed t stackPages ≤ freePages t.pmm ∨
      Translated.Self s 0 ∧ (∀ w ∈ vas, path 0 ≠ path w) ∧ ∀ q, s.table q ≠ some 0) :
    Translated.userSetupStackAt childStackBase childStackSize t =
      userSetupStackAt childStackBase childStackSize t := by
  rw [Translated.userSetupStackAt, userSetupStackAt]
  refine congrArg _ ?_
  have ends : (childStackBase + childStackSize) % 2 ^ 64 = childStackBase + childStackSize := by
    decide
  rw [ends]
  rcases pages with room | ⟨own, off, data⟩
  · refine (Translated.pageLoop_eq (P := fun va u => (Nearby s u vas ∧ Words u) ∧
      mapNeed u (pagesBetween va (childStackBase + childStackSize)) ≤ freePages u.pmm) (by decide)
      (fun va member u kept => ?_) ⟨⟨near, words⟩, room⟩).1
    obtain ⟨⟨near, words⟩, room⟩ := kept
    have more : va < childStackBase + childStackSize := (mem_pagesBetween.mp member).2.1
    rw [pagesBetween_cons more] at room
    have room₁ : mapNeed u [va] ≤ freePages u.pmm := (mapNeed_append_le u [va] _).trans room
    have null' := near.taken 0 null
    obtain ⟨same, near', words'⟩ := self.stackPage_eq near words null (inside va member)
      (.inl (page_of_room near.tree null' room₁))
    obtain ⟨-, mapped⟩ := stackPage_mapped va near.tree null' room₁
    exact ⟨same, ⟨near', words'⟩, mapped.room room⟩
  · refine (Translated.pageLoop_eq (P := fun _ u => Nearby s u vas ∧ Words u) (by decide)
      (fun va member u kept => ?_) ⟨near, words⟩).1
    obtain ⟨near, words⟩ := kept
    refine self.stackPage_eq near words null (inside va member) (.inr ⟨?_, fun q at_q => ?_⟩)
    · exact (near.other 0 off).trans own
    · exact (near.table q 0 at_q).elim (data q) fun free => free null

/-! ## The identity map -/

end Flyos
