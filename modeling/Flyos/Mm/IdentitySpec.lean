import Flyos.Mm.NewSpace
import Flyos.Mm.PmmSpec

/-!
# The identity map survives where nothing is mapped over it

From the tables of `boot.S` and what `pmm_init` leaves free, through any calls in any
order: as long as no call maps or writes over a protected page, and `task_fork` finds
the protected pages in large pages, every address space maps every page below 1 GiB
that the page allocator hands out to itself (`identity_survives`).

The programs of the repository are not like that.  They are linked at `CHILD_CODE_BASE`,
which is the first page that `pmm_init` leaves free (`identity_lost`).
-/

namespace Flyos

open TableTree

/-! ## The tables of `boot.S` -/

namespace KernelImage

variable (img : KernelImage) (rest : PageTables)

/-- The frames of the three tables. -/
theorem frames : ∃ k, 0 < k ∧ k + 2 < maxPages ∧ img.pml4 = k * pageSize ∧
    img.pdpt = (k + 1) * pageSize ∧ img.pd = (k + 2) * pageSize := by
  obtain ⟨k, eq⟩ := img.aligned
  have := img.above
  have := img.inside
  have := img.low
  refine ⟨k, ?_⟩
  simp only [KernelImage.pdpt, KernelImage.pd, eq, maxPages, pageSize] at *
  omega

/-- A link of `boot.S`. -/
theorem link {k d : Nat} (inRange : k < maxPages) (pos : 0 < k) (upper : d < 2) :
    slot d (k * pageSize ||| 3) = .table (k * pageSize) ∧ Entry d (k * pageSize ||| 3) := by
  obtain ⟨addr, present, huge⟩ := frame_and inRange
  have parts : (k * pageSize ||| 3) &&& addrMask = k * pageSize ∧
      (k * pageSize ||| 3) &&& vmmPresent ≠ 0 ∧ (k * pageSize ||| 3) &&& vmmHuge = 0 := by
    simp only [Nat.and_or_distrib_right, addr, present, huge]
    simp [addrMask, vmmPresent, vmmHuge]
  have leads : slot d (k * pageSize ||| 3) = .table (k * pageSize) := by
    rw [slot_dir upper parts.2.1, parts.1]
  refine ⟨leads, ⟨?_, fun _ _ => parts.2.2⟩, ⟨fun _ _ => parts.2.2, fun f there => ?_⟩⟩
  · refine Nat.or_lt_two_pow ?_ (by decide)
    simp only [maxPages, pageSize] at *
    omega
  · obtain rfl := Slot.table.inj (leads.symm.trans there)
    simp only [pageSize]
    omega

/-- A large page of `boot.S`. -/
theorem large (i : Fin 512) : slot 2 (0x83 + i * 0x200000) = .leaf (i * 0x200000) ∧
    Entry 2 (0x83 + i * 0x200000) := by
  have leaf : ∀ i : Fin 512, slot 2 (0x83 + i * 0x200000) = .leaf (i * 0x200000) := by
    decide +kernel
  have present : ∀ i : Fin 512, (0x83 + i * 0x200000) &&& vmmPresent ≠ 0 := by decide +kernel
  refine ⟨leaf i, ⟨by have := i.isLt; omega, by simp⟩,
    ⟨fun _ absent => absurd absent (present i), fun f link => ?_⟩⟩
  rw [leaf i] at link
  cases link

/-- What the entries mean, and that they are legal: the first of the PML4, -/
theorem slot_pml4 (i : Fin 512) : slot 0 (img.bootTables rest img.pml4 i) =
    (if i = 0 then .table img.pdpt else .empty) ∧ Entry 0 (img.bootTables rest img.pml4 i) := by
  obtain ⟨k, pos, inRange, -, eq, -⟩ := img.frames
  have entry : img.bootTables rest img.pml4 i = if i = 0 then img.pdpt ||| 3 else 0 := by
    simp [bootTables]
  rw [entry, eq]
  split
  case isTrue => exact link (by omega) (by omega) (by decide)
  case isFalse => exact ⟨slot_zero 0, entry_zero 0⟩

/-- the first of the page directory pointer table, -/
theorem slot_pdpt (i : Fin 512) : slot 1 (img.bootTables rest img.pdpt i) =
    (if i = 0 then .table img.pd else .empty) ∧ Entry 1 (img.bootTables rest img.pdpt i) := by
  obtain ⟨k, pos, inRange, -, -, eq⟩ := img.frames
  have other : img.pdpt ≠ img.pml4 := by simp [KernelImage.pdpt]
  have entry : img.bootTables rest img.pdpt i = if i = 0 then img.pd ||| 3 else 0 := by
    simp [bootTables, other]
  rw [entry, eq]
  split
  case isTrue => exact link inRange (by omega) (by decide)
  case isFalse => exact ⟨slot_zero 1, entry_zero 1⟩

/-- and the large pages of the page directory. -/
theorem slot_bootPd (i : Fin 512) : slot 2 (img.bootTables rest img.pd i) = .leaf (i * 0x200000) ∧
    Entry 2 (img.bootTables rest img.pd i) := by
  have other : img.pd ≠ img.pml4 := by simp [KernelImage.pd]
  have other' : img.pd ≠ img.pdpt := by simp [KernelImage.pd, KernelImage.pdpt]
  rw [show img.bootTables rest img.pd i = 0x83 + i * 0x200000 by simp [bootTables, other, other']]
  exact large i

/-- The tables of the tree. -/
theorem reach_boot {p : List (Fin 512)} {f : Nat}
    (at_p : reach slot (img.bootTables rest) 0 img.pml4 p = some f) :
    (p = [] ∧ f = img.pml4) ∨ (p = [0] ∧ f = img.pdpt) ∨ (p = [0, 0] ∧ f = img.pd) := by
  rcases p with _ | ⟨i, _ | ⟨j, _ | ⟨k, p⟩⟩⟩
  · exact .inl ⟨rfl, (Option.some.inj at_p).symm⟩
  all_goals
    simp only [reach, (img.slot_pml4 rest i).1] at at_p
    by_cases first : i = 0
    case neg => simp [first] at at_p
    subst first
    simp only [if_true] at at_p
  · exact .inr (.inl ⟨rfl, (Option.some.inj at_p).symm⟩)
  all_goals
    simp only [Nat.zero_add, (img.slot_pdpt rest j).1] at at_p
    by_cases second : j = 0
    case neg => simp [second] at at_p
    subst second
    simp only [if_true] at at_p
  · exact .inr (.inr ⟨rfl, (Option.some.inj at_p).symm⟩)
  · simp [(img.slot_bootPd rest k).1] at at_p

/-- **The first GiB is mapped to itself**, and nothing else is mapped. -/
theorem pageAt_boot (v : Nat) :
    (walk slot (img.bootTables rest) 0 img.pml4 (path v)).map physPage =
      if v % 2 ^ 48 < 2 ^ 30 then some (v % 2 ^ 48 / pageSize * pageSize) else none := by
  have first : tableIdx v 39 = 0 ↔ v / 2 ^ 39 % 512 = 0 := by
    rw [Fin.ext_iff, tableIdx_val]
    rfl
  have second : tableIdx v 30 = 0 ↔ v / 2 ^ 30 % 512 = 0 := by
    rw [Fin.ext_iff, tableIdx_val]
    rfl
  simp only [path, walk, (img.slot_pml4 rest _).1]
  by_cases here : tableIdx v 39 = 0
  case neg =>
    rw [if_neg here, if_neg (by rw [first] at here; omega)]
    rfl
  simp only [if_pos here, Nat.zero_add, (img.slot_pdpt rest _).1]
  by_cases there : tableIdx v 30 = 0
  case neg =>
    rw [if_neg there, if_neg (by rw [second] at there; omega)]
    rfl
  simp only [if_pos there, Nat.reduceAdd, (img.slot_bootPd rest _).1, Option.map_some, physPage,
    tableIdx_val]
  rw [first] at here
  rw [second] at there
  have page : v / 2 ^ 21 % 512 * 0x200000 + v / 2 ^ 12 % 512 * pageSize =
      v % 2 ^ 48 / pageSize * pageSize := by
    simp only [pageSize]
    omega
  rw [if_pos (by omega), page]

/-- CR3 holds the address of the PML4. -/
theorem pml4_masked : img.pml4 &&& addrMask = img.pml4 := by
  obtain ⟨k, -, inRange, eq, -, -⟩ := img.frames
  rw [eq]
  exact (frame_and (by omega)).1

/-- **What `pmm_init` leaves alone**: the first 8 MiB and the kernel image. -/
theorem taken_boot {mem : ByteMemory} {mbInfo : Nat} {pmm : Pmm} (info : mbInfo < 2 ^ 32)
    (start : pmmInit mem mbInfo kernelStart img.kernelEnd = some pmm) :
    pmm.Ok ∧ ∀ k, Reserves 0 0x800000 k ∨ Reserves kernelStart img.kernelEnd k →
      Taken (img.boot rest pmm).vmm (k * pageSize) := by
  obtain ⟨entries, map, -⟩ := Option.bind_eq_some_iff.mp start
  have low := img.low
  obtain ⟨p, ran, ok, -, total, -, bits⟩ :=
    pmmInit_spec kernelStart map info (show img.kernelEnd < 2 ^ 64 by omega)
  obtain rfl := Option.some.inj (start.symm.trans ran)
  refine ⟨ok, fun k reserved inside => ?_⟩
  have page : k * pageSize / pageSize = k := Nat.mul_div_cancel k (by decide)
  rw [page] at inside ⊢
  exact (bits k).mpr ⟨total ▸ inside, fun _ => reserved.elim .inl fun kernel => .inr (.inl kernel)⟩

/-- The page allocator holds the first 8 MiB and the kernel image. -/
structure Holds (pmm : Pmm) : Prop where
  ok : pmm.Ok
  used : ∀ k, Reserves 0 0x800000 k ∨ Reserves kernelStart img.kernelEnd k →
    Taken (img.boot rest pmm).vmm (k * pageSize)

section

variable {mem : ByteMemory} {mbInfo : Nat} {pmm : Pmm}

/-- So it does when `pmm_init` has run. -/
theorem holds_boot (info : mbInfo < 2 ^ 32)
    (start : pmmInit mem mbInfo kernelStart img.kernelEnd = some pmm) : img.Holds rest pmm :=
  ⟨(img.taken_boot rest info start).1, (img.taken_boot rest info start).2⟩

/-- Page 0 is in use. -/
theorem Holds.null {img : KernelImage} {rest : PageTables} (holds : img.Holds rest pmm) :
    Taken (img.boot rest pmm).vmm 0 := by
  simpa using holds.used 0 (.inl ⟨by decide, by decide⟩)

/-- The tables of the tree of CR3. -/
theorem table_boot (pmm : Pmm) {p : List (Fin 512)} {f : Nat}
    (at_p : (img.boot rest pmm).vmm.table p = some f) :
    (p = [] ∧ f = img.pml4) ∨ (p = [0] ∧ f = img.pdpt) ∨ (p = [0, 0] ∧ f = img.pd) := by
  refine img.reach_boot rest ?_
  rwa [Vmm.table, show (img.boot rest pmm).vmm.root = img.pml4 from img.pml4_masked] at at_p

/-- They are pages of the kernel image. -/
theorem frame_boot (holds : img.Holds rest pmm) {p : List (Fin 512)} {f : Nat}
    (at_p : (img.boot rest pmm).vmm.table p = some f) :
    f / pageSize * pageSize = f ∧ f ≠ 0 ∧ Taken (img.boot rest pmm).vmm f := by
  obtain ⟨k, pos, -, eq₀, eq₁, eq₂⟩ := img.frames
  have above := img.above
  have inside := img.inside
  have page : ∃ j, j * pageSize = f ∧ k ≤ j ∧ j ≤ k + 2 := by
    rcases img.table_boot rest pmm at_p with ⟨-, rfl⟩ | ⟨-, rfl⟩ | ⟨-, rfl⟩
    · exact ⟨k, eq₀.symm, le_rfl, Nat.le_add_right _ _⟩
    · exact ⟨k + 1, eq₁.symm, by omega, by omega⟩
    · exact ⟨k + 2, eq₂.symm, by omega, le_rfl⟩
  obtain ⟨j, rfl, lower, upper⟩ := page
  refine ⟨by rw [Nat.mul_div_cancel _ (by decide)], ?_, holds.used j (.inr ⟨?_, ?_⟩)⟩
  · simp only [pageSize]
    omega
  · simp only [pageUp, pageSize, kernelStart] at *
    omega
  · simp only [pageDown, pageSize] at *
    omega

/-- They are a tree. -/
theorem tree_boot (holds : img.Holds rest pmm) : PageTree Entry (img.boot rest pmm).vmm := by
  refine ⟨fun p q f at_p at_q => ?_, fun {p f} at_p i => ?_, holds.ok,
    fun {p f} at_p => (img.frame_boot rest holds at_p).2.2⟩
  · have differ : img.pdpt ≠ img.pml4 ∧ img.pd ≠ img.pml4 ∧ img.pd ≠ img.pdpt := by
      simp [KernelImage.pdpt, KernelImage.pd]
    rcases img.table_boot rest pmm at_p with ⟨rfl, rfl⟩ | ⟨rfl, rfl⟩ | ⟨rfl, rfl⟩ <;>
      rcases img.table_boot rest pmm at_q with ⟨rfl, eq⟩ | ⟨rfl, eq⟩ | ⟨rfl, eq⟩
    · rfl
    · exact absurd eq.symm differ.1
    · exact absurd eq.symm differ.2.1
    · exact absurd eq differ.1
    · rfl
    · exact absurd eq.symm differ.2.2
    · exact absurd eq differ.2.1
    · exact absurd eq differ.2.2
    · rfl
  · rcases img.table_boot rest pmm at_p with ⟨rfl, rfl⟩ | ⟨rfl, rfl⟩ | ⟨rfl, rfl⟩
    · exact (img.slot_pml4 rest i).2
    · exact (img.slot_pdpt rest i).2
    · exact (img.slot_bootPd rest i).2

/-- **The identity map is there at boot.** -/
theorem identity_boot (info : mbInfo < 2 ^ 32)
    (start : pmmInit mem mbInfo kernelStart img.kernelEnd = some pmm) :
    Identity (img.boot rest pmm).vmm (img.boot rest pmm).vmm (img.boot rest pmm).spaces := by
  have root : (img.boot rest pmm).vmm.root = img.pml4 := img.pml4_masked
  have pages : ∀ v, pageAt (img.boot rest pmm).vmm (path v) =
      if v % 2 ^ 48 < 2 ^ 30 then some (v % 2 ^ 48 / pageSize * pageSize) else none := fun v => by
    rw [pageAt, root]
    exact img.pageAt_boot rest v
  have holds := img.holds_boot rest info start
  have tree := img.tree_boot rest holds
  have null : ¬ Protected (img.boot rest pmm).vmm 0 := by
    rintro (free | ⟨p, at_p⟩)
    · exact free holds.null
    · exact (img.frame_boot rest holds at_p).2.1 rfl
  refine ⟨null, rfl, fun _ used => used, ⟨?_, ?_, ?_⟩, List.mem_singleton_self _, ?_, ?_, ?_⟩
  · rintro R member
    obtain rfl := List.mem_singleton.mp member
    exact img.pml4_masked
  · rintro R member
    obtain rfl := List.mem_singleton.mp member
    exact tree
  · rintro R member R' member' p q f at_p at_q
    obtain rfl := List.mem_singleton.mp member
    obtain rfl := List.mem_singleton.mp member'
    have distinct := tree.distinct
    rw [root] at distinct
    exact distinct p q f at_p at_q
  · rintro R member q h at_q
    obtain rfl := List.mem_singleton.mp member
    have at_q' : (img.boot rest pmm).vmm.table q = some h := by rwa [Vmm.table, root]
    refine .inr ⟨q, ?_⟩
    rw [(img.frame_boot rest holds at_q').1]
    exact at_q'
  · rintro R member f - low
    obtain rfl := List.mem_singleton.mp member
    refine (pages f).trans ?_
    rw [Nat.mod_eq_of_lt (by omega), if_pos low]
  · rintro R member v a clear found
    obtain rfl := List.mem_singleton.mp member
    have found' := (pages v).symm.trans found
    split at found'
    case isFalse => cases found'
    case isTrue low =>
      obtain rfl := Option.some.inj found'
      have same : path v = path (v % 2 ^ 48 / pageSize * pageSize) := by
        rw [path_eq_iff]
        simp only [pageNumber, pageSize]
        omega
      have outside : ¬ Protected (img.boot rest pmm).vmm (v % 2 ^ 48 / pageSize * pageSize) :=
        fun guarded => clear _ guarded (by simp only [pageSize]; omega) same
      rw [Protected, not_or, not_not] at outside
      refine ⟨outside.1, fun R member q at_q => outside.2 ⟨q, ?_⟩⟩
      obtain rfl := List.mem_singleton.mp member
      rw [Nat.mul_div_cancel _ (by decide), Vmm.table, root]
      exact at_q

end

end KernelImage

/-! ## Runs -/

/-- The condition on a call: what it maps and writes is clear of the protected pages,
devices are no protected pages, and `task_fork` finds these in large pages. -/
def KernelCall.Harmless (s₀ : Vmm) (m : Machine) : KernelCall → Prop
  | .heapInit => True
  | .mapNic bar => ∀ k < 128 * 1024, ¬ Protected s₀ (pageDown (bar / 16 * 16 + k))
  | .fbInit fb => fb.Apart s₀
  | .loadElf elf => ElfClear s₀ elf
  | .setupStack base size => ClearRange s₀ base ((base + size) % 2 ^ 64)
  | .exec elf => ElfClear s₀ elf
  | .spawn elf => m.spawnUsed = false → ElfClear s₀ elf
  | .clonePml4 => True
  | .fork => Unsplit s₀ m.vmm
  | .switchTo _ => True

/-- Taking frames and writing to them keeps the identity map. -/
theorem Identity.grown {s₀ s t : Vmm} {roots : List Nat} (inv : Identity s₀ s roots)
    (grown : Grown s t []) : Identity s₀ t roots :=
  (inv.quiet grown.cr3 grown.pmm grown.total grown.taken fun _ member _ h at_q =>
    grown.kept h (inv.spaces.taken member at_q) (by simp)).1

/-- A call that makes an address space, when it can. -/
theorem Identity.maybeSpace {s₀ : Vmm} {m : Machine} {r : Nat × Vmm}
    (inv : Identity s₀ m.vmm m.spaces) (failed : r.1 = 0 → Grown m.vmm r.2 [])
    (space : r.1 ≠ 0 → NewSpace s₀ m.vmm r.2 r.1) :
    Identity s₀ (m.addSpace r).vmm (m.addSpace r).spaces := by
  by_cases null : r.1 = 0
  · simpa only [Machine.addSpace, null, if_true] using inv.grown (failed null)
  · simpa only [Machine.addSpace, null, if_false] using inv.addSpace (space null)

/-- **A harmless call keeps the identity map.** -/
theorem kernelStep_identity {s₀ : Vmm} {m m' : Machine} {call : KernelCall}
    (inv : Identity s₀ m.vmm m.spaces) (harmless : call.Harmless s₀ m)
    (step : KernelStep m call m') : Identity s₀ m'.vmm m'.spaces := by
  have tree := (inv.spaces.current inv.current).1
  cases step with
  | heapInit done => exact inv.heapInit done
  | mapNic small done => exact inv.nic small harmless done
  | fbInit done => exact inv.fbInit harmless done
  | loadElf done => exact inv.loadElf harmless done
  | setupStack done => exact inv.stack harmless done
  | exec done => exact inv.loadProgram harmless done
  | spawnAgain => exact inv
  | spawn unused done => exact inv.loadProgram (harmless unused) done
  | clonePml4 =>
      refine inv.maybeSpace (fun failed => ?_) fun done => vmmClonePml4_newSpace inv done
      by_cases null : m.vmm.allocPage.1 = 0
      · simpa only [vmmClonePml4, null, if_true] using (allocPage_grown tree.pmm).1
      · simp only [vmmClonePml4, null, if_false] at failed
  | fork =>
      refine inv.maybeSpace (fun _ => ?_) fun done => vmmClonePml4Deep_newSpace inv harmless done
      exact (vmmClonePml4Deep_spec tree.pmm (inv.cloneSource harmless)).1
  | switchTo member =>
      exact ⟨inv.null, inv.total, inv.taken, ⟨inv.spaces.root, inv.spaces.trees, inv.spaces.apart⟩,
        member, inv.tables, inv.same, inv.data⟩

/-- **The identity map survives** runs of harmless calls: every address of a page below 1 GiB
that the page allocator hands out is translated to itself in every space.  Harmless is a
condition on the call and the tables before it, and one step lemma says that such a call leaves
the translation of every page that is not taken (`kernelStep_identity`).  A mapping of a low page
by a program is what it excludes. -/
theorem identity_survives {img : KernelImage} {rest : PageTables} {mem : ByteMemory}
    {mbInfo : Nat} {pmm : Pmm} (info : mbInfo < 2 ^ 32)
    (start : pmmInit mem mbInfo KernelImage.kernelStart img.kernelEnd = some pmm)
    {calls : List KernelCall} {m : Machine}
    (run : Run (Guarded (fun m call => call.Harmless (img.boot rest pmm).vmm m) KernelStep)
      (img.boot rest pmm) calls m) {root v : Nat} (space : root ∈ m.spaces) (low : v < 2 ^ 30)
    (free : ¬ Taken (img.boot rest pmm).vmm v) : vmmGetPhys (m.vmm.inSpace root) v = v := by
  have inv : Identity (img.boot rest pmm).vmm m.vmm m.spaces :=
    run.invariant (fun m => Identity (img.boot rest pmm).vmm m.vmm m.spaces)
      (fun inv step => kernelStep_identity inv step.1 step.2) (img.identity_boot rest info start)
  rw [vmmGetPhys_eq, inv.same root space v (.inl free) low]
  exact Nat.div_add_mod' v pageSize

/-! ## A small machine -/

/-- A kernel of about 1 MiB. -/
def smallImage : KernelImage where
  kernelEnd := 0x203000
  pml4 := 0x200000
  aligned := by decide
  above := by decide
  inside := by decide
  low := by decide

/-- An information block at 4 MiB for 9 MiB of memory. -/
def nineMiB : ByteMemory :=
  infoBlock 0x400000 [0, 0, 0, 0, 0, 0, 0, 0, 0, 0, 0x90, 0, 0, 0, 0, 0, 1]

/-- The last MiB is free. -/
def ninthFree : Pmm where
  bitmap := fun b => if b < 0x100 then 0xFF#8 else 0#8
  totalPages := 0x900
  usedPages := 0x800
  searchHint := 0

theorem ninthFree_bits (k : Nat) : bitmapTest ninthFree.bitmap k = decide (k < 0x800) := by
  have ones : ∀ i < 8, (0xFF#8).getLsbD i = true := by decide
  rw [bitmapTest_eq]
  simp only [ninthFree]
  split
  case isTrue low =>
    rw [ones _ (Nat.mod_lt k (by decide)), eq_comm, decide_eq_true_eq]
    omega
  case isFalse high =>
    rw [BitVec.getLsbD_zero, eq_comm, decide_eq_false_iff_not]
    omega

theorem ninthFree_counted : ninthFree.Counted := by
  have used : ninthFree.used = Finset.range 0x800 := by
    ext k
    rw [Pmm.mem_used, ninthFree_bits, decide_eq_true_iff, Finset.mem_range]
    exact and_iff_right_of_imp fun low => low.trans (by decide)
  rw [Pmm.Counted, used, Finset.card_range]
  rfl

/-- The bits decide the state of the page allocator. -/
theorem Pmm.ext_bits {p q : Pmm} (bits : ∀ k, bitmapTest p.bitmap k = bitmapTest q.bitmap k)
    (total : p.totalPages = q.totalPages) (hint : p.searchHint = q.searchHint)
    (counted : p.Counted) (counted' : q.Counted) : p = q := by
  have bytes : p.bitmap = q.bitmap := by
    funext b
    refine BitVec.eq_of_getLsbD_eq fun i low => ?_
    have bit := bits (8 * b + i)
    rwa [bitmapTest_eq, bitmapTest_eq, show (8 * b + i) / 8 = b by omega,
      show (8 * b + i) % 8 = i by omega] at bit
  have used : p.used = q.used := by
    ext k
    rw [Pmm.mem_used, Pmm.mem_used, bits, total]
  have count : p.usedPages = q.usedPages := counted.trans (used ▸ counted'.symm)
  cases p
  cases q
  simp only at bytes total hint count
  rw [bytes, total, hint, count]

/-- `pmm_init` leaves it free. -/
theorem ninthFree_start :
    pmmInit nineMiB 0x400000 KernelImage.kernelStart smallImage.kernelEnd = some ninthFree := by
  have map : memoryMap nineMiB 0x400000 = some [⟨0, 0x900000, 1⟩] := by decide +kernel
  have size : mbSize nineMiB 0x400000 = 56 := by decide +kernel
  have managed : totalPages [⟨0, 0x900000, 1⟩] = 0x900 := by decide +kernel
  obtain ⟨p, start, -, counted, total, hint, bits⟩ := pmmInit_spec KernelImage.kernelStart map
    (by decide) (by decide : smallImage.kernelEnd < 2 ^ 64)
  rw [start, Pmm.ext_bits (p := p) (q := ninthFree) (fun k => ?_) total hint counted
    ninthFree_counted]
  rw [ninthFree_bits, Bool.eq_iff_iff, bits, managed, decide_eq_true_iff]
  have bounds : pageUp 0 = 0 ∧ pageDown 0x800000 = 0x800000 ∧
      pageDown smallImage.kernelEnd = 0x203000 ∧ pageDown (0x400000 + 56) = 0x400000 ∧
      pageUp 0x400000 = 0x400000 ∧ (⟨0, 0x900000, 1⟩ : MmapEntry).pagesEnd = 0x900000 := by decide
  constructor
  · rintro ⟨inside, reserved⟩
    by_contra high
    have frees : (⟨0, 0x900000, 1⟩ : MmapEntry).Frees k := by
      refine ⟨rfl, .inr ?_, ?_⟩
      · rw [bounds.1]
        exact Nat.zero_le _
      · rw [bounds.2.2.2.2.2]
        simp only [pageSize]
        omega
    simp only [Reserved, Reserves, size, bounds, pageSize] at reserved
    have := reserved ⟨_, List.mem_singleton_self _, frees⟩
    omega
  · intro low
    refine ⟨by omega, fun _ => .inl ⟨?_, ?_⟩⟩
    · rw [bounds.1]
      exact Nat.zero_le _
    · rw [bounds.2.1]
      simp only [pageSize]
      omega

/-- The machine at boot. -/
def smallMachine : Machine := smallImage.boot (fun _ _ => 0) ninthFree

/-- A program of two pages without bytes in the file, at 4 or at 8 MiB. -/
def bssElf (megabytes : UInt8) : ByteMemory := fun a =>
  ([(0, 0x7F), (1, 0x45), (2, 0x4C), (3, 0x46), (32, 64), (54, 56), (56, 1), (64, 1),
    (82, 16 * megabytes), (105, 0x20)].lookup a).getD 0

/-- The protected pages are above 8 MiB or in the kernel image. -/
theorem smallMachine_protected {f : Nat} (guarded : Protected smallMachine.vmm f) :
    f / pageSize < 0x400 ∨ 0x800 ≤ f / pageSize := by
  rcases guarded with free | ⟨p, at_p⟩
  · rw [Taken, Classical.not_imp] at free
    right
    by_contra low
    exact free.2 ((ninthFree_bits _).trans (decide_eq_true (by omega)))
  · left
    rcases smallImage.table_boot _ ninthFree at_p with ⟨-, eq⟩ | ⟨-, eq⟩ | ⟨-, eq⟩ <;>
    · simp only [smallImage, KernelImage.pdpt, KernelImage.pd, pageSize] at eq ⊢
      omega

/-- The program at 4 MiB is clear of them. -/
theorem bssElf_clear : ElfClear smallMachine.vmm (bssElf 4) := by
  intro _ i one _
  have first : i = 0 := by
    have count : ePhnum (bssElf 4) = 1 := by decide +kernel
    omega
  have pages : (phdr (bssElf 4) 0).pages = (0x400000, 0x402000) := by decide +kernel
  have size : (phdr (bssElf 4) 0).pFilesz = 0 := by decide +kernel
  subst first
  refine ⟨fun va from_first more f guarded low same => ?_, fun k inside => ?_⟩
  · rw [pages] at from_first more
    rw [path_eq_iff] at same
    have := smallMachine_protected guarded
    simp only [pageNumber, pageSize] at *
    omega
  · omega

/-- A program at 4 MiB leaves the free page `0x801000` where it is. -/
theorem identity_survives_small : ∃ m, KernelStep smallMachine (.loadElf (bssElf 4)) m ∧
    vmmGetPhys (m.vmm.inSpace smallImage.pml4) 0x801234 = 0x801234 := by
  have loads : (userLoadElf (bssElf 4) smallMachine.vmm).isSome = true := by decide +kernel
  obtain ⟨r, done⟩ := Option.isSome_iff_exists.mp loads
  have free : ¬ Taken smallMachine.vmm 0x801234 := fun used =>
    absurd (used (by decide)) (by decide +kernel)
  have run : Run (Guarded (fun m call => call.Harmless smallMachine.vmm m) KernelStep)
      smallMachine [.loadElf (bssElf 4)] _ := .single ⟨bssElf_clear, .loadElf done⟩
  exact ⟨_, .loadElf done, identity_survives (by decide) ninthFree_start run
    (List.mem_singleton_self _) (by decide) free⟩

/-- **A program at `CHILD_CODE_BASE`** takes the address of a free page. -/
theorem identity_lost :
    pmmInit nineMiB 0x400000 KernelImage.kernelStart smallImage.kernelEnd = some ninthFree ∧
      ∃ m, Run KernelStep smallMachine [.loadElf (bssElf 8)] m ∧
        ∃ root ∈ m.spaces, ∃ v < 2 ^ 30, ¬ Taken smallMachine.vmm v ∧
          vmmGetPhys (m.vmm.inSpace root) v ≠ v := by
  have moved : ((userLoadElf (bssElf 8) smallMachine.vmm).map fun r =>
      vmmGetPhys (r.2.inSpace smallImage.pml4) 0x801000) = some 0x802000 := by decide +kernel
  obtain ⟨r, done, elsewhere⟩ := Option.map_eq_some_iff.mp moved
  refine ⟨ninthFree_start, _, .single (.loadElf done), smallImage.pml4, List.mem_singleton_self _,
    0x801000, by decide, fun used => absurd (used (by decide)) (by decide +kernel), ?_⟩
  rw [elsewhere]
  decide

end Flyos