import Flyos.Mm.CloneCount
import Flyos.Mm.HeapUndo
import Flyos.Task.Fork

/-!
# When a fork is all or nothing

A fork that answers -1 should leave no trace (`ForkUndone`), and one that answers an id
should leave a child with its own copy of the address space and its own stack (`Forked`).
`task_fork` frees the record of the child when the copy fails, but the pages that the
copy has taken until then stay taken, and it does not look at what `kmalloc` answers for
the stack.  `taskFork_allOrNothing` says exactly when neither happens.
-/

namespace Flyos

open Heap

/-! ## What a fork promises -/

/-- The block list is the same: the same blocks, with the same headers. -/
def SameBlocks (m m' : ByteMemory) : Prop :=
  ∃ bs, LinkChain (next m) (· = 0) heapStart bs ∧ LinkChain (next m') (· = 0) heapStart bs ∧
    ∀ b ∈ bs, size m' b = size m b ∧ isFree m' b = isFree m b ∧ next m' b = next m b ∧
      prev m' b = prev m b

/-- Nothing is left of the fork. -/
structure ForkUndone (k k' : Kernel) : Prop where
  pages : k'.vmm.pmm.usedPages = k.vmm.pmm.usedPages
  blocks : SameBlocks k.heap.mem k'.heap.mem
  nextId : k'.sched.nextId = k.sched.nextId
  ring : k'.sched.current = k.sched.current ∧
    ∀ t, (k'.sched.task t).next = (k.sched.task t).next

/-- The child at `child` is whole. -/
structure Forked (fb : FbInfo) (k k' : Kernel) (r : Int) (child : Nat) : Prop where
  id : (k'.sched.task child).id = k.sched.nextId ∧ r = int32 k.sched.nextId
  linked : (k'.sched.task k.sched.current).next = child ∧
    (k'.sched.task child).next = (k.sched.task k.sched.current).next
  copy : Isolated fb k.vmm k.vmm.root k'.vmm (k'.record child).pml4Phys
  live : child ∈ k'.heap.outstanding
  /-- The stack lies in a block of the heap that is in use. -/
  stack : (k'.record child).stackBase ∈ k'.heap.outstanding ∧
    taskStackSize ≤ payload k'.heap.mem (k'.record child).stackBase
  top : (k'.record child).kernelStackTop = (k'.record child).stackBase + taskStackSize
  sp : (k'.record child).stackBase ≤ (k'.record child).rsp ∧
    (k'.record child).rsp + 64 ≤ (k'.record child).kernelStackTop

/-- **All or nothing.** -/
def AllOrNothing (fb : FbInfo) (k : Kernel) (r : Int) (k' : Kernel) : Prop :=
  (r = -1 → ForkUndone k k') ∧ (r ≠ -1 → ∃ child, Forked fb k k' r child)

/-- A state of the kernel, with the block list `l`. -/
structure Kernel.Ok (k : Kernel) (l : List Seg) : Prop where
  heap : HeapInv k.heap l
  pmm : k.vmm.pmm.Ok
  /-- `pmm_init` marks page 0 used. -/
  null : Taken k.vmm 0
  /-- The tables and the pages of the current address space are in use. -/
  source : CloneSource k.vmm k.vmm.root
  /-- The record of the current task is a block of the heap. -/
  current : k.sched.current ∈ k.heap.outstanding
  nextId : k.sched.nextId < 2 ^ 32

/-- First fit finds a block for the record and then one for the stack. -/
def StackFits (l : List Seg) : Prop :=
  ∃ o l', place (need taskSize) l = some (o, l') ∧ (place (need taskStackSize) l').isSome

/-- **The condition.**  There is no block for the record, or no free page at all; or there
are pages for the whole copy and a block for the stack, and the id is no -1. -/
def ForkFits (fb : FbInfo) (k : Kernel) (l : List Seg) : Prop :=
  place (need taskSize) l = none ∨ freePages k.vmm.pmm = 0 ∨
    cloneNeed fb k.vmm k.vmm.root ≤ freePages k.vmm.pmm ∧ StackFits l ∧
      k.sched.nextId ≠ 2 ^ 32 - 1

/-! ## The stack of the child -/

/-- Where the words go. -/
theorem pushAll_spec (m : ByteMemory) (sp : Nat) (ws : List Nat) (room : 8 * ws.length ≤ sp) :
    (pushAll m sp ws).1 = sp - 8 * ws.length ∧
      ∀ x, x < sp - 8 * ws.length ∨ sp ≤ x → (pushAll m sp ws).2 x = m x := by
  induction ws generalizing m sp with
  | nil => exact ⟨rfl, fun _ _ => rfl⟩
  | cons w ws ih =>
      rw [List.length_cons] at room ⊢
      obtain ⟨ends, kept⟩ := ih (m.store (sp - 8) 8 w) (sp - 8) (by omega)
      rw [pushAll]
      refine ⟨by rw [ends]; omega, fun x outside => ?_⟩
      rw [kept x (by omega), ByteMemory.store_of_notMem m w (by omega)]

/-- A client that writes in its payload keeps the block list. -/
theorem HeapInv.write {s : HeapState} {l : List Seg} (inv : HeapInv s l) {p n : Nat}
    (used : IsUsed heapStart l p n) {m : ByteMemory}
    (same : ∀ x, x < p ∨ p + (n - headerSize) ≤ x → m x = s.mem x) :
    HeapInv { s with mem := m } l := by
  refine ⟨inv.holds.congr fun x header => (same x ?_).symm, inv.running, inv.nodup, inv.used⟩
  by_contra inside
  exact used.not_header inv.holds.tidy.sized (by omega) (by omega) header

/-- An `int` that is -1 was `UINT32_MAX`. -/
theorem int32_eq_neg_one {n : Nat} (small : n < 2 ^ 32) :
    int32 n = -1 ↔ n = 2 ^ 32 - 1 := by
  rw [int32, Int.bmod_def]
  split <;> omega

variable {fb : FbInfo} {entry : Nat} {k : Kernel} {l : List Seg}

/-- The record that is linked into the ring. -/
theorem Sched.link_child {s : Sched} {t : Nat} (other : t ≠ s.current) (parent : Nat) :
    (s.link t parent).task t = ⟨s.nextId, .ready, (s.task s.current).next, 0, parent⟩ ∧
      ((s.link t parent).task s.current).next = t := by
  refine ⟨?_, ?_⟩
  · simp [Sched.link, TaskMemory.setNext, Function.update_of_ne other]
  · simp [Sched.link, TaskMemory.setNext]

/-- **The last part of `task_fork`** leaves a whole child, when `kmalloc` has a stack for it. -/
theorem forkWith_forked (entry : Nat) {k₀ : Kernel} {child childPml4 o : Nat} {l' : List Seg}
    (heap : HeapInv k.heap l) (sched : k.sched = k₀.sched) (live : child ∈ k.heap.outstanding)
    (other : child ≠ k.sched.current) (copy : Isolated fb k₀.vmm k₀.vmm.root k.vmm childPml4)
    (placed : place (need taskStackSize) l = some (o, l')) :
    ∃ k', k.forkWith entry child childPml4 = some (int32 k.sched.nextId, k') ∧
      k'.sched = k.sched.link child k.sched.current ∧
      Forked fb k₀ k' (int32 k.sched.nextId) child := by
  obtain ⟨m, n, ran, inv, -, large, used⟩ := heap.take (by decide) placed
  obtain ⟨base, at_base⟩ : ∃ base, base = heapStart + o + headerSize := ⟨_, rfl⟩
  rw [← at_base] at ran inv used
  have mine : IsUsed heapStart l' base n := (used _ _).mpr (.inl ⟨rfl, rfl⟩)
  have range := mine.range
  have full := inv.holds.tidy.full
  have room : taskStackSize + headerSize ≤ n := Nat.le_trans (le_need (by decide)) large
  simp only [heapEnd, heapStart, heapSize, heapPages, pageSize, headerSize, taskStackSize] at *
  -- the words lie in the payload
  have low : (base + 8192) % 2 ^ 64 = base + 8192 := Nat.mod_eq_of_lt (by omega)
  obtain ⟨ends, kept⟩ := pushAll_spec m ((base + 8192) / 16 * 16)
    [entry, 0x202, 0, 0, 0, 0, k.savedUserRsp, k.syscallUserRcx]
    (by simp only [List.length_cons, List.length_nil]; omega)
  simp only [List.length_cons, List.length_nil] at ends kept
  generalize pushed : pushAll m ((base + 8192) / 16 * 16)
    [entry, 0x202, 0, 0, 0, 0, k.savedUserRsp, k.syscallUserRcx] = r at ends kept
  have held : ∀ m, (k.heap.returned base m).outstanding = base :: k.heap.outstanding := fun _ =>
    if_neg (by omega)
  have inv' : HeapInv (k.heap.returned base r.2) l' :=
    inv.write mine fun x outside => kept x (by simp only [headerSize] at outside; omega)
  obtain ⟨at_child, at_current⟩ := Sched.link_child other k.sched.current
  have forked : Flyos.taskFork k.sched child true = k.sched.link child k.sched.current := by
    rw [Flyos.taskFork, if_neg (heap.ne_zero live), if_neg (by decide)]
  refine ⟨_, by rw [Kernel.forkWith, ran]; rfl, forked, ?_⟩
  simp only [forked, low, pushed]
  refine ⟨⟨?_, ?_⟩, ⟨?_, ?_⟩, ?_, ?_, ⟨?_, ?_⟩, ?_, ?_, ?_⟩
  · rw [at_child, sched]
  · rw [sched]
  · rw [← sched]
    exact at_current
  · rw [at_child, sched]
  · simpa only [Function.update_self] using copy
  · rw [held]
    exact List.mem_cons_of_mem _ live
  · simp only [Function.update_self, held, List.mem_cons_self]
  · simp only [Function.update_self]
    have room' := inv'.holds.payload mine
    simp only [HeapState.returned, headerSize, taskStackSize] at room' ⊢
    omega
  · simp only [Function.update_self]
  · simp only [Function.update_self, ends]
    omega
  · simp only [Function.update_self, ends]
    omega

/-! ## The four ways through `task_fork` -/

/-- The block list stays when its layout does. -/
theorem Kernel.Ok.sameBlocks (ok : k.Ok l) {m : ByteMemory} (holds : Holds m l) :
    SameBlocks k.heap.mem m :=
  ok.heap.holds.same_list holds

/-- Without a block for the record nothing happens. -/
theorem taskFork_full (ok : k.Ok l) (full : place (need taskSize) l = none) :
    k.taskFork fb entry = some (-1, k) := by
  rw [Kernel.taskFork, ok.heap.take_none (by decide) full]
  rfl

/-- **The copy fails**: the record is given back, the pages are not. -/
theorem taskFork_uncopied (entry : Nat) {o : Nat} {l' : List Seg} (ok : k.Ok l)
    (placed : place (need taskSize) l = some (o, l'))
    (failed : (vmmClonePml4Deep fb k.vmm k.vmm.root).1 = 0) :
    ∃ m, k.taskFork fb entry = some (-1, { k with
        heap := { k.heap with mem := m }
        vmm := (vmmClonePml4Deep fb k.vmm k.vmm.root).2 }) ∧ SameBlocks k.heap.mem m := by
  obtain ⟨m, n, ran, inv, unheld, -⟩ := ok.heap.take (by decide) placed
  obtain ⟨m', freed, inv'⟩ := ok.heap.undo (by decide) placed ran
  have nonnull : heapStart + o + headerSize ≠ 0 := by simp only [heapStart]; omega
  refine ⟨m', ?_, ok.sameBlocks inv'.holds⟩
  rw [Kernel.taskFork, ran]
  simp only [Option.bind_some, if_neg nonnull, failed, if_true, heapExec, HeapState.returned]
  rw [freed, Option.map_some, List.erase_cons_head]
  rfl

/-- **The copy succeeds.**  The rest is `forkWith`, in a heap with the record. -/
theorem taskFork_copied (entry : Nat) {o : Nat} {l' : List Seg} (ok : k.Ok l)
    (placed : place (need taskSize) l = some (o, l'))
    (copied : (vmmClonePml4Deep fb k.vmm k.vmm.root).1 ≠ 0) :
    ∃ child heap, HeapInv heap l' ∧ child ∈ heap.outstanding ∧ child ≠ k.sched.current ∧
      k.taskFork fb entry = Kernel.forkWith entry child (vmmClonePml4Deep fb k.vmm k.vmm.root).1
        { k with heap := heap, vmm := (vmmClonePml4Deep fb k.vmm k.vmm.root).2 } := by
  obtain ⟨m, n, ran, inv, unheld, -⟩ := ok.heap.take (by decide) placed
  have nonnull : heapStart + o + headerSize ≠ 0 := by simp only [heapStart]; omega
  refine ⟨heapStart + o + headerSize, _, inv, ?_, ?_, ?_⟩
  · rw [HeapState.returned, if_neg nonnull]
    exact List.mem_cons_self
  · rintro same
    exact unheld (same ▸ ok.current)
  · rw [Kernel.taskFork, ran]
    simp only [Option.bind_some, if_neg nonnull, if_neg copied]

/-- Without a block for the stack the child is linked all the same, with a stack at 0. -/
theorem forkWith_stackless (entry childPml4 : Nat) {child : Nat} (heap : HeapInv k.heap l)
    (live : child ∈ k.heap.outstanding) (full : place (need taskStackSize) l = none) :
    ∃ k', k.forkWith entry child childPml4 = some (int32 k.sched.nextId, k') ∧
      k'.sched = k.sched.link child k.sched.current ∧ k'.heap.outstanding = k.heap.outstanding ∧
      (k'.record child).stackBase = 0 := by
  have forked : Flyos.taskFork k.sched child true = k.sched.link child k.sched.current := by
    rw [Flyos.taskFork, if_neg (heap.ne_zero live), if_neg (by decide)]
  refine ⟨_, by rw [Kernel.forkWith, heap.take_none (by decide) full]; rfl, forked, ?_, ?_⟩
  · simp only [HeapState.returned, if_true]
  · simp only [Function.update_self]

/-- A linked child has used up an id. -/
theorem ForkUndone.not_linked {k' : Kernel} {child parent : Nat}
    (linked : k'.sched = k.sched.link child parent) : ¬ ForkUndone k k' := by
  intro undone
  have same := undone.nextId
  rw [linked] at same
  simp only [Sched.link] at same
  omega

/-! ## The fork -/

/-- **A fork is all or nothing exactly under `ForkFits`.**  The record comes first, then the copy
of the tables, then the kernel stack.  The copy gives no page back when it runs out of them
(`vmmClonePml4Deep_paid`), and the block for the stack is used unchecked; so a fork that fails
changes nothing only where it fails before the first page. -/
theorem taskFork_allOrNothing (ok : k.Ok l) :
    ∃ r k', k.taskFork fb entry = some (r, k') ∧
      (AllOrNothing fb k r k' ↔ ForkFits fb k l) := by
  obtain ⟨-, -, enough⟩ := @vmmClonePml4Deep_spec fb _ _ ok.pmm ok.source
  obtain ⟨empty, spends, paid⟩ := @vmmClonePml4Deep_paid fb _ _ ok.pmm ok.null ok.source
  cases placed : place (need taskSize) l with
  | none =>
      refine ⟨-1, k, taskFork_full ok placed, fun _ => .inl placed, fun _ => ?_⟩
      exact ⟨fun _ => ⟨rfl, ok.sameBlocks ok.heap.holds, rfl, rfl, fun _ => rfl⟩,
        fun other => absurd rfl other⟩
  | some found =>
      obtain ⟨o, l'⟩ := found
      by_cases failed : (vmmClonePml4Deep fb k.vmm k.vmm.root).1 = 0
      · obtain ⟨m, ran, blocks⟩ := taskFork_uncopied entry ok placed failed
        refine ⟨-1, _, ran, fun whole => ?_, fun fits => ?_⟩
        · refine .inr (.inl ?_)
          by_contra free
          have grown := spends (Nat.pos_of_ne_zero free)
          have same := (whole.1 rfl).pages
          dsimp only at same
          omega
        · rcases fits with full | none | ⟨room, -⟩
          · rw [placed] at full
            cases full
          · have same := (empty none).2
            exact ⟨fun _ => ⟨by rw [same], blocks, rfl, rfl, fun _ => rfl⟩,
              fun other => absurd rfl other⟩
          · exact absurd failed (enough ok.null room)
      · obtain ⟨child, heap, inv, live, other, ran⟩ :=
          taskFork_copied entry ok placed failed
        have room := paid failed
        have free : freePages k.vmm.pmm ≠ 0 := fun none => failed (empty none).1
        have copy := (vmmClone_isolated ok.pmm ok.null ok.source room).2
        rw [ran]
        cases stack : place (need taskStackSize) l' with
        | none =>
            obtain ⟨k', ran, linked, held, base⟩ := forkWith_stackless entry
              (vmmClonePml4Deep fb k.vmm k.vmm.root).1
              (k := { k with heap, vmm := (vmmClonePml4Deep fb k.vmm k.vmm.root).2 })
              inv live stack
            refine ⟨_, k', ran, fun whole => ?_, fun fits => ?_⟩
            · exfalso
              by_cases failed : int32 k.sched.nextId = -1
              · exact ForkUndone.not_linked (k := k) linked (whole.1 failed)
              · obtain ⟨c, forked⟩ := whole.2 failed
                have at_c := forked.linked.1
                rw [linked] at at_c
                obtain rfl : child = c :=
                  (Sched.link_child (s := k.sched) other k.sched.current).2.symm.trans at_c
                have null := forked.stack.1
                rw [base, held] at null
                exact inv.ne_zero null rfl
            · rcases fits with full | none | ⟨-, ⟨o₂, l₂, placed₂, some⟩, -⟩
              · rw [placed] at full
                cases full
              · exact absurd none free
              · rw [placed] at placed₂
                obtain ⟨-, rfl⟩ := Prod.mk.inj (Option.some.inj placed₂)
                rw [stack] at some
                cases some
        | some found =>
            obtain ⟨o₂, l₂⟩ := found
            obtain ⟨k', ran, linked, forked⟩ := forkWith_forked entry
              (k := { k with heap, vmm := (vmmClonePml4Deep fb k.vmm k.vmm.root).2 })
              inv (show _ = k.sched from rfl) live other copy stack
            refine ⟨_, k', ran, fun whole => ?_, fun fits => ?_⟩
            · refine .inr (.inr ⟨room, ⟨o, l', placed, by rw [stack]; rfl⟩, fun last => ?_⟩)
              exact ForkUndone.not_linked (k := k) linked
                (whole.1 ((int32_eq_neg_one ok.nextId).mpr last))
            · rcases fits with full | none | ⟨-, -, id⟩
              · rw [placed] at full
                cases full
              · exact absurd none free
              · exact ⟨fun failed => absurd ((int32_eq_neg_one ok.nextId).mp failed) id,
                  fun _ => ⟨child, forked⟩⟩

/-! ## Two kernels -/

/-- The heap with one record in use. -/
def recordHeap : HeapState :=
  (heapExec (HeapState.init fun _ => 0) (.kmalloc taskSize)).getD (HeapState.init fun _ => 0)

/-- The first task runs, in the address space of `vmm`. -/
def firstTask (vmm : Vmm) : Kernel where
  heap := recordHeap
  vmm := vmm
  sched := taskInit (fun _ => ⟨0, .ready, 0, 0, 0⟩) (heapStart + headerSize)
  record := fun _ => ⟨0, 0, 0, 0, 0, 0, 0, 0, 0, 0⟩
  savedUserRsp := 0
  syscallUserRcx := 0

/-- What `recordHeap` holds. -/
theorem recordHeap_inv : HeapInv recordHeap [⟨160, false⟩, ⟨heapSize - 160, true⟩] ∧
    heapStart + headerSize ∈ recordHeap.outstanding := by
  obtain ⟨m, n, ran, inv, -⟩ := (heapInit_inv fun _ => 0).take (show taskSize ≠ 0 by decide)
    (show place (need taskSize) [⟨heapSize, true⟩] =
      some (0, [⟨160, false⟩, ⟨heapSize - 160, true⟩]) by decide)
  have taken : recordHeap = (HeapState.init fun _ => 0).returned (heapStart + 0 + headerSize) m := by
    rw [recordHeap, heapExec, ran]
    rfl
  rw [taken]
  exact ⟨inv, List.mem_cons_self⟩

/-- The first task may run in any address space that can be copied. -/
theorem firstTask_ok {s : Vmm} (pmm : s.pmm.Ok) (null : Taken s 0) (source : CloneSource s s.root) :
    (firstTask s).Ok [⟨160, false⟩, ⟨heapSize - 160, true⟩] where
  heap := recordHeap_inv.1
  pmm := pmm
  null := null
  source := source
  current := recordHeap_inv.2
  nextId := by simp only [firstTask, taskInit]; decide

/-- Eight free pages are enough for the copy of `forkable`. -/
theorem taskFork_allOrNothing_forkable : ∃ r k',
    (firstTask forkable).taskFork ⟨0, 0, 0⟩ 0 = some (r, k') ∧
      AllOrNothing ⟨0, 0, 0⟩ (firstTask forkable) r k' := by
  obtain ⟨r, k', ran, whole⟩ := @taskFork_allOrNothing ⟨0, 0, 0⟩ 0 _ _
    (firstTask_ok forkable_ok (forkable_used 0 (by decide)) forkable_source)
  refine ⟨r, k', ran, whole.mpr (.inr (.inr ⟨forkable_room, ⟨_, _, rfl, by decide⟩, ?_⟩))⟩
  simp only [firstTask, taskInit]
  decide

/-- The same address space with one free page. -/
def crowded : Vmm :=
  { forkable with
    pmm := { bitmap := fun k => if k = 0 then 0xFF#8 else if k = 1 then 0x7F#8 else 0#8
             totalPages := 16, usedPages := 15, searchHint := 15 } }

/-- **The leak.**  With one free page the copy fails, and the page is gone. -/
theorem taskFork_leaks : (firstTask crowded).Ok [⟨160, false⟩, ⟨heapSize - 160, true⟩] ∧
    ∃ r k', (firstTask crowded).taskFork ⟨0, 0, 0⟩ 0 = some (r, k') ∧
      ¬ AllOrNothing ⟨0, 0, 0⟩ (firstTask crowded) r k' := by
  have used : ∀ f < 0x8000, Taken crowded f := by
    have bits : ∀ k < 8, bitmapTest crowded.pmm.bitmap k = true := by decide
    exact fun f low _ => bits _ (by simp only [pageSize]; omega)
  have source : CloneSource crowded 0x1000 := by
    refine cloneSource_low (by decide) (n := 0x8000) (by decide) (fun f i => ?_) used
    simp only [crowded, forkable]
    repeat' split
    all_goals decide
  have ok := firstTask_ok (s := crowded) ⟨by decide, by decide⟩ (used 0 (by decide)) source
  obtain ⟨-, spends, paid⟩ := @vmmClonePml4Deep_paid ⟨0, 0, 0⟩ _ _ ok.pmm ok.null ok.source
  have failed : (vmmClonePml4Deep ⟨0, 0, 0⟩ crowded 0x1000).1 = 0 := by
    by_contra copied
    have room := paid copied
    revert room
    decide +kernel
  obtain ⟨m, ran, -⟩ := taskFork_uncopied 0 ok (o := 160) rfl failed
  refine ⟨ok, -1, _, ran, fun whole => ?_⟩
  have grown := spends (by decide +kernel)
  have same := (whole.1 rfl).pages
  dsimp only at same
  omega

end Flyos
