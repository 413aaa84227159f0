import Flyos.Fs.SameLayout
import Flyos.Task.NewTask

/-!
# What a new task sees of stale bytes

Two kernels differ in the bytes of free heap memory only (`FreeDiffers`), and each creates a
task, which makes the same calls.  If the fields on files of the two records lead to the same
files, both tasks see the same: `newTask_agrees`.  `WorldAlike` is what carries it from call to
call.  It asks nothing of the bytes in blocks, so any call may find other bytes in the blocks
that it takes.

`task_create` does not clear those fields, so the condition can fail: `newTask_sees_leftovers`
is a pair of kernels that differ in one word, and in what a task shows.
-/

namespace Flyos

variable {H K : Type*} {A : Allocator H} {B : Allocator K} {Rel : H → K → Prop}

/-! ## Worlds that are alike -/

/-- Files, descriptors and tasks are alike, and the redirections of task `k`. -/
structure WorldAlike (Rel : H → K → Prop) (k : Nat) (w : TaskWorld H) (v : TaskWorld K) : Prop where
  sys : TaskAlike Rel k w.sys v.sys
  nextId : v.nextId = w.nextId

section Worlds

variable {w : TaskWorld H} {v : TaskWorld K} {k : Nat}

/-- Another state of the file system. -/
theorem WorldAlike.setFs (alike : WorldAlike Rel k w v) {fs : Ramfs H} {fs' : Ramfs K}
    (alike' : FsAlike Rel fs fs') : WorldAlike Rel k (w.setFs fs) (v.setFs fs') :=
  ⟨⟨alike.sys.io.setFs alike', alike.sys.alive⟩, alike.nextId⟩

/-- A new task with the redirections of task `k`. -/
theorem WorldAlike.addTask (alike : WorldAlike Rel k w v) (t : Nat) {d e : Redir}
    (same : d.SameTargets e) : WorldAlike Rel k (w.addTask t d) (v.addTask t e) := by
  refine ⟨⟨⟨alike.sys.io.sys, ?_⟩, ?_⟩, ?_⟩
  · simp only [TaskWorld.addTask, TaskFiles.setRedir_redir]
    by_cases here : k = t
    · rw [here, Function.update_self, Function.update_self]
      exact same
    · rw [Function.update_of_ne here, Function.update_of_ne here]
      exact alike.sys.io.redir
  · simp only [TaskWorld.addTask, alike.sys.alive]
  · simp only [TaskWorld.addTask, TaskWorld.takeId, alike.nextId]

/-- `SYS_FORK`. -/
theorem WorldAlike.sysFork (answers : AnswersAlike A B Rel) (alike : WorldAlike Rel k w v)
    (cloned : Bool) :
    SameAnswer (WorldAlike Rel k) (w.sysFork A k cloned) (v.sysFork B k cloned) := by
  obtain ⟨same, alike'⟩ := alike.sys.io.sys.fs.kmalloc answers taskSize
  rw [TaskWorld.sysFork, TaskWorld.sysFork]
  dsimp only
  rw [same]
  by_cases null : (w.fs.kmalloc A taskSize).1 = 0
  · rw [if_pos null, if_pos null]
    exact ⟨rfl, alike.setFs alike'⟩
  rw [if_neg null, if_neg null]
  by_cases failed : cloned = false
  · rw [if_pos failed, if_pos failed]
    exact ⟨rfl, alike.setFs (alike'.release answers _)⟩
  rw [if_neg failed, if_neg failed]
  obtain ⟨-, alike''⟩ := alike'.kmalloc answers taskStackSize
  exact ⟨by rw [alike.nextId], (alike.setFs alike'').addTask _ alike.sys.io.redir⟩

/-- `SYS_SPAWN`. -/
theorem WorldAlike.sysSpawn (answers : AnswersAlike A B Rel) (alike : WorldAlike Rel k w v)
    (loaded : Bool) :
    SameAnswer (WorldAlike Rel k) (w.sysSpawn A loaded) (v.sysSpawn B loaded) := by
  obtain ⟨-, alike'⟩ := alike.sys.io.sys.fs.kmalloc answers taskSize
  obtain ⟨-, alike''⟩ := alike'.kmalloc answers taskStackSize
  rw [TaskWorld.sysSpawn, TaskWorld.sysSpawn]
  by_cases failed : loaded = false
  · rw [if_pos failed, if_pos failed]
    exact ⟨rfl, alike⟩
  rw [if_neg failed, if_neg failed]
  refine ⟨by rw [alike.nextId], (alike.setFs alike'').sys, ?_⟩
  simp only [TaskWorld.takeId, TaskWorld.setFs, alike.nextId]

/-- A call with a block. -/
theorem WorldAlike.withBlock (answers : AnswersAlike A B Rel) (alike : WorldAlike Rel k w v)
    (size : Nat) (reply : Reply) :
    SameAnswer (WorldAlike Rel k) (w.withBlock A size reply) (v.withBlock B size reply) := by
  obtain ⟨same, alike'⟩ := alike.sys.io.sys.fs.kmalloc answers size
  rw [TaskWorld.withBlock, TaskWorld.withBlock, same]
  by_cases null : (w.fs.kmalloc A size).1 = 0
  · rw [if_pos null, if_pos null]
    exact ⟨rfl, alike.setFs alike'⟩
  · rw [if_neg null, if_neg null]
    exact ⟨rfl, alike.setFs (alike'.release answers _)⟩

/-- **One call** gives the same answer in worlds that are alike, and leaves them alike. -/
theorem WorldAlike.taskCall (answers : AnswersAlike A B Rel) (alike : WorldAlike Rel k w v)
    (inv : ∃ kids depth, RamfsInv A w.fs kids depth) {c : TaskCall} (careful : Careful A w k c) :
    Option.Rel (SameAnswer (WorldAlike Rel k)) (taskCall A w k c) (taskCall B v k c) := by
  obtain ⟨kids, depth, inv⟩ := inv
  have fs := alike.sys.io.sys.fs
  cases c with
  | fs c =>
      rw [Flyos.taskCall, Flyos.taskCall, alike.sys.fsAnswer answers inv careful.2]
      refine .bind_same fun a => (alike.sys.fsCall answers inv careful.2).map fun same => ?_
      exact ⟨rfl, same, alike.nextId⟩
  | ls max =>
      rw [Flyos.taskCall, Flyos.taskCall, fs.sysLs]
      exact .map_same fun buf => ⟨rfl, alike⟩
  | getcwd max =>
      rw [Flyos.taskCall, Flyos.taskCall, fs.ramfsGetPath, fs.cwd]
      exact .map_same fun path => ⟨rfl, alike⟩
  | sync written =>
      exact (fs.sysSync answers written).map fun same => ⟨by rw [same.1], alike.setFs same.2⟩
  | fork cloned => exact .some (alike.sysFork answers cloned)
  | spawn loaded => exact .some (alike.sysSpawn answers loaded)
  | fat reply => exact .some (alike.withBlock answers ataSectorSize reply)

end Worlds

/-! ## What holds between calls -/

section Live

variable {w u : TaskWorld H} {k : Nat}

/-- The invariant of the files does not look at what blocks hold. -/
theorem RamfsInv.holding {s : Ramfs H} {kids : Nat → List Nat} {depth : Nat → Nat}
    (inv : RamfsInv A s kids depth) (left : Leftovers H) :
    RamfsInv (A.holding left) s kids depth :=
  ⟨inv.links, inv.bufs.held, inv.bufs.caps, inv.bufs.own, inv.bufs.nodeLive, inv.bufs.bufLive,
    inv.bufs.apart⟩

/-- Nor that of the tasks. -/
theorem LiveInv.holding {s : TaskSystem H} (inv : LiveInv A s) (left : Leftovers H) :
    LiveInv (A.holding left) s := by
  obtain ⟨kids, depth, tree⟩ := inv.tree
  exact ⟨⟨kids, depth, tree.holding left⟩, inv.cwd, inv.fds, inv.redirs⟩

/-- The other way round. -/
theorem LiveInv.ofHolding {s : TaskSystem H} {left : Leftovers H}
    (inv : LiveInv (A.holding left) s) : LiveInv A s := by
  obtain ⟨kids, depth, tree⟩ := inv.tree
  exact ⟨⟨kids, depth, tree.links, tree.bufs.held, tree.bufs.caps, tree.bufs.own,
    tree.bufs.nodeLive, tree.bufs.bufLive, tree.bufs.apart⟩, inv.cwd, inv.fds, inv.redirs⟩

/-- `kfree` of a block that no node and no buffer has. -/
theorem RamfsInv.release {s : Ramfs H} {kids : Nat → List Nat} {depth : Nat → Nat} {p : Nat}
    (inv : RamfsInv A s kids depth) (live : A.live s.heap p) (unused : s.nodes p = none)
    (unbuf : s.bufs p = none) : RamfsInv A (s.release A p) kids depth := by
  have still : ∀ {q}, A.live s.heap q → q ≠ p → A.live (A.free s.heap p) q :=
    fun alive other => (A.free_live live).mpr ⟨alive, other⟩
  refine ⟨inv.links, inv.bufs.held, inv.bufs.caps, inv.bufs.own, fun {q n} at_q => ?_,
    fun {q b} at_q => ?_, inv.bufs.apart⟩
  · exact still (inv.bufs.nodeLive at_q) fun here => by
      rw [here, show (s.release A p).nodes = s.nodes from rfl] at at_q
      rw [unused] at at_q
      cases at_q
  · exact still (inv.bufs.bufLive at_q) fun here => by
      rw [here, show (s.release A p).bufs = s.bufs from rfl] at at_q
      rw [unbuf] at at_q
      cases at_q

/-- The same files on another heap. -/
theorem LiveInv.setFs (inv : LiveInv A w.sys) {fs : Ramfs H} {kids : Nat → List Nat}
    {depth : Nat → Nat} (tree : RamfsInv A fs kids depth) (same : SameFiles w.fs fs) :
    LiveInv A (w.setFs fs).sys :=
  inv.keep (.of_same tree same) (fun _ => .inl rfl) fun j => .inr ⟨j, rfl⟩

/-- A new task whose redirections lead to files. -/
theorem LiveInv.addTask (inv : LiveInv A w.sys) {t : Nat} {d : Redir} (ok : d.Ok w.fs) :
    LiveInv A (w.addTask t d).sys := by
  refine ⟨inv.tree, inv.cwd, inv.fds, fun j => ?_⟩
  by_cases here : j = t
  · subst here
    have its : (w.addTask j d).sys.live.redir j = d := by simp [TaskSystem.live, TaskWorld.addTask]
    rw [its]
    exact ok
  · have its : (w.addTask t d).sys.live.redir j = w.sys.live.redir j := by
      simp [TaskSystem.live, TaskWorld.addTask, here]
    rw [its]
    exact inv.redirs j

/-- A block of the heap, -/
theorem LiveInv.kmalloc (inv : LiveInv A w.sys) (n : Nat) :
    LiveInv A (w.setFs (w.fs.kmalloc A n).2).sys := by
  obtain ⟨kids, depth, tree⟩ := inv.tree
  obtain ⟨files, tree', -⟩ := kmalloc_keeps tree n
  exact inv.setFs tree' files

/-- and one that is returned. -/
theorem LiveInv.borrow (inv : LiveInv A w.sys) {n : Nat} (nonnull : (w.fs.kmalloc A n).1 ≠ 0) :
    LiveInv A (w.setFs ((w.fs.kmalloc A n).2.release A (w.fs.kmalloc A n).1)).sys := by
  obtain ⟨kids, depth, tree⟩ := inv.tree
  obtain ⟨files, tree', -, fresh⟩ := kmalloc_keeps tree n
  obtain ⟨unused, unbuf, live⟩ := fresh nonnull
  refine inv.setFs (tree'.release live ?_ ?_) ⟨files.nodes, files.bufs, files.root, files.cwd⟩
  · exact (congrFun files.nodes _).trans unused
  · exact (congrFun files.bufs _).trans unbuf

/-- The blocks of a new task, and its redirections. -/
theorem LiveInv.newTask (inv : LiveInv A w.sys) {t : Nat} {d : Redir} (ok : d.Ok w.fs) :
    LiveInv A ((w.setFs ((w.fs.kmalloc A taskSize).2.kmalloc A taskStackSize).2).addTask t d).sys :=
  ((inv.kmalloc taskSize).kmalloc taskStackSize).addTask ⟨ok.stdin, ok.stdout, ok.pos⟩

/-- `SYS_FORK`. -/
theorem LiveInv.sysFork (inv : LiveInv A w.sys) (alive : w.sys.alive k = true) (cloned : Bool) :
    LiveInv A (w.sysFork A k cloned).2.sys := by
  rw [TaskWorld.sysFork]
  dsimp only
  by_cases null : (w.fs.kmalloc A taskSize).1 = 0
  · rw [if_pos null]
    exact inv.kmalloc taskSize
  rw [if_neg null]
  by_cases failed : cloned = false
  · rw [if_pos failed]
    exact inv.borrow null
  rw [if_neg failed]
  have ok := inv.redirs k
  rw [TaskSystem.live_redir alive] at ok
  exact inv.newTask ok

/-- `SYS_SPAWN`. -/
theorem LiveInv.sysSpawn (inv : LiveInv A w.sys) (loaded : Bool) :
    LiveInv A (w.sysSpawn A loaded).2.sys := by
  rw [TaskWorld.sysSpawn]
  by_cases failed : loaded = false
  · rw [if_pos failed]
    exact inv
  · rw [if_neg failed]
    exact (inv.kmalloc taskSize).kmalloc taskStackSize

/-- A call with a block. -/
theorem LiveInv.withBlock (inv : LiveInv A w.sys) (size : Nat) (reply : Reply) :
    LiveInv A (w.withBlock A size reply).2.sys := by
  rw [TaskWorld.withBlock]
  by_cases null : (w.fs.kmalloc A size).1 = 0
  · rw [if_pos null]
    exact inv.kmalloc size
  · rw [if_neg null]
    exact inv.borrow null

/-- `SYS_SYNC`. -/
theorem LiveInv.sysSync (inv : LiveInv A w.sys) {written : Bool} {r : Int × Ramfs H}
    (saved : sysSync A w.fs written = some r) : LiveInv A (w.setFs r.2).sys := by
  rw [Flyos.sysSync] at saved
  by_cases null : (w.fs.kmalloc A blobMax).1 = 0
  · rw [if_pos null] at saved
    cases saved
    exact inv.kmalloc blobMax
  · rw [if_neg null] at saved
    obtain ⟨image, -, eq⟩ := Option.map_eq_some_iff.mp saved
    cases eq
    exact inv.borrow null

/-- **One call** of a task that is alive keeps the references in the tree. -/
theorem LiveInv.taskCall (inv : LiveInv A w.sys) (alive : w.sys.alive k = true) {c : TaskCall}
    (careful : Careful A w k c) {a : Reply} (ran : taskCall A w k c = some (a, u)) :
    LiveInv A u.sys := by
  cases c with
  | fs c =>
      obtain ⟨b, -, rest⟩ := Option.bind_eq_some_iff.mp ran
      obtain ⟨sys, one, eq⟩ := Option.map_eq_some_iff.mp rest
      cases eq
      exact fsStep_live inv careful.1 ⟨alive, one⟩
  | ls max =>
      obtain ⟨buf, -, eq⟩ := Option.map_eq_some_iff.mp ran
      cases eq
      exact inv
  | getcwd max =>
      obtain ⟨path, -, eq⟩ := Option.map_eq_some_iff.mp ran
      cases eq
      exact inv
  | sync written =>
      obtain ⟨r, saved, eq⟩ := Option.map_eq_some_iff.mp ran
      cases eq
      exact inv.sysSync saved
  | fork cloned =>
      have eq := Option.some.inj ran
      have live := inv.sysFork alive cloned
      rwa [eq] at live
  | spawn loaded =>
      have eq := Option.some.inj ran
      have live := inv.sysSpawn loaded
      rwa [eq] at live
  | fat reply =>
      have eq := Option.some.inj ran
      have live := inv.withBlock ataSectorSize reply
      rwa [eq] at live

end Live

/-! ## Two runs -/

open Heap in
/-- **Two states of the heap that differ in free memory only**: they have the same blocks and the
same pointers held, and where a byte is different there is a free block around it. -/
structure FreeDiffers (h k : KernelHeap) : Prop where
  held : k.1.outstanding = h.1.outstanding
  layout : ∃ l, HeapInv h.1 l ∧ HeapInv k.1 l ∧ ∀ x, k.1.mem x ≠ h.1.mem x →
    ∃ b ∈ blocks heapStart l, b.2.free = true ∧ b.1 + headerSize ≤ x ∧ x < b.1 + b.2.size

theorem FreeDiffers.blocks {h k : KernelHeap} (differ : FreeDiffers h k) : SameLayout h k := by
  obtain ⟨l, inv, inv', -⟩ := differ.layout
  exact ⟨differ.held, l, inv, inv'⟩

/-- The same tree, with the same contents of files. -/
structure SameTree (s t : Ramfs H) : Prop where
  nodes : t.nodes = s.nodes
  root : t.root = s.root
  cwd : t.cwd = s.cwd
  bytes : ∀ p, fileBytes t p = fileBytes s p

/-- One call of a run: what the blocks hold that it takes, and what it gives back. -/
structure Turn where
  call : TaskCall
  left : Leftovers KernelHeap
  answer : Reply

/-- One call of task `k`, while it is alive. -/
def TurnStep (k : Nat) (w : TaskWorld KernelHeap) (i : Turn) (u : TaskWorld KernelHeap) : Prop :=
  w.sys.alive k = true ∧
    taskCall (kernelAllocator.holding i.left) w k i.call = some (i.answer, u)

/-- The words on files in the memory that the next record is made in. -/
def foundWords (low : ByteMemory) (h : KernelHeap) : FileWords :=
  .read (foundAt kernelAllocator low h)

section Kernel

variable {w s s' u u' : TaskWorld KernelHeap} {k : KernelHeap} {low : ByteMemory}
  {name next t t' : Nat} {r r' : NewRecord} {is js : List Turn}

/-- What `task_create` leaves. -/
theorem taskCreate_eq (created : w.taskCreate kernelAllocator low name next = (t, r, s)) :
    t = (w.fs.kmalloc kernelAllocator taskSize).1 ∧
      s = (w.setFs ((w.fs.kmalloc kernelAllocator taskSize).2.kmalloc kernelAllocator
        taskStackSize).2).addTask t (foundWords low w.fs.heap).redir := by
  rw [TaskWorld.taskCreate, Prod.mk.injEq, Prod.mk.injEq] at created
  obtain ⟨rfl, -, rfl⟩ := created
  exact ⟨rfl, by rw [words_fillRecord]; rfl⟩

/-- Another heap, with the same blocks. -/
theorem alike_setHeap (same : SameLayout w.fs.heap k) :
    FsAlike SameLayout w.fs (w.setHeap k).fs :=
  ⟨same, rfl, rfl, rfl, fun _ => rfl, fun {p n b c} _ at_b at_c => by
    obtain rfl := Option.some.inj (at_b.symm.trans at_c)
    rfl⟩

/-- Heaps answer alike, whatever their blocks hold. -/
theorem AnswersAlike.holding (answers : AnswersAlike A B Rel) (left : Leftovers H)
    (left' : Leftovers K) : AnswersAlike (A.holding left) (B.holding left') Rel :=
  ⟨answers.malloc, answers.free⟩

/-- The condition does not look at what blocks hold. -/
theorem Careful.holding {w : TaskWorld H} {k : Nat} {c : TaskCall} (careful : Careful A w k c)
    (left : Leftovers H) : Careful (A.holding left) w k c := by
  cases c with
  | fs c => exact ⟨careful.1, fun f here => by
      have inside := careful.2 f here
      cases f <;> exact inside⟩
  | _ => trivial

/-- **One call**, whatever the blocks hold that it takes. -/
theorem WorldAlike.anyLeft (answers : AnswersAlike A B Rel) {w : TaskWorld H} {v : TaskWorld K}
    {k : Nat} (alike : WorldAlike Rel k w v) (inv : LiveInv A w.sys) {c : TaskCall}
    (careful : Careful A w k c) (left : Leftovers H) (left' : Leftovers K) :
    Option.Rel (SameAnswer (WorldAlike Rel k)) (Flyos.taskCall (A.holding left) w k c)
      (Flyos.taskCall (B.holding left') v k c) :=
  alike.taskCall (answers.holding left left') (inv.holding left).tree (careful.holding left)

/-- Two worlds that are alike, the first of them with its references in the tree, stay so in one
call of each. -/
theorem turnStep_agree {w v u u' : TaskWorld KernelHeap} {t : Nat} {i j : Turn}
    (alike : WorldAlike SameLayout t w v) (inv : LiveInv kernelAllocator w.sys)
    (careful : Careful kernelAllocator w t i.call) (calls : i.call = j.call)
    (step : TurnStep t w i u) (step' : TurnStep t v j u') :
    i.answer = j.answer ∧ WorldAlike SameLayout t u u' ∧ LiveInv kernelAllocator u.sys := by
  have related := alike.anyLeft kernelAllocator_alike inv careful i.left j.left
  have ran' := step'.2
  rw [← calls] at ran'
  rw [step.2, ran'] at related
  exact ⟨related.of_some.1.symm, related.of_some.2,
    ((inv.holding i.left).taskCall step.1 (careful.holding i.left) step.2).ofHolding⟩

/-- **A new task does not depend on stale bytes**, when the words that its record holds on files
are null or lead to the same files, and there to the same positions.  `linked` and `same` are asked
of the block before the record is made, for `task_create` leaves these words alone.  The two records
lie at one address and have the same other fields; the same calls give the same answers and leave
the same tree; and a next call returns in both kernels or in neither.  The calls of the first task
unlink nothing that is referred to, and write without a gap: a freed node and the bytes of a gap are
stale as well. -/
theorem newTask_agrees (differ : FreeDiffers w.fs.heap k) (inv : LiveInv kernelAllocator w.sys)
    (linked : (foundWords low w.fs.heap).Linked w.fs)
    (same : (foundWords low w.fs.heap).redir.SameTargets (foundWords low k).redir)
    (created : w.taskCreate kernelAllocator low name next = (t, r, s))
    (created' : (w.setHeap k).taskCreate kernelAllocator low name next = (t', r', s'))
    (run : Run (Guarded (fun w i => Careful kernelAllocator w t i.call) (TurnStep t)) s is u)
    (run' : Run (TurnStep t') s' js u') (calls : is.map Turn.call = js.map Turn.call) :
    (t' = t ∧ r' = r) ∧ is.map Turn.answer = js.map Turn.answer ∧ SameTree u.fs u'.fs ∧
      ∀ c left left', Careful kernelAllocator u t c →
        (taskCall (kernelAllocator.holding left') u' t c).isSome =
          (taskCall (kernelAllocator.holding left) u t c).isSome := by
  obtain ⟨at_t, at_s⟩ := taskCreate_eq created
  obtain ⟨at_t', at_s'⟩ := taskCreate_eq created'
  obtain ⟨sameBlock, alike₁⟩ := (alike_setHeap differ.blocks).kmalloc kernelAllocator_alike taskSize
  obtain ⟨sameStack, alike₂⟩ := alike₁.kmalloc kernelAllocator_alike taskStackSize
  obtain rfl : t' = t := at_t'.trans (sameBlock.trans at_t.symm)
  have record : r' = r := by
    rw [TaskWorld.taskCreate, Prod.mk.injEq, Prod.mk.injEq] at created created'
    rw [← created.2.1, ← created'.2.1, sameStack]
    exact read_fillRecord ..
  have before : WorldAlike SameLayout t' w (w.setHeap k) :=
    ⟨⟨⟨⟨alike_setHeap differ.blocks, rfl⟩, ⟨rfl, rfl, fun _ => rfl, fun _ => rfl⟩⟩, rfl⟩, rfl⟩
  have start : WorldAlike SameLayout t' s s' := by
    rw [at_s, at_s']
    exact (before.setFs alike₂).addTask t' same
  have live : LiveInv kernelAllocator s.sys := by
    rw [at_s]
    exact inv.newTask linked.ok
  obtain ⟨answers, alike, live'⟩ := Run.agree
    (fun w v => WorldAlike SameLayout t' w v ∧ LiveInv kernelAllocator w.sys) Turn.call Turn.answer
    (fun rel calls step step' => turnStep_agree rel.1 rel.2 step.1 calls step.2 step') run run'
    calls ⟨start, live⟩
  have files := alike.sys.io.sys.fs
  refine ⟨⟨rfl, record⟩, answers, ⟨files.nodes, files.root, files.cwd, files.fileBytes⟩,
    fun c left left' careful => ?_⟩
  exact (alike.anyLeft kernelAllocator_alike live' careful left left').isSome_eq

end Kernel

/-! ## A heap with a root directory -/

open Heap

/-- Bytes of a free block. -/
theorem HeapInv.stale {h : HeapState} {l : List Seg} (inv : HeapInv h l) {b : Nat × Seg}
    (mem : b ∈ blocks heapStart l) {m : ByteMemory}
    (same : ∀ x, ¬ (b.1 + headerSize ≤ x ∧ x < b.1 + b.2.size) → m x = h.mem x) :
    HeapInv { h with mem := m } l := by
  refine ⟨inv.holds.congr fun x header => (same x fun inside => ?_).symm, inv.running, inv.nodup,
    inv.used⟩
  exact payload_not_header inv.holds.tidy.sized mem inside.1 inside.2 header

/-- The kernel heap after `heap_init`. -/
def clearHeap : KernelHeap := ⟨HeapState.init fun _ => 0, _, heapInit_inv _⟩

/-- The file system after `ramfs_init`, on that heap. -/
def rootOnHeap : Ramfs KernelHeap := ramfsInit kernelAllocator (Ramfs.empty clearHeap)

/-- The root takes the first block. -/
theorem rootOnHeap_spec :
    rootOnHeap.root = heapStart + headerSize ∧ rootOnHeap.cwd = heapStart + headerSize ∧
      rootOnHeap.nodes (heapStart + headerSize) = some (newNode .dir [47] 0 0) ∧
      HeapInv rootOnHeap.heap.1 [⟨160, false⟩, ⟨heapSize - 160, true⟩] := by
  have placed : place (need nodeSize) [⟨heapSize, true⟩] =
      some (0, [⟨160, false⟩, ⟨heapSize - 160, true⟩]) := by decide
  obtain ⟨got, -, inv⟩ := (heapInit_inv fun _ => 0).heapMalloc_some (by decide) placed
  have at_ : ((Ramfs.empty clearHeap).kmalloc kernelAllocator nodeSize).1 =
      heapStart + headerSize := got
  have eq : rootOnHeap =
      { ((Ramfs.empty clearHeap).kmalloc kernelAllocator nodeSize).2.setNode
          (heapStart + headerSize) (newNode .dir [47] 0 0) with
        root := heapStart + headerSize, cwd := heapStart + headerSize } := by
    rw [rootOnHeap, ramfsInit, nodeAlloc, at_, if_neg (by decide)]
    rfl
  have nodes := congrArg Ramfs.nodes eq
  refine ⟨by rw [eq], by rw [eq], ?_, by rw [eq]; exact inv⟩
  rw [nodes]
  dsimp only
  rw [Ramfs.setNode_nodes, Function.update_self]

theorem rootOnHeap_inv : ∃ depth, RamfsInv kernelAllocator rootOnHeap (fun _ => []) depth := by
  rcases ramfsInit_spec (A := kernelAllocator) clearHeap with inv | none
  · exact inv
  · have root := rootOnHeap_spec.1
    rw [rootOnHeap, none.root] at root
    exact absurd root (by decide)

/-- The block of the next record lies behind the root, in free memory. -/
theorem store_inFree {off x : Nat} (inside : off + 8 ≤ taskSize) (v : Nat)
    (outside : ¬ (heapStart + 160 + headerSize ≤ x ∧ x < heapStart + 160 + (heapSize - 160))) :
    rootOnHeap.heap.1.mem.store (heapStart + 160 + headerSize + off) 8 v x =
      rootOnHeap.heap.1.mem x :=
  ByteMemory.store_of_notMem _ _ (by
    simp only [headerSize, heapSize, heapPages, pageSize, taskSize] at *
    omega)

/-- The heap with another word at offset `off` of that block. -/
def wordLeft (off v : Nat) (inside : off + 8 ≤ taskSize) : KernelHeap :=
  ⟨{ rootOnHeap.heap.1 with
      mem := rootOnHeap.heap.1.mem.store (heapStart + 160 + headerSize + off) 8 v }, _,
    rootOnHeap_spec.2.2.2.stale (b := (heapStart + 160, ⟨heapSize - 160, true⟩)) (by simp)
      fun _ => store_inFree inside v⟩

/-- It differs in free memory only. -/
theorem wordLeft_differs {off v : Nat} (inside : off + 8 ≤ taskSize) :
    FreeDiffers rootOnHeap.heap (wordLeft off v inside) := by
  have mem : (heapStart + 160, ⟨heapSize - 160, true⟩) ∈
      blocks heapStart [⟨160, false⟩, ⟨heapSize - 160, true⟩] := by simp
  have inv := rootOnHeap_spec.2.2.2
  refine ⟨rfl, _, inv, inv.stale mem fun _ => store_inFree inside v, fun x other => ?_⟩
  exact ⟨_, mem, rfl, not_not.mp fun outside => other (store_inFree inside v outside)⟩

/-- A kernel whose tree is the root, with no task yet. -/
def rootWorld : TaskWorld KernelHeap where
  sys := ⟨⟨fileInit rootOnHeap, fun _ => .terminal⟩, fun _ => false⟩
  nextId := 1

theorem rootWorld_live : LiveInv kernelAllocator rootWorld.sys := by
  obtain ⟨depth, inv⟩ := rootOnHeap_inv
  obtain ⟨root, cwd, at_root, -⟩ := rootOnHeap_spec
  refine ⟨⟨_, depth, inv⟩, ?_, (fun used => by cases used), fun k => ?_⟩
  · exact ⟨_, by
      rw [← cwd] at at_root
      exact at_root⟩
  · exact .terminal _

/-! ## Calls -/

section Write

variable {w : TaskWorld H} {k : Nat} (buf : List UInt8)

/-- `SYS_WRITE` on the terminal. -/
theorem taskCall_write_terminal (terminal : (w.sys.io.redir k).stdoutNode = 0) :
    taskCall A w k (.fs (.file (.write buf))) = some (⟨buf.length, [], buf⟩, w) := by
  have ran : sysWrite A w.sys.io k buf = some (buf.length, w.sys.io) := by
    rw [sysWrite, if_neg (not_not.mpr terminal)]
  simp only [taskCall, fsAnswer, fsCall, fileCall, ran, terminal, Option.map_some,
    Option.bind_some, if_pos]

/-- `SYS_WRITE` on a directory: nothing is written, and nothing is shown. -/
theorem taskCall_write_dir (redirected : (w.sys.io.redir k).stdoutNode ≠ 0) {n : Node}
    (at_n : w.fs.nodes (w.sys.io.redir k).stdoutNode = some n) (dir : n.type = .dir) :
    ∃ u, taskCall A w k (.fs (.file (.write buf))) = some (⟨buf.length, [], []⟩, u) := by
  have wrote : ramfsWrite A w.fs (w.sys.io.redir k).stdoutNode buf (w.sys.io.redir k).stdoutPos =
      some (-1, w.fs) := by
    rw [ramfsWrite, if_neg redirected, at_n, Option.bind_some, if_pos (by rw [dir]; decide)]
  obtain ⟨u, ran⟩ : ∃ u, sysWrite A w.sys.io k buf = some (buf.length, u) := by
    rw [sysWrite, if_pos redirected, wrote]
    exact ⟨_, rfl⟩
  simp only [taskCall, fsAnswer, fsCall, fileCall, ran, if_neg redirected, Option.map_some,
    Option.bind_some]
  exact ⟨_, rfl⟩

end Write

theorem kmalloc_nodes (s : Ramfs H) (n : Nat) : (s.kmalloc A n).2.nodes = s.nodes := rfl

/-- A new task is alive, with the redirections that its record held. -/
theorem taskCreate_task {w s : TaskWorld KernelHeap} {low : ByteMemory} {name next t : Nat}
    {r : NewRecord} (created : w.taskCreate kernelAllocator low name next = (t, r, s)) :
    s.sys.alive t = true ∧ s.sys.io.redir t = (foundWords low w.fs.heap).redir ∧
      s.fs.nodes = w.fs.nodes := by
  obtain ⟨-, eq⟩ := taskCreate_eq created
  rw [eq]
  refine ⟨?_, ?_, ?_⟩
  · rw [TaskWorld.addTask_alive, Function.update_self]
  · rw [TaskWorld.addTask_redir, Function.update_self]
  · rw [TaskWorld.addTask_fs, TaskWorld.setFs_fs, kmalloc_nodes, kmalloc_nodes]

/-- `task_create` returns. -/
theorem taskCreate_ran (w : TaskWorld H) (low : ByteMemory) (name next : Nat) :
    ∃ t r s, w.taskCreate A low name next = (t, r, s) := ⟨_, _, _, rfl⟩

/-- The bytes that the blocks of the heap hold. -/
def ownBytes : Leftovers KernelHeap := ⟨kernelAllocator.junk, kernelAllocator.junk_length⟩

/-- **A new task sees what its block held**: in two states of the kernel that differ in one word
of free memory, `SYS_WRITE` of the task that is created shows its byte in one, and nothing in the
other, where the word at `stdout_node` is the address of the root.  A node that was unlinked leaves
such a block, for its `parent` lies at the same offset. -/
theorem newTask_sees_leftovers :
    ∃ (w : TaskWorld KernelHeap) (k : KernelHeap) (t t' : Nat) (r r' : NewRecord)
      (s s' u u' : TaskWorld KernelHeap) (i j : Turn),
      FreeDiffers w.fs.heap k ∧ LiveInv kernelAllocator w.sys ∧
        w.taskCreate kernelAllocator (fun _ => 0) 0 0 = (t, r, s) ∧
        (w.setHeap k).taskCreate kernelAllocator (fun _ => 0) 0 0 = (t', r', s') ∧
        Run (TurnStep t) s [i] u ∧ Run (TurnStep t') s' [j] u' ∧
        i.call = .fs (.file (.write [72])) ∧ j.call = .fs (.file (.write [72])) ∧
        i.answer = ⟨1, [], [72]⟩ ∧ j.answer = ⟨1, [], []⟩ := by
  obtain ⟨t, r, s, created⟩ := taskCreate_ran (A := kernelAllocator) rootWorld (fun _ => 0) 0 0
  obtain ⟨t', r', s', created'⟩ := taskCreate_ran (A := kernelAllocator)
    (rootWorld.setHeap (wordLeft 96 (heapStart + headerSize) (by decide))) (fun _ => 0) 0 0
  obtain ⟨alive, redir, -⟩ := taskCreate_task created
  obtain ⟨alive', redir', nodes⟩ := taskCreate_task created'
  have terminal : (s.sys.io.redir t).stdoutNode = 0 := by
    rw [redir]
    decide +kernel
  have toRoot : (s'.sys.io.redir t').stdoutNode = heapStart + headerSize := by
    rw [redir']
    decide +kernel
  obtain ⟨u', ran'⟩ := taskCall_write_dir (A := kernelAllocator) (w := s') (k := t') [72]
    (by rw [toRoot]; decide)
    (by rw [toRoot, nodes]; exact rootOnHeap_spec.2.2.1) rfl
  exact ⟨rootWorld, _, t, t', r, r', s, s', s, u', ⟨_, ownBytes, _⟩, ⟨_, ownBytes, _⟩,
    wordLeft_differs _, rootWorld_live, created, created',
    .single ⟨alive, taskCall_write_terminal [72] terminal⟩, .single ⟨alive', ran'⟩, rfl, rfl, rfl,
    rfl⟩

/-- A call on the volume returns. -/
theorem taskCall_fat (w : TaskWorld H) (k : Nat) (reply : Reply) :
    ∃ a u, taskCall A w k (.fat reply) = some (a, u) := ⟨_, _, rfl⟩

/-- In kernels that differ in a word of the record that `task_create` assigns, the task writes to
the terminal and reads the volume. -/
theorem newTask_agrees_terminal :
    ∃ (t t' : Nat) (r r' : NewRecord) (s s' u u' : TaskWorld KernelHeap) (is js : List Turn),
      rootWorld.taskCreate kernelAllocator (fun _ => 0) 0 0 = (t, r, s) ∧
      (rootWorld.setHeap (wordLeft 0 7 (by decide))).taskCreate kernelAllocator (fun _ => 0) 0 0 =
        (t', r', s') ∧
      Run (TurnStep t) s is u ∧ Run (TurnStep t') s' js u' ∧
      is.map Turn.call = [.fs (.file (.write [72])), .fat (.value 5)] ∧
      (t' = t ∧ r' = r) ∧ is.map Turn.answer = js.map Turn.answer ∧ SameTree u.fs u'.fs := by
  obtain ⟨t, r, s, created⟩ := taskCreate_ran (A := kernelAllocator) rootWorld (fun _ => 0) 0 0
  obtain ⟨t', r', s', created'⟩ := taskCreate_ran (A := kernelAllocator)
    (rootWorld.setHeap (wordLeft 0 7 (by decide))) (fun _ => 0) 0 0
  have linked : (foundWords (fun _ => 0) rootWorld.fs.heap).Linked rootWorld.fs :=
    ⟨fun ne => absurd (by decide +kernel) ne, fun ne => absurd (by decide +kernel) ne⟩
  have same : (foundWords (fun _ => 0) rootWorld.fs.heap).redir.SameTargets
      (foundWords (fun _ => 0) (wordLeft 0 7 (by decide))).redir :=
    ⟨by decide +kernel, by decide +kernel, fun ne => absurd (by decide +kernel) ne,
      fun ne => absurd (by decide +kernel) ne⟩
  obtain ⟨alive, redir, -⟩ := taskCreate_task created
  obtain ⟨alive', redir', -⟩ := taskCreate_task created'
  have terminal : (s.sys.io.redir t).stdoutNode = 0 := by
    rw [redir]
    decide +kernel
  have terminal' : (s'.sys.io.redir t').stdoutNode = 0 := by
    rw [redir']
    decide +kernel
  obtain ⟨a, u, ran⟩ := taskCall_fat (A := kernelAllocator.holding ownBytes) s t (.value 5)
  obtain ⟨a', u', ran'⟩ := taskCall_fat (A := kernelAllocator.holding ownBytes) s' t' (.value 5)
  have write : TurnStep t s ⟨.fs (.file (.write [72])), ownBytes, ⟨1, [], [72]⟩⟩ s :=
    ⟨alive, taskCall_write_terminal [72] terminal⟩
  have write' : TurnStep t' s' ⟨.fs (.file (.write [72])), ownBytes, ⟨1, [], [72]⟩⟩ s' :=
    ⟨alive', taskCall_write_terminal [72] terminal'⟩
  have run : Run (Guarded (fun w i => Careful kernelAllocator w t i.call) (TurnStep t)) s
      [⟨.fs (.file (.write [72])), ownBytes, ⟨1, [], [72]⟩⟩, ⟨.fat (.value 5), ownBytes, a⟩] u := by
    refine .cons ⟨⟨trivial, fun f here => ?_⟩, write⟩ (.single ⟨trivial, alive, ran⟩)
    cases here
    exact fun redirected => absurd terminal redirected
  have run' : Run (TurnStep t') s' [⟨.fs (.file (.write [72])), ownBytes, ⟨1, [], [72]⟩⟩,
      ⟨.fat (.value 5), ownBytes, a'⟩] u' := .cons write' (.single ⟨alive', ran'⟩)
  obtain ⟨record, answers, tree, -⟩ := newTask_agrees (wordLeft_differs (by decide)) rootWorld_live
    linked same created created' run run' rfl
  exact ⟨t, t', r, r', s, s', u, u', _, _, created, created', .cons write (.single ⟨alive, ran⟩),
    run', rfl, record, answers, tree⟩

end Flyos
