import Flyos.Fs.RamfsRun
import Flyos.Fs.RedirectSpec
import Flyos.Lib.Runs

/-!
# References to nodes

The current directory, the descriptors and the redirections of tasks are pointers to nodes,
and nothing counts them: `ramfs_unlink_node` frees a node whatever points to it.  The redirections of
a task made by `task_create` are what its record held before (`FileWords`).

`references_linked` says when all of them stay in the tree: in every run of calls of any
tasks, forks and exits included, whose calls unlink no node that one of them points to, from tasks
that start on the terminal or on files of the tree.
-/

namespace Flyos

variable {H : Type*} {A : Allocator H} {kids : Nat → List Nat} {depth : Nat → Nat}

/-! ## The calls -/

/-- The files of the tasks, and the tasks that are not dead. -/
structure TaskSystem (H : Type*) where
  io : TaskFiles H
  alive : Nat → Bool

/-- The calls of tasks on the file system, `SYS_FORK` and `SYS_EXIT`. -/
inductive FsCall where
  | file (c : FileCall)
  | unlink (path : CString)
  | mkdir (path : CString)
  | chdir (path : CString)
  | opendir (path : CString)
  | readdir (fd : Int) (max : Nat)
  | fork (child : Nat)
  | exit

/-- **One call** of task `k`.  A fork copies the redirections, to a record that no live task
has. -/
def fsCall (A : Allocator H) (s : TaskSystem H) (k : Nat) : FsCall → Option (TaskSystem H)
  | .file c => (fileCall A s.io k c).map fun r => { s with io := r.1 }
  | .unlink path => (sysUnlink A s.io.sys.fs path).map fun r => { s with io := s.io.setFs r.2 }
  | .mkdir path => (sysMkdir A s.io.sys.fs path).map fun r => { s with io := s.io.setFs r.2 }
  | .chdir path => (sysChdir s.io.sys.fs path).map fun r => { s with io := s.io.setFs r.2 }
  | .opendir path =>
      (dirOpen s.io.sys path).map fun r => { s with io := { s.io with sys := r.2 } }
  | .readdir fd max =>
      (dirRead s.io.sys fd max).map fun r => { s with io := { s.io with sys := r.2.2 } }
  | .fork child =>
      if s.alive child then none
      else some ⟨s.io.setRedir child (s.io.redir k), Function.update s.alive child true⟩
  | .exit => some { s with alive := Function.update s.alive k false }

/-- A step: a call of a task that is not dead. -/
def FsStep (A : Allocator H) (s : TaskSystem H) (c : Nat × FsCall) (t : TaskSystem H) : Prop :=
  s.alive c.1 = true ∧ fsCall A s c.1 c.2 = some t

/-! ## References -/

/-- The node is the current directory, that of a descriptor in use, or what a task that is not
dead is redirected to. -/
inductive Refers (s : TaskSystem H) : Nat → Prop
  | cwd : Refers s s.io.sys.fs.cwd
  | fd {i : Nat} : (s.io.sys.fdTable i).used = true → Refers s (s.io.sys.fdTable i).node
  | stdin {k : Nat} : s.alive k = true → (s.io.redir k).stdinNode ≠ 0 →
      Refers s (s.io.redir k).stdinNode
  | stdout {k : Nat} : s.alive k = true → (s.io.redir k).stdoutNode ≠ 0 →
      Refers s (s.io.redir k).stdoutNode

/-- **No reference dangles**: all lead to nodes of the tree. -/
def NoneDangles (s : TaskSystem H) : Prop := ∀ p, Refers s p → InTree s.io.sys.fs p

/-- The call unlinks no node that is referred to. -/
def SparesReferences (s : TaskSystem H) : FsCall → Prop
  | .unlink path => ∀ c, ramfsLookup s.io.sys.fs path = some c → Removable s.io.sys.fs c →
      ¬ Refers s c
  | _ => True

/-! ## Dead tasks -/

/-- The redirections of a task are all that its calls look at and change. -/
theorem fileCall_redir {s t : TaskFiles H} {k : Nat} {c : FileCall} {es : List FileEffect}
    (ran : fileCall A s k c = some (t, es)) :
    t.redir = Function.update s.redir k (t.redir k) ∧
      ∀ g : Nat → Redir, g k = s.redir k → fileCall A { s with redir := g } k c =
        some ({ t with redir := Function.update g k (t.redir k) }, es) := by
  have kept : ∀ g : Nat → Redir, g k = s.redir k → Function.update g k (s.redir k) = g :=
    fun g same => by rw [← same, Function.update_eq_self]
  cases c with
  | «open» name =>
      obtain ⟨r, one, rest⟩ := Option.map_eq_some_iff.mp ran
      cases rest
      exact ⟨(kept _ rfl).symm, fun g same => by simp [fileCall, one, kept g same]⟩
  | close fd =>
      cases ran
      exact ⟨(kept _ rfl).symm, fun g same => by simp [fileCall, kept g same]⟩
  | fread fd n =>
      obtain ⟨r, one, rest⟩ := Option.map_eq_some_iff.mp ran
      cases rest
      exact ⟨(kept _ rfl).symm, fun g same => by simp [fileCall, one, kept g same]⟩
  | fwrite fd buf =>
      obtain ⟨r, one, rest⟩ := Option.map_eq_some_iff.mp ran
      cases rest
      exact ⟨(kept _ rfl).symm, fun g same => by simp [fileCall, one, kept g same]⟩
  | write buf =>
      obtain ⟨r, one, rest⟩ := Option.map_eq_some_iff.mp ran
      cases rest
      rw [sysWrite] at one
      by_cases terminal : (s.redir k).stdoutNode = 0
      · rw [if_neg (not_not.mpr terminal)] at one
        cases one
        exact ⟨(kept _ rfl).symm, fun g same => by
          simp [fileCall, sysWrite, same, terminal, kept g same]⟩
      rw [if_pos terminal] at one
      obtain ⟨w, wrote, rest⟩ := Option.map_eq_some_iff.mp one
      cases rest
      exact ⟨by simp, fun g same => by
        simp [fileCall, sysWrite, same, terminal, wrote, TaskFiles.setFs, TaskFiles.setRedir]⟩
  | read n typed =>
      obtain ⟨r, one, rest⟩ := Option.map_eq_some_iff.mp ran
      cases rest
      rw [sysRead] at one
      by_cases keyboard : (s.redir k).stdinNode = 0
      · rw [if_neg (not_not.mpr keyboard)] at one
        cases one
        exact ⟨(kept _ rfl).symm, fun g same => by
          simp [fileCall, sysRead, same, keyboard, kept g same]⟩
      rw [if_pos keyboard] at one
      obtain ⟨w, read, rest⟩ := Option.map_eq_some_iff.mp one
      by_cases moved : 0 < w.1
      · rw [if_pos moved] at rest
        cases rest
        exact ⟨by simp, fun g same => by
          simp [fileCall, sysRead, same, keyboard, read, moved, TaskFiles.setRedir]⟩
      · rw [if_neg moved] at rest
        cases rest
        exact ⟨(kept _ rfl).symm, fun g same => by
          simp [fileCall, sysRead, same, keyboard, read, moved, kept g same]⟩
  | redir which name =>
      obtain ⟨r, one, rest⟩ := Option.map_eq_some_iff.mp ran
      cases rest
      rw [sysRedir] at one
      obtain ⟨⟨n, u⟩, opened, rest⟩ := Option.bind_eq_some_iff.mp one
      dsimp only at rest
      by_cases null : n = 0
      · rw [if_pos null] at rest
        cases rest
        exact ⟨(kept _ rfl).symm, fun g same => by
          simp [fileCall, sysRedir, opened, null, kept g same]⟩
      rw [if_neg null] at rest
      by_cases stdin : which = 0
      · rw [if_pos stdin] at rest
        cases rest
        exact ⟨by simp, fun g same => by
          simp [fileCall, sysRedir, opened, null, stdin, same, TaskFiles.setRedir]⟩
      rw [if_neg stdin] at rest
      obtain ⟨node, at_n, done⟩ := Option.map_eq_some_iff.mp rest
      cases done
      exact ⟨by simp, fun g same => by
        simp [fileCall, sysRedir, opened, null, stdin, same, at_n, TaskFiles.setRedir,
          TaskFiles.setFs]⟩

/-- The files of the tasks that are not dead. -/
def TaskSystem.live (s : TaskSystem H) : TaskFiles H :=
  { s.io with redir := fun k => if s.alive k then s.io.redir k else .terminal }

/-- **What holds between calls**: no live reference dangles. -/
def LiveInv (A : Allocator H) (s : TaskSystem H) : Prop := IoInv A s.live

section Live

variable {s t : TaskSystem H} {k : Nat}

/-- The redirections of a live task. -/
theorem TaskSystem.live_redir (alive : s.alive k = true) : s.live.redir k = s.io.redir k :=
  if_pos alive

/-- A call on files. -/
theorem LiveInv.file (inv : LiveInv A s) (alive : s.alive k = true) {c : FileCall}
    (ran : fsCall A s k (.file c) = some t) : LiveInv A t := by
  obtain ⟨⟨io, es⟩, one, rfl⟩ := Option.map_eq_some_iff.mp ran
  obtain ⟨only, other⟩ := fileCall_redir one
  have kept := (fileCall_traced inv (other s.live.redir (TaskSystem.live_redir alive))).1
  have same : Function.update s.live.redir k (io.redir k) =
      (TaskSystem.live { s with io }).redir := by
    funext j
    show _ = if s.alive j then io.redir j else .terminal
    by_cases here : j = k
    · subst here
      rw [Function.update_self, if_pos alive]
    · rw [Function.update_of_ne here, only, Function.update_of_ne here]
      rfl
  rw [same] at kept
  exact kept

/-- The terminal is no reference. -/
theorem Redir.Ok.terminal (fs : Ramfs H) : Redir.terminal.Ok fs :=
  ⟨fun ne => absurd rfl ne, fun ne => absurd rfl ne, Nat.two_pow_pos 64⟩

/-- A call that keeps the nodes, and the redirections of live tasks. -/
theorem LiveInv.keep (inv : LiveInv A s) (keeps : KeepsNodes A s.io.sys.fs t.io.sys.fs)
    (fds : ∀ i, t.io.sys.fdTable i = s.io.sys.fdTable i ∨
      ((t.io.sys.fdTable i).used = true → (t.io.sys.fdTable i).Ok t.io.sys.fs))
    (redirs : ∀ j, t.live.redir j = .terminal ∨ ∃ i, t.live.redir j = s.live.redir i) :
    LiveInv A t := by
  refine IoInv.keep inv keeps fds fun j => .inr ?_
  rcases redirs j with same | ⟨i, same⟩
  · rw [same]
    exact .terminal _
  · rw [same]
    exact (inv.redirs i).keep keeps

/-- `SYS_MKDIR` keeps the nodes. -/
theorem sysMkdir_keeps {fs u : Ramfs H} (inv : RamfsInv A fs kids depth) (here : HasCwd fs)
    {path : CString} {r : Int} (ran : sysMkdir A fs path = some (r, u)) : KeepsNodes A fs u := by
  obtain ⟨parent, base, c, v, split, made, tree, kept, -, -, -, cwd⟩ :=
    createAt_spec inv .dir (show Resolvable fs path from .inr here)
  rw [sysMkdir_eq, split, Option.bind_some, ramfsMkdir, made] at ran
  cases ran
  refine ⟨tree, fun at_p => ?_, cwd⟩
  obtain ⟨n', at_p', same⟩ := kept at_p
  exact ⟨n', at_p', by rw [same]⟩

/-- `SYS_CHDIR` moves to a directory. -/
theorem LiveInv.chdir (inv : LiveInv A s) {path : CString}
    (ran : fsCall A s k (.chdir path) = some t) : LiveInv A t := by
  obtain ⟨kids, depth, tree⟩ := inv.tree
  obtain ⟨⟨r, fs⟩, one, rfl⟩ := Option.map_eq_some_iff.mp ran
  have walk : Resolvable s.io.sys.fs path := .inr inv.cwd
  obtain ⟨r', fs', one', moved⟩ := sysChdir_spec tree walk
  obtain ⟨rfl, rfl⟩ := Prod.mk.inj (Option.some.inj (one.symm.trans one'))
  rcases moved with rfl | ⟨n, d, at_n, -, rfl⟩
  · exact inv
  · exact ⟨⟨kids, depth, tree.setCwd n⟩, ⟨d, at_n⟩, inv.fds, fun j =>
      ⟨(inv.redirs j).stdin, (inv.redirs j).stdout, (inv.redirs j).pos⟩⟩

/-- `dir_open` takes a descriptor for a directory. -/
theorem LiveInv.opendir (inv : LiveInv A s) {path : CString}
    (ran : fsCall A s k (.opendir path) = some t) : LiveInv A t := by
  obtain ⟨kids, depth, tree⟩ := inv.tree
  obtain ⟨⟨r, sys⟩, one, rfl⟩ := Option.map_eq_some_iff.mp ran
  rcases dirOpen_cases one with ⟨-, same⟩ | ⟨i, n, d, -, -, at_n, dir, rfl⟩
  · subst same
    exact inv
  · refine inv.keep (.of_same tree ⟨rfl, rfl, rfl, rfl⟩) (fun j => ?_) fun j => .inr ⟨j, rfl⟩
    exact (update_cases s.io.sys.fdTable i _ j).imp id fun here _ => by
      rw [FileSys.setFd_fdTable, here]
      exact ⟨⟨d, at_n, dir⟩, fun file => by cases file⟩

/-- `dir_read` moves a descriptor. -/
theorem LiveInv.readdir (inv : LiveInv A s) {fd : Int} {max : Nat}
    (ran : fsCall A s k (.readdir fd max) = some t) : LiveInv A t := by
  obtain ⟨kids, depth, tree⟩ := inv.tree
  obtain ⟨⟨r, e, sys⟩, one, rfl⟩ := Option.map_eq_some_iff.mp ran
  rw [dirRead] at one
  cases taken : s.io.sys.fd? fd with
  | none =>
      rw [taken] at one
      cases one
      exact inv
  | some i =>
      rw [taken] at one
      dsimp only at one
      obtain ⟨-, -, -, used⟩ := FileSys.fd?_eq_some.mp taken
      by_cases file : (s.io.sys.fdTable i).isDir = false
      · rw [if_pos file] at one
        cases one
        exact inv
      rw [if_neg file] at one
      obtain ⟨d, -, read⟩ := Option.bind_eq_some_iff.mp one
      obtain ⟨found, -, rest⟩ := Option.map_eq_some_iff.mp read
      cases found with
      | none =>
          cases rest
          exact inv
      | some n =>
          cases rest
          refine inv.keep (.of_same tree ⟨rfl, rfl, rfl, rfl⟩) (fun j => ?_) fun j => .inr ⟨j, rfl⟩
          exact (update_cases s.io.sys.fdTable i _ j).imp id fun here _ => by
            rw [FileSys.setFd_fdTable, here]
            exact ⟨(inv.fds used).1, fun plain => absurd plain file⟩

/-- `SYS_UNLINK` of a node that nothing refers to. -/
theorem LiveInv.unlink (inv : LiveInv A s) {path : CString}
    (spares : SparesReferences s (.unlink path)) (ran : fsCall A s k (.unlink path) = some t) :
    LiveInv A t := by
  obtain ⟨kids, depth, tree⟩ := inv.tree
  obtain ⟨⟨r, fs⟩, one, rfl⟩ := Option.map_eq_some_iff.mp ran
  have walk : Resolvable s.io.sys.fs path := .inr inv.cwd
  obtain ⟨r', fs', one', left⟩ := sysUnlink_spec tree walk
  obtain ⟨rfl, rfl⟩ := Prod.mk.inj (Option.some.inj (one.symm.trans one'))
  rcases left with rfl | ⟨c, m, kids', depth', looked, at_c, below, leaf, rest, tree'⟩
  · exact inv
  have free : ¬ Refers s c := spares c looked ⟨below, m, at_c, fun dir => by
    by_contra some_child
    exact leaf ⟨dir, some_child⟩⟩
  -- any other node is still there
  have keep : ∀ {type p}, OnNode s.io.sys.fs type p → p ≠ c → OnNode fs type p := by
    rintro type p ⟨n, at_p, rfl⟩ other
    obtain ⟨n', at_p', same⟩ := rest.kept other at_p
    exact ⟨n', at_p', by rw [same]⟩
  refine ⟨⟨kids', depth', tree'⟩, ?_, fun {i} used => ?_, fun j => ?_⟩
  · obtain ⟨n, at_cwd⟩ := inv.cwd
    obtain ⟨n', at_cwd', -⟩ := rest.kept (fun eq => free (eq ▸ .cwd)) at_cwd
    exact ⟨n', (congrArg fs.nodes rest.cwd).trans at_cwd'⟩
  · exact ⟨keep (inv.fds used).1 fun eq => free (eq ▸ .fd used), (inv.fds used).2⟩
  · have ok := inv.redirs j
    by_cases alive : s.alive j = true
    · have live := TaskSystem.live_redir alive
      refine ⟨fun redirected => keep (ok.stdin redirected) fun eq => ?_,
        fun redirected => keep (ok.stdout redirected) fun eq => ?_, ok.pos⟩
      · rw [show (TaskSystem.live { s with io := s.io.setFs fs }).redir j = s.io.redir j from
          live] at redirected eq
        exact free (eq ▸ .stdin alive redirected)
      · rw [show (TaskSystem.live { s with io := s.io.setFs fs }).redir j = s.io.redir j from
          live] at redirected eq
        exact free (eq ▸ .stdout alive redirected)
    · have dead : (TaskSystem.live { s with io := s.io.setFs fs }).redir j = .terminal :=
        if_neg alive
      rw [dead]
      exact .terminal fs

/-- **One call** that spares references keeps them all in the tree. -/
theorem fsStep_live (inv : LiveInv A s) {c : FsCall} (spares : SparesReferences s c)
    (step : FsStep A s (k, c) t) : LiveInv A t := by
  obtain ⟨alive, ran⟩ := step
  obtain ⟨kids, depth, tree⟩ := inv.tree
  cases c with
  | file c => exact inv.file alive ran
  | unlink path => exact inv.unlink spares ran
  | mkdir path =>
      obtain ⟨⟨r, fs⟩, one, rfl⟩ := Option.map_eq_some_iff.mp ran
      exact inv.keep (sysMkdir_keeps tree inv.cwd one) (fun _ => .inl rfl) fun j => .inr ⟨j, rfl⟩
  | chdir path => exact inv.chdir ran
  | opendir path => exact inv.opendir ran
  | readdir fd max => exact inv.readdir ran
  | fork child =>
      rw [fsCall] at ran
      by_cases taken : s.alive child = true
      · rw [if_pos taken] at ran
        cases ran
      rw [if_neg taken] at ran
      cases ran
      refine inv.keep (.of_same tree ⟨rfl, rfl, rfl, rfl⟩) (fun _ => .inl rfl) fun j => ?_
      by_cases here : j = child
      · subst here
        refine .inr ⟨k, ?_⟩
        rw [TaskSystem.live_redir alive]
        simp [TaskSystem.live]
      · exact .inr ⟨j, by simp [TaskSystem.live, here]⟩
  | exit =>
      cases ran
      refine inv.keep (.of_same tree ⟨rfl, rfl, rfl, rfl⟩) (fun _ => .inl rfl) fun j => ?_
      by_cases here : j = k
      · subst here
        exact .inl (by simp [TaskSystem.live])
      · exact .inr ⟨j, by simp [TaskSystem.live, here]⟩

/-- References between calls lead to nodes of the tree. -/
theorem LiveInv.noneDangles (inv : LiveInv A s) : NoneDangles s := by
  obtain ⟨kids, depth, tree⟩ := inv.tree
  have linked : ∀ {type p}, OnNode s.io.sys.fs type p → InTree s.io.sys.fs p := by
    rintro type p ⟨n, at_p, -⟩
    exact tree.links.inTree_iff.mpr ⟨n, at_p⟩
  intro p refers
  cases refers with
  | cwd => exact tree.links.inTree_iff.mpr inv.cwd
  | fd used => exact linked (inv.fds used).1
  | @stdin k alive redirected =>
      have ok := inv.redirs k
      rw [TaskSystem.live_redir alive] at ok
      exact linked (ok.stdin redirected)
  | @stdout k alive redirected =>
      have ok := inv.redirs k
      rw [TaskSystem.live_redir alive] at ok
      exact linked (ok.stdout redirected)

end Live

/-! ## Runs from boot -/

/-- What lies in the fields on files of a new record.  `kmalloc` does not clear its blocks, and
`task_create` does not write these fields. -/
structure FileWords where
  stdinNode : UInt64
  stdoutNode : UInt64
  stdinPos : UInt64
  stdoutPos : UInt64

/-- The redirections that they make. -/
def FileWords.redir (w : FileWords) : Redir :=
  ⟨w.stdinNode.toNat, w.stdoutNode.toNat, w.stdinPos.toNat, w.stdoutPos.toNat⟩

/-- They hold null, or files of the tree. -/
structure FileWords.Linked (fs : Ramfs H) (w : FileWords) : Prop where
  stdin : w.stdinNode ≠ 0 → OnNode fs .file w.stdinNode.toNat
  stdout : w.stdoutNode ≠ 0 → OnNode fs .file w.stdoutNode.toNat

/-- Words that are linked are redirections to files. -/
theorem FileWords.Linked.ok {fs : Ramfs H} {w : FileWords} (linked : w.Linked fs) :
    w.redir.Ok fs :=
  ⟨fun ne => linked.stdin fun null => ne (congrArg UInt64.toNat null),
    fun ne => linked.stdout fun null => ne (congrArg UInt64.toNat null), UInt64.toNat_lt _⟩

/-- The system at boot: a tree, no descriptor in use, and tasks whose records hold on files what
`task_create` found in them. -/
def bootSystem (fs : Ramfs H) (alive : Nat → Bool) (found : Nat → FileWords) : TaskSystem H :=
  ⟨⟨fileInit fs, fun k => (found k).redir⟩, alive⟩

/-- **No reference dangles while calls spare them**: in every run of calls of any tasks, in any
order, from boot with any tree.  Two things are asked for, since the code checks neither: that the
records of the first tasks were handed out with null or with files of the tree in their fields, and
that no call unlinks what is referred to.  A fork copies redirections that are linked, so it needs
nothing. -/
theorem references_linked {fs : Ramfs H} (tree : RamfsInv A fs kids depth) (here : HasCwd fs)
    {alive : Nat → Bool} {found : Nat → FileWords}
    (linked : ∀ k, alive k = true → (found k).Linked fs) {cs : List (Nat × FsCall)}
    {s : TaskSystem H}
    (run : Run (Guarded (fun s c => SparesReferences s c.2) (FsStep A))
      (bootSystem fs alive found) cs s) : NoneDangles s := by
  have start : LiveInv A (bootSystem fs alive found) := by
    refine ⟨⟨kids, depth, tree⟩, here, (fun used => by cases used), fun k => ?_⟩
    by_cases lives : alive k = true
    · have same : (bootSystem fs alive found).live.redir k = (found k).redir := if_pos lives
      rw [same]
      exact (linked k lives).ok
    · have none : (bootSystem fs alive found).live.redir k = .terminal := if_neg lives
      rw [none]
      exact .terminal _
  exact (run.invariant (LiveInv A) (fun inv step => fsStep_live inv step.1 step.2) start).noneDangles

/-- One task in an empty tree, in a record with these words. -/
def taskWith (w : FileWords) : TaskSystem CountingHeap :=
  bootSystem freshRoot (fun k => k == 1) fun _ => w

/-- One task in an empty tree, in a record that was clear. -/
def oneTask : TaskSystem CountingHeap := taskWith ⟨0, 0, 0, 0⟩

/-- The task opens a file, closes it and unlinks it. -/
theorem references_linked_closed : ∃ s, Run (Guarded (fun s c => SparesReferences s c.2)
    (FsStep countingAllocator)) oneTask
      [(1, .file (.open [97])), (1, .file (.close 3)), (1, .unlink [97])] s ∧ NoneDangles s := by
  obtain ⟨depth, tree⟩ := freshRoot_inv
  obtain ⟨opened, one, to₁⟩ : ∃ t, fsCall countingAllocator oneTask 1 (.file (.open [97])) =
    some t ∧ t = _ := ⟨_, rfl, rfl⟩
  obtain ⟨closed, two, to₂⟩ : ∃ t, fsCall countingAllocator opened 1 (.file (.close 3)) =
    some t ∧ t = { opened with io := { opened.io with sys := opened.io.sys.setFd 3 .closed } } := by
    subst to₁
    exact ⟨_, rfl, rfl⟩
  have spares : SparesReferences closed (.unlink [97]) := by
    intro c looked _ refers
    have table : closed.io.sys.fdTable = fun _ => .closed := by
      subst to₂ to₁
      exact Function.update_idem .. |>.trans (Function.update_eq_self ..)
    subst to₂ to₁
    obtain rfl : 2 = c := Option.some.inj looked
    generalize same : 2 = p at refers
    cases refers with
    | cwd => cases same
    | fd used =>
        rw [table] at used
        cases used
    | stdin _ redirected => exact absurd rfl redirected
    | stdout _ redirected => exact absurd rfl redirected
  obtain ⟨unlinked, three⟩ : ∃ t, fsCall countingAllocator closed 1 (.unlink [97]) = some t := by
    subst to₂ to₁
    exact ⟨_, rfl⟩
  have run : Run (Guarded (fun s c => SparesReferences s c.2) (FsStep countingAllocator)) oneTask
      [(1, .file (.open [97])), (1, .file (.close 3)), (1, .unlink [97])] unlinked := by
    have alive : opened.alive 1 = true ∧ closed.alive 1 = true := by
      subst to₂ to₁
      exact ⟨rfl, rfl⟩
    exact .cons ⟨trivial, rfl, one⟩ (.cons ⟨trivial, alive.1, two⟩
      (.single ⟨spares, alive.2, three⟩))
  exact ⟨unlinked, run, references_linked tree ⟨_, rfl⟩
    (fun _ _ => ⟨fun ne => absurd rfl ne, fun ne => absurd rfl ne⟩) run⟩

/-- The root is alone in the tree. -/
theorem inTree_root {s : Ramfs H} (root : s.root = 1)
    (at_root : s.nodes 1 = some (newNode .dir [47] 0 0)) {p : Nat} (inside : InTree s p) : p = 1 := by
  induction inside with
  | root => exact root
  | @child p c n l _ at_p chain mem ih =>
      rw [ih, at_root] at at_p
      cases at_p
      cases l with
      | nil => cases mem
      | cons x l => exact absurd rfl chain.2.1

/-- **A descriptor dangles** when the file it is on is unlinked; and a redirection dangles from the
start where the record of the task was handed out with a word in `stdout_node`. -/
theorem references_dangle :
    (¬ ∀ cs s, Run (FsStep countingAllocator) oneTask cs s → NoneDangles s) ∧
      ¬ NoneDangles (taskWith ⟨0, 99, 0, 0⟩) := by
  refine ⟨fun all => ?_, fun none => ?_⟩
  · obtain ⟨opened, one, to₁⟩ : ∃ t, fsCall countingAllocator oneTask 1 (.file (.open [97])) =
      some t ∧ t = _ := ⟨_, rfl, rfl⟩
    obtain ⟨unlinked, two, alive, desc, root, at_root⟩ : ∃ t,
        fsCall countingAllocator opened 1 (.unlink [97]) = some t ∧ opened.alive 1 = true ∧
          t.io.sys.fdTable 3 = ⟨true, 2, 0, false⟩ ∧ t.io.sys.fs.root = 1 ∧
          t.io.sys.fs.nodes 1 = some (newNode .dir [47] 0 0) := by
      subst to₁
      exact ⟨_, rfl, rfl, rfl, rfl, rfl⟩
    have refers : Refers unlinked 2 := by
      have refers : Refers unlinked (unlinked.io.sys.fdTable 3).node := .fd (by rw [desc])
      rwa [desc] at refers
    have run : Run (FsStep countingAllocator) oneTask [(1, .file (.open [97])), (1, .unlink [97])]
        unlinked := .cons ⟨rfl, one⟩ (.single ⟨alive, two⟩)
    exact absurd (inTree_root root at_root (all _ _ run 2 refers)) (by decide)
  · have refers : Refers (taskWith ⟨0, 99, 0, 0⟩) 99 := .stdout (k := 1) rfl (by decide)
    exact absurd (inTree_root rfl rfl (none 99 refers)) (by decide)

end Flyos
