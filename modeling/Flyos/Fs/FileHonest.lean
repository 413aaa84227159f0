import Flyos.Fs.DeserializeAny
import Flyos.Fs.FileModel
import Flyos.Fs.RedirectSpec
import Flyos.Lib.Runs

/-!
# Files return what was written to them

A run of calls of any tasks leaves a log of what happened to files.  The code does not
keep it honest: a write may start behind the end of its file, since a truncation leaves
the positions of descriptors and of other tasks where they are, and since `SYS_WRITE`
moves its position even when nothing was written.  Then `ramfs_write` makes the bytes in
between part of the file without writing them (`ioRun_leaks`).

This is the only way: while no write starts behind the end of its file, unless it finds
no memory and fails, every byte that a read returns was stored (`ioRun_honest`).
-/

namespace Flyos

variable {H : Type*} {A : Allocator H}

/-- The system, and the log of what happened to files, the last event first. -/
structure Logged (H : Type*) where
  io : TaskFiles H
  log : List FileEffect

/-- One call of a task. -/
def ioStep (A : Allocator H) (s : Logged H) (c : Nat × FileCall) : Option (Logged H) :=
  (fileCall A s.io c.1 c.2).map fun r => ⟨r.1, r.2 ++ s.log⟩

/-! ## Calls return -/

/-- The write of a call ends by position `2 ^ 63`. -/
def EndsInRange (s : TaskFiles H) (k : Nat) : FileCall → Prop
  | .fwrite fd buf => s.sys.InRange fd buf
  | .write buf => (s.redir k).stdoutPos + buf.length ≤ 2 ^ 63
  | _ => True

/-- `file_open_node` returns. -/
theorem fileOpenNode_total {s : FileSys H} (tree : ∃ kids depth, RamfsInv A s.fs kids depth)
    (here : HasCwd s.fs) (name : CString) : ∃ n u, fileOpenNode A s name = some (n, u) := by
  obtain ⟨kids, depth, inv⟩ := tree
  obtain ⟨r, u, ran, -⟩ := fileOpen_spec inv (.inr here)
  exact ⟨_, _, by rw [fileOpenNode, ran]; rfl⟩

/-- **Every call returns**, and touches no byte outside a buffer. -/
theorem fileCall_total {s : TaskFiles H} (inv : IoInv A s) (k : Nat) {c : FileCall}
    (range : EndsInRange s k c) : ∃ r, fileCall A s k c = some r := by
  obtain ⟨kids, depth, tree⟩ := inv.tree
  cases c with
  | «open» name =>
      obtain ⟨r, u, ran, -⟩ := fileOpen_spec tree (.inr inv.cwd)
      exact ⟨_, by rw [fileCall, ran]; rfl⟩
  | close fd => exact ⟨_, rfl⟩
  | fread fd n =>
      rw [fileCall, fileRead]
      cases taken : s.sys.fd? fd with
      | none => exact ⟨_, rfl⟩
      | some i =>
          obtain ⟨-, -, -, used⟩ := FileSys.fd?_eq_some.mp taken
          dsimp only
          by_cases dir : (s.sys.fdTable i).isDir = true
          · exact ⟨_, by rw [if_pos dir]; rfl⟩
          · obtain ⟨node, at_f, file⟩ := (inv.fds used).1
            rw [if_neg dir] at file
            obtain ⟨bytes, ran, -⟩ := ramfsRead_spec tree at_f file n (s.sys.fdTable i).pos
            exact ⟨_, by rw [if_neg dir, ran]; rfl⟩
  | fwrite fd buf =>
      rw [fileCall, fileWrite]
      cases taken : s.sys.fd? fd with
      | none => exact ⟨_, rfl⟩
      | some i =>
          obtain ⟨-, -, -, used⟩ := FileSys.fd?_eq_some.mp taken
          dsimp only
          by_cases dir : (s.sys.fdTable i).isDir = true
          · exact ⟨_, by rw [if_pos dir, if_pos dir]; rfl⟩
          · obtain ⟨node, at_f, -⟩ := (inv.fds used).1
            rw [if_neg dir, if_neg dir]
            obtain ⟨u, -, ⟨ran, -⟩ | ⟨-, ran, -⟩⟩ := ramfsWrite_spec tree at_f (range i taken)
            · exact ⟨_, by rw [ran]; rfl⟩
            · exact ⟨_, by rw [ran]; rfl⟩
  | write buf =>
      rw [fileCall, sysWrite]
      by_cases terminal : (s.redir k).stdoutNode = 0
      · exact ⟨_, by rw [if_neg (not_not.mpr terminal), if_neg (not_not.mpr terminal)]; rfl⟩
      · obtain ⟨node, at_f, -⟩ := (inv.redirs k).stdout terminal
        obtain ⟨u, -, ⟨ran, -⟩ | ⟨-, ran, -⟩⟩ := ramfsWrite_spec tree at_f range
        · exact ⟨_, by rw [if_pos terminal, if_pos terminal, ran]; rfl⟩
        · exact ⟨_, by rw [if_pos terminal, if_pos terminal, ran]; rfl⟩
  | read n typed =>
      rw [fileCall, sysRead]
      by_cases keyboard : (s.redir k).stdinNode = 0
      · exact ⟨_, by rw [if_neg (not_not.mpr keyboard)]; rfl⟩
      · obtain ⟨node, at_f, file⟩ := (inv.redirs k).stdin keyboard
        obtain ⟨bytes, ran, -⟩ := ramfsRead_spec tree at_f file n (s.redir k).stdinPos
        exact ⟨_, by rw [if_pos keyboard, ran]; rfl⟩
  | redir which name =>
      obtain ⟨n, u, ran⟩ := fileOpenNode_total inv.tree inv.cwd name
      obtain ⟨-, on, -⟩ := fileOpenNode_returns inv.tree inv.cwd ran
      rw [fileCall, sysRedir, ran, Option.bind_some]
      dsimp only
      by_cases null : n = 0
      · exact ⟨_, by rw [if_pos null]; rfl⟩
      rw [if_neg null]
      by_cases stdin : which = 0
      · exact ⟨_, by rw [if_pos stdin]; rfl⟩
      · obtain ⟨node, at_n, -⟩ := on null
        exact ⟨_, by rw [if_neg stdin, at_n]; rfl⟩

/-! ## Runs -/

/-- What a run keeps while its writes leave no gap. -/
structure HonestInv (A : Allocator H) (s : Logged H) : Prop where
  io : IoInv A s.io
  backed : Backed (fileBytes s.io.sys.fs) s.log
  honest : Honest s.log

/-- One call. -/
theorem ioStep_honest {s t : Logged H} (inv : HonestInv A s) {c : Nat × FileCall}
    (inside : WritesInside A s.io c.1 c.2) (step : ioStep A s c = some t) : HonestInv A t := by
  obtain ⟨⟨io, es⟩, ran, rfl⟩ := Option.map_eq_some_iff.mp step
  obtain ⟨io', follows⟩ := fileCall_traced inv.io ran
  obtain ⟨backed, honest⟩ := (follows inside).honest inv.backed inv.honest
  exact ⟨io', backed, honest⟩

/-- **Files return what was written to them.**  Start with any files whose contents were
stored, any descriptors and any redirections, and let any tasks make calls.  While no
write starts behind the end of its file, unless it finds no memory: every byte that a
read returned was stored at its offset, after the file was created and last truncated.
And every call returns. -/
theorem ioRun_honest {s t : Logged H} {cs : List (Nat × FileCall)} (io : IoInv A s.io)
    (backed : Backed (fileBytes s.io.sys.fs) s.log) (honest : Honest s.log)
    (run : Run (Guarded (fun s c => WritesInside A s.io c.1 c.2)
      fun s c t => ioStep A s c = some t) s cs t) :
    Honest t.log ∧ ∀ k c, EndsInRange t.io k c → ∃ r, fileCall A t.io k c = some r := by
  have inv : HonestInv A t := run.invariant (HonestInv A)
    (fun inv step => ioStep_honest inv step.1 step.2) ⟨io, backed, honest⟩
  exact ⟨inv.honest, fun k _ range => fileCall_total inv.io k range⟩

/-- The file system after `ramfs_init`, no descriptor in use and no task redirected. -/
def freshFiles : Logged CountingHeap := ⟨⟨fileInit freshRoot, fun _ => .terminal⟩, []⟩

/-- Nothing dangles at first, and there are no contents. -/
theorem freshFiles_inv : HonestInv countingAllocator freshFiles := by
  obtain ⟨depth, tree⟩ := freshRoot_inv
  refine ⟨⟨⟨_, _, tree⟩, ⟨_, rfl⟩, (fun used => by cases used), fun k => ?_⟩, fun f k b there => ?_,
    trivial⟩
  · exact ⟨fun ne => absurd rfl ne, fun ne => absurd rfl ne, Nat.two_pow_pos 64⟩
  · have none : fileBytes freshRoot f = [] := by
      rw [fileBytes]
      cases at_f : freshRoot.nodes f with
      | none => rfl
      | some n =>
          have size : n.size = 0 := by
            by_cases root : f = 1
            · subst root
              have known : freshRoot.nodes 1 = some (newNode .dir [47] 0 0) := rfl
              rw [known] at at_f
              cases at_f
              rfl
            · have nothing : freshRoot.nodes f = none := Function.update_of_ne root ..
              rw [nothing] at at_f
              cases at_f
          rw [Option.elim_some, size, List.take_zero]
    rw [show fileBytes freshFiles.io.sys.fs f = [] from none] at there
    cases there

/-- A task writes to a file through its redirection, another reads it. -/
theorem ioRun_honest_two : ∃ t : Logged CountingHeap,
    (Run (Guarded (fun s c => WritesInside countingAllocator s.io c.1 c.2)
      fun s c t => ioStep countingAllocator s c = some t) freshFiles
      [(1, .redir 1 [97]), (1, .write [7, 8]), (2, .redir 0 [97]), (2, .read 5 [])] t ∧
        t.log = [.returned 2 0 [7, 8], .stored 2 0 [7, 8], .truncated 2, .created 2]) ∧
      Honest t.log ∧
        ∀ k c, EndsInRange t.io k c → ∃ r, fileCall countingAllocator t.io k c = some r := by
  obtain ⟨t₁, one, to₁⟩ : ∃ t₁, ioStep countingAllocator freshFiles (1, .redir 1 [97]) = some t₁ ∧
      t₁ = _ := ⟨_, rfl, rfl⟩
  have start : WritesInside countingAllocator t₁.io 1 (.write [7, 8]) := fun _ n at_f => by
    subst to₁
    exact .inl (Nat.zero_le _)
  have run : ∃ t : Logged CountingHeap,
      Run (Guarded (fun s c => WritesInside countingAllocator s.io c.1 c.2)
        fun s c t => ioStep countingAllocator s c = some t) freshFiles
        [(1, .redir 1 [97]), (1, .write [7, 8]), (2, .redir 0 [97]), (2, .read 5 [])] t ∧
      t.log = [.returned 2 0 [7, 8], .stored 2 0 [7, 8], .truncated 2, .created 2] := by
    subst to₁
    exact ⟨_, .cons ⟨trivial, rfl⟩ (.cons ⟨start, rfl⟩ (.cons ⟨trivial, rfl⟩
      (.single ⟨trivial, rfl⟩))), rfl⟩
  obtain ⟨t, run, log⟩ := run
  exact ⟨t, ⟨run, log⟩, ioRun_honest freshFiles_inv.io freshFiles_inv.backed freshFiles_inv.honest
    run⟩

/-- **The gap.**  A file with the bytes 7 and 8 is truncated, and a descriptor that stands
behind them writes a 9: the next read returns the 7 and the 8 from before the truncation. -/
theorem ioRun_leaks : ¬ ∀ {t : Logged CountingHeap} {cs : List (Nat × FileCall)},
    Run (fun s c t => ioStep countingAllocator s c = some t) freshFiles cs t → Honest t.log := by
  intro all
  have last : ([(1, .open [97]), (1, .fwrite 3 [7, 8]), (1, .redir 1 [97]), (1, .fwrite 3 [9]),
      (1, .open [97]), (1, .fread 4 3)].foldlM (ioStep countingAllocator) freshFiles).map
        Logged.log = some [.returned 2 0 [7, 8, 9], .stored 2 2 [9], .truncated 2,
          .stored 2 0 [7, 8], .created 2] := by
    rfl
  obtain ⟨t, ran, log⟩ := Option.map_eq_some_iff.mp last
  have honest := all (Run.ofFold ran)
  rw [log] at honest
  have stale := honest.1 0 7 rfl
  simp [StoredIn] at stale

end Flyos
