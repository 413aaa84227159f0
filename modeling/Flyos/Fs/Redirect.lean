import Flyos.Fs.FileLog
import Flyos.Fs.Syscall

/-!
# Input and output of tasks

`SYS_WRITE`, `SYS_READ` and `SYS_REDIR` of `kernel/arch/syscall.c`: each task writes to
the terminal and reads from the keyboard, unless its `stdout_node` or `stdin_node` says
which file instead.  Every task has its own position in such a file, beside the
positions of the descriptors.

`FileCall` are the calls that open, read and write files, and `fileCall` is one call of
a task.  It also tells what the call did to files, as a list of `FileEffect`: bytes that
a write stored and a read returned, and files that were created and truncated.
-/

namespace Flyos

variable {H : Type*} (A : Allocator H)

/-- The fields of `task_t` on files.  A null node is the terminal. -/
structure Redir where
  stdinNode : Nat
  stdoutNode : Nat
  stdinPos : Nat
  stdoutPos : Nat
  deriving DecidableEq

/-- A task that is not redirected. -/
def Redir.terminal : Redir := ⟨0, 0, 0, 0⟩

/-- The file system, the descriptors, and the redirections of each task. -/
structure TaskFiles (H : Type*) where
  sys : FileSys H
  redir : Nat → Redir

namespace TaskFiles

variable (s : TaskFiles H)

/-- Another state of the file system. -/
def setFs (fs : Ramfs H) : TaskFiles H := { s with sys := { s.sys with fs } }

/-- Assign the redirections of a task. -/
def setRedir (t : Nat) (d : Redir) : TaskFiles H :=
  { s with redir := Function.update s.redir t d }

@[simp] theorem setFs_redir (fs : Ramfs H) : (s.setFs fs).redir = s.redir := rfl

@[simp] theorem setRedir_redir (t : Nat) (d : Redir) :
    (s.setRedir t d).redir = Function.update s.redir t d := rfl

end TaskFiles

/-- `SYS_WRITE` of the bytes `buf` by task `t`.  What `ramfs_write` answers is not looked at. -/
def sysWrite (s : TaskFiles H) (t : Nat) (buf : List UInt8) : Option (Nat × TaskFiles H) :=
  let d := s.redir t
  if d.stdoutNode ≠ 0 then
    (ramfsWrite A s.sys.fs d.stdoutNode buf d.stdoutPos).map fun r =>
      (buf.length, (s.setFs r.2).setRedir t
        { d with stdoutPos := (d.stdoutPos + buf.length) % 2 ^ 64 })
  else some (buf.length, s)

/-- `SYS_READ` of `n` bytes by task `t`: the result, the bytes delivered and the state.
`typed` is what the keyboard delivers to a task that is not redirected. -/
def sysRead (s : TaskFiles H) (t n : Nat) (typed : List UInt8) :
    Option (Nat × List UInt8 × TaskFiles H) :=
  let d := s.redir t
  if d.stdinNode ≠ 0 then
    (ramfsRead s.sys.fs d.stdinNode n d.stdinPos).map fun r =>
      if 0 < r.1 then
        (r.1.toNat, r.2, s.setRedir t
          { d with stdinPos := (d.stdinPos + r.1.toNat) % 2 ^ 64 })
      else (0, r.2, s)
  else some (typed.length, typed, s)

/-- `SYS_REDIR` by task `t`. -/
def sysRedir (s : TaskFiles H) (t : Nat) (which : Int) (name : CString) :
    Option (Int × TaskFiles H) :=
  (fileOpenNode A s.sys name).bind fun r =>
    let s := { s with sys := r.2 }
    let d := s.redir t
    if r.1 = 0 then some (-1, s)
    else if which = 0 then some (0, s.setRedir t { d with stdinNode := r.1, stdinPos := 0 })
    else (s.sys.fs.nodes r.1).map fun n =>
      -- the buffer and its capacity stay
      (0, (s.setFs (s.sys.fs.setNode r.1 { n with size := 0 })).setRedir t
        { d with stdoutNode := r.1, stdoutPos := 0 })

/-! ## What calls do to files -/

/-- The calls that open, read and write files. -/
inductive FileCall where
  | open (name : CString)
  | close (fd : Int)
  | fread (fd : Int) (n : Nat)
  | fwrite (fd : Int) (buf : List UInt8)
  | write (buf : List UInt8)
  | read (n : Nat) (typed : List UInt8)
  | redir (which : Int) (name : CString)

/-- What `file_open` creates. -/
def createdBy (s : Ramfs H) (name : CString) : List FileEffect :=
  match ramfsLookup s name, openCreate A s name with
  | some 0, some (c, _) => if c = 0 then [] else [.created c]
  | _, _ => []

/-- What `ramfs_write` stores, when it does not fail. -/
def storedBy (s : Ramfs H) (f : Nat) (buf : List UInt8) (off : Nat) : List FileEffect :=
  match ramfsWrite A s f buf off with
  | some (r, _) => if r = -1 then [] else [.stored f off buf]
  | none => []

/-- **One call** of task `t`: the state after it, and what it did to files, last first. -/
def fileCall (s : TaskFiles H) (t : Nat) : FileCall → Option (TaskFiles H × List FileEffect)
  | .open name =>
      (fileOpen A s.sys name).map fun r => ({ s with sys := r.2 }, createdBy A s.sys.fs name)
  | .close fd => some ({ s with sys := (fileClose s.sys fd).2 }, [])
  | .fread fd n =>
      (fileRead s.sys fd n).map fun r =>
        ({ s with sys := r.2.2 }, match s.sys.fd? fd with
          | some i => [.returned (s.sys.fdTable i).node (s.sys.fdTable i).pos r.2.1]
          | none => [])
  | .fwrite fd buf =>
      (fileWrite A s.sys fd buf).map fun r =>
        ({ s with sys := r.2 }, match s.sys.fd? fd with
          | some i =>
              if (s.sys.fdTable i).isDir then []
              else storedBy A s.sys.fs (s.sys.fdTable i).node buf (s.sys.fdTable i).pos
          | none => [])
  | .write buf =>
      (sysWrite A s t buf).map fun r =>
        (r.2, if (s.redir t).stdoutNode ≠ 0 then
            storedBy A s.sys.fs (s.redir t).stdoutNode buf (s.redir t).stdoutPos
          else [])
  | .read n typed =>
      (sysRead s t n typed).map fun r =>
        (r.2.2, if (s.redir t).stdinNode ≠ 0 then
            [.returned (s.redir t).stdinNode (s.redir t).stdinPos r.2.1]
          else [])
  | .redir which name =>
      (sysRedir A s t which name).map fun r =>
        (r.2, (if r.1 = 0 ∧ which ≠ 0 then [.truncated (r.2.redir t).stdoutNode] else []) ++
          createdBy A s.sys.fs name)

end Flyos
