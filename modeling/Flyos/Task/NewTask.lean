import Flyos.Fs.TaskCalls
import Flyos.Task.Fork

/-!
# A new task and the bytes in its record

`task_create` of `kernel/task/task.c` builds a record in a block that `kmalloc` does not
clear.  `fillRecord` is its assignments, one by one, on the bytes that it finds there;
`NewRecord.read` and `FileWords.read` are the fields afterwards.  The four fields on files are
not assigned (`words_fillRecord`), so a task starts with the redirections that its block held
before; all other fields are new (`read_fillRecord`).

`taskCall` is one system call of a task, in a kernel of files, descriptors, tasks and a heap.
The blocks that a call takes hold any bytes (`Leftovers`).
-/

namespace Flyos

variable {H : Type*}

/-! ## The state -/

/-- The files, the tasks, and `next_id`. -/
structure TaskWorld (H : Type*) where
  sys : TaskSystem H
  nextId : Nat

namespace TaskWorld

variable (w : TaskWorld H)

/-- The file system. -/
abbrev fs : Ramfs H := w.sys.io.sys.fs

/-- Another state of the file system. -/
def setFs (fs : Ramfs H) : TaskWorld H := { w with sys := { w.sys with io := w.sys.io.setFs fs } }

/-- Another state of the heap. -/
def setHeap (h : H) : TaskWorld H := w.setFs { w.fs with heap := h }

/-- `next_id++`. -/
def takeId : TaskWorld H := { w with nextId := (w.nextId + 1) % 2 ^ 32 }

/-- A task with its redirections, which takes the next number. -/
def addTask (t : Nat) (d : Redir) : TaskWorld H :=
  { w.takeId with sys := ⟨w.sys.io.setRedir t d, Function.update w.sys.alive t true⟩ }

@[simp] theorem setFs_fs (fs : Ramfs H) : (w.setFs fs).fs = fs := rfl

@[simp] theorem addTask_fs (t : Nat) (d : Redir) : (w.addTask t d).fs = w.fs := rfl

@[simp] theorem addTask_alive (t : Nat) (d : Redir) :
    (w.addTask t d).sys.alive = Function.update w.sys.alive t true := rfl

@[simp] theorem addTask_redir (t : Nat) (d : Redir) :
    (w.addTask t d).sys.io.redir = Function.update w.sys.io.redir t d :=
  TaskFiles.setRedir_redir ..

end TaskWorld

/-! ## `task_create` -/

/-- The fields of `task_t` that `task_create` writes. -/
structure NewRecord where
  rsp : Nat
  stackBase : Nat
  stackSize : Nat
  kernelStackTop : Nat
  savedUserRsp : Nat
  pml4Phys : Nat
  id : Nat
  state : Nat
  name : Nat
  next : Nat
  wqNext : Nat
  parent : Nat
  deriving DecidableEq

/-- Those fields of a record, in memory from its start on. -/
def NewRecord.read (m : ByteMemory) : NewRecord where
  rsp := m.load 0 8
  stackBase := m.load 8 8
  stackSize := m.load 16 8
  kernelStackTop := m.load 24 8
  savedUserRsp := m.load 32 8
  pml4Phys := m.load 40 8
  id := m.load 48 4
  state := m.load 52 4
  name := m.load 56 8
  next := m.load 64 8
  wqNext := m.load 72 8
  parent := m.load 80 8

/-- The other fields, which are on files. -/
def FileWords.read (m : ByteMemory) : FileWords where
  stdinNode := .ofNat (m.load 88 8)
  stdoutNode := .ofNat (m.load 96 8)
  stdinPos := .ofNat (m.load 104 8)
  stdoutPos := .ofNat (m.load 112 8)

/-- The assignments of `task_create` to the record, on what memory holds from its start on. -/
def fillRecord (m : ByteMemory) (stackBase id name next : Nat) : ByteMemory :=
  let stackTop := (stackBase + taskStackSize) % 2 ^ 64 / 16 * 16
  -- nine words are pushed on the stack
  let sp := stackTop - 9 * 8
  let m := m.store 8 8 stackBase
  let m := m.store 16 8 taskStackSize
  let m := m.store 48 4 id
  let m := m.store 52 4 0
  let m := m.store 56 8 name
  let m := m.store 72 8 0
  let m := m.store 80 8 0
  let m := m.store 32 8 0
  let m := m.store 40 8 0
  let m := m.store 0 8 sp
  let m := m.store 24 8 (stackBase + taskStackSize)
  m.store 64 8 next

/-- What a record is made in: the block that `kmalloc` hands out, or the memory at address 0
when there is none, for `task_create` does not look. -/
def foundAt (A : Allocator H) (low : ByteMemory) (h : H) : ByteMemory :=
  if (A.malloc h taskSize).1 = 0 then low else fun i => (A.junk h taskSize).getD i 0

/-- `task_create`: the address of the record, its fields, and the state.  `name` is the address
of the name and `next` is `current->next`. -/
def TaskWorld.taskCreate (A : Allocator H) (low : ByteMemory) (name next : Nat) (w : TaskWorld H) :
    Nat × NewRecord × TaskWorld H :=
  let t := w.fs.kmalloc A taskSize
  let stack := t.2.kmalloc A taskStackSize
  let m := fillRecord (foundAt A low w.fs.heap) stack.1 w.nextId name next
  (t.1, .read m, (w.setFs stack.2).addTask t.1 (FileWords.read m).redir)

/-! ## The record -/

/-- A word that was just written does not depend on what was there. -/
theorem load_store_any (m m' : ByteMemory) (a k v : Nat) :
    (m.store a k v).load a k = (m'.store a k v).load a k :=
  ByteMemory.load_congr fun x low high => by
    rw [ByteMemory.store, ByteMemory.store, ByteMemory.blit_of_mem m _ low high,
      ByteMemory.blit_of_mem m' _ low high]

/-- **`task_create` writes these fields**: they do not depend on what the block held. -/
theorem read_fillRecord (m m' : ByteMemory) (stackBase id name next : Nat) :
    NewRecord.read (fillRecord m stackBase id name next) =
      NewRecord.read (fillRecord m' stackBase id name next) := by
  simp (disch := omega) only [NewRecord.read, fillRecord, NewRecord.mk.injEq,
    ByteMemory.load_store_of_disjoint]
  exact ⟨load_store_any .., load_store_any .., load_store_any .., load_store_any ..,
    load_store_any .., load_store_any .., load_store_any .., load_store_any ..,
    load_store_any .., load_store_any .., load_store_any .., load_store_any ..⟩

/-- **The others are what the block held.** -/
theorem words_fillRecord (m : ByteMemory) (stackBase id name next : Nat) :
    FileWords.read (fillRecord m stackBase id name next) = FileWords.read m := by
  simp (disch := omega) only [FileWords.read, fillRecord, ByteMemory.load_store_of_disjoint]

/-! ## Calls -/

/-- What blocks hold when `kmalloc` hands them out: any bytes, as many as were asked for. -/
structure Leftovers (H : Type*) where
  bytes : H → Nat → List UInt8
  length_bytes : ∀ h n, (bytes h n).length = n

/-- The same heap, with other bytes in its blocks. -/
def Allocator.holding (A : Allocator H) (left : Leftovers H) : Allocator H :=
  { A with
    junk := left.bytes
    junk_length := left.length_bytes }

/-- The system calls of a task.  Those that are left out look neither at files nor at
redirections nor at the heap: they are about the scheduler, the semaphores and the pages, or they
change the volume through buffers of their own. -/
inductive TaskCall where
  | fs (c : FsCall)
  | ls (max : Nat)
  | getcwd (max : Nat)
  /-- `written` when the disk takes all sectors. -/
  | sync (written : Bool)
  /-- `cloned` when `vmm_clone_pml4_deep` has pages enough. -/
  | fork (cloned : Bool)
  /-- `loaded` when the program is loaded, which happens once. -/
  | spawn (loaded : Bool)
  /-- A call on the volume, through one sector of the heap. -/
  | fat (reply : Reply)

/-- `SYS_FORK` by task `k`. -/
def TaskWorld.sysFork (A : Allocator H) (w : TaskWorld H) (k : Nat) (cloned : Bool) :
    Reply × TaskWorld H :=
  let child := w.fs.kmalloc A taskSize
  if child.1 = 0 then (.value (-1), w.setFs child.2)
  else if cloned = false then (.value (-1), w.setFs (child.2.release A child.1))
  else
    let stack := child.2.kmalloc A taskStackSize
    (.value (toInt32 w.nextId), (w.setFs stack.2).addTask child.1 (w.sys.io.redir k))

/-- `SYS_SPAWN`.  The child makes no call here, so its redirections are left out. -/
def TaskWorld.sysSpawn (A : Allocator H) (w : TaskWorld H) (loaded : Bool) :
    Reply × TaskWorld H :=
  if loaded = false then (.value (-1), w)
  else
    let t := w.fs.kmalloc A taskSize
    let stack := t.2.kmalloc A taskStackSize
    (.value (toInt32 w.nextId), (w.setFs stack.2).takeId)

/-- A call with a block of `size` bytes while it runs: it fails without one. -/
def TaskWorld.withBlock (A : Allocator H) (w : TaskWorld H) (size : Nat) (reply : Reply) :
    Reply × TaskWorld H :=
  let block := w.fs.kmalloc A size
  if block.1 = 0 then (.value (-1), w.setFs block.2)
  else (reply, w.setFs (block.2.release A block.1))

/-- **One call** of task `k`: what it gives back, and the state after it. -/
def taskCall (A : Allocator H) (w : TaskWorld H) (k : Nat) :
    TaskCall → Option (Reply × TaskWorld H)
  | .fs c => (fsAnswer A w.sys k c).bind fun a =>
      (fsCall A w.sys k c).map fun sys => (a, { w with sys })
  | .ls max => (sysLs w.fs max).map fun buf => (⟨buf.length, buf, []⟩, w)
  | .getcwd max => (ramfsGetPath w.fs w.fs.cwd max).map fun path => (⟨0, path, []⟩, w)
  | .sync written => (sysSync A w.fs written).map fun r => (.value r.1, w.setFs r.2)
  | .fork cloned => some (w.sysFork A k cloned)
  | .spawn loaded => some (w.sysSpawn A loaded)
  | .fat reply => some (w.withBlock A ataSectorSize reply)

/-- **What is asked of a call**: it unlinks nothing that is referred to, and a write starts in its
file or at its end.  The code checks neither. -/
def Careful (A : Allocator H) (w : TaskWorld H) (k : Nat) : TaskCall → Prop
  | .fs c => SparesReferences w.sys c ∧ ∀ f, c = .file f → WritesInside A w.sys.io k f
  | _ => True

end Flyos
