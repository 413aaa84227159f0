import Flyos.Fs.Ramfs

/-!
# File descriptors

`kernel/fs/file.c`: one table of descriptors for the whole system, over the RAM file
system.  A descriptor holds a node pointer and a position; for a directory the
position counts the entries that were read.
-/

namespace Flyos

variable {H : Type*} (A : Allocator H)

/-- `MAX_FD`. -/
abbrev maxFd : Nat := 64

/-- `file_t`. -/
structure Fd where
  used : Bool
  node : Nat
  pos : Nat
  isDir : Bool
  deriving DecidableEq

/-- A descriptor that is not in use, as `file_init` and `file_close` leave it. -/
def Fd.closed : Fd := ⟨false, 0, 0, false⟩

/-- The file system and `fd_table`. -/
structure FileSys (H : Type*) where
  fs : Ramfs H
  fdTable : Nat → Fd

namespace FileSys

variable (s : FileSys H)

/-- Assign a descriptor. -/
def setFd (fd : Nat) (f : Fd) : FileSys H := { s with fdTable := Function.update s.fdTable fd f }

@[simp] theorem setFd_fs (fd : Nat) (f : Fd) : (s.setFd fd f).fs = s.fs := rfl

@[simp] theorem setFd_fdTable (fd : Nat) (f : Fd) :
    (s.setFd fd f).fdTable = Function.update s.fdTable fd f := rfl

/-- The guard of the calls on a descriptor: its index, if it is one in use. -/
def fd? (fd : Int) : Option Nat :=
  if fd < 3 ∨ (maxFd : Int) ≤ fd ∨ (s.fdTable fd.toNat).used = false then none else some fd.toNat

/-- The loops that look for a descriptor not in use. -/
def freeFd : Option Nat := (List.range' 3 (maxFd - 3)).find? fun i => !(s.fdTable i).used

end FileSys

/-- `file_init`. -/
def fileInit (fs : Ramfs H) : FileSys H := ⟨fs, fun _ => .closed⟩

/-- The loop that looks for the last `/` of a path. -/
def lastSlash : CString → Option Nat
  | [] => none
  | c :: p =>
      match lastSlash p with
      | some i => some (i + 1)
      | none => if c = 47 then some 0 else none

/-- `parent_path`: at most 127 bytes of what stands before position `i`. -/
def parentPath (path : CString) (i : Nat) : CString := path.take (min i 127)

/-- The directory a path names a child of, and the name: what stands behind the last
`/`, in the directory named before it. -/
def splitPath (s : Ramfs H) (path : CString) : Option (Nat × CString) :=
  match lastSlash path with
  | some i =>
      if min i 127 = 0 then some (s.root, path.drop (i + 1))
      else (ramfsLookup s (parentPath path i)).map fun parent => (parent, path.drop (i + 1))
  | none => some (s.cwd, path)

/-- `file_open` creates the file that a path names. -/
def openCreate (s : Ramfs H) (name : CString) : Option (Nat × Ramfs H) :=
  (splitPath s name).bind fun r =>
    if (lastSlash name).isSome then
      if r.1 = 0 then some (0, s)
      else (s.nodes r.1).bind fun d =>
        if d.type ≠ .dir then some (0, s) else ramfsCreateFile A s r.1 r.2
    else ramfsCreateFile A s r.1 r.2

/-- `file_open`. -/
def fileOpen (s : FileSys H) (name : CString) : Option (Int × FileSys H) :=
  (ramfsLookup s.fs name).bind fun found =>
    (if found ≠ 0 then some (found, s.fs) else openCreate A s.fs name).bind fun r =>
      let s := { s with fs := r.2 }
      if r.1 = 0 then some (-1, s)
      else (s.fs.nodes r.1).map fun n =>
        if n.type ≠ .file then (-1, s)
        else
          match s.freeFd with
          | some i => (i, s.setFd i ⟨true, r.1, 0, false⟩)
          | none => (-1, s)

/-- `file_close`. -/
def fileClose (s : FileSys H) (fd : Int) : Int × FileSys H :=
  match s.fd? fd with
  | none => (-1, s)
  | some i => (0, s.setFd i .closed)

/-- `file_read` of `n` bytes: the result, the bytes delivered and the state. -/
def fileRead (s : FileSys H) (fd : Int) (n : Nat) : Option (Int × List UInt8 × FileSys H) :=
  match s.fd? fd with
  | none => some (-1, [], s)
  | some i =>
      let f := s.fdTable i
      if f.isDir then some (-1, [], s)
      else (ramfsRead s.fs f.node n f.pos).map fun r =>
        (r.1, r.2, if 0 < r.1 then s.setFd i { f with pos := f.pos + r.1.toNat } else s)

/-- `file_write` of the bytes `buf`. -/
def fileWrite (s : FileSys H) (fd : Int) (buf : List UInt8) : Option (Int × FileSys H) :=
  match s.fd? fd with
  | none => some (-1, s)
  | some i =>
      let f := s.fdTable i
      if f.isDir then some (-1, s)
      else (ramfsWrite A s.fs f.node buf f.pos).map fun r =>
        let s := { s with fs := r.2 }
        (r.1, if 0 < r.1 then s.setFd i { f with pos := f.pos + r.1.toNat } else s)

/-- `dir_open`. -/
def dirOpen (s : FileSys H) (name : CString) : Option (Int × FileSys H) :=
  (ramfsLookup s.fs name).bind fun n =>
    if n = 0 then some (-1, s)
    else (s.fs.nodes n).map fun node =>
      if node.type ≠ .dir then (-1, s)
      else
        match s.freeFd with
        | some i => (i, s.setFd i ⟨true, n, 0, true⟩)
        | none => (-1, s)

/-- The loop of `dir_read`: the child at position `target` of the list from `c`. -/
def dirReadLoop (s : Ramfs H) : Nat → Nat → Nat → Option (Option Node)
  | 0, _, _ => none
  | fuel + 1, c, target =>
      if c = 0 then some none
      else (s.nodes c).bind fun n =>
        if target = 0 then some (some n) else dirReadLoop s fuel n.next (target - 1)

/-- `dir_read`: the result, and the name and the type of the entry, if there is one. -/
def dirRead (s : FileSys H) (fd : Int) (max : Nat) :
    Option (Int × Option (CString × NodeType) × FileSys H) :=
  match s.fd? fd with
  | none => some (-1, none, s)
  | some i =>
      let f := s.fdTable i
      if f.isDir = false then some (-1, none, s)
      else (s.fs.nodes f.node).bind fun dir =>
        (dirReadLoop s.fs walkFuel dir.children f.pos).map fun
          | none => (0, none, s)
          | some c => (1, some (strCopy c.name max, c.type), s.setFd i { f with pos := f.pos + 1 })

/-- `file_open_node`. -/
def fileOpenNode (s : FileSys H) (name : CString) : Option (Nat × FileSys H) :=
  (fileOpen A s name).map fun (fd, s) =>
    if fd < 0 then (0, s) else ((s.fdTable fd.toNat).node, (fileClose s fd).2)

end Flyos
