import Flyos.Fs.Syscall
import Flyos.Lib.PathTree

/-!
# What the file system is for

`PathFs` is the purpose of `kernel/fs/ramfs.c` and `kernel/fs/file.c` in its own terms: a tree
of directories and files known by their paths, a current directory, and descriptors that stand
at a position in a file.  `PathFs.exec` is what each call does to it and answers, given whether
memory ran out in the call.

A path string is a list of names: what stands between slashes, in pieces of 63 bytes
(`pathSteps`).  `.` stays, `..` goes up.  Nodes, links and buffers do not occur.
-/

namespace Flyos

/-- The calls on paths and descriptors. -/
inductive PathCall where
  | open (path : CString)
  | close (fd : Int)
  | read (fd : Int) (n : Nat)
  | write (fd : Int) (buf : List UInt8)
  | mkdir (path : CString)
  | unlink (path : CString)
  | chdir (path : CString)

/-! ## Names in a path -/

/-- The names in what is left of a path, behind the bytes `opened` of a name. -/
def namesFrom : CString → CString → List CString
  | opened, [] => if opened = [] then [] else [opened]
  | opened, c :: p =>
      if c = 47 then (if opened = [] then [] else [opened]) ++ namesFrom [] p
      else if opened.length + 2 = ramfsNameMax then (opened ++ [c]) :: namesFrom [] p
      else namesFrom (opened ++ [c]) p

/-- What a name in a path means. -/
def stepOf (name : CString) : PathStep CString :=
  if name = [46] then .stay else if name = [46, 46] then .up else .down name

/-- **A path**, as the steps it takes. -/
def pathSteps (p : CString) : List (PathStep CString) := (namesFrom [] p).map stepOf

example : pathSteps [47, 97, 47, 47, 46, 46, 47, 98] = [.down [97], .up, .down [98]] := by decide

/-! ## The model -/

/-- **A file system**: a tree, a current directory, and descriptors with a path and a position. -/
structure PathFs where
  tree : PathTree CString (List UInt8)
  cwd : List CString
  desc : Nat → Option (List CString × Nat)

namespace PathFs

variable (m : PathFs)

/-- A root and nothing else. -/
def empty : PathFs := ⟨.bare _ _, [], fun _ => none⟩

/-- Where a path leads. -/
def resolve (path : CString) : Option (List CString) :=
  if path = [] then none
  else m.tree.walk (if path.head? = some 47 then [] else m.cwd) (pathSteps path)

/-- The directory in which a path names something, and the name; no more than 127 bytes of the
path are looked at for the directory. -/
def split (path : CString) : Option (List CString) × CString :=
  match lastSlash path with
  | some i =>
      (if min i 127 = 0 then some [] else m.resolve (parentPath path i), path.drop (i + 1))
  | none => (some m.cwd, path)

/-- Create something where a path says: its path then, and the file system. -/
def create (path : CString) (e : PathEntry (List UInt8)) : Option (List CString × PathFs) :=
  (m.split path).1.bind fun dir =>
    let name := strCopy (m.split path).2 ramfsNameMax
    (m.tree.add? dir name e).map fun tree => (dir ++ [name], { m with tree })

/-- The contents of a file. -/
def contents (path : List CString) : List UInt8 :=
  match m.tree.entry path with
  | some (.file bytes) => bytes
  | _ => []

/-- The least descriptor that is not in use. -/
def freeDesc : Option Nat := (List.range' 3 (maxFd - 3)).find? fun i => (m.desc i).isNone

/-- Set a descriptor. -/
def setDesc (i : Nat) (d : Option (List CString × Nat)) : PathFs :=
  { m with desc := Function.update m.desc i d }

@[simp] theorem setDesc_tree (i : Nat) (d : Option (List CString × Nat)) :
    (m.setDesc i d).tree = m.tree := rfl

@[simp] theorem setDesc_cwd (i : Nat) (d : Option (List CString × Nat)) :
    (m.setDesc i d).cwd = m.cwd := rfl

@[simp] theorem setDesc_desc (i : Nat) (d : Option (List CString × Nat)) :
    (m.setDesc i d).desc = Function.update m.desc i d := rfl

/-- Take a descriptor for a file. -/
def take (path : List CString) : Int × PathFs :=
  match m.tree.entry path, m.freeDesc with
  | some (.file _), some i => (i, m.setDesc i (some (path, 0)))
  | _, _ => (-1, m)

/-- A descriptor by its number. -/
def held (fd : Int) : Option (List CString × Nat) := if fd < 0 then none else m.desc fd.toNat

/-- **What a call does**, and what it answers: a number, and bytes. -/
noncomputable def exec (noMemory : Bool) : PathCall → (Int × List UInt8) × PathFs
  | .open path =>
      match m.resolve path with
      | some found => (((m.take found).1, []), (m.take found).2)
      | none =>
          match if noMemory then none else m.create path (.file []) with
          | some (made, m') => (((m'.take made).1, []), (m'.take made).2)
          | none => ((-1, []), m)
  | .close fd =>
      match m.held fd with
      | some _ => ((0, []), m.setDesc fd.toNat none)
      | none => ((-1, []), m)
  | .read fd n =>
      match m.held fd with
      | some (path, pos) =>
          let bytes := ((m.contents path).drop pos).take n
          ((bytes.length, bytes), m.setDesc fd.toNat (some (path, pos + bytes.length)))
      | none => ((-1, []), m)
  | .write fd buf =>
      match if noMemory then none else m.held fd with
      | some (path, pos) =>
          ((buf.length, []), { m with tree := m.tree.modify path (overlay · pos buf) }.setDesc
            fd.toNat (some (path, pos + buf.length)))
      | none => ((-1, []), m)
  | .mkdir path =>
      match if noMemory then none else m.create path .dir with
      | some (_, m') => ((0, []), m')
      | none => ((-1, []), m)
  | .unlink path =>
      match (m.resolve path).bind m.tree.remove? with
      | some tree => ((0, []), { m with tree })
      | none => ((-1, []), m)
  | .chdir path =>
      match m.resolve path with
      | some dir => if m.tree.entry dir = some .dir then ((0, []), { m with cwd := dir })
          else ((-1, []), m)
      | none => ((-1, []), m)

end PathFs

/-! ## Taking names off a path -/

/-- A name that is open goes on to a slash, to its 63rd byte or to the end of the path. -/
theorem namesFrom_name {opened name rest : CString} (some_byte : opened ++ name ≠ [])
    (plain : 47 ∉ name) (short : (opened ++ name).length < ramfsNameMax)
    (less : opened.length + 1 < ramfsNameMax)
    (ends : rest = [] ∨ rest.head? = some 47 ∨ (opened ++ name).length + 1 = ramfsNameMax) :
    namesFrom opened (name ++ rest) = (opened ++ name) :: namesFrom [] rest := by
  induction name generalizing opened with
  | nil =>
      rw [List.append_nil] at some_byte ends ⊢
      rw [List.nil_append]
      cases rest with
      | nil => simp [namesFrom, some_byte]
      | cons c rest =>
          rcases ends with none | slash | full
          · cases none
          · obtain rfl := Option.some.inj slash
            simp [namesFrom, some_byte]
          · omega
  | cons c name ih =>
      have other : c ≠ 47 := fun eq => plain (by simp [eq])
      have split : opened ++ c :: name = (opened ++ [c]) ++ name := by simp
      rw [split] at short ends ⊢
      rw [List.cons_append, namesFrom, if_neg other]
      by_cases full : opened.length + 2 = ramfsNameMax
      · -- the 63rd byte is the last of the name
        obtain rfl : name = [] := by
          rw [List.length_append, List.length_append, List.length_singleton] at short
          exact List.length_eq_zero_iff.mp (by omega)
        rw [if_pos full, List.append_nil, List.nil_append]
      · rw [if_neg full]
        refine ih (by simp) (fun mem => plain (List.mem_cons_of_mem c mem)) short ?_ ends
        rw [List.length_append, List.length_singleton]
        omega

/-- Slashes in front of a name are no name. -/
theorem namesFrom_dropWhile (p : CString) : namesFrom [] (p.dropWhile (· = 47)) = namesFrom [] p := by
  induction p with
  | nil => rfl
  | cons c p ih =>
      by_cases slash : c = 47
      · rw [List.dropWhile_cons_of_pos (by simpa using slash), ih, namesFrom, if_pos slash]
        rfl
      · rw [List.dropWhile_cons_of_neg (by simpa using slash)]

end Flyos
