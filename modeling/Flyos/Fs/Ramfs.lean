import Flyos.Mm.Heap
import Flyos.Lib.Overlay
import Mathlib.Logic.Function.Basic

/-!
# The RAM file system

`kernel/fs/ramfs.c`: a tree of nodes that are linked by raw pointers, with file
contents in buffers that grow by reallocation.  The functions below are the C
functions on a store of typed objects: `nodes` holds the nodes and `bufs` the data
buffers that `kmalloc` has handed out and `kfree` not taken back, by address.

`none` is undefined behaviour: a dereference of an address that holds no node, an
access outside a buffer, a `kfree` of something not allocated, or a loop that does
not end.  That none of these happens is part of what is proved.

The heap is a parameter, an `Allocator`: what the file system relies on is that
blocks are fresh, that a successful request fits the heap, and that allocation may
fail at any time.  The kernel heap is one (`kernelAllocator`).

Strings are lists of bytes up to their NUL.  `oom` is a ghost, set when `kmalloc`
has answered with null.
-/

namespace Flyos

/-- A C string without its NUL. -/
abbrev CString := List UInt8

/-- What the file system uses of `kmalloc` and `kfree`.  `live` tells the pointers
that were handed out and not freed, `junk` the bytes in a block handed out. -/
structure Allocator (H : Type*) where
  malloc : H → Nat → Nat × H
  free : H → Nat → H
  live : H → Nat → Prop
  junk : H → Nat → List UInt8
  junk_length : ∀ h n, (junk h n).length = n
  pointer : ∀ {h p}, live h p → 0 < p ∧ p < 2 ^ 64
  malloc_fresh : ∀ {h n}, ¬ live h (malloc h n).1
  malloc_live : ∀ {h n p}, live (malloc h n).2 p ↔
    ((malloc h n).1 ≠ 0 ∧ p = (malloc h n).1) ∨ live h p
  malloc_size : ∀ {h n}, (malloc h n).1 ≠ 0 → n ≤ 2 ^ 63 → n ≤ heapSize
  free_live : ∀ {h p q}, live h p → (live (free h p) q ↔ live h q ∧ q ≠ p)

/-- `node_type_t`. -/
inductive NodeType where
  | file
  | dir
  deriving DecidableEq

/-- `ramfs_node_t`. -/
structure Node where
  name : CString
  type : NodeType
  data : Nat
  size : Nat
  capacity : Nat
  parent : Nat
  children : Nat
  next : Nat
  deriving DecidableEq

/-- `RAMFS_NAME_MAX`. -/
abbrev ramfsNameMax : Nat := 64

/-- `sizeof(ramfs_node_t)`. -/
abbrev nodeSize : Nat := 120

/-- The heap, the objects in it, and the static `root` and `cwd`. -/
structure Ramfs (H : Type*) where
  heap : H
  nodes : Nat → Option Node
  bufs : Nat → Option (List UInt8)
  root : Nat
  cwd : Nat
  oom : Bool

variable {H : Type*} (A : Allocator H)

/-- A bound on the nodes of a list: there are no more pointers. -/
def walkFuel : Nat := 2 ^ 64

namespace Ramfs

variable (s : Ramfs H)

/-- `kmalloc`. -/
def kmalloc (n : Nat) : Nat × Ramfs H :=
  let r := A.malloc s.heap n
  (r.1, { s with heap := r.2, oom := s.oom || r.1 == 0 })

/-- Assign a node. -/
def setNode (p : Nat) (n : Node) : Ramfs H :=
  { s with nodes := Function.update s.nodes p (some n) }

/-- Assign a data buffer. -/
def setBuf (p : Nat) (b : List UInt8) : Ramfs H :=
  { s with bufs := Function.update s.bufs p (some b) }

@[simp] theorem setNode_nodes (p : Nat) (n : Node) :
    (s.setNode p n).nodes = Function.update s.nodes p (some n) := rfl

@[simp] theorem setBuf_nodes (p : Nat) (b : List UInt8) : (s.setBuf p b).nodes = s.nodes := rfl

@[simp] theorem setBuf_bufs (p : Nat) (b : List UInt8) :
    (s.setBuf p b).bufs = Function.update s.bufs p (some b) := rfl

/-- `kfree` of a node. -/
def freeNode (p : Nat) : Ramfs H :=
  { s with heap := A.free s.heap p, nodes := Function.update s.nodes p none }

/-- `kfree` of a data buffer. -/
def freeBuf (p : Nat) : Option (Ramfs H) :=
  (s.bufs p).map fun _ =>
    { s with heap := A.free s.heap p, bufs := Function.update s.bufs p none }

@[simp] theorem freeNode_nodes (p : Nat) :
    (s.freeNode A p).nodes = Function.update s.nodes p none := rfl

theorem freeBuf_some {s : Ramfs H} {p : Nat} {b : List UInt8} (h : s.bufs p = some b) :
    s.freeBuf A p =
      some { s with heap := A.free s.heap p, bufs := Function.update s.bufs p none } := by
  rw [freeBuf, h]
  rfl

end Ramfs

/-- `str_eq`. -/
def strEq : CString → CString → Bool
  | [], [] => true
  | a :: as, b :: bs => a == b && strEq as bs
  | _, _ => false

/-- `str_copy` into `n` bytes. -/
def strCopy (src : CString) (n : Nat) : CString := src.take (n - 1)

/-- `node_alloc`. -/
def nodeAlloc (s : Ramfs H) (type : NodeType) (name : CString) (parent : Nat) :
    Nat × Ramfs H :=
  let r := s.kmalloc A nodeSize
  if r.1 = 0 then (0, r.2)
  else
    (r.1, r.2.setNode r.1
      { name := strCopy name ramfsNameMax, type, parent
        children := 0, next := 0, data := 0, size := 0, capacity := 0 })

/-- `ramfs_init`. -/
def ramfsInit (s : Ramfs H) : Ramfs H :=
  let r := nodeAlloc A s .dir [47] 0
  { r.2 with root := r.1, cwd := r.1 }

/-- The loop of `ramfs_find_child`. -/
def findChildLoop (s : Ramfs H) (name : CString) : Nat → Nat → Option Nat
  | 0, _ => none
  | fuel + 1, c =>
      if c = 0 then some 0
      else (s.nodes c).bind fun n =>
        if strEq n.name name then some c else findChildLoop s name fuel n.next

/-- `ramfs_find_child`. -/
def ramfsFindChild (s : Ramfs H) (dir : Nat) (name : CString) : Option Nat :=
  if dir = 0 then some 0
  else (s.nodes dir).bind fun d =>
    if d.type ≠ .dir then some 0 else findChildLoop s name walkFuel d.children

/-- The name `ramfs_lookup` cuts off the front of a path. -/
def takeName (p : CString) : CString := (p.takeWhile (· ≠ 47)).take (ramfsNameMax - 1)

/-- The loop of `ramfs_lookup`, standing at node `cur` with `p` to go. -/
def lookupLoop (s : Ramfs H) : Nat → Nat → CString → Option Nat
  | 0, _, _ => none
  | fuel + 1, cur, p =>
      if p = [] then some cur
      else
        let name := takeName p
        let rest := (p.drop name.length).dropWhile (· = 47)
        if name = [] then lookupLoop s fuel cur rest
        else if name = [46] then lookupLoop s fuel cur rest
        else (s.nodes cur).bind fun n =>
          if name = [46, 46] then
            lookupLoop s fuel (if n.parent ≠ 0 then n.parent else cur) rest
          else if n.type ≠ .dir then some 0
          else (ramfsFindChild s cur name).bind fun child =>
            if child = 0 then some 0 else lookupLoop s fuel child rest

/-- `ramfs_lookup`. -/
def ramfsLookup (s : Ramfs H) (path : CString) : Option Nat :=
  match path with
  | [] => some 0
  | c :: p =>
      if c = 47 then lookupLoop s (path.length + 1) s.root p
      else lookupLoop s (path.length + 1) s.cwd path

/-- `ramfs_create_file` and `ramfs_mkdir`, which differ in the type only. -/
def createNode (type : NodeType) (s : Ramfs H) (dir : Nat) (name : CString) :
    Option (Nat × Ramfs H) :=
  if dir = 0 then some (0, s)
  else (s.nodes dir).bind fun d =>
    if d.type ≠ .dir then some (0, s)
    else (ramfsFindChild s dir name).bind fun found =>
      if found ≠ 0 then some (0, s)
      else
        let r := nodeAlloc A s type name dir
        if r.1 = 0 then some (0, r.2)
        else (r.2.nodes dir).bind fun d => (r.2.nodes r.1).bind fun n =>
          -- n->next = dir->children, then dir->children = n
          some (r.1, (r.2.setNode r.1 { n with next := d.children }).setNode dir
            { d with children := r.1 })

/-- `ramfs_create_file`. -/
def ramfsCreateFile (s : Ramfs H) (dir : Nat) (name : CString) : Option (Nat × Ramfs H) :=
  createNode A .file s dir name

/-- `ramfs_mkdir`. -/
def ramfsMkdir (s : Ramfs H) (dir : Nat) (name : CString) : Option (Nat × Ramfs H) :=
  createNode A .dir s dir name

/-- What a `ramfs_node_t**` of `ramfs_unlink_node` points to. -/
inductive Link where
  | children (dir : Nat)
  | next (node : Nat)

/-- `*pp`. -/
def Link.read (s : Ramfs H) : Link → Option Nat
  | .children dir => (s.nodes dir).map Node.children
  | .next node => (s.nodes node).map Node.next

/-- `*pp = v`. -/
def Link.write (s : Ramfs H) (v : Nat) : Link → Option (Ramfs H)
  | .children dir => (s.nodes dir).map fun n => s.setNode dir { n with children := v }
  | .next node => (s.nodes node).map fun n => s.setNode node { n with next := v }

/-- The loop of `ramfs_unlink_node`. -/
def unlinkLoop (s : Ramfs H) (node : Nat) : Nat → Link → Option Link
  | 0, _ => none
  | fuel + 1, pp =>
      (pp.read s).bind fun v =>
        if v ≠ 0 ∧ v ≠ node then unlinkLoop s node fuel (.next v) else some pp

/-- `ramfs_unlink_node`. -/
def ramfsUnlinkNode (s : Ramfs H) (node : Nat) : Option (Int × Ramfs H) :=
  if node = 0 then some (-1, s)
  else (s.nodes node).bind fun n =>
    if n.parent = 0 then some (-1, s)
    else if n.type = .dir ∧ n.children ≠ 0 then some (-1, s)
    else (unlinkLoop s node walkFuel (.children n.parent)).bind fun pp =>
      (pp.read s).bind fun v =>
        if v = 0 then some (-1, s)
        else (pp.write s n.next).bind fun s =>
          (if n.data ≠ 0 then s.freeBuf A n.data else some s).map fun s => (0, s.freeNode A node)

/-- The loop `while (new_cap < need) new_cap *= 2` of `ramfs_write`.  After 64
doublings the value is 0 and stays 0. -/
def growCap (need : Nat) : Nat → Nat → Option Nat
  | 0, _ => none
  | fuel + 1, cap => if cap < need then growCap need fuel (cap * 2 % 2 ^ 64) else some cap

/-- A loop that copies `src` to position `off` of a buffer. -/
def splice (b : List UInt8) (off : Nat) (src : List UInt8) : Option (List UInt8) :=
  if src = [] then some b
  else if off + src.length ≤ b.length then some (overlay b off src)
  else none

/-- `ramfs_write` moves the contents of `f`, if it has a buffer, to the new one at
`nd` and frees the old one. -/
def moveData (s : Ramfs H) (f : Node) (nd : Nat) : Option (Ramfs H) :=
  if f.data = 0 then some s
  else (s.bufs f.data).bind fun old => (s.bufs nd).bind fun new =>
    if f.size ≤ old.length then
      (splice new 0 (old.take f.size)).bind fun copied => (s.setBuf nd copied).freeBuf A f.data
    else none

/-- The reallocation in `ramfs_write`: whether it succeeded, and what it leaves. -/
def ramfsGrow (s : Ramfs H) (f : Nat) (n : Node) (need : Nat) : Option (Bool × Ramfs H) :=
  if need ≤ n.capacity then some (true, s)
  else (growCap need 65 (if n.capacity ≠ 0 then n.capacity else 64)).bind fun newCap =>
    let nd := s.kmalloc A newCap
    if nd.1 = 0 then some (false, nd.2)
    else
      (moveData A (nd.2.setBuf nd.1 (A.junk s.heap newCap)) n nd.1).map fun s =>
        (true, s.setNode f { n with data := nd.1, capacity := newCap })

/-- A value converted to `int`. -/
def toInt32 (n : Nat) : Int := (BitVec.ofNat 32 n).toInt

/-- `ramfs_write` after it has made room: the copy, and the new size. -/
def putData (s : Ramfs H) (f : Nat) (buf : List UInt8) (off need : Nat) : Option (Ramfs H) :=
  (s.nodes f).bind fun n =>
    (if buf = [] then some s
      else (s.bufs n.data).bind fun b => (splice b off buf).map (s.setBuf n.data)).map fun s =>
        if n.size < need then s.setNode f { n with size := need } else s

/-- `ramfs_write` of the bytes `buf`. -/
def ramfsWrite (s : Ramfs H) (f : Nat) (buf : List UInt8) (off : Nat) :
    Option (Int × Ramfs H) :=
  if f = 0 then some (-1, s)
  else (s.nodes f).bind fun n =>
    if n.type ≠ .file then some (-1, s)
    else
      let need := (off + buf.length) % 2 ^ 64
      (ramfsGrow A s f n need).bind fun r =>
        if r.1 = false then some (-1, r.2)
        else (putData r.2 f buf off need).map fun s => (toInt32 buf.length, s)

/-- `ramfs_read` of `n` bytes: the result and the bytes delivered. -/
def ramfsRead (s : Ramfs H) (f : Nat) (n off : Nat) : Option (Int × List UInt8) :=
  if f = 0 then some (-1, [])
  else (s.nodes f).bind fun nd =>
    if nd.type ≠ .file then some (-1, [])
    else if nd.size ≤ off then some (0, [])
    else
      let n := min n (nd.size - off)
      if n = 0 then some (0, [])
      else (s.bufs nd.data).bind fun b =>
        if off + n ≤ b.length then some (toInt32 n, (b.drop off).take n) else none

end Flyos
