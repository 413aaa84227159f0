import Flyos.Fs.Allocators
import Flyos.Fs.Deserialize

/-!
# Runs of the RAM file system

A run is a sequence of operations on nodes of the tree, from what `ramfs_init`
leaves, over any allocator.  In every state reached the pointers form a tree with
buffers of its own (`TreeInvariant`), every operation is defined, and one that
reports failure has changed nothing (`ramfsRun_invariant`).
-/

namespace Flyos

variable {H : Type*} {A : Allocator H} {s t : Ramfs H} {kids : Nat → List Nat}
  {depth : Nat → Nat}

/-- Before `ramfs_init`. -/
def Ramfs.empty (h : H) : Ramfs H := ⟨h, fun _ => none, fun _ => none, 0, 0, false⟩

/-- The operations on nodes. -/
inductive RamfsCall where
  | createFile (dir : Nat) (name : CString)
  | mkdir (dir : Nat) (name : CString)
  | unlink (node : Nat)
  | write (f : Nat) (buf : List UInt8) (off : Nat)
  | deserialize (input : List UInt8)

/-- One operation, with its result. -/
def ramfsExec (A : Allocator H) (s : Ramfs H) : RamfsCall → Option (Int × Ramfs H)
  | .createFile dir name => (ramfsCreateFile A s dir name).map fun r => (r.1, r.2)
  | .mkdir dir name => (ramfsMkdir A s dir name).map fun r => (r.1, r.2)
  | .unlink node => ramfsUnlinkNode A s node
  | .write f buf off => ramfsWrite A s f buf off
  | .deserialize input => ramfsDeserialize A s input

/-- A node is in the tree when the links lead to it from the root. -/
inductive InTree (s : Ramfs H) : Nat → Prop
  | root {n : Node} : s.nodes s.root = some n → InTree s s.root
  | child {p c : Nat} {n : Node} {l : List Nat} : InTree s p → s.nodes p = some n →
      LinkChain (nextOf s.nodes) (· = 0) n.children l → c ∈ l → InTree s c

/-- The operation is applied to a node of the tree, and a write ends by `2 ^ 63`. -/
def RamfsCall.OnTree (s : Ramfs H) : RamfsCall → Prop
  | .createFile dir _ => InTree s dir
  | .mkdir dir _ => InTree s dir
  | .unlink node => InTree s node
  | .write f buf off => InTree s f ∧ off + buf.length ≤ 2 ^ 63
  | .deserialize _ => True

/-- The result reports failure for a node: null, or -1. -/
def RamfsCall.Failed (r : Int) : RamfsCall → Prop
  | .createFile _ _ => r = 0
  | .mkdir _ _ => r = 0
  | .unlink _ => r = -1
  | .write _ _ _ => r = -1
  | .deserialize _ => False

/-- One operation on the tree. -/
def RamfsStep (A : Allocator H) (s : Ramfs H) (c : RamfsCall) (t : Ramfs H) : Prop :=
  c.OnTree s ∧ ∃ r, ramfsExec A s c = some (r, t)

/-- What holds of the pointers, `kids p` being the child list of node `p`. -/
structure TreeInvariant (s : Ramfs H) (kids : Nat → List Nat) : Prop where
  /-- The walk over the children of a node visits `kids` and ends. -/
  lists : ∀ {p n}, s.nodes p = some n → LinkChain (nextOf s.nodes) (· = 0) n.children (kids p)
  /-- It visits no child twice. -/
  once : ∀ {p n}, s.nodes p = some n → (kids p).Nodup
  /-- What it visits are nodes whose parent pointer leads back. -/
  back : ∀ {p n c}, s.nodes p = some n → c ∈ kids p → ∃ m, s.nodes c = some m ∧ m.parent = p
  /-- A node other than the root is in the child list of its parent and in no other. -/
  listed : ∀ {c m}, s.nodes c = some m → c ≠ s.root →
    (∃ n, s.nodes m.parent = some n) ∧
      ∀ {p n}, s.nodes p = some n → (c ∈ kids p ↔ p = m.parent)
  unlisted : ∀ {p n}, s.nodes p = some n → s.root ∉ kids p
  /-- Only directories have children. -/
  dirs : ∀ {p n}, s.nodes p = some n → n.children ≠ 0 → n.type = .dir
  root : s.root ≠ 0 → ∃ n, s.nodes s.root = some n ∧ n.type = .dir
  /-- There are no other nodes than those of the tree. -/
  reached : ∀ {p n}, s.nodes p = some n → InTree s p
  sizes : ∀ {p n}, s.nodes p = some n → n.size ≤ n.capacity ∧
    (0 < n.capacity → n.data ≠ 0 ∧ ∃ b, s.bufs n.data = some b ∧ b.length = n.capacity)
  own : ∀ {p q n m}, s.nodes p = some n → s.nodes q = some m → n.data ≠ 0 → n.data = m.data → p = q

/-! ## The invariant says so -/

/-- The nodes of the tree are the nodes. -/
theorem Links.inTree_iff (links : Links s.nodes s.root kids depth) {p : Nat} :
    InTree s p ↔ ∃ n, s.nodes p = some n := by
  constructor
  · intro reached
    induction reached with
    | root h => exact ⟨_, h⟩
    | child _ at_p chain mem _ =>
        rw [chain.unique (links.chain at_p)] at mem
        obtain ⟨⟨m, at_c, -⟩, -⟩ := links.mem_kids at_p mem
        exact ⟨m, at_c⟩
  · -- by induction on the level: the parent lies one level above
    rintro ⟨n, at_p⟩
    induction level : depth p using Nat.strongRecOn generalizing p n with
    | _ k ih =>
        by_cases top : p = s.root
        · rw [top] at at_p ⊢
          exact .root at_p
        obtain ⟨⟨d, at_q⟩, mem⟩ := links.parent at_p top
        obtain ⟨-, m, -, -, deeper⟩ := links.child at_q mem
        exact .child (ih (depth n.parent) (by omega) d at_q rfl) at_q (links.chain at_q) mem

/-- The invariant of the tree, in the words of the C structures. -/
theorem RamfsInv.tree (inv : RamfsInv A s kids depth) : TreeInvariant s kids := by
  obtain ⟨links, bufs⟩ := inv
  refine ⟨links.chain, links.nodup, fun h mem => (links.mem_kids h mem).1, fun {c m} h other => ?_,
    links.root_notMem, fun {p n} h some_child => ?_, fun _ => ?_, fun h =>
      links.inTree_iff.mpr ⟨_, h⟩, fun {p n} h => ⟨(bufs.size_le h).1, fun cap => ?_⟩, bufs.own⟩
  · obtain ⟨⟨n, at_p⟩, mem⟩ := links.parent h other
    refine ⟨⟨n, at_p⟩, fun {q a} hq => ⟨fun mem' => links.kids_disjoint hq at_p mem' mem, ?_⟩⟩
    rintro rfl
    exact mem
  · cases list : kids p with
    | nil =>
        have chain := links.chain h
        rw [list] at chain
        exact absurd chain some_child
    | cons c l => exact (links.child h (list ▸ List.mem_cons_self : c ∈ kids p)).1
  · obtain ⟨n, h, dir, -⟩ := links.top
    exact ⟨n, h, dir⟩
  · rcases bufs.held h with ⟨-, zero, -⟩ | ⟨nonnull, b, held, length, -⟩
    · omega
    · exact ⟨nonnull, b, held, length⟩

/-- A file system whose `ramfs_init` found no memory: no root and no nodes. -/
structure Rootless (s : Ramfs H) : Prop where
  root : s.root = 0
  nodes : ∀ p, s.nodes p = none

theorem Rootless.tree (none : Rootless s) : TreeInvariant s fun _ => [] := by
  have absent : ∀ {p n}, s.nodes p ≠ some n := fun {p n} h => by rw [none.nodes p] at h; cases h
  exact ⟨fun h => absurd h absent, fun h => absurd h absent, fun h => absurd h absent,
    fun h => absurd h absent, fun h => absurd h absent, fun h => absurd h absent,
    fun nonnull => absurd none.root nonnull, fun h => absurd h absent, fun h => absurd h absent,
    fun h => absurd h absent⟩

/-! ## Steps and runs -/

/-- `ramfs_init` makes the root, or finds no memory. -/
theorem ramfsInit_spec (h : H) :
    (∃ depth, RamfsInv A (ramfsInit A (Ramfs.empty h)) (fun _ => []) depth) ∨
      Rootless (ramfsInit A (Ramfs.empty h)) := by
  obtain ⟨c, t, got⟩ : ∃ c t, (Ramfs.empty h).kmalloc A nodeSize = (c, t) := ⟨_, _, rfl⟩
  have nodes : t.nodes = fun _ => none := by
    rw [show t = ((Ramfs.empty h).kmalloc A nodeSize).2 by rw [got]]
    rfl
  have bufs : t.bufs = fun _ => none := by
    rw [show t = ((Ramfs.empty h).kmalloc A nodeSize).2 by rw [got]]
    rfl
  by_cases full : c = 0
  · right
    have null : ((Ramfs.empty h).kmalloc A nodeSize).1 = 0 := by rw [got]; exact full
    rw [ramfsInit, nodeAlloc_null null, got]
    exact ⟨rfl, fun p => congrFun nodes p⟩
  · left
    have live : A.live t.heap c := by
      have pair : c = (A.malloc h nodeSize).1 ∧ t.heap = (A.malloc h nodeSize).2 :=
        ⟨(congrArg Prod.fst got).symm, (congrArg (fun r => r.2.heap) got).symm⟩
      rw [pair.2, pair.1]
      exact A.malloc_live.mpr (.inl ⟨pair.1 ▸ full, rfl⟩)
    rw [ramfsInit, nodeAlloc_node got full]
    have only : ∀ {p n}, (t.setNode c (newNode .dir [47] 0 0)).nodes p = some n →
        p = c ∧ n = newNode .dir [47] 0 0 := by
      intro p n h
      rw [Ramfs.setNode_nodes, nodes] at h
      by_cases here : p = c
      · rw [here, Function.update_self, Option.some.injEq] at h
        exact ⟨here, h.symm⟩
      · rw [Function.update_of_ne here] at h
        cases h
    have no_buf : ∀ {a b}, t.bufs a ≠ some b := fun {a b} h => by rw [bufs] at h; cases h
    refine ⟨fun _ => 0, ⟨?_, ⟨_, Function.update_self .., rfl, rfl⟩, fun h => ?_, fun _ mem => ?_,
      fun h other => absurd (only h).1 other⟩, fun h => ?_, fun h => ?_, fun h h' _ _ => ?_,
      fun h => ?_, fun h => absurd h no_buf, fun h => ?_⟩
    · rw [Ramfs.setNode_nodes, Function.update_of_ne (Ne.symm full), nodes]
    · rw [(only h).2]
      rfl
    · cases mem
    · rw [(only h).2]
      exact .inl ⟨rfl, rfl, rfl⟩
    · rw [(only h).2]
      exact .inl rfl
    · exact (only h).1.trans (only h').1.symm
    · rw [(only h).1]
      exact live
    · change t.bufs _ = none
      rw [bufs]

/-- **One operation** on a tree: it is defined, leaves a tree with the same root, and
a failure leaves everything as it was. -/
theorem ramfsExec_spec (inv : RamfsInv A s kids depth) (c : RamfsCall) (on : c.OnTree s) :
    ∃ r t, ramfsExec A s c = some (r, t) ∧ (∃ kids depth, RamfsInv A t kids depth) ∧
      t.root = s.root ∧ (c.Failed r → SameFiles s t) := by
  cases c with
  | createFile dir name =>
      obtain ⟨d, at_p⟩ := inv.links.inTree_iff.mp on
      obtain ⟨c, t, ran, ⟨-, files, inv', -⟩ | ⟨nonnull, -, -, -, -, -, -, root, -, -, inv'⟩⟩ :=
        createNode_spec inv at_p .file name
      · exact ⟨c, t, by simp [ramfsExec, ramfsCreateFile, ran], ⟨_, _, inv'⟩, files.root,
          fun _ => files⟩
      · exact ⟨c, t, by simp [ramfsExec, ramfsCreateFile, ran], ⟨_, _, inv'⟩, root,
          fun failed => absurd (Int.ofNat_eq_zero.mp failed) nonnull⟩
  | mkdir dir name =>
      obtain ⟨d, at_p⟩ := inv.links.inTree_iff.mp on
      obtain ⟨c, t, ran, ⟨-, files, inv', -⟩ | ⟨nonnull, -, -, -, -, -, -, root, -, -, inv'⟩⟩ :=
        createNode_spec inv at_p .dir name
      · exact ⟨c, t, by simp [ramfsExec, ramfsMkdir, ran], ⟨_, _, inv'⟩, files.root,
          fun _ => files⟩
      · exact ⟨c, t, by simp [ramfsExec, ramfsMkdir, ran], ⟨_, _, inv'⟩, root,
          fun failed => absurd (Int.ofNat_eq_zero.mp failed) nonnull⟩
  | unlink node =>
      obtain ⟨n, at_c⟩ := inv.links.inTree_iff.mp on
      rcases ramfsUnlinkNode_spec inv at_c with ⟨-, ran⟩ | ⟨-, -, t, ran, rest, inv'⟩
      · exact ⟨-1, s, ran, ⟨_, _, inv⟩, rfl, fun _ => ⟨rfl, rfl, rfl, rfl⟩⟩
      · exact ⟨0, t, ran, ⟨_, _, inv'⟩, rest.root,
          fun failed => absurd failed (by decide : ¬ (0 : Int) = -1)⟩
  | write f buf off =>
      obtain ⟨n, at_f⟩ := inv.links.inTree_iff.mp on.1
      obtain ⟨t, inv', ⟨ran, files, -⟩ | ⟨-, ran, written⟩⟩ := ramfsWrite_spec inv at_f on.2
      · exact ⟨-1, t, ran, ⟨_, _, inv'⟩, files.root, fun _ => files⟩
      · refine ⟨_, t, ran, ⟨_, _, inv'⟩, written.root, fun failed => ?_⟩
        change (buf.length : Int) = -1 at failed
        omega
  | deserialize input =>
      obtain ⟨r, t, ran, ext⟩ := ramfsDeserialize_spec inv input
      exact ⟨r, t, ran, ext.inv, ext.root, fun failed => failed.elim⟩

/-- Without a root only `ramfs_deserialize` can be applied, and it does nothing. -/
theorem ramfsExec_rootless (none : Rootless s) (c : RamfsCall) (on : c.OnTree s) :
    ∃ r, ramfsExec A s c = some (r, s) := by
  have absent : ∀ {p}, ¬ InTree s p := by
    intro p reached
    induction reached with
    | root h => rw [none.nodes] at h; cases h
    | child _ _ _ _ ih => exact ih
  cases c with
  | createFile dir name => exact absurd on absent
  | mkdir dir name => exact absurd on absent
  | unlink node => exact absurd on absent
  | write f buf off => exact absurd on.1 absent
  | deserialize input => exact ramfsDeserialize_null none.root input

/-- Every run leaves a tree under the root `ramfs_init` made, if it made one. -/
theorem ramfsRun_inv {h : H} {cs : List RamfsCall} {s : Ramfs H}
    (run : Run (RamfsStep A) (ramfsInit A (Ramfs.empty h)) cs s) :
    s.root = (ramfsInit A (Ramfs.empty h)).root ∧
      ((∃ kids depth, RamfsInv A s kids depth) ∨ Rootless s) := by
  refine run.invariant (fun s => s.root = (ramfsInit A (Ramfs.empty h)).root ∧
    ((∃ kids depth, RamfsInv A s kids depth) ∨ Rootless s)) ?_
    ⟨rfl, (ramfsInit_spec h).imp (fun ⟨depth, inv⟩ => ⟨_, depth, inv⟩) id⟩
  rintro s c t ⟨root, ⟨kids, depth, inv⟩ | none⟩ ⟨on, r, ran⟩
  · obtain ⟨r', t', ran', inv', root', -⟩ := ramfsExec_spec inv c on
    obtain ⟨-, rfl⟩ := Prod.mk.inj (Option.some.inj (ran.symm.trans ran'))
    exact ⟨root'.trans root, .inl inv'⟩
  · obtain ⟨r', ran'⟩ := ramfsExec_rootless (A := A) none c on
    obtain ⟨-, rfl⟩ := Prod.mk.inj (Option.some.inj (ran.symm.trans ran'))
    exact ⟨root, .inr none⟩

/-- **The tree is kept.**  In every state of every run from `ramfs_init`, whichever allocations
fail, the pointers form a tree under the same root; and there every operation on the tree is
defined, and changes nothing if it reports failure.  The memory of the nodes comes from any
allocator that keeps to the rules of `Allocator`, of which the kernel heap is one. -/
theorem ramfsRun_invariant {h : H} {cs : List RamfsCall} {s : Ramfs H}
    (run : Run (RamfsStep A) (ramfsInit A (Ramfs.empty h)) cs s) :
    s.root = (ramfsInit A (Ramfs.empty h)).root ∧ (∃ kids, TreeInvariant s kids) ∧
      ∀ c : RamfsCall, c.OnTree s →
        ∃ r t, ramfsExec A s c = some (r, t) ∧ (c.Failed r → SameFiles s t) := by
  obtain ⟨root, ⟨kids, depth, inv⟩ | none⟩ := ramfsRun_inv run
  · refine ⟨root, ⟨kids, inv.tree⟩, fun c on => ?_⟩
    obtain ⟨r, t, ran, -, -, failed⟩ := ramfsExec_spec inv c on
    exact ⟨r, t, ran, failed⟩
  · refine ⟨root, ⟨_, none.tree⟩, fun c on => ?_⟩
    obtain ⟨r, ran⟩ := ramfsExec_rootless (A := A) none c on
    exact ⟨r, s, ran, fun _ => ⟨rfl, rfl, rfl, rfl⟩⟩

/-- The tree after a file `a` and a directory `b` are made in the root. -/
theorem ramfsRun_invariant_ab :
    ∃ s : Ramfs CountingHeap, Run (RamfsStep countingAllocator)
        (ramfsInit countingAllocator (Ramfs.empty CountingHeap.empty))
        [.createFile 1 [97], .mkdir 1 [98]] s ∧
      (s.nodes 3).map Node.next = some 2 ∧ ∃ kids, TreeInvariant s kids := by
  have top : ∀ {s : Ramfs CountingHeap} {n : Node}, s.root = 1 → s.nodes 1 = some n →
      InTree s 1 := fun {s n} root at_root => by
    have reached : InTree s s.root := .root (root ▸ at_root)
    rwa [root] at reached
  have run : ∃ s : Ramfs CountingHeap, Run (RamfsStep countingAllocator)
        (ramfsInit countingAllocator (Ramfs.empty CountingHeap.empty))
        [.createFile 1 [97], .mkdir 1 [98]] s ∧ (s.nodes 3).map Node.next = some 2 :=
    ⟨_, .cons ⟨top rfl rfl, _, rfl⟩ (.single ⟨top rfl rfl, _, rfl⟩), rfl⟩
  obtain ⟨s, run, next⟩ := run
  exact ⟨s, run, next, (ramfsRun_invariant run).2.1⟩

/-- The file system after `ramfs_init`, on a heap that counts up. -/
def freshRoot : Ramfs CountingHeap := ramfsInit countingAllocator (Ramfs.empty CountingHeap.empty)

theorem freshRoot_inv : ∃ depth, RamfsInv countingAllocator freshRoot (fun _ => []) depth := by
  rcases ramfsInit_spec (A := countingAllocator) CountingHeap.empty with inv | none
  · exact inv
  · exact absurd none.root (by decide)

/-- The tree after a call that creates a node. -/
def Ramfs.created {H : Type*} (A : Allocator H) (s : Ramfs H) (type : NodeType) (p : Nat)
    (name : CString) : Ramfs H :=
  ((createNode A type s p name).map Prod.snd).getD s

/-- It is well formed, created or not. -/
theorem RamfsInv.created {H : Type*} {A : Allocator H} {s : Ramfs H} {kids : Nat → List Nat}
    {depth : Nat → Nat} (inv : RamfsInv A s kids depth) {p : Nat} {d : Node}
    (at_p : s.nodes p = some d) (type : NodeType) (name : CString) :
    ∃ kids depth, RamfsInv A (s.created A type p name) kids depth := by
  obtain ⟨c, t, ran, ⟨-, -, inv', -⟩ | ⟨-, -, -, -, -, -, -, -, -, -, inv'⟩⟩ :=
    createNode_spec inv at_p type name
  · exact ⟨kids, depth, by rw [Ramfs.created, ran]; exact inv'⟩
  · exact ⟨_, _, by rw [Ramfs.created, ran]; exact inv'⟩

/-- Created names are short. -/
theorem createdShort {H : Type*} {A : Allocator H} {s : Ramfs H} {kids : Nat → List Nat}
    {depth : Nat → Nat} (inv : RamfsInv A s kids depth)
    (short : ∀ c n, s.nodes c = some n → n.name.length < ramfsNameMax) {p : Nat} {d : Node}
    (at_p : s.nodes p = some d) (type : NodeType) (name : CString) (c : Nat) (n : Node)
    (at_c : (s.created A type p name).nodes c = some n) : n.name.length < ramfsNameMax := by
  obtain ⟨x, t, ran, ⟨-, files, -⟩ | ⟨-, -, -, -, -, nodes, -⟩⟩ :=
    createNode_spec inv at_p type name
  · rw [Ramfs.created, ran, Option.map_some, Option.getD_some, files.nodes] at at_c
    exact short c n at_c
  · rw [Ramfs.created, ran, Option.map_some, Option.getD_some, nodes] at at_c
    rcases withChild_some at_p at_c with ⟨-, rfl⟩ | ⟨n', at_c', eq⟩
    · exact Nat.lt_of_le_of_lt (List.length_take_le _ _) (by decide)
    · rw [eq]
      exact short c n' at_c'

/-- The name of the root is short. -/
theorem freshRoot_short (c : Nat) (n : Node) (at_c : freshRoot.nodes c = some n) :
    n.name.length < ramfsNameMax := by
  have nodes : freshRoot.nodes = Function.update (fun _ => none) 1 (some (newNode .dir [47] 0 0)) :=
    rfl
  rw [nodes] at at_c
  by_cases root : c = 1
  · rw [root, Function.update_self] at at_c
    cases at_c
    decide
  · rw [Function.update_of_ne root] at at_c
    cases at_c

/-- A file `a` in it. -/
def oneFile : Ramfs CountingHeap :=
  ((ramfsCreateFile countingAllocator freshRoot 1 [97]).map Prod.snd).getD freshRoot

theorem oneFile_inv : ∃ kids depth, RamfsInv countingAllocator oneFile kids depth := by
  obtain ⟨depth, inv⟩ := freshRoot_inv
  exact inv.created (rfl : freshRoot.nodes 1 = some (newNode .dir [47] 0 0)) .file [97]

end Flyos
