import Flyos.Fs.RamfsTree

/-!
# The invariant of the RAM file system

`RamfsInv` joins the tree (`Links`) with what holds of buffers (`Buffers`): a node
has a buffer of its capacity or none, no two nodes have the same one, and every
object lies in a block of its own that the heap has handed out.

Each operation has one specification: that it is defined on a node of the tree,
what it answers, what it leaves, and that the invariant holds afterwards.
`fileBytes` is what a file contains, read through its buffer.
-/

namespace Flyos

variable {H : Type*} {A : Allocator H}

/-- Data buffers and the heap. -/
structure Buffers (A : Allocator H) (s : Ramfs H) : Prop where
  held : ∀ {p n}, s.nodes p = some n → (n.data = 0 ∧ n.capacity = 0 ∧ n.size = 0) ∨
    n.data ≠ 0 ∧ ∃ b, s.bufs n.data = some b ∧ b.length = n.capacity ∧ n.size ≤ n.capacity
  caps : ∀ {p n}, s.nodes p = some n →
    n.capacity = 0 ∨ (∃ j, n.capacity = 64 * 2 ^ j) ∧ n.capacity ≤ heapSize
  own : ∀ {p q n m}, s.nodes p = some n → s.nodes q = some m → n.data ≠ 0 →
    n.data = m.data → p = q
  nodeLive : ∀ {p n}, s.nodes p = some n → A.live s.heap p
  bufLive : ∀ {d b}, s.bufs d = some b → A.live s.heap d
  apart : ∀ {p n}, s.nodes p = some n → s.bufs p = none

/-- A tree with its buffers. -/
structure RamfsInv (A : Allocator H) (s : Ramfs H) (kids : Nat → List Nat)
    (depth : Nat → Nat) : Prop where
  links : Links s.nodes s.root kids depth
  bufs : Buffers A s

/-- What a file contains. -/
def fileBytes (s : Ramfs H) (p : Nat) : List UInt8 :=
  (s.nodes p).elim [] fun n => ((s.bufs n.data).getD []).take n.size

/-- Two states with the same tree and the same contents. -/
structure SameFiles (s t : Ramfs H) : Prop where
  nodes : t.nodes = s.nodes
  bufs : t.bufs = s.bufs
  root : t.root = s.root
  cwd : t.cwd = s.cwd

variable {s : Ramfs H} {kids : Nat → List Nat} {depth : Nat → Nat}

/-- A list of nodes is shorter than the loops allow for. -/
theorem RamfsInv.kids_length (inv : RamfsInv A s kids depth) {p : Nat} {n : Node}
    (at_p : s.nodes p = some n) : (kids p).length < walkFuel :=
  length_lt_walkFuel (inv.links.nodup at_p) fun _ mem => by
    obtain ⟨⟨m, at_x, -⟩, -⟩ := inv.links.mem_kids at_p mem
    exact A.pointer (inv.bufs.nodeLive at_x)

/-- `ramfs_find_child`. -/
theorem ramfsFindChild_spec (inv : RamfsInv A s kids depth) {p : Nat} {d : Node}
    (at_p : s.nodes p = some d) (name : CString) :
    ∃ r, ramfsFindChild s p name = some r ∧
      ((r = 0 ∧ ∀ c ∈ kids p, ∀ n, s.nodes c = some n → n.name ≠ name) ∨
        r ∈ kids p ∧ ∃ n, s.nodes r = some n ∧ n.name = name) := by
  have nonnull : p ≠ 0 := fun eq => by rw [eq, inv.links.null] at at_p; cases at_p
  simp only [ramfsFindChild, if_neg nonnull, at_p, Option.bind_some]
  by_cases file : d.type = .dir
  · rw [if_neg (not_not.mpr file)]
    exact findChildLoop_spec (inv.links.chain at_p)
      (fun x mem => by
        obtain ⟨⟨m, at_x, -⟩, -⟩ := inv.links.mem_kids at_p mem
        exact ⟨m, at_x⟩) (inv.kids_length at_p)
  · rw [if_pos file]
    exact ⟨0, rfl, .inl ⟨rfl, fun c mem => absurd (inv.links.child at_p mem).1 file⟩⟩

/-! ## Allocation -/

/-- An allocation changes nothing but the heap, and hands out an unused block. -/
theorem kmalloc_keeps (inv : RamfsInv A s kids depth) (n : Nat) :
    SameFiles s (s.kmalloc A n).2 ∧ RamfsInv A (s.kmalloc A n).2 kids depth ∧
      (s.kmalloc A n).2.oom = (s.oom || (s.kmalloc A n).1 == 0) ∧
      ((s.kmalloc A n).1 ≠ 0 → s.nodes (s.kmalloc A n).1 = none ∧
        s.bufs (s.kmalloc A n).1 = none ∧
        A.live (s.kmalloc A n).2.heap (s.kmalloc A n).1) := by
  have more : ∀ {p}, A.live s.heap p → A.live (s.kmalloc A n).2.heap p := fun live =>
    A.malloc_live.mpr (.inr live)
  refine ⟨⟨rfl, rfl, rfl, rfl⟩, ⟨inv.links, inv.bufs.held, inv.bufs.caps, inv.bufs.own,
    fun h => more (inv.bufs.nodeLive h), fun h => more (inv.bufs.bufLive h), inv.bufs.apart⟩,
    rfl, fun nonnull => ⟨?_, ?_, A.malloc_live.mpr (.inl ⟨nonnull, rfl⟩)⟩⟩
  · by_contra used
    obtain ⟨m, h⟩ := Option.ne_none_iff_exists'.mp used
    exact A.malloc_fresh (inv.bufs.nodeLive h)
  · by_contra used
    obtain ⟨b, h⟩ := Option.ne_none_iff_exists'.mp used
    exact A.malloc_fresh (inv.bufs.bufLive h)

/-! ## Creation -/

/-- The node `node_alloc` makes, after `ramfs_create_file` or `ramfs_mkdir` linked it. -/
def newNode (type : NodeType) (name : CString) (parent next : Nat) : Node :=
  { name := strCopy name ramfsNameMax, type, parent, next
    children := 0, data := 0, size := 0, capacity := 0 }

/-- The nodes after a creation in directory `p`, whose node is `d`. -/
def withChild (nodes : Nat → Option Node) (p c : Nat) (d m : Node) : Nat → Option Node :=
  Function.update (Function.update nodes c (some m)) p (some { d with children := c })

/-- The child lists after it. -/
def kidsWith (kids : Nat → List Nat) (p c : Nat) : Nat → List Nat :=
  Function.update (Function.update kids c []) p (c :: kids p)

/-- The node at an address after a creation: the new one, or one that was there,
with at most a new first child. -/
theorem withChild_some {nodes : Nat → Option Node} {p c q : Nat} {d m n : Node}
    (at_p : nodes p = some d) (h : withChild nodes p c d m q = some n) :
    (q = c ∧ n = m) ∨ ∃ n', nodes q = some n' ∧ n = { n' with children := n.children } := by
  unfold withChild at h
  by_cases hp : q = p
  · subst hp
    rw [Function.update_self, Option.some.injEq] at h
    subst h
    exact .inr ⟨d, at_p, rfl⟩
  rw [Function.update_of_ne hp] at h
  by_cases hc : q = c
  · subst hc
    rw [Function.update_self, Option.some.injEq] at h
    exact .inl ⟨rfl, h.symm⟩
  · rw [Function.update_of_ne hc] at h
    exact .inr ⟨n, h, rfl⟩

/-- A new node has no buffer, so the buffers stay as they are. -/
theorem Buffers.withChild {t : Ramfs H} (bufs : Buffers A s) {p c : Nat} {d : Node}
    (at_p : s.nodes p = some d) {type : NodeType} {name : CString}
    (nodes : t.nodes = withChild s.nodes p c d (newNode type name p d.children))
    (same : t.bufs = s.bufs) (unbuf : s.bufs c = none) (live : A.live t.heap c)
    (more : ∀ {q}, A.live s.heap q → A.live t.heap q) : Buffers A t := by
  have cases_at : ∀ {q n}, t.nodes q = some n → (q = c ∧ n.data = 0 ∧ n.capacity = 0 ∧ n.size = 0) ∨
      ∃ n', s.nodes q = some n' ∧ n.data = n'.data ∧ n.capacity = n'.capacity ∧
        n.size = n'.size := by
    intro q n h
    rw [nodes] at h
    rcases withChild_some at_p h with ⟨eq, rfl⟩ | ⟨n', at_q, eq⟩
    · exact .inl ⟨eq, rfl, rfl, rfl⟩
    · exact .inr ⟨n', at_q, by rw [eq], by rw [eq], by rw [eq]⟩
  refine ⟨fun h => ?_, fun h => ?_, fun {q q' n m} hn hm nonnull eq => ?_, fun h => ?_, fun h => ?_,
    fun h => ?_⟩
  · rcases cases_at h with ⟨-, empty⟩ | ⟨n', at_q, data, cap, size⟩
    · exact .inl empty
    · rw [data, cap, size, same]
      exact bufs.held at_q
  · rcases cases_at h with ⟨-, -, cap, -⟩ | ⟨n', at_q, -, cap, -⟩
    · exact .inl cap
    · rw [cap]
      exact bufs.caps at_q
  · rcases cases_at hn with ⟨-, data, -⟩ | ⟨n', at_q, data, -⟩
    · exact absurd data nonnull
    rcases cases_at hm with ⟨-, data', -⟩ | ⟨m', at_q', data', -⟩
    · exact absurd (eq.trans data') nonnull
    · rw [data] at nonnull eq
      exact bufs.own at_q at_q' nonnull (eq.trans data')
  · rcases cases_at h with ⟨rfl, -⟩ | ⟨n', at_q, -⟩
    · exact live
    · exact more (bufs.nodeLive at_q)
  · rw [same] at h
    exact more (bufs.bufLive h)
  · rw [same]
    rcases cases_at h with ⟨rfl, -⟩ | ⟨n', at_q, -⟩
    · exact unbuf
    · exact bufs.apart at_q

/-- `node_alloc` without memory. -/
theorem nodeAlloc_null (full : (s.kmalloc A nodeSize).1 = 0) (type : NodeType) (name : CString)
    (parent : Nat) : nodeAlloc A s type name parent = (0, (s.kmalloc A nodeSize).2) := by
  simp only [nodeAlloc, if_pos full]

/-- `node_alloc` with memory. -/
theorem nodeAlloc_node {c : Nat} {t : Ramfs H} (got : s.kmalloc A nodeSize = (c, t)) (ok : c ≠ 0)
    (type : NodeType) (name : CString) (parent : Nat) :
    nodeAlloc A s type name parent = (c, t.setNode c (newNode type name parent 0)) := by
  simp only [nodeAlloc, got, if_neg ok]
  rfl

/-- **What `ramfs_create_file` and `ramfs_mkdir` do** in a node of the tree: a new
childless node in front of the others, or null and nothing changed; null because
`p` is no directory, a child has the name, or there is no memory. -/
theorem createNode_spec (inv : RamfsInv A s kids depth) {p : Nat} {d : Node}
    (at_p : s.nodes p = some d) (type : NodeType) (name : CString) :
    ∃ c t, createNode A type s p name = some (c, t) ∧
      ((c = 0 ∧ SameFiles s t ∧ RamfsInv A t kids depth ∧
          (t.oom = s.oom ∨ t.oom = true) ∧
          (d.type ≠ .dir ∨ (∃ x ∈ kids p, ∃ n, s.nodes x = some n ∧ n.name = name) ∨
            t.oom = true)) ∨
        c ≠ 0 ∧ d.type = .dir ∧ (∀ x ∈ kids p, ∀ n, s.nodes x = some n → n.name ≠ name) ∧
          s.nodes c = none ∧ s.bufs c = none ∧
          t.nodes = withChild s.nodes p c d (newNode type name p d.children) ∧
          t.bufs = s.bufs ∧ t.root = s.root ∧ t.cwd = s.cwd ∧ t.oom = s.oom ∧
          RamfsInv A t (kidsWith kids p c) (Function.update depth c (depth p + 1))) := by
  have nonnull : p ≠ 0 := fun eq => by rw [eq, inv.links.null] at at_p; cases at_p
  unfold createNode
  rw [if_neg nonnull, at_p, Option.bind_some]
  by_cases file : d.type ≠ .dir
  · rw [if_pos file]
    exact ⟨0, s, rfl, .inl ⟨rfl, ⟨rfl, rfl, rfl, rfl⟩, inv, .inl rfl, .inl file⟩⟩
  rw [if_neg file]
  obtain ⟨found, ran, result⟩ := ramfsFindChild_spec inv at_p name
  rw [ran, Option.bind_some]
  rcases result with ⟨rfl, differ⟩ | ⟨mem, n, at_x, same⟩
  swap
  · have hit : found ≠ 0 := fun eq => by rw [eq, inv.links.null] at at_x; cases at_x
    rw [if_pos hit]
    exact ⟨0, s, rfl, .inl ⟨rfl, ⟨rfl, rfl, rfl, rfl⟩, inv, .inl rfl,
      .inr (.inl ⟨found, mem, n, at_x, same⟩)⟩⟩
  rw [if_neg (not_not.mpr rfl)]
  have isDir : d.type = .dir := not_not.mp file
  obtain ⟨files, inv', oom, fresh⟩ := kmalloc_keeps inv nodeSize
  by_cases full : (s.kmalloc A nodeSize).1 = 0
  · have noted : (s.kmalloc A nodeSize).2.oom = true := by rw [oom, full]; simp
    refine ⟨0, (s.kmalloc A nodeSize).2, ?_, .inl ⟨rfl, files, inv', .inr noted,
      .inr (.inr noted)⟩⟩
    rw [nodeAlloc_null full]
    rfl
  · obtain ⟨unused, unbuf, live⟩ := fresh full
    obtain ⟨c, u, got⟩ : ∃ c u, s.kmalloc A nodeSize = (c, u) := ⟨_, _, rfl⟩
    rw [got] at files inv' oom full unused unbuf live
    dsimp only at files inv' oom full unused unbuf live
    have unlike : p ≠ c := fun eq => by rw [eq, unused] at at_p; cases at_p
    have more : ∀ {q}, A.live s.heap q → A.live u.heap q := fun h => by
      rw [show u = (s.kmalloc A nodeSize).2 by rw [got]]
      exact A.malloc_live.mpr (.inr h)
    let t : Ramfs H := { u with nodes := withChild s.nodes p c d (newNode type name p d.children) }
    refine ⟨c, t, ?_, .inr ⟨full, isDir, differ, unused, unbuf, rfl, files.bufs, files.root,
      files.cwd, ?_, ⟨?_, ?_⟩⟩⟩
    · rw [nodeAlloc_node got full]
      simp only [if_neg full, Ramfs.setNode, Function.update_self, Function.update_of_ne unlike,
        files.nodes, at_p, Option.bind_some, Function.update_idem]
      rfl
    · change u.oom = s.oom
      rw [oom]
      simp [full]
    · change Links (withChild s.nodes p c d _) u.root _ _
      rw [files.root]
      exact inv.links.add at_p isDir unused full rfl rfl rfl
    · exact inv.bufs.withChild at_p rfl files.bufs unbuf live more

end Flyos
