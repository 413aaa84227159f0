import Flyos.Fs.Paths
import Flyos.Fs.References
import Flyos.Lib.Related

/-!
# The same files in other blocks

`kmalloc` does not clear the blocks that it hands out, so a buffer of a file holds other bytes
behind the end of the file than those that were written.  Two states are `FsAlike` when they
have the same nodes, buffers of the same lengths, and in each buffer the same bytes as far as
its file goes; the heaps need only answer alike (`AnswersAlike`).

Every function of the file system, on such states, gives the same answer and leaves such
states, or neither of the two is defined.  One thing could tell the states apart: a write
that starts behind the end of its file makes the bytes in between part of it.
-/

namespace Flyos

variable {H K : Type*} {A : Allocator H} {B : Allocator K} {Rel : H → K → Prop}

/-! ## States -/

/-- Two heaps that are related give the same answers, and are related again. -/
structure AnswersAlike (A : Allocator H) (B : Allocator K) (Rel : H → K → Prop) : Prop where
  malloc : ∀ {h k}, Rel h k → ∀ n, (B.malloc k n).1 = (A.malloc h n).1 ∧
    Rel (A.malloc h n).2 (B.malloc k n).2
  free : ∀ {h k}, Rel h k → ∀ p, Rel (A.free h p) (B.free k p)

/-- **Two states with the same files**, whatever lies behind their ends. -/
structure FsAlike (Rel : H → K → Prop) (s : Ramfs H) (t : Ramfs K) : Prop where
  heap : Rel s.heap t.heap
  nodes : t.nodes = s.nodes
  root : t.root = s.root
  cwd : t.cwd = s.cwd
  sizes : ∀ d, (t.bufs d).map List.length = (s.bufs d).map List.length
  bytes : ∀ {p n b c}, s.nodes p = some n → s.bufs n.data = some b → t.bufs n.data = some c →
    c.take n.size = b.take n.size

section States

variable {s : Ramfs H} {t : Ramfs K} {p d : Nat} {n : Node} {name : CString}

/-- Files hold the same. -/
theorem FsAlike.fileBytes (alike : FsAlike Rel s t) (p : Nat) : fileBytes t p = fileBytes s p := by
  rw [Flyos.fileBytes, Flyos.fileBytes, alike.nodes]
  cases at_p : s.nodes p with
  | none => rfl
  | some n =>
      have sizes := alike.sizes n.data
      show ((t.bufs n.data).getD []).take n.size = ((s.bufs n.data).getD []).take n.size
      cases at_b : s.bufs n.data with
      | none =>
          rw [at_b, Option.map_none, Option.map_eq_none_iff] at sizes
          rw [sizes]
      | some b =>
          rw [at_b, Option.map_some, Option.map_eq_some_iff] at sizes
          obtain ⟨c, at_c, -⟩ := sizes
          rw [at_c]
          exact alike.bytes at_p at_b at_c

/-! ## Functions that read the nodes -/

theorem findChildLoop_nodes (nodes : t.nodes = s.nodes) (name : CString) (fuel c : Nat) :
    findChildLoop t name fuel c = findChildLoop s name fuel c := by
  induction fuel generalizing c with
  | zero => rfl
  | succ fuel ih => simp only [findChildLoop, nodes, ih]

theorem ramfsFindChild_nodes (nodes : t.nodes = s.nodes) (dir : Nat) (name : CString) :
    ramfsFindChild t dir name = ramfsFindChild s dir name := by
  simp only [ramfsFindChild, nodes, findChildLoop_nodes nodes]

theorem lookupLoop_nodes (nodes : t.nodes = s.nodes) (fuel cur : Nat) (path : CString) :
    lookupLoop t fuel cur path = lookupLoop s fuel cur path := by
  induction fuel generalizing cur path with
  | zero => rfl
  | succ fuel ih => simp only [lookupLoop, nodes, ramfsFindChild_nodes nodes, ih]

/-- Paths lead to the same nodes. -/
theorem FsAlike.ramfsLookup (alike : FsAlike Rel s t) (path : CString) :
    ramfsLookup t path = ramfsLookup s path := by
  cases path with
  | nil => rfl
  | cons c path =>
      simp only [Flyos.ramfsLookup, alike.root, alike.cwd, lookupLoop_nodes alike.nodes]

theorem FsAlike.splitPath (alike : FsAlike Rel s t) (path : CString) :
    splitPath t path = splitPath s path := by
  simp only [Flyos.splitPath, alike.root, alike.cwd, alike.ramfsLookup]

theorem unlinkLoop_nodes (nodes : t.nodes = s.nodes) (node fuel : Nat) (pp : Link) :
    unlinkLoop t node fuel pp = unlinkLoop s node fuel pp := by
  have read : ∀ pp : Link, pp.read t = pp.read s := fun pp => by
    cases pp <;> simp only [Link.read, nodes]
  induction fuel generalizing pp with
  | zero => rfl
  | succ fuel ih => simp only [unlinkLoop, read, ih]

theorem dirReadLoop_nodes (nodes : t.nodes = s.nodes) (fuel c target : Nat) :
    dirReadLoop t fuel c target = dirReadLoop s fuel c target := by
  induction fuel generalizing c target with
  | zero => rfl
  | succ fuel ih => simp only [dirReadLoop, nodes, ih]

theorem FsAlike.ramfsGetPath (alike : FsAlike Rel s t) (p max : Nat) :
    ramfsGetPath t p max = ramfsGetPath s p max := by
  have loop : ∀ fuel p max, getPathLoop t fuel p max = getPathLoop s fuel p max := by
    intro fuel
    induction fuel with
    | zero => exact fun _ _ => rfl
    | succ fuel ih => exact fun p max => by simp only [getPathLoop, alike.nodes, alike.root, ih]
  exact loop _ _ _

/-! ## Objects -/

/-- `kmalloc`. -/
theorem FsAlike.kmalloc (answers : AnswersAlike A B Rel) (alike : FsAlike Rel s t) (n : Nat) :
    SameAnswer (FsAlike Rel) (s.kmalloc A n) (t.kmalloc B n) := by
  obtain ⟨same, related⟩ := answers.malloc alike.heap n
  exact ⟨same, related, alike.nodes, alike.root, alike.cwd, alike.sizes, alike.bytes⟩

/-- A node is assigned, with the same bytes in its buffer. -/
theorem FsAlike.setNode (alike : FsAlike Rel s t) {n : Node}
    (agree : ∀ {b c}, s.bufs n.data = some b → t.bufs n.data = some c →
      c.take n.size = b.take n.size) : FsAlike Rel (s.setNode p n) (t.setNode p n) := by
  refine ⟨alike.heap, ?_, alike.root, alike.cwd, alike.sizes, fun {q m b c} at_q at_b at_c => ?_⟩
  · rw [Ramfs.setNode_nodes, Ramfs.setNode_nodes, alike.nodes]
  · rw [Ramfs.setNode_nodes] at at_q
    by_cases here : q = p
    · subst here
      rw [Function.update_self, Option.some.injEq] at at_q
      subst at_q
      exact agree at_b at_c
    · rw [Function.update_of_ne here] at at_q
      exact alike.bytes at_q at_b at_c

/-- A node keeps its buffer, and grows no longer. -/
theorem FsAlike.keepData (alike : FsAlike Rel s t) {q : Nat} {m n : Node}
    (at_q : s.nodes q = some m) (data : n.data = m.data) (size : n.size ≤ m.size) :
    FsAlike Rel (s.setNode p n) (t.setNode p n) := by
  refine alike.setNode fun {b c} at_b at_c => ?_
  rw [data] at at_b at_c
  have same := congrArg (List.take n.size) (alike.bytes at_q at_b at_c)
  rwa [List.take_take, List.take_take, Nat.min_eq_left size] at same

/-- An empty file. -/
theorem FsAlike.setEmpty (alike : FsAlike Rel s t) {n : Node} (empty : n.size = 0) :
    FsAlike Rel (s.setNode p n) (t.setNode p n) :=
  alike.setNode fun _ _ => by rw [empty, List.take_zero, List.take_zero]

/-- A buffer is assigned. -/
theorem FsAlike.setBuf (alike : FsAlike Rel s t) {b c : List UInt8} (length : c.length = b.length)
    (agree : ∀ {p n}, s.nodes p = some n → n.data = d → c.take n.size = b.take n.size) :
    FsAlike Rel (s.setBuf d b) (t.setBuf d c) := by
  refine ⟨alike.heap, alike.nodes, alike.root, alike.cwd, fun e => ?_,
    fun {q m b' c'} at_q at_b at_c => ?_⟩
  · rw [Ramfs.setBuf_bufs, Ramfs.setBuf_bufs]
    by_cases here : e = d
    · subst here
      rw [Function.update_self, Function.update_self, Option.map_some, Option.map_some, length]
    · rw [Function.update_of_ne here, Function.update_of_ne here, alike.sizes]
  · rw [Ramfs.setBuf_bufs] at at_b at_c
    by_cases here : m.data = d
    · rw [here, Function.update_self, Option.some.injEq] at at_b at_c
      subst at_b at_c
      exact agree at_q here
    · rw [Function.update_of_ne here] at at_b at_c
      exact alike.bytes at_q at_b at_c

/-- `kfree` of a node. -/
theorem FsAlike.freeNode (answers : AnswersAlike A B Rel) (alike : FsAlike Rel s t) (p : Nat) :
    FsAlike Rel (s.freeNode A p) (t.freeNode B p) := by
  refine ⟨answers.free alike.heap p, ?_, alike.root, alike.cwd, alike.sizes,
    fun {q m b c} at_q at_b at_c => ?_⟩
  · rw [Ramfs.freeNode_nodes, Ramfs.freeNode_nodes, alike.nodes]
  · rw [Ramfs.freeNode_nodes] at at_q
    by_cases here : q = p
    · rw [here, Function.update_self] at at_q
      cases at_q
    · rw [Function.update_of_ne here] at at_q
      exact alike.bytes at_q at_b at_c

/-- A buffer that one of the states has, the other has too. -/
theorem FsAlike.buf (alike : FsAlike Rel s t) (d : Nat) :
    Option.Rel (fun b c => c.length = b.length) (s.bufs d) (t.bufs d) := by
  have sizes := alike.sizes d
  cases at_b : s.bufs d with
  | none =>
      rw [at_b, Option.map_none, Option.map_eq_none_iff] at sizes
      rw [sizes]
      exact .none
  | some b =>
      rw [at_b, Option.map_some, Option.map_eq_some_iff] at sizes
      obtain ⟨c, at_c, length⟩ := sizes
      rw [at_c]
      exact .some length

/-- `kfree` of a buffer: the others stay. -/
theorem FsAlike.freeBuf (answers : AnswersAlike A B Rel) (alike : FsAlike Rel s t) (d : Nat) :
    Option.Rel (fun u v => FsAlike Rel u v ∧ u.nodes = s.nodes ∧
        ∀ e ≠ d, u.bufs e = s.bufs e ∧ v.bufs e = t.bufs e) (s.freeBuf A d) (t.freeBuf B d) := by
  refine (alike.buf d).map fun {_ _} _ => ⟨?_, rfl, fun e other =>
    ⟨Function.update_of_ne other .., Function.update_of_ne other ..⟩⟩
  refine ⟨answers.free alike.heap d, alike.nodes, alike.root, alike.cwd, fun e => ?_,
    fun {q m b c} at_q at_b at_c => ?_⟩
  · dsimp only
    by_cases here : e = d
    · subst here
      rw [Function.update_self, Function.update_self]
    · rw [Function.update_of_ne here, Function.update_of_ne here, alike.sizes]
  · dsimp only at at_b at_c
    by_cases here : m.data = d
    · rw [here, Function.update_self] at at_b
      cases at_b
    · rw [Function.update_of_ne here] at at_b at_c
      exact alike.bytes at_q at_b at_c

end States

/-! ## Creating and unlinking -/

section Tree

variable {s : Ramfs H} {t : Ramfs K} (answers : AnswersAlike A B Rel) (alike : FsAlike Rel s t)

include answers alike

theorem FsAlike.nodeAlloc (type : NodeType) (name : CString) (parent : Nat) :
    SameAnswer (FsAlike Rel) (nodeAlloc A s type name parent) (nodeAlloc B t type name parent) := by
  obtain ⟨same, alike'⟩ := alike.kmalloc answers nodeSize
  rw [Flyos.nodeAlloc, Flyos.nodeAlloc, same]
  by_cases null : (s.kmalloc A nodeSize).1 = 0
  · rw [if_pos null, if_pos null]
    exact ⟨rfl, alike'⟩
  · rw [if_neg null, if_neg null]
    exact ⟨rfl, alike'.setEmpty rfl⟩

/-- `ramfs_create_file` and `ramfs_mkdir`. -/
theorem FsAlike.createNode (type : NodeType) (dir : Nat) (name : CString) :
    Option.Rel (SameAnswer (FsAlike Rel)) (createNode A type s dir name)
      (createNode B type t dir name) := by
  rw [Flyos.createNode, Flyos.createNode, alike.nodes, ramfsFindChild_nodes alike.nodes]
  refine .ite (fun _ => .some ⟨rfl, alike⟩) fun _ => .bind_same fun d => ?_
  refine .ite (fun _ => .some ⟨rfl, alike⟩) fun _ => .bind_same fun found => ?_
  refine .ite (fun _ => .some ⟨rfl, alike⟩) fun _ => ?_
  obtain ⟨same, alike'⟩ := alike.nodeAlloc answers type name dir
  dsimp only
  rw [same, alike'.nodes]
  refine .ite (fun _ => .some ⟨rfl, alike'⟩) fun _ => ?_
  generalize Flyos.nodeAlloc A s type name dir = made at alike'
  generalize (Flyos.nodeAlloc B t type name dir).2 = t' at alike'
  cases at_dir : made.2.nodes dir with
  | none => exact .none
  | some d =>
      rw [Option.bind_some, Option.bind_some]
      cases at_new : made.2.nodes made.1 with
      | none => exact .none
      | some n =>
          -- both nodes keep their buffers and their sizes
          have linked : FsAlike Rel (made.2.setNode made.1 { n with next := d.children })
              (t'.setNode made.1 { n with next := d.children }) :=
            alike'.keepData at_new rfl le_rfl
          refine .some ⟨rfl, linked.setNode fun {b c} at_b at_c => ?_⟩
          have same := alike'.bytes at_dir at_b at_c
          exact same

/-- The creation in `file_open`. -/
theorem FsAlike.openCreate (name : CString) :
    Option.Rel (SameAnswer (FsAlike Rel)) (openCreate A s name) (openCreate B t name) := by
  rw [Flyos.openCreate, Flyos.openCreate, alike.splitPath, alike.nodes]
  refine .bind_same fun r => .ite (fun _ => ?_) fun _ => alike.createNode answers .file r.1 r.2
  refine .ite (fun _ => .some ⟨rfl, alike⟩) fun _ => .bind_same fun d => ?_
  exact .ite (fun _ => .some ⟨rfl, alike⟩) fun _ => alike.createNode answers .file r.1 r.2

/-- `SYS_MKDIR`. -/
theorem FsAlike.sysMkdir (path : CString) :
    Option.Rel (SameAnswer (FsAlike Rel)) (sysMkdir A s path) (sysMkdir B t path) := by
  rw [sysMkdir_eq, sysMkdir_eq, alike.splitPath]
  refine .bind_same fun r => (alike.createNode answers .dir r.1 r.2).map fun {x y} same => ?_
  exact ⟨by rw [same.1], same.2⟩

/-- `ramfs_unlink_node`. -/
theorem FsAlike.ramfsUnlinkNode (node : Nat) :
    Option.Rel (SameAnswer (FsAlike Rel)) (ramfsUnlinkNode A s node)
      (ramfsUnlinkNode B t node) := by
  rw [Flyos.ramfsUnlinkNode, Flyos.ramfsUnlinkNode, alike.nodes]
  refine .ite (fun _ => .some ⟨rfl, alike⟩) fun _ => .bind_same fun n => ?_
  refine .ite (fun _ => .some ⟨rfl, alike⟩) fun _ => ?_
  refine .ite (fun _ => .some ⟨rfl, alike⟩) fun _ => ?_
  rw [unlinkLoop_nodes alike.nodes]
  refine .bind_same fun pp => ?_
  have read : pp.read t = pp.read s := by cases pp <;> simp only [Link.read, alike.nodes]
  rw [read]
  refine .bind_same fun v => .ite (fun _ => .some ⟨rfl, alike⟩) fun _ => ?_
  have linked : Option.Rel (FsAlike Rel) (pp.write s n.next) (pp.write t n.next) := by
    cases pp with
    | children dir =>
        rw [Link.write, Link.write, alike.nodes]
        cases at_dir : s.nodes dir with
        | none => exact .none
        | some d => exact .some (alike.keepData at_dir rfl le_rfl)
    | next other =>
        rw [Link.write, Link.write, alike.nodes]
        cases at_other : s.nodes other with
        | none => exact .none
        | some d => exact .some (alike.keepData at_other rfl le_rfl)
  refine linked.bind fun {u v} alike' => ?_
  have freed : Option.Rel (FsAlike Rel) (if n.data ≠ 0 then u.freeBuf A n.data else some u)
      (if n.data ≠ 0 then v.freeBuf B n.data else some v) :=
    .ite (fun _ => (alike'.freeBuf answers n.data).mono And.left) fun _ => .some alike'
  exact freed.map fun {x y} alike'' => ⟨rfl, alike''.freeNode answers node⟩

/-- `SYS_UNLINK`. -/
theorem FsAlike.sysUnlink (path : CString) :
    Option.Rel (SameAnswer (FsAlike Rel)) (sysUnlink A s path) (sysUnlink B t path) := by
  rw [Flyos.sysUnlink, Flyos.sysUnlink, alike.ramfsLookup]
  exact .bind_same fun n => .ite (fun _ => .some ⟨rfl, alike⟩) fun _ =>
    alike.ramfsUnlinkNode answers n

omit answers

/-- `SYS_CHDIR`. -/
theorem FsAlike.sysChdir (path : CString) :
    Option.Rel (SameAnswer (FsAlike Rel)) (sysChdir s path) (sysChdir t path) := by
  rw [Flyos.sysChdir, Flyos.sysChdir, alike.ramfsLookup, alike.nodes]
  refine .bind_same fun n => .ite (fun _ => .some ⟨rfl, alike⟩) fun _ => ?_
  refine .bind_same fun d => .ite (fun _ => .some ⟨rfl, alike⟩) fun _ => ?_
  have moved : Option.Rel (FsAlike Rel) (ramfsSetCwd s n) (ramfsSetCwd t n) := by
    rw [ramfsSetCwd, ramfsSetCwd, congrFun alike.nodes n]
    refine .ite (fun _ => .some alike) fun _ => .map_same fun d => ?_
    by_cases dir : d.type = .dir
    · rw [if_pos dir, if_pos dir]
      exact ⟨alike.heap, alike.nodes, alike.root, rfl, alike.sizes, alike.bytes⟩
    · rw [if_neg dir, if_neg dir]
      exact alike
  exact moved.map fun {x y} alike' => ⟨rfl, alike'⟩

end Tree

/-! ## Reading and writing -/

section Transfers

variable {s : Ramfs H} {t : Ramfs K} {f off need : Nat} {n : Node} {buf : List UInt8}
  {kids : Nat → List Nat} {depth : Nat → Nat}

/-- The buffers of a node. -/
theorem FsAlike.data (alike : FsAlike Rel s t) (at_f : s.nodes f = some n) :
    Option.Rel (fun b c => c.length = b.length ∧ c.take n.size = b.take n.size)
      (s.bufs n.data) (t.bufs n.data) := by
  have length := alike.buf n.data
  cases at_b : s.bufs n.data with
  | none =>
      rw [at_b] at length
      generalize t.bufs n.data = y at length ⊢
      cases length
      exact .none
  | some b =>
      rw [at_b] at length
      generalize at_c : t.bufs n.data = y at length
      cases length with
      | some length => exact .some ⟨length, alike.bytes at_f at_b at_c⟩

/-- **A read** stays in front of the end of its file. -/
theorem FsAlike.ramfsRead (alike : FsAlike Rel s t) (f k off : Nat) :
    ramfsRead t f k off = ramfsRead s f k off := by
  rw [Flyos.ramfsRead, Flyos.ramfsRead, alike.nodes]
  cases at_f : s.nodes f with
  | none => rfl
  | some n =>
      rw [Option.bind_some, Option.bind_some]
      by_cases past : n.size ≤ off
      · rw [if_pos past, if_pos past]
      rw [if_neg past, if_neg past]
      dsimp only
      have data := alike.data at_f
      generalize s.bufs n.data = x at data ⊢
      generalize t.bufs n.data = y at data ⊢
      cases data with
      | none => rfl
      | @some b c data =>
          obtain ⟨length, same⟩ := data
          have same' := congrArg (List.take (off + min k (n.size - off))) same
          rw [List.take_take, List.take_take, Nat.min_eq_left (by omega)] at same'
          rw [Option.bind_some, Option.bind_some, length, List.take_drop, List.take_drop, same']

/-- A copy into two buffers. -/
theorem splice_alike (src : List UInt8) {b c : List UInt8} {off k : Nat}
    (length : c.length = b.length) (same : c.take k = b.take k) (start : off ≤ k) :
    Option.Rel (fun x y => y.length = x.length ∧
      y.take (max k (off + src.length)) = x.take (max k (off + src.length)))
      (splice b off src) (splice c off src) := by
  rw [splice, splice, length]
  refine .ite (fun empty => .some ⟨length, ?_⟩) fun _ =>
    .ite (fun inside => .some ?_) fun _ => .none
  · rw [empty, List.length_nil, Nat.add_zero, Nat.max_eq_left start, same]
  · have inside' : off + src.length ≤ c.length := by rw [length]; exact inside
    refine ⟨by rw [length_overlay inside, length_overlay inside', length], ?_⟩
    rw [take_overlay start inside, take_overlay start inside', same]

/-- `moveData`: the contents of node `f` are in the new buffer at `d`. -/
theorem FsAlike.moveData (answers : AnswersAlike A B Rel) (alike : FsAlike Rel s t)
    (at_f : s.nodes f = some n) {d : Nat} (empty : n.data = 0 → n.size = 0)
    (unused : ∀ {p m}, s.nodes p = some m → m.data ≠ d) :
    Option.Rel (fun u v => FsAlike Rel u v ∧ u.nodes = s.nodes ∧
        ∀ {b c}, u.bufs d = some b → v.bufs d = some c → c.take n.size = b.take n.size)
      (moveData A s n d) (moveData B t n d) := by
  rw [Flyos.moveData, Flyos.moveData]
  refine .ite (fun null => .some ⟨alike, rfl, fun _ _ => ?_⟩) fun _ => ?_
  · rw [empty null, List.take_zero, List.take_zero]
  refine (alike.data at_f).bind fun {old old'} same => ?_
  refine (alike.buf d).bind fun {new new'} length => ?_
  rw [same.1]
  refine .ite (fun inside => ?_) fun _ => .none
  have full : (old.take n.size).length = n.size := List.length_take_of_le inside
  rw [same.2]
  have copied := splice_alike (old.take n.size) (k := 0) length rfl (Nat.le_refl 0)
  rw [full, Nat.zero_add, Nat.max_eq_right (Nat.zero_le _)] at copied
  refine copied.bind fun {x y} copy => ?_
  have alike' : FsAlike Rel (s.setBuf d x) (t.setBuf d y) :=
    alike.setBuf copy.1 fun at_p here => absurd here (unused at_p)
  refine (alike'.freeBuf answers n.data).mono fun {u v} freed => ?_
  obtain ⟨alike'', nodes, others⟩ := freed
  obtain ⟨at_u, at_v⟩ := others d (unused at_f).symm
  refine ⟨alike'', nodes, fun {b c} at_b at_c => ?_⟩
  rw [at_u, Ramfs.setBuf_bufs, Function.update_self, Option.some.injEq] at at_b
  rw [at_v, Ramfs.setBuf_bufs, Function.update_self, Option.some.injEq] at at_c
  rw [← at_b, ← at_c]
  exact copy.2

/-- **The reallocation**: node `f` keeps its size. -/
theorem FsAlike.ramfsGrow (answers : AnswersAlike A B Rel) (inv : RamfsInv A s kids depth)
    (alike : FsAlike Rel s t) (at_f : s.nodes f = some n) (need : Nat) :
    Option.Rel (fun x y => SameAnswer (FsAlike Rel) x y ∧
        ∃ n', x.2.nodes f = some n' ∧ n'.size = n.size)
      (ramfsGrow A s f n need) (ramfsGrow B t f n need) := by
  rw [Flyos.ramfsGrow, Flyos.ramfsGrow]
  refine .ite (fun _ => .some ⟨⟨rfl, alike⟩, n, at_f, rfl⟩) fun _ => .bind_same fun cap => ?_
  obtain ⟨same, alike'⟩ := alike.kmalloc answers cap
  obtain ⟨files, -, -, fresh⟩ := kmalloc_keeps inv cap
  dsimp only
  rw [same]
  refine .ite (fun _ => .some ⟨⟨rfl, alike'⟩, n, ?_, rfl⟩) fun nonnull => ?_
  · rw [files.nodes]
    exact at_f
  obtain ⟨-, unbuf, -⟩ := fresh nonnull
  generalize Ramfs.kmalloc A s cap = got at *
  -- no node has the new buffer
  have unused : ∀ {p m}, got.2.nodes p = some m → m.data ≠ got.1 := fun {p m} at_p here => by
    rw [files.nodes] at at_p
    rcases inv.bufs.held at_p with ⟨null, -⟩ | ⟨-, b, held, -⟩
    · exact nonnull (here ▸ null)
    · rw [here, unbuf] at held
      cases held
  have filled : FsAlike Rel (got.2.setBuf got.1 (A.junk s.heap cap))
      ((t.kmalloc B cap).2.setBuf got.1 (B.junk t.heap cap)) :=
    alike'.setBuf (by rw [A.junk_length, B.junk_length]) fun at_p here => absurd here (unused at_p)
  have at_f' : (got.2.setBuf got.1 (A.junk s.heap cap)).nodes f = some n := by
    rw [Ramfs.setBuf_nodes, files.nodes, at_f]
  have empty : n.data = 0 → n.size = 0 := fun null =>
    (inv.bufs.held at_f).elim (fun empty => empty.2.2) fun held => absurd null held.1
  refine (filled.moveData answers at_f' empty unused).map fun {u v} moved => ?_
  exact ⟨⟨rfl, moved.1.setNode moved.2.2⟩, { n with data := got.1, capacity := cap },
    Function.update_self .., rfl⟩

/-- **The copy**, when it starts in its file or at its end. -/
theorem FsAlike.putData (inv : RamfsInv A s kids depth) (alike : FsAlike Rel s t)
    (start : ∀ n, s.nodes f = some n → off ≤ n.size) (need : Nat)
    (ends : need = (off + buf.length) % 2 ^ 64) :
    Option.Rel (FsAlike Rel) (putData s f buf off need) (putData t f buf off need) := by
  rw [Flyos.putData, Flyos.putData, alike.nodes]
  cases at_f : s.nodes f with
  | none => exact .none
  | some n =>
      rw [Option.bind_some, Option.bind_some]
      have inside := start n at_f
      have copied : Option.Rel (fun u v => FsAlike Rel u v ∧ ∀ {b c}, u.bufs n.data = some b →
          v.bufs n.data = some c → c.take (max n.size (off + buf.length)) =
            b.take (max n.size (off + buf.length)))
          (if buf = [] then some s
            else (s.bufs n.data).bind fun b => (splice b off buf).map (s.setBuf n.data))
          (if buf = [] then some t
            else (t.bufs n.data).bind fun b => (splice b off buf).map (t.setBuf n.data)) := by
        refine .ite (fun empty => .some ⟨alike, fun at_b at_c => ?_⟩) fun _ => ?_
        · rw [empty, List.length_nil, Nat.add_zero, Nat.max_eq_left inside]
          exact alike.bytes at_f at_b at_c
        have data := alike.data at_f
        cases at_b : s.bufs n.data with
        | none =>
            rw [at_b] at data
            generalize t.bufs n.data = z at data ⊢
            cases data
            exact .none
        | some b =>
            rw [at_b] at data
            generalize t.bufs n.data = z at data ⊢
            cases data with
            | @some _ c data =>
                rw [Option.bind_some, Option.bind_some]
                refine (splice_alike buf data.1 data.2 inside).map fun {x y} copy => ?_
                -- the buffer has no other node
                have nonnull : n.data ≠ 0 := fun null => by
                  have live := A.pointer (inv.bufs.bufLive at_b)
                  omega
                refine ⟨alike.setBuf copy.1 fun {q m} at_q here => ?_, fun {b' c'} at_x at_y => ?_⟩
                · obtain rfl := inv.bufs.own at_f at_q nonnull here.symm
                  obtain rfl := Option.some.inj (at_f.symm.trans at_q)
                  have less := congrArg (List.take n.size) copy.2
                  rwa [List.take_take, List.take_take, Nat.min_eq_left (Nat.le_max_left ..)] at less
                · rw [Ramfs.setBuf_bufs, Function.update_self, Option.some.injEq] at at_x at_y
                  rw [← at_x, ← at_y]
                  exact copy.2
      refine copied.map fun {u v} done => ?_
      by_cases longer : n.size < need
      · rw [if_pos longer, if_pos longer]
        have bounded : need ≤ max n.size (off + buf.length) :=
          (ends ▸ Nat.mod_le ..).trans (Nat.le_max_right ..)
        refine done.1.setNode fun {b c} at_b at_c => ?_
        have less := congrArg (List.take need) (done.2 at_b at_c)
        rwa [List.take_take, List.take_take, Nat.min_eq_left bounded] at less
      · rw [if_neg longer, if_neg longer]
        exact done.1

/-- **A write** that leaves no gap. -/
theorem FsAlike.ramfsWrite (answers : AnswersAlike A B Rel) (inv : RamfsInv A s kids depth)
    (alike : FsAlike Rel s t) (inside : StartsInside A s f buf off) :
    Option.Rel (SameAnswer (FsAlike Rel)) (ramfsWrite A s f buf off)
      (ramfsWrite B t f buf off) := by
  rw [Flyos.ramfsWrite, Flyos.ramfsWrite, alike.nodes]
  refine .ite (fun _ => .some ⟨rfl, alike⟩) fun _ => ?_
  cases at_f : s.nodes f with
  | none => exact .none
  | some n =>
      refine .ite (fun _ => .some ⟨rfl, alike⟩) fun file => ?_
      have grown := alike.ramfsGrow answers inv at_f ((off + buf.length) % 2 ^ 64)
      cases ran : Flyos.ramfsGrow A s f n ((off + buf.length) % 2 ^ 64) with
      | none =>
          rw [ran] at grown
          generalize Flyos.ramfsGrow B t f n ((off + buf.length) % 2 ^ 64) = y at grown ⊢
          cases grown
          exact .none
      | some x =>
          rw [ran] at grown
          generalize Flyos.ramfsGrow B t f n ((off + buf.length) % 2 ^ 64) = y at grown ⊢
          cases grown with
          | @some _ y grown =>
              obtain ⟨⟨same, alike'⟩, n', at_f', size⟩ := grown
              rw [Option.bind_some, Option.bind_some, same]
              refine .ite (fun _ => .some ⟨rfl, alike'⟩) fun ok => ?_
              obtain ⟨kids', depth', inv'⟩ : ∃ kids depth, RamfsInv A x.2 kids depth := by
                by_cases large : 2 ^ 63 < (off + buf.length) % 2 ^ 64
                · rw [ramfsGrow_never inv.bufs at_f large] at ran
                  cases ran
                rcases ramfsGrow_spec inv at_f (Nat.not_lt.mp large) with
                  ⟨u, ran', -, inv', -⟩ | ⟨m, u, ran', replaced, -⟩
                · obtain rfl := Option.some.inj (ran.symm.trans ran')
                  exact ⟨_, _, inv'⟩
                · obtain rfl := Option.some.inj (ran.symm.trans ran')
                  exact ⟨_, _, replaced.inv inv⟩
              have start : off ≤ n.size := (inside n at_f).resolve_right fun full => by
                obtain ⟨_, fails⟩ := ramfsGrow_noRoom (f := f) full
                rw [fails] at ran
                cases ran
                exact ok rfl
              refine (alike'.putData inv' (fun m at_m => ?_) _ rfl).map fun {u v} alike'' =>
                ⟨rfl, alike''⟩
              obtain rfl := Option.some.inj (at_f'.symm.trans at_m)
              rw [size]
              exact start

end Transfers

/-! ## Descriptors -/

/-- The same files and the same descriptors. -/
structure SysAlike (Rel : H → K → Prop) (s : FileSys H) (t : FileSys K) : Prop where
  fs : FsAlike Rel s.fs t.fs
  fds : t.fdTable = s.fdTable

section Descriptors

variable {s : FileSys H} {t : FileSys K} {kids : Nat → List Nat} {depth : Nat → Nat}

theorem SysAlike.freeFd (alike : SysAlike Rel s t) : t.freeFd = s.freeFd := by
  rw [FileSys.freeFd, FileSys.freeFd, alike.fds]

theorem SysAlike.fd? (alike : SysAlike Rel s t) (fd : Int) : t.fd? fd = s.fd? fd := by
  rw [FileSys.fd?, FileSys.fd?, alike.fds]

/-- A descriptor is assigned. -/
theorem SysAlike.setFd (alike : SysAlike Rel s t) (i : Nat) (f : Fd) :
    SysAlike Rel (s.setFd i f) (t.setFd i f) :=
  ⟨alike.fs, by rw [FileSys.setFd_fdTable, FileSys.setFd_fdTable, alike.fds]⟩

/-- A descriptor for a node, if there is one left. -/
theorem SysAlike.take (alike : SysAlike Rel s t) (f : Fd) :
    SameAnswer (SysAlike Rel)
      (match s.freeFd with
        | some i => ((i : Int), s.setFd i f)
        | none => (-1, s))
      (match t.freeFd with
        | some i => ((i : Int), t.setFd i f)
        | none => (-1, t)) := by
  rw [alike.freeFd]
  cases s.freeFd with
  | none => exact ⟨rfl, alike⟩
  | some i => exact ⟨rfl, alike.setFd i f⟩

/-- `file_open`. -/
theorem SysAlike.fileOpen (answers : AnswersAlike A B Rel) (alike : SysAlike Rel s t)
    (name : CString) :
    Option.Rel (SameAnswer (SysAlike Rel)) (fileOpen A s name) (fileOpen B t name) := by
  rw [Flyos.fileOpen, Flyos.fileOpen, alike.fs.ramfsLookup]
  refine .bind_same fun found => ?_
  have made : Option.Rel (SameAnswer (FsAlike Rel))
      (if found ≠ 0 then some (found, s.fs) else openCreate A s.fs name)
      (if found ≠ 0 then some (found, t.fs) else openCreate B t.fs name) :=
    .ite (fun _ => .some ⟨rfl, alike.fs⟩) fun _ => alike.fs.openCreate answers name
  refine made.bind fun {x y} same => ?_
  have alike' : SysAlike Rel { s with fs := x.2 } { t with fs := y.2 } := ⟨same.2, alike.fds⟩
  dsimp only
  rw [same.1]
  refine .ite (fun _ => .some ⟨rfl, alike'⟩) fun _ => ?_
  rw [same.2.nodes]
  refine .map_same fun n => ?_
  by_cases file : n.type ≠ .file
  · rw [if_pos file, if_pos file]
    exact ⟨rfl, alike'⟩
  · rw [if_neg file, if_neg file]
    exact alike'.take _

/-- `file_close`. -/
theorem SysAlike.fileClose (alike : SysAlike Rel s t) (fd : Int) :
    SameAnswer (SysAlike Rel) (fileClose s fd) (fileClose t fd) := by
  rw [Flyos.fileClose, Flyos.fileClose, alike.fd?]
  cases s.fd? fd with
  | none => exact ⟨rfl, alike⟩
  | some i => exact ⟨rfl, alike.setFd i _⟩

/-- `file_open_node`. -/
theorem SysAlike.fileOpenNode (answers : AnswersAlike A B Rel) (alike : SysAlike Rel s t)
    (name : CString) :
    Option.Rel (SameAnswer (SysAlike Rel)) (fileOpenNode A s name) (fileOpenNode B t name) := by
  refine (alike.fileOpen answers name).map fun {x y} same => ?_
  obtain ⟨fd, u⟩ := x
  obtain ⟨fd', v⟩ := y
  obtain ⟨rfl, alike'⟩ := same
  dsimp only
  by_cases failed : fd' < 0
  · rw [if_pos failed, if_pos failed]
    exact ⟨rfl, alike'⟩
  · rw [if_neg failed, if_neg failed]
    exact ⟨by rw [alike'.fds], (alike'.fileClose fd').2⟩

/-- `file_read`. -/
theorem SysAlike.fileRead (alike : SysAlike Rel s t) (fd : Int) (n : Nat) :
    Option.Rel (fun x y => y.1 = x.1 ∧ SameAnswer (SysAlike Rel) x.2 y.2)
      (fileRead s fd n) (fileRead t fd n) := by
  rw [Flyos.fileRead, Flyos.fileRead, alike.fd?]
  cases s.fd? fd with
  | none => exact .some ⟨rfl, rfl, alike⟩
  | some i =>
      dsimp only
      rw [alike.fds, alike.fs.ramfsRead]
      refine .ite (fun _ => .some ⟨rfl, rfl, alike⟩) fun _ => .map_same fun r => ⟨rfl, rfl, ?_⟩
      by_cases some_byte : 0 < r.1
      · rw [if_pos some_byte, if_pos some_byte]
        exact alike.setFd i _
      · rw [if_neg some_byte, if_neg some_byte]
        exact alike

/-- `file_write`, without a gap. -/
theorem SysAlike.fileWrite (answers : AnswersAlike A B Rel) (alike : SysAlike Rel s t)
    (inv : RamfsInv A s.fs kids depth) {fd : Int} {buf : List UInt8}
    (inside : ∀ i, s.fd? fd = some i → (s.fdTable i).isDir = false →
      StartsInside A s.fs (s.fdTable i).node buf (s.fdTable i).pos) :
    Option.Rel (SameAnswer (SysAlike Rel)) (fileWrite A s fd buf) (fileWrite B t fd buf) := by
  rw [Flyos.fileWrite, Flyos.fileWrite, alike.fd?]
  cases taken : s.fd? fd with
  | none => exact .some ⟨rfl, alike⟩
  | some i =>
      dsimp only
      rw [alike.fds]
      refine .ite (fun _ => .some ⟨rfl, alike⟩) fun plain => ?_
      have start := inside i taken (Bool.eq_false_of_not_eq_true plain)
      refine (alike.fs.ramfsWrite answers inv start).map fun {x y} same => ?_
      have alike' : SysAlike Rel ⟨x.2, s.fdTable⟩ ⟨y.2, s.fdTable⟩ := ⟨same.2, rfl⟩
      refine ⟨same.1, ?_⟩
      rw [same.1]
      by_cases some_byte : 0 < x.1
      · rw [if_pos some_byte, if_pos some_byte]
        exact alike'.setFd i _
      · rw [if_neg some_byte, if_neg some_byte]
        exact alike'

/-- `dir_open`. -/
theorem SysAlike.dirOpen (alike : SysAlike Rel s t) (name : CString) :
    Option.Rel (SameAnswer (SysAlike Rel)) (dirOpen s name) (dirOpen t name) := by
  rw [Flyos.dirOpen, Flyos.dirOpen, alike.fs.ramfsLookup, alike.fs.nodes]
  refine .bind_same fun n => .ite (fun _ => .some ⟨rfl, alike⟩) fun _ => .map_same fun d => ?_
  by_cases file : d.type ≠ .dir
  · rw [if_pos file, if_pos file]
    exact ⟨rfl, alike⟩
  · rw [if_neg file, if_neg file]
    exact alike.take _

/-- `dir_read`. -/
theorem SysAlike.dirRead (alike : SysAlike Rel s t) (fd : Int) (max : Nat) :
    Option.Rel (fun x y => y.1 = x.1 ∧ SameAnswer (SysAlike Rel) x.2 y.2)
      (dirRead s fd max) (dirRead t fd max) := by
  rw [Flyos.dirRead, Flyos.dirRead, alike.fd?]
  cases s.fd? fd with
  | none => exact .some ⟨rfl, rfl, alike⟩
  | some i =>
      dsimp only
      rw [alike.fds, alike.fs.nodes]
      refine .ite (fun _ => .some ⟨rfl, rfl, alike⟩) fun _ => .bind_same fun dir => ?_
      rw [dirReadLoop_nodes alike.fs.nodes]
      refine .map_same fun found => ?_
      cases found with
      | none => exact ⟨rfl, rfl, alike⟩
      | some c => exact ⟨rfl, rfl, alike.setFd i _⟩

end Descriptors

end Flyos
