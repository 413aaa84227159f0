import Flyos.Fs.PathWalk

/-!
# Changes to the tree, seen along paths

What a creation, an unlinking and a write do to the nodes, they do to the tree of paths:
`PathTree.add?` (`createNode_shows`), `PathTree.remove?` (`ramfsUnlinkNode_shows`) and
`PathTree.modify` (`ramfsWrite_shows`).
-/

namespace Flyos

variable {H : Type*} {A : Allocator H} {s t : Ramfs H} {kids : Nat → List Nat}
  {depth : Nat → Nat} {m : PathTree CString (List UInt8)}

/-- Paths stay where the nodes on them keep their names and parents. -/
theorem PathTo.transport (on : Nat → Prop) (root : t.root = s.root)
    (kept : ∀ {c nd}, on c → s.nodes c = some nd → c ≠ s.root →
      ∃ nd', t.nodes c = some nd' ∧ nd'.name = nd.name ∧ nd'.parent = nd.parent)
    (above : ∀ {c nd}, on c → s.nodes c = some nd → c ≠ s.root → on nd.parent) {n : Nat}
    {names : List CString} (path : PathTo s n names) (here : on n) : PathTo t n names := by
  induction path with
  | root =>
      rw [← root]
      exact .root
  | @child c nd front at_c other _ ih =>
      obtain ⟨nd', at_c', name, parent⟩ := kept here at_c other
      rw [← name]
      refine .child at_c' (by rw [root]; exact other) ?_
      rw [parent]
      exact ih (above here at_c other)

/-- Paths depend on the nodes and the root. -/
theorem PathTo.iff_of_nodes (nodes : t.nodes = s.nodes) (root : t.root = s.root) {n : Nat}
    {names : List CString} : PathTo t n names ↔ PathTo s n names := by
  constructor
  · intro path
    refine path.transport (fun _ => True) root.symm (fun {c nd} _ at_c _ => ?_)
      (fun _ _ _ => trivial) trivial
    exact ⟨nd, nodes ▸ at_c, rfl, rfl⟩
  · intro path
    refine path.transport (fun _ => True) root (fun {c nd} _ at_c _ => ?_)
      (fun _ _ _ => trivial) trivial
    exact ⟨nd, nodes.symm ▸ at_c, rfl, rfl⟩

/-- What an entry is depends on the node and its buffer. -/
theorem entryOf_congr {n : Nat} {nd nd' : Node} (type : nd'.type = nd.type)
    (bytes : fileBytes t n = fileBytes s n) : entryOf t n nd' = entryOf s n nd := by
  rw [entryOf, entryOf, type, bytes]

/-- Nothing has changed. -/
theorem TreeShows.of_same (shown : TreeShows s m) (files : SameFiles s t) : TreeShows t m := by
  have entries : ∀ n nd, entryOf t n nd = entryOf s n nd := fun n nd =>
    entryOf_congr rfl (by rw [fileBytes, fileBytes, files.nodes, files.bufs])
  intro names e
  rw [shown names e]
  simp only [PathTo.iff_of_nodes files.nodes files.root, files.nodes, entries]

/-- Nothing but the heap has changed. -/
theorem Named.of_same (named : Named A s) (tree : RamfsInv A t kids depth)
    (files : SameFiles s t) : Named A t := by
  refine ⟨⟨kids, depth, tree⟩, ?_, ?_⟩
  · unfold NamesOk
    rw [files.nodes, files.root]
    exact named.names
  · rw [files.nodes, files.root]
    exact named.short

/-! ## Creation -/

/-- Nodes are still there, but for their first children. -/
def NodesKept (s t : Ramfs H) : Prop :=
  ∀ {x n}, s.nodes x = some n → ∃ n', t.nodes x = some n' ∧
    n' = { n with children := n'.children }

/-- The entry that a creation makes. -/
def newEntry (type : NodeType) : PathEntry (List UInt8) :=
  match type with
  | .dir => .dir
  | .file => .file []

/-- A new node at `c`, in front of the children of `p`. -/
structure Creation (s : Ramfs H) (type : NodeType) (p c : Nat) (d : Node) (base : CString)
    (t : Ramfs H) : Prop where
  at_p : s.nodes p = some d
  unused : s.nodes c = none
  nodes : t.nodes = withChild s.nodes p c d (newNode type base p d.children)
  bufs : t.bufs = s.bufs
  root : t.root = s.root

namespace Creation

variable {type : NodeType} {p c : Nat} {d : Node} {base : CString}
  (made : Creation s type p c d base t)
include made

/-- The new node. -/
theorem at_c : t.nodes c = some (newNode type base p d.children) := by
  have pc : c ≠ p := fun eq => by
    have unused := made.unused
    rw [eq, made.at_p] at unused
    cases unused
  rw [made.nodes, withChild, Function.update_of_ne pc, Function.update_self]

/-- Another node after is a node before, but for its first child. -/
theorem back {x : Nat} {nd : Node} (xc : x ≠ c) (at_x : t.nodes x = some nd) :
    ∃ nd', s.nodes x = some nd' ∧ nd = { nd' with children := nd.children } := by
  rw [made.nodes] at at_x
  rcases withChild_some made.at_p at_x with ⟨eq, -⟩ | old
  · exact absurd eq xc
  · exact old

/-- A node before is another node after. -/
theorem forth {x : Nat} {nd : Node} (at_x : s.nodes x = some nd) :
    x ≠ c ∧ ∃ nd', t.nodes x = some nd' ∧ nd' = { nd with children := nd'.children } := by
  have xc : x ≠ c := by
    rintro rfl
    rw [made.unused] at at_x
    cases at_x
  refine ⟨xc, ?_⟩
  by_cases here : x = p
  · subst here
    obtain rfl := Option.some.inj (made.at_p.symm.trans at_x)
    exact ⟨_, by rw [made.nodes, withChild, Function.update_self], rfl⟩
  · exact ⟨nd, by rw [made.nodes, withChild, Function.update_of_ne here,
      Function.update_of_ne xc, at_x], rfl⟩

/-- Paths stay. -/
theorem keeps {n : Nat} {names : List CString} (path : PathTo s n names) : PathTo t n names := by
  refine path.transport (fun _ => True) made.root (fun {x nd} _ at_x _ => ?_)
    (fun _ _ _ => trivial) trivial
  obtain ⟨-, nd', at_x', same⟩ := made.forth at_x
  exact ⟨nd', at_x', by rw [same], by rw [same]⟩

/-- Paths to other nodes were there: the new node is on the way to none. -/
theorem comes (named : Named A s) {n : Nat} {names : List CString} (nc : n ≠ c)
    (path : PathTo t n names) : PathTo s n names := by
  refine path.transport (· ≠ c) made.root.symm (fun {x nd} xc at_x _ => ?_)
    (fun {x nd} xc at_x other => ?_) nc
  · obtain ⟨nd', at_x', same⟩ := made.back xc at_x
    exact ⟨nd', at_x', by rw [same], by rw [same]⟩
  · obtain ⟨nd', at_x', same⟩ := made.back xc at_x
    obtain ⟨d', at_parent, -⟩ := named.parent at_x' (made.root ▸ other)
    rw [same]
    exact (made.forth at_parent).1

/-- The path of the new node. -/
theorem below (named : Named A s) {dir : List CString} (path : PathTo s p dir) :
    PathTo t c (dir ++ [strCopy base ramfsNameMax]) := by
  refine .child made.at_c (fun top => ?_) (made.keeps path)
  obtain ⟨r, at_root, -⟩ := named.top
  have unused := made.unused
  rw [top, made.root, at_root] at unused
  cases unused

/-- Files stay as they are. -/
theorem entry {x : Nat} {nd nd' : Node} (at_x : s.nodes x = some nd) (at_x' : t.nodes x = some nd') :
    entryOf t x nd' = entryOf s x nd := by
  obtain ⟨-, nd'', found, same⟩ := made.forth at_x
  obtain rfl := Option.some.inj (at_x'.symm.trans found)
  refine entryOf_congr (by rw [same]) ?_
  rw [fileBytes, fileBytes, at_x, at_x', made.bufs, same]
  rfl

/-- The new node is an empty directory or an empty file. -/
theorem fresh : entryOf t c (newNode type base p d.children) = newEntry type := by
  cases type with
  | dir => rfl
  | file =>
      change PathEntry.file (fileBytes t c) = .file []
      rw [fileBytes, made.at_c]
      simp [newNode]

/-- **The tree has one more entry.** -/
theorem grown (named : Named A s) (shown : TreeShows s m) {dir : List CString}
    (path : PathTo s p dir) {m' : PathTree CString (List UInt8)}
    (nowhere : ∀ n, ¬ PathTo s n (dir ++ [strCopy base ramfsNameMax]))
    (entries : m'.entry = Function.update m.entry (dir ++ [strCopy base ramfsNameMax])
      (some (newEntry type))) : TreeShows t m' := by
  have below := made.below named path
  intro names e
  rw [entries]
  by_cases new : names = dir ++ [strCopy base ramfsNameMax]
  · subst new
    rw [Function.update_self, Option.some.injEq]
    constructor
    · rintro rfl
      exact ⟨c, _, below, made.at_c, made.fresh.symm⟩
    · rintro ⟨n, nd, path', at_n, rfl⟩
      by_cases nc : n = c
      · subst nc
        obtain rfl := Option.some.inj (made.at_c.symm.trans at_n)
        exact made.fresh.symm
      · exact absurd (made.comes named nc path') (nowhere n)
  · rw [Function.update_of_ne new, shown names e]
    constructor
    · rintro ⟨n, nd, path', at_n, rfl⟩
      obtain ⟨-, nd', at_n', -⟩ := made.forth at_n
      exact ⟨n, nd', made.keeps path', at_n', (made.entry at_n at_n').symm⟩
    · rintro ⟨n, nd, path', at_n, rfl⟩
      have nc : n ≠ c := by
        rintro rfl
        exact new (path'.unique below)
      obtain ⟨nd', at_n', -⟩ := made.back nc at_n
      exact ⟨n, nd', made.comes named nc path', at_n', made.entry at_n' at_n⟩

end Creation

/-- **Creating where a path says** is creating in the model, unless memory runs out. -/
theorem createAt_shows {m : PathFs} (named : Named A s) (shown : FsShows s m) (type : NodeType)
    {path : CString} (fit : StoresFit s path) :
    ∃ c t, ((splitPath s path).bind fun r => createNode A type s r.1 r.2) = some (c, t) ∧
      Named A t ∧ t.cwd = s.cwd ∧ NodesKept s t ∧
      (∀ {n names}, PathTo s n names → PathTo t n names) ∧
      ((c = 0 ∧ SameFiles s t ∧
          (t.oom = true ∨ t.oom = s.oom ∧ m.create path (newEntry type) = none)) ∨
        c ≠ 0 ∧ t.oom = s.oom ∧ ∃ names m', m.create path (newEntry type) = some (names, m') ∧
          m'.desc = m.desc ∧ FsShows t m' ∧ PathTo t c names) := by
  obtain ⟨kids, depth, inv⟩ := named.tree
  obtain ⟨p, base, split, rfl, ⟨rfl, none⟩ | ⟨-, dir, at_dir, path_p⟩⟩ :=
    split_resolves named shown path
  · refine ⟨0, s, by rw [split, Option.bind_some, createNode_null], named, rfl, fun h => ⟨_, h, rfl⟩,
      id, .inl ⟨rfl, ⟨rfl, rfl, rfl, rfl⟩, .inr ⟨rfl, ?_⟩⟩⟩
    rw [PathFs.create, none]
    rfl
  have walk : Resolvable s path := .inr (named.node shown.cwd)
  obtain ⟨d, at_p⟩ := named.node path_p
  have create : m.create path (newEntry type) =
      (m.tree.add? dir (strCopy (m.split path).2 ramfsNameMax) (newEntry type)).map fun tree =>
        (dir ++ [strCopy (m.split path).2 ramfsNameMax], { m with tree }) := by
    rw [PathFs.create, at_dir]
    rfl
  obtain ⟨c, t, ran, result⟩ := createNode_spec inv at_p type (m.split path).2
  obtain ⟨-, names⟩ := createNode_names inv named.names walk fit ⟨p, _, split, ran⟩
  refine ⟨c, t, by rw [split, Option.bind_some, ran], ?_⟩
  rcases result with ⟨rfl, files, inv', noted, why⟩ |
    ⟨nonnull, isDir, differ, unused, -, nodes, bufs, root, cwd, oom, inv'⟩
  · -- nothing was created
    refine ⟨named.of_same inv' files, files.cwd, fun h => ⟨_, files.nodes ▸ h, rfl⟩,
      (PathTo.iff_of_nodes files.nodes files.root).mpr, .inl ⟨rfl, files, ?_⟩⟩
    by_cases noMemory : t.oom = true
    · exact .inl noMemory
    refine .inr ⟨noted.resolve_right noMemory, ?_⟩
    rw [create, Option.map_eq_none_iff]
    by_contra added
    obtain ⟨m', add⟩ := Option.ne_none_iff_exists'.mp added
    obtain ⟨⟨here, free⟩, -⟩ := PathTree.add?_eq_some.mp add
    rcases why with file | ⟨x, mem, nd, at_x, same⟩ | noMemory'
    · rw [shown.tree.entry_at path_p at_p, Option.some.injEq, entryOf_dir] at here
      exact file here
    · -- the name of a child is stored in full
      obtain ⟨⟨nd', at_x', parent⟩, -⟩ := inv.links.mem_kids at_p mem
      obtain rfl := Option.some.inj (at_x.symm.trans at_x')
      have other : x ≠ s.root := fun eq => inv.links.root_notMem at_p (eq ▸ mem)
      have whole : strCopy nd.name ramfsNameMax = nd.name :=
        List.take_of_length_le (Nat.le_sub_one_of_lt (named.short x nd at_x other))
      have below : PathTo s x (dir ++ [nd.name]) := .child at_x other (parent ▸ path_p)
      rw [← same, whole, shown.tree.entry_at below at_x] at free
      cases free
    · exact noMemory noMemory'
  · -- a new node, under a name that no path had
    have made : Creation s type p c d (m.split path).2 t := ⟨at_p, unused, nodes, bufs, root⟩
    have absent : ramfsFindChild s p (m.split path).2 = some 0 := by
      obtain ⟨r, found, ⟨rfl, -⟩ | ⟨mem, n, at_r, eq⟩⟩ :=
        ramfsFindChild_spec inv at_p (m.split path).2
      · exact found
      · exact absurd eq (differ r mem n at_r)
    have nowhere : ∀ n, ¬ PathTo s n (dir ++ [strCopy (m.split path).2 ramfsNameMax]) := by
      obtain ⟨r, found, ⟨-, nowhere⟩ | ⟨some_node, -⟩⟩ :=
        named.find at_p path_p (strCopy (m.split path).2 ramfsNameMax)
      · exact nowhere
      · rw [(fit split at_p isDir absent).2.2.2, Option.some.injEq] at found
        exact absurd found.symm some_node
    have free : m.tree.entry dir = some .dir ∧
        m.tree.entry (dir ++ [strCopy (m.split path).2 ramfsNameMax]) = none := by
      refine ⟨?_, shown.tree.none nowhere⟩
      rw [shown.tree.entry_at path_p at_p, Option.some.injEq, entryOf_dir]
      exact isDir
    obtain ⟨m', add⟩ : ∃ m', m.tree.add? dir (strCopy (m.split path).2 ramfsNameMax)
        (newEntry type) = some m' := by
      rw [PathTree.add?, dif_pos free]
      exact ⟨_, rfl⟩
    obtain ⟨-, entries⟩ := PathTree.add?_eq_some.mp add
    refine ⟨⟨⟨_, _, inv'⟩, names, fun x nd at_x other => ?_⟩, cwd,
      fun h => (made.forth h).2, made.keeps,
      .inr ⟨nonnull, oom, _, { m with tree := m' }, by rw [create, add]; rfl, rfl,
        ⟨made.grown named shown.tree path_p nowhere entries, ?_⟩, made.below named path_p⟩⟩
    · by_cases xc : x = c
      · subst xc
        obtain rfl := Option.some.inj (made.at_c.symm.trans at_x)
        exact Nat.lt_of_le_of_lt (List.length_take_le _ _) (by decide)
      · obtain ⟨nd', at_x', same⟩ := made.back xc at_x
        rw [same]
        exact named.short x nd' at_x' (root ▸ other)
    · rw [cwd]
      exact made.keeps shown.cwd

/-! ## Unlinking -/

/-- The other files stay as they are. -/
theorem Unlinked.entry {c : Nat} {nd : Node} (inv : RamfsInv A s kids depth)
    (at_c : s.nodes c = some nd) (rest : Unlinked s c nd t) {x : Nat} {n n' : Node} (xc : x ≠ c)
    (at_x : s.nodes x = some n) (at_x' : t.nodes x = some n') :
    entryOf t x n' = entryOf s x n := by
  obtain ⟨n'', found, same⟩ := rest.kept xc at_x
  obtain rfl := Option.some.inj (at_x'.symm.trans found)
  refine entryOf_congr (by rw [same]) ?_
  have data : n'.data = n.data := by rw [same]
  have size : n'.size = n.size := by rw [same]
  rw [fileBytes, fileBytes, at_x, at_x', Option.elim_some, Option.elim_some, data, size]
  rcases inv.bufs.held at_x with ⟨-, -, empty⟩ | ⟨nonnull, -⟩
  · rw [empty, List.take_zero, List.take_zero]
  · rw [rest.bufs nonnull fun eq => xc (inv.bufs.own at_x at_c nonnull eq)]

/-- **`ramfs_unlink_node`** takes an entry away where the model does, and refuses where the
model does. -/
theorem ramfsUnlinkNode_shows (named : Named A s) (shown : TreeShows s m) {c : Nat}
    {names : List CString} (path : PathTo s c names) :
    (m.remove? names = none ∧ ramfsUnlinkNode A s c = some (-1, s)) ∨
      ∃ t m', m.remove? names = some m' ∧ ramfsUnlinkNode A s c = some (0, t) ∧ Named A t ∧
        t.cwd = s.cwd ∧ TreeShows t m' ∧
        (∀ {n front}, n ≠ c → PathTo s n front → PathTo t n front) ∧
        ∃ nd, s.nodes c = some nd ∧ Unlinked s c nd t := by
  obtain ⟨kids, depth, inv⟩ := named.tree
  obtain ⟨nd, at_c⟩ := named.node path
  rcases ramfsUnlinkNode_spec inv at_c with ⟨refused, ran⟩ | ⟨other, leaf, t, ran, rest, inv'⟩
  · refine .inl ⟨?_, ran⟩
    by_contra removed
    obtain ⟨m', remove⟩ := Option.ne_none_iff_exists'.mp removed
    obtain ⟨⟨below, -, childless⟩, -⟩ := PathTree.remove?_eq_some.mp remove
    rcases refused with top | ⟨dir, some_child⟩
    · subst top
      exact below (path.unique .root)
    · -- the first child is there
      cases list : kids c with
      | nil =>
          have chain := inv.links.chain at_c
          rw [list] at chain
          exact some_child chain
      | cons x l =>
          have mem : x ∈ kids c := list ▸ List.mem_cons_self
          obtain ⟨⟨n, at_x, parent⟩, -⟩ := inv.links.mem_kids at_c mem
          have top : x ≠ s.root := fun eq => inv.links.root_notMem at_c (eq ▸ mem)
          have further : PathTo s x (names ++ [n.name]) := .child at_x top (parent ▸ path)
          have empty := childless n.name
          rw [shown.entry_at further at_x] at empty
          cases empty
  · have parents : ∀ {x n}, s.nodes x = some n → x ≠ s.root → n.parent ≠ c := by
      intro x n at_x top parent
      obtain ⟨-, mem⟩ := inv.links.parent at_x top
      rw [parent, leaf] at mem
      cases mem
    have keeps : ∀ {n front}, n ≠ c → PathTo s n front → PathTo t n front := fun nc path =>
      path.transport (· ≠ c) rest.root (fun {x n} xc at_x _ => by
        obtain ⟨n', at_x', same⟩ := rest.kept xc at_x
        exact ⟨n', at_x', by rw [same], by rw [same]⟩) (fun _ at_x top => parents at_x top) nc
    have comes : ∀ {n front}, PathTo t n front → PathTo s n front := fun path =>
      path.transport (fun _ => True) rest.root.symm (fun {x n} _ at_x _ => by
        obtain ⟨-, n', at_x', same⟩ := rest.old at_x
        exact ⟨n', at_x', by rw [same], by rw [same]⟩) (fun _ _ _ => trivial) trivial
    have childless : m.Childless names := fun name => by
      refine shown.none fun n path' => ?_
      obtain ⟨n', at_n, top, -, front⟩ := path'.last
      exact parents at_n top (named.same front path)
    have below : names ≠ [] := by
      rintro rfl
      exact other (named.same path .root)
    have here : m.entry names ≠ none := by
      rw [shown.entry_at path at_c]
      exact Option.some_ne_none _
    obtain ⟨m', remove⟩ : ∃ m', m.remove? names = some m' := by
      rw [PathTree.remove?, dif_pos ⟨below, here, childless⟩]
      exact ⟨_, rfl⟩
    obtain ⟨-, entries⟩ := PathTree.remove?_eq_some.mp remove
    refine .inr ⟨t, m', remove, ran, ⟨⟨_, _, inv'⟩, rest.names named.names,
      fun x n at_x top => ?_⟩, rest.cwd, fun front e => ?_, keeps, nd, at_c, rest⟩
    · obtain ⟨-, n', at_x', same⟩ := rest.old at_x
      rw [same]
      exact named.short x n' at_x' (rest.root ▸ top)
    · rw [entries]
      by_cases gone : front = names
      · subst gone
        rw [Function.update_self]
        refine ⟨fun no => (by cases no), ?_⟩
        rintro ⟨n, n', path', at_n, -⟩
        obtain rfl := named.same (comes path') path
        rw [rest.gone] at at_n
        cases at_n
      · rw [Function.update_of_ne gone, shown front e]
        constructor
        · rintro ⟨n, n', path', at_n, rfl⟩
          have nc : n ≠ c := by
            rintro rfl
            exact gone (path'.unique path)
          obtain ⟨n'', at_n', -⟩ := rest.kept nc at_n
          exact ⟨n, n'', keeps nc path', at_n', (rest.entry inv at_c nc at_n at_n').symm⟩
        · rintro ⟨n, n', path', at_n, rfl⟩
          obtain ⟨nc, n'', at_n', -⟩ := rest.old at_n
          exact ⟨n, n'', comes path', at_n', rest.entry inv at_c nc at_n' at_n⟩

/-! ## Writing -/

/-- **A write** changes the contents under the path of the file. -/
theorem ramfsWrite_shows (named : Named A s) (shown : TreeShows s m) {f : Nat} {nd : Node}
    {names : List CString} {buf : List UInt8} {off : Nat} (path : PathTo s f names)
    (at_f : s.nodes f = some nd) (file : nd.type = .file) (start : off ≤ nd.size)
    (inv' : RamfsInv A t kids depth) (w : Written s f nd buf off t) :
    Named A t ∧ TreeShows t (m.modify names (overlay · off buf)) ∧
      ∀ {n front}, PathTo s n front → PathTo t n front := by
  obtain ⟨nd', at_f', shell, -⟩ := w.node
  simp only [Node.shell, Prod.mk.injEq] at shell
  -- nodes keep their names, types and parents
  have forth : ∀ {x n}, s.nodes x = some n → ∃ n', t.nodes x = some n' ∧ n'.name = n.name ∧
      n'.type = n.type ∧ n'.parent = n.parent := by
    intro x n at_x
    by_cases here : x = f
    · subst here
      obtain rfl := Option.some.inj (at_x.symm.trans at_f)
      exact ⟨nd', at_f', shell.1, shell.2.1, shell.2.2.1⟩
    · exact ⟨n, (w.nodes here).trans at_x, rfl, rfl, rfl⟩
  have back : ∀ {x n}, t.nodes x = some n → ∃ n', s.nodes x = some n' ∧ n'.name = n.name ∧
      n'.type = n.type ∧ n'.parent = n.parent := by
    intro x n at_x
    by_cases here : x = f
    · subst here
      obtain rfl := Option.some.inj (at_x.symm.trans at_f')
      exact ⟨nd, at_f, shell.1.symm, shell.2.1.symm, shell.2.2.1.symm⟩
    · exact ⟨n, (w.nodes here).symm.trans at_x, rfl, rfl, rfl⟩
  have keeps : ∀ {n front}, PathTo s n front → PathTo t n front := fun path =>
    path.transport (fun _ => True) w.root (fun {x n} _ at_x _ => by
      obtain ⟨n', at_x', name, -, parent⟩ := forth at_x
      exact ⟨n', at_x', name, parent⟩) (fun _ _ _ => trivial) trivial
  have comes : ∀ {n front}, PathTo t n front → PathTo s n front := fun path =>
    path.transport (fun _ => True) w.root.symm (fun {x n} _ at_x _ => by
      obtain ⟨n', at_x', name, -, parent⟩ := back at_x
      exact ⟨n', at_x', name, parent⟩) (fun _ _ _ => trivial) trivial
  have written : entryOf t f nd' = .file (overlay (fileBytes s f) off buf) := by
    rw [entryOf, shell.2.1, file, w.bytes start]
  have same : ∀ {x n n'}, x ≠ f → s.nodes x = some n → t.nodes x = some n' →
      entryOf t x n' = entryOf s x n := by
    intro x n n' xf at_x at_x'
    obtain rfl := Option.some.inj (at_x.symm.trans ((w.nodes xf).symm.trans at_x'))
    exact entryOf_congr rfl (w.others xf)
  refine ⟨⟨⟨_, _, inv'⟩, fun {x n} at_x top => ?_, fun x n at_x top => ?_⟩, fun front e => ?_,
    keeps⟩
  · obtain ⟨n', at_x', name, -, parent⟩ := back at_x
    rw [w.root] at top
    refine ⟨name ▸ (named.names at_x' top).1, fun {y k} at_y top' differ siblings => ?_⟩
    obtain ⟨k', at_y', name', -, parent'⟩ := back at_y
    rw [← name, ← name']
    exact (named.names at_x' top).2 at_y' (w.root ▸ top') differ
      (parent'.trans (siblings.trans parent.symm))
  · obtain ⟨n', at_x', name, -⟩ := back at_x
    rw [← name]
    exact named.short x n' at_x' (w.root ▸ top)
  · rw [PathTree.modify_entry]
    by_cases here : front = names
    · subst here
      rw [Function.update_self, shown.entry_at path at_f, Option.map_some, Option.some.injEq,
        entryOf, file]
      change PathEntry.file (overlay (fileBytes s f) off buf) = e ↔ _
      rw [← written]
      constructor
      · rintro rfl
        exact ⟨f, nd', keeps path, at_f', rfl⟩
      · rintro ⟨n, n', path', at_n, rfl⟩
        obtain rfl := named.same (comes path') path
        obtain rfl := Option.some.inj (at_n.symm.trans at_f')
        rfl
    · rw [Function.update_of_ne here, shown front e]
      constructor
      · rintro ⟨n, n', path', at_n, rfl⟩
        obtain ⟨n'', at_n', -⟩ := forth at_n
        have nf : n ≠ f := by
          rintro rfl
          exact here (path'.unique path)
        exact ⟨n, n'', keeps path', at_n', (same nf at_n at_n').symm⟩
      · rintro ⟨n, n', path', at_n, rfl⟩
        obtain ⟨n'', at_n', -⟩ := back at_n
        have nf : n ≠ f := by
          rintro rfl
          exact here ((comes path').unique path)
        exact ⟨n, n'', comes path', at_n', same nf at_n' at_n⟩

end Flyos
