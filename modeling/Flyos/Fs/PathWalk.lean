import Flyos.Fs.PathModel
import Flyos.Fs.Paths

/-!
# Paths lead where the model says

`TreeShows s m`: the nodes of `s`, each under the names on the way to it, are the tree `m`.
`ramfs_lookup` then ends at the node that `PathFs.resolve` names, for every path string
(`lookup_resolves`), and the directory a path is split at is the model's (`split_resolves`).
-/

namespace Flyos

variable {H : Type*} {A : Allocator H} {s t : Ramfs H} {kids : Nat → List Nat}
  {depth : Nat → Nat}

/-! ## Names taken off -/

/-- The name that `ramfs_lookup` takes ends where the model says that it does. -/
theorem takeName_ends (p : CString) :
    p.drop (takeName p).length = [] ∨ (p.drop (takeName p).length).head? = some 47 ∨
      (takeName p).length + 1 = ramfsNameMax := by
  by_cases long : ramfsNameMax - 1 ≤ (p.takeWhile (· ≠ 47)).length
  · refine .inr (.inr ?_)
    rw [takeName, List.length_take, Nat.min_eq_left long]
    rfl
  · have whole : takeName p = p.takeWhile (· ≠ 47) := List.take_of_length_le (by omega)
    have rest : p.drop (takeName p).length = p.dropWhile (· ≠ 47) := by
      have parts : p.takeWhile (· ≠ 47) ++ p.dropWhile (· ≠ 47) = p :=
        List.takeWhile_append_dropWhile
      calc p.drop (takeName p).length
          = (p.takeWhile (· ≠ 47) ++ p.dropWhile (· ≠ 47)).drop (p.takeWhile (· ≠ 47)).length := by
            rw [parts, whole]
        _ = p.dropWhile (· ≠ 47) := List.drop_left
    rw [rest]
    cases behind : p.dropWhile (· ≠ 47) with
    | nil => exact .inl rfl
    | cons c q =>
        have stop := List.head?_dropWhile_not (· ≠ (47 : UInt8)) p
        rw [behind] at stop
        have slash : c = 47 := by simpa using stop
        exact .inr (.inl (by rw [slash]; rfl))

/-- **One round of `ramfs_lookup`** takes one step of the path. -/
theorem pathSteps_cons (p : CString) : pathSteps p =
    (if takeName p = [] then [] else [stepOf (takeName p)]) ++ pathSteps (afterName p) := by
  have split : takeName p ++ p.drop (takeName p).length = p := by
    have front : takeName p <+: p :=
      (List.take_prefix _ _).trans (List.takeWhile_prefix _)
    conv_rhs => rw [← List.take_append_drop (takeName p).length p]
    rw [← List.prefix_iff_eq_take.mp front]
  rw [pathSteps, pathSteps, afterName, namesFrom_dropWhile]
  by_cases none : takeName p = []
  · rw [if_pos none, none]
    rfl
  · have plain : 47 ∉ takeName p := fun mem => by
      have kept := List.mem_takeWhile_imp (List.mem_of_mem_take mem)
      simp at kept
    have short : (takeName p).length < ramfsNameMax :=
      Nat.lt_of_le_of_lt (List.length_take_le _ _) (by decide)
    have one : namesFrom ([] : CString) (takeName p ++ p.drop (takeName p).length)
        = ([] ++ takeName p) :: namesFrom [] (p.drop (takeName p).length) :=
      namesFrom_name none plain short (by decide) (takeName_ends p)
    rw [split, List.nil_append] at one
    rw [if_neg none, one]
    rfl

/-! ## The nodes as a tree of paths -/

/-- What a node is to those who see the file system by paths. -/
def entryOf (s : Ramfs H) (n : Nat) (nd : Node) : PathEntry (List UInt8) :=
  match nd.type with
  | .dir => .dir
  | .file => .file (fileBytes s n)

/-- The nodes, under the names on the way to them, are the tree. -/
def TreeShows (s : Ramfs H) (m : PathTree CString (List UInt8)) : Prop :=
  ∀ names e, m.entry names = some e ↔
    ∃ n nd, PathTo s n names ∧ s.nodes n = some nd ∧ e = entryOf s n nd

/-- A tree whose nodes have names that fit into a path. -/
structure Named (A : Allocator H) (s : Ramfs H) : Prop where
  tree : ∃ kids depth, RamfsInv A s kids depth
  names : NamesOk s
  short : ∀ c m, s.nodes c = some m → c ≠ s.root → m.name.length < ramfsNameMax

@[simp] theorem entryOf_dir {n : Nat} {nd : Node} : entryOf s n nd = .dir ↔ nd.type = .dir := by
  unfold entryOf
  cases nd.type <;> simp

/-- The last name of a path is that of the node, the others lead to its parent. -/
theorem PathTo.last {n : Nat} {dir : List CString} {name : CString}
    (path : PathTo s n (dir ++ [name])) :
    ∃ nd, s.nodes n = some nd ∧ n ≠ s.root ∧ nd.name = name ∧ PathTo s nd.parent dir := by
  generalize all : dir ++ [name] = names at path
  cases path with
  | root => simp at all
  | @child c nd front at_c other path =>
      obtain ⟨rfl, last⟩ := List.append_inj' all rfl
      exact ⟨nd, at_c, other, (List.cons.inj last).1.symm, path⟩

/-- A node has one path. -/
theorem PathTo.unique {n : Nat} {names names' : List CString} (path : PathTo s n names)
    (path' : PathTo s n names') : names = names' := by
  induction path generalizing names' with
  | root =>
      cases path' with
      | root => rfl
      | child _ other _ => exact absurd rfl other
  | child at_c other _ ih =>
      cases path' with
      | root => exact absurd rfl other
      | child at_c' _ front =>
          obtain rfl := Option.some.inj (at_c.symm.trans at_c')
          rw [ih front]

namespace Named

variable (named : Named A s)
include named

/-- The null address is no node. -/
theorem null : s.nodes 0 = none := by
  obtain ⟨kids, depth, inv⟩ := named.tree
  exact inv.links.null

/-- The root is a directory. -/
theorem top : ∃ r, s.nodes s.root = some r ∧ r.type = .dir ∧ r.parent = 0 := by
  obtain ⟨kids, depth, inv⟩ := named.tree
  exact inv.links.top

/-- The parent of a node is a directory. -/
theorem parent {c : Nat} {m : Node} (at_c : s.nodes c = some m) (other : c ≠ s.root) :
    ∃ d, s.nodes m.parent = some d ∧ d.type = .dir := by
  obtain ⟨kids, depth, inv⟩ := named.tree
  obtain ⟨⟨d, at_p⟩, mem⟩ := inv.links.parent at_c other
  exact ⟨d, at_p, (inv.links.child at_p mem).1⟩

/-- What a path leads to is a node. -/
theorem node {n : Nat} {names : List CString} (path : PathTo s n names) :
    ∃ nd, s.nodes n = some nd := by
  cases path with
  | root =>
      obtain ⟨r, at_root, -⟩ := named.top
      exact ⟨r, at_root⟩
  | child at_c _ _ => exact ⟨_, at_c⟩

/-- A path leads to one node. -/
theorem same {n n' : Nat} {names : List CString} (path : PathTo s n names)
    (path' : PathTo s n' names) : n = n' := by
  induction path generalizing n' with
  | root =>
      generalize empty : ([] : List CString) = none at path'
      cases path' with
      | root => rfl
      | child _ _ _ => simp at empty
  | @child c m names at_c other front ih =>
      obtain ⟨nd, at_n', other', name, front'⟩ := path'.last
      by_contra differ
      exact (named.names at_c other).2 at_n' other' (Ne.symm differ) (ih front').symm name

/-- **`ramfs_find_child`** finds what has the name in a directory. -/
theorem find {p : Nat} {d : Node} {dir : List CString} (at_p : s.nodes p = some d)
    (path : PathTo s p dir) (name : CString) :
    ∃ c, ramfsFindChild s p name = some c ∧ ((c = 0 ∧ ∀ n, ¬ PathTo s n (dir ++ [name])) ∨
      c ≠ 0 ∧ ∃ nd, s.nodes c = some nd ∧ PathTo s c (dir ++ [name])) := by
  obtain ⟨kids, depth, inv⟩ := named.tree
  obtain ⟨c, found, ⟨rfl, none⟩ | ⟨mem, nd, at_c, rfl⟩⟩ := ramfsFindChild_spec inv at_p name
  · refine ⟨0, found, .inl ⟨rfl, fun n path' => ?_⟩⟩
    obtain ⟨nd, at_n, other, same, front⟩ := path'.last
    obtain ⟨-, mem⟩ := inv.links.parent at_n other
    rw [named.same front path] at mem
    exact none n mem nd at_n same
  · obtain ⟨⟨m, at_c', parent⟩, -⟩ := inv.links.mem_kids at_p mem
    obtain rfl := Option.some.inj (at_c.symm.trans at_c')
    refine ⟨c, found, .inr ⟨fun null => ?_, nd, at_c, ?_⟩⟩
    · rw [null, named.null] at at_c
      cases at_c
    · refine .child at_c (fun root => inv.links.root_notMem at_p (root ▸ mem)) ?_
      rw [parent]
      exact path

end Named

namespace TreeShows

variable {m : PathTree CString (List UInt8)} (shown : TreeShows s m)
include shown

/-- What a node is under its path. -/
theorem entry_at {n : Nat} {nd : Node} {names : List CString} (path : PathTo s n names)
    (at_n : s.nodes n = some nd) : m.entry names = some (entryOf s n nd) :=
  (shown names _).mpr ⟨n, nd, path, at_n, rfl⟩

/-- Where no path leads there is nothing. -/
theorem none {names : List CString} (nowhere : ∀ n, ¬ PathTo s n names) :
    m.entry names = none := by
  by_contra there
  obtain ⟨e, found⟩ := Option.ne_none_iff_exists'.mp there
  obtain ⟨n, -, path, -⟩ := (shown names e).mp found
  exact nowhere n path

/-- **A walk** along any path string from a node. -/
theorem walk (named : Named A s) {cur : Nat} {n : Node} {here : List CString} (p : CString)
    (at_cur : s.nodes cur = some n) (path : PathTo s cur here) :
    ∃ r, walkPath s cur p = some r ∧ ((r = 0 ∧ m.walk here (pathSteps p) = Option.none) ∨
      r ≠ 0 ∧ ∃ there, m.walk here (pathSteps p) = some there ∧ PathTo s r there) := by
  induction size : p.length using Nat.strongRecOn generalizing cur n here p with
  | _ k ih =>
      by_cases done : p = []
      · subst done
        refine ⟨cur, walkPath_nil, .inr ⟨fun null => ?_, here, rfl, path⟩⟩
        rw [null, named.null] at at_cur
        cases at_cur
      have rest : ∀ {cur n here}, s.nodes cur = some n → PathTo s cur here →
          ∃ r, walkPath s cur (afterName p) = some r ∧
            ((r = 0 ∧ m.walk here (pathSteps (afterName p)) = Option.none) ∨
              r ≠ 0 ∧ ∃ there, m.walk here (pathSteps (afterName p)) = some there ∧
                PathTo s r there) :=
        fun at_cur path => ih _ (size ▸ rest_shorter done) (afterName p) at_cur path rfl
      rw [walkPath_cons done, pathSteps_cons p]
      by_cases skip : takeName p = []
      · rw [if_pos (.inl skip), if_pos skip]
        exact rest at_cur path
      rw [if_neg skip]
      by_cases dot : takeName p = [46]
      · rw [if_pos (.inr dot), dot]
        exact rest at_cur path
      rw [if_neg (not_or.mpr ⟨skip, dot⟩), at_cur, Option.bind_some]
      by_cases up : takeName p = [46, 46]
      · rw [if_pos up, up]
        change ∃ r, _ ∧ ((r = 0 ∧ m.walk here.dropLast (pathSteps (afterName p)) = _) ∨ r ≠ 0 ∧
          ∃ there, m.walk here.dropLast (pathSteps (afterName p)) = _ ∧ _)
        cases path with
        | root =>
            -- above the root there is the root
            obtain ⟨r, at_root, -, orphan⟩ := named.top
            obtain rfl := Option.some.inj (at_cur.symm.trans at_root)
            rw [if_neg (not_not.mpr orphan)]
            exact rest at_cur .root
        | @child _ nd front at_c other path =>
            obtain rfl := Option.some.inj (at_cur.symm.trans at_c)
            obtain ⟨d, at_p, -⟩ := named.parent at_c other
            have nonnull : n.parent ≠ 0 := fun null => by
              rw [null, named.null] at at_p
              cases at_p
            rw [if_pos nonnull, List.dropLast_concat]
            exact rest at_p path
      rw [if_neg up, show stepOf (takeName p) = .down (takeName p) by
        rw [stepOf, if_neg dot, if_neg up]]
      change ∃ r, _ ∧ ((r = 0 ∧ ((m.entry (here ++ [takeName p])).bind fun _ =>
        m.walk (here ++ [takeName p]) (pathSteps (afterName p))) = _) ∨ r ≠ 0 ∧
          ∃ there, ((m.entry (here ++ [takeName p])).bind fun _ =>
            m.walk (here ++ [takeName p]) (pathSteps (afterName p))) = _ ∧ _)
      by_cases file : n.type ≠ .dir
      · -- behind a file there is nothing
        rw [if_pos file, m.behind (by rw [shown.entry_at path at_cur]; simpa using file)]
        exact ⟨0, rfl, .inl ⟨rfl, rfl⟩⟩
      rw [if_neg file]
      obtain ⟨c, found, ⟨rfl, nowhere⟩ | ⟨nonnull, nd, at_c, below⟩⟩ :=
        named.find at_cur path (takeName p)
      · rw [found, Option.bind_some, if_pos rfl, shown.none nowhere]
        exact ⟨0, rfl, .inl ⟨rfl, rfl⟩⟩
      · rw [found, Option.bind_some, if_neg nonnull, shown.entry_at below at_c]
        exact rest at_c below

end TreeShows

/-! ## The calls on paths -/

/-- The tree and the current directory of a file system are those of the model. -/
structure FsShows (s : Ramfs H) (m : PathFs) : Prop where
  tree : TreeShows s m.tree
  cwd : PathTo s s.cwd m.cwd

variable {m : PathFs}

/-- **`ramfs_lookup`** ends at the node that the model names. -/
theorem lookup_resolves (named : Named A s) (shown : FsShows s m) (path : CString) :
    ∃ r, ramfsLookup s path = some r ∧ ((r = 0 ∧ m.resolve path = none) ∨
      r ≠ 0 ∧ ∃ there, m.resolve path = some there ∧ PathTo s r there) := by
  unfold PathFs.resolve
  by_cases empty : path = []
  · subst empty
    exact ⟨0, rfl, .inl ⟨rfl, rfl⟩⟩
  rw [if_neg empty]
  by_cases slash : path.head? = some 47
  · obtain ⟨p, rfl⟩ : ∃ p, path = 47 :: p := by
      cases path with
      | nil => exact absurd rfl empty
      | cons c p =>
          obtain rfl := Option.some.inj slash
          exact ⟨p, rfl⟩
    obtain ⟨r, at_root, -⟩ := named.top
    rw [if_pos slash, ramfsLookup_root]
    exact shown.tree.walk named p at_root .root
  · obtain ⟨n, at_cwd⟩ := named.node shown.cwd
    rw [if_neg slash, ramfsLookup_cwd empty slash]
    exact shown.tree.walk named path at_cwd shown.cwd

/-- **The directory a path is split at** is the model's, and so is the name behind it. -/
theorem split_resolves (named : Named A s) (shown : FsShows s m) (path : CString) :
    ∃ p base, splitPath s path = some (p, base) ∧ base = (m.split path).2 ∧
      ((p = 0 ∧ (m.split path).1 = none) ∨
        p ≠ 0 ∧ ∃ dir, (m.split path).1 = some dir ∧ PathTo s p dir) := by
  have nonnull : ∀ {n names}, PathTo s n names → n ≠ 0 := by
    rintro n names path rfl
    obtain ⟨nd, at_null⟩ := named.node path
    rw [named.null] at at_null
    cases at_null
  unfold splitPath PathFs.split
  cases slash : lastSlash path with
  | none => exact ⟨s.cwd, path, rfl, rfl, .inr ⟨nonnull shown.cwd, m.cwd, rfl, shown.cwd⟩⟩
  | some i =>
      dsimp only
      by_cases top : min i 127 = 0
      · rw [if_pos top, if_pos top]
        exact ⟨s.root, _, rfl, rfl, .inr ⟨nonnull .root, [], rfl, .root⟩⟩
      · obtain ⟨r, looked, result⟩ := lookup_resolves named shown (parentPath path i)
        rw [if_neg top, if_neg top, looked]
        exact ⟨r, _, rfl, rfl, result⟩

end Flyos
