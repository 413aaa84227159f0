import Flyos.Fs.PathOps
import Flyos.Fs.PersistSpec
import Mathlib.Data.List.Forall2

/-!
# Forests as trees of paths

A forest lists what a directory contains, as the codec of `ramfs_serialize` goes through it; a
`PathTree` says what each path leads to.  They say the same of a state (`ShowsRoot.treeShows_iff`): the
nodes that show a forest correspond to its entries one by one (`Shows.about`), and they are all
the nodes below the root (`Shows.all`).

So a state that shows a forest with the entries of another shows the same tree, and its names
are good when those in the tree are (`Named.of_lists`).
-/

namespace Flyos

variable {H : Type*} {A : Allocator H} {s t : Ramfs H} {kids : Nat → List Nat}
  {depth : Nat → Nat} {m : PathTree CString (List UInt8)} {f g : Forest} {a p : Nat} {l : List Nat}
  {front : List CString}

/-! ## Lists of entries -/

/-- What an entry of a forest records. -/
def entryFor : Option (List UInt8) → PathEntry (List UInt8)
  | none => .dir
  | some bytes => .file bytes

/-- **A tree of the listed entries**, and a root. -/
def Lists (m : PathTree CString (List UInt8))
    (entries : List (List CString × Option (List UInt8))) : Prop :=
  ∀ names e, m.entry names = some e ↔
    (names = [] ∧ e = .dir) ∨ ∃ o, (names, o) ∈ entries ∧ e = entryFor o

/-- The order of the entries does not matter. -/
theorem Lists.perm {es es' : List (List CString × Option (List UInt8))} (lists : Lists m es)
    (perm : es.Perm es') : Lists m es' := by
  intro names e
  rw [lists names e]
  simp only [perm.mem_iff]

/-- The entries of a forest lie below the path they are listed from, by one of its names. -/
theorem Forest.entries_below {e : List CString × Option (List UInt8)} (mem : e ∈ f.entries front) :
    ∃ name ∈ f.names, ∃ rest, e.1 = front ++ name :: rest := by
  induction f generalizing front with
  | nil => cases mem
  | file name bytes rest ih =>
      rcases List.mem_cons.mp mem with rfl | later
      · exact ⟨name, List.mem_cons_self, [], rfl⟩
      · obtain ⟨k, named, below, eq⟩ := ih later
        exact ⟨k, List.mem_cons_of_mem _ named, below, eq⟩
  | dir name kids rest ihKids ih =>
      rcases List.mem_cons.mp mem with rfl | mem
      · exact ⟨name, List.mem_cons_self, [], rfl⟩
      rcases List.mem_append.mp mem with inner | later
      · obtain ⟨k, -, below, eq⟩ := ihKids inner
        exact ⟨name, List.mem_cons_self, k :: below, by rw [eq, List.append_assoc]; rfl⟩
      · obtain ⟨k, named, below, eq⟩ := ih later
        exact ⟨k, List.mem_cons_of_mem _ named, below, eq⟩

/-- Nothing is listed below a name that the forest does not have. -/
theorem Forest.notMem_entries {name : CString} (absent : name ∉ f.names) (front below : List CString) :
    front ++ name :: below ∉ (f.entries front).map Prod.fst := by
  intro mem
  obtain ⟨e, listed, eq⟩ := List.mem_map.mp mem
  obtain ⟨k, named, rest, eq'⟩ := Forest.entries_below listed
  obtain ⟨rfl, -⟩ := List.cons.inj (List.append_cancel_left (eq.symm.trans eq'))
  exact absent named

/-- **Good names list no path twice.** -/
theorem Forest.WellNamed.nodup (well : f.WellNamed) (front : List CString) :
    ((f.entries front).map Prod.fst).Nodup := by
  induction f generalizing front with
  | nil => exact List.nodup_nil
  | file name bytes rest ih =>
      obtain ⟨-, -, absent, well⟩ := well
      rw [entries, List.map_cons, List.nodup_cons]
      exact ⟨Forest.notMem_entries absent front [], ih well front⟩
  | dir name kids rest ihKids ih =>
      obtain ⟨-, -, absent, inner, well⟩ := well
      -- what is in the directory lies below its name
      have deep : ∀ path ∈ (kids.entries (front ++ [name])).map Prod.fst,
          ∃ k below, path = front ++ name :: k :: below := by
        intro path mem
        obtain ⟨e, listed, rfl⟩ := List.mem_map.mp mem
        obtain ⟨k, -, below, eq⟩ := Forest.entries_below listed
        exact ⟨k, below, by rw [eq, List.append_assoc]; rfl⟩
      rw [entries, List.map_cons, List.map_append, List.nodup_cons, List.nodup_append']
      refine ⟨fun mem => ?_, ihKids inner _, ih well front, fun path mem mem' => ?_⟩
      · rcases List.mem_append.mp mem with mem | mem
        · obtain ⟨k, below, eq⟩ := deep _ mem
          cases List.append_cancel_left eq
        · exact Forest.notMem_entries absent front [] mem
      · obtain ⟨k, below, rfl⟩ := deep path mem
        exact Forest.notMem_entries absent front (k :: below) mem'

/-! ## The nodes of the entries -/

/-- An entry is about a node below the root. -/
def About (s : Ramfs H) (x : Nat) (e : List CString × Option (List UInt8)) : Prop :=
  x ≠ s.root ∧ PathTo s x e.1 ∧ ∃ nd, s.nodes x = some nd ∧ entryOf s x nd = entryFor e.2

/-- The nodes from `a` on are children of `p`. -/
def ChildrenOf (s : Ramfs H) (kids : Nat → List Nat) (p a : Nat) : Prop :=
  ∃ c, LinkChain (nextOf s.nodes) (· = 0) a c ∧ ∀ x ∈ c, x ∈ kids p

/-- The first of them is a child, and the others follow it. -/
theorem ChildrenOf.cons {n : Node} (children : ChildrenOf s kids p a) (nonnull : a ≠ 0)
    (at_a : s.nodes a = some n) : a ∈ kids p ∧ ChildrenOf s kids p n.next := by
  obtain ⟨c, chain, among⟩ := children
  cases c with
  | nil => exact absurd chain nonnull
  | cons x c =>
      obtain ⟨rfl, -, rest⟩ := chain
      rw [nextOf_some at_a] at rest
      exact ⟨among x List.mem_cons_self, c, rest, fun y mem => among y (List.mem_cons_of_mem _ mem)⟩

/-- **The nodes that show a forest are those of its entries**, one by one. -/
theorem Shows.about (inv : RamfsInv A s kids depth) {n : Node} (shows : Shows s a f l)
    (children : ChildrenOf s kids p a) (at_p : s.nodes p = some n) (path : PathTo s p front) :
    List.Forall₂ (About s) l (f.entries front) := by
  have child : ∀ {c p front m n}, s.nodes p = some n → PathTo s p front → c ∈ kids p →
      s.nodes c = some m → c ≠ s.root ∧ PathTo s c (front ++ [m.name]) := by
    intro c p front m n at_p path mem at_c
    obtain ⟨⟨m', at_c', parent⟩, -⟩ := inv.links.mem_kids at_p mem
    obtain rfl := Option.some.inj (at_c.symm.trans at_c')
    have other : c ≠ s.root := fun top => inv.links.root_notMem at_p (top ▸ mem)
    exact ⟨other, .child at_c other (by rw [parent]; exact path)⟩
  induction f generalizing a l p n front with
  | nil =>
      rw [shows.2]
      exact .nil
  | file name bytes rest ih =>
      obtain ⟨nonnull, nd, r, rfl, at_a, rfl, file, rfl, tail⟩ := shows
      obtain ⟨mem, children⟩ := children.cons nonnull at_a
      obtain ⟨other, path'⟩ := child at_p path mem at_a
      refine .cons ⟨other, path', nd, at_a, ?_⟩ (ih tail children at_p path)
      rw [entryOf, file]
      rfl
  | dir name inner rest ihInner ih =>
      obtain ⟨nonnull, nd, k, r, rfl, at_a, rfl, dir, below, tail⟩ := shows
      obtain ⟨mem, children⟩ := children.cons nonnull at_a
      obtain ⟨other, path'⟩ := child at_p path mem at_a
      refine .cons ⟨other, path', nd, at_a, ?_⟩ (List.rel_append ?_ (ih tail children at_p path))
      · rw [entryOf, dir]
        rfl
      · exact ihInner below ⟨kids a, inv.links.chain at_a, fun _ mem => mem⟩ at_a path'

/-- The siblings from `a` on are among the nodes. -/
theorem Shows.chain (shows : Shows s a f l) :
    ∃ c, LinkChain (nextOf s.nodes) (· = 0) a c ∧ ∀ x ∈ c, x ∈ l := by
  induction f generalizing a l with
  | nil => exact ⟨[], shows.1, fun _ mem => absurd mem List.not_mem_nil⟩
  | file name bytes rest ih =>
      obtain ⟨nonnull, n, r, rfl, at_a, -, -, -, tail⟩ := shows
      obtain ⟨c, chain, among⟩ := ih tail
      refine ⟨a :: c, ⟨rfl, nonnull, by rw [nextOf_some at_a]; exact chain⟩, fun x mem => ?_⟩
      exact (List.mem_cons.mp mem).elim (fun eq => by simp [eq]) fun mem => by simp [among x mem]
  | dir name kids rest _ ih =>
      obtain ⟨nonnull, n, k, r, rfl, at_a, -, -, -, tail⟩ := shows
      obtain ⟨c, chain, among⟩ := ih tail
      refine ⟨a :: c, ⟨rfl, nonnull, by rw [nextOf_some at_a]; exact chain⟩, fun x mem => ?_⟩
      exact (List.mem_cons.mp mem).elim (fun eq => by simp [eq]) fun mem => by simp [among x mem]

/-- What is in a directory among the nodes is among them. -/
theorem Shows.inner (shows : Shows s a f l) {x : Nat} {n : Node} (mem : x ∈ l)
    (at_x : s.nodes x = some n) (dir : n.type = .dir) :
    ∃ g k, Shows s n.children g k ∧ ∀ y ∈ k, y ∈ l := by
  induction f generalizing a l with
  | nil =>
      rw [shows.2] at mem
      cases mem
  | file name bytes rest ih =>
      obtain ⟨-, nd, r, rfl, at_a, -, file, -, tail⟩ := shows
      rcases List.mem_cons.mp mem with rfl | mem
      · obtain rfl := Option.some.inj (at_x.symm.trans at_a)
        rw [dir] at file
        cases file
      · obtain ⟨g, k, below, among⟩ := ih tail mem
        exact ⟨g, k, below, fun y held => List.mem_cons_of_mem _ (among y held)⟩
  | dir name kids rest ihKids ih =>
      obtain ⟨-, nd, k, r, rfl, at_a, -, -, below, tail⟩ := shows
      rcases List.mem_cons.mp mem with rfl | mem
      · obtain rfl := Option.some.inj (at_x.symm.trans at_a)
        exact ⟨kids, k, below, fun y held => by simp [held]⟩
      rcases List.mem_append.mp mem with mem | mem
      · obtain ⟨g, k', below', among⟩ := ihKids below mem
        exact ⟨g, k', below', fun y held => by simp [among y held]⟩
      · obtain ⟨g, k', below', among⟩ := ih tail mem
        exact ⟨g, k', below', fun y held => by simp [among y held]⟩

/-- **All nodes below the root** show the forest of the root. -/
theorem Shows.all (inv : RamfsInv A s kids depth) {r : Node} (at_root : s.nodes s.root = some r)
    (shows : Shows s r.children f l) {x : Nat} {n : Node} (at_x : s.nodes x = some n)
    (other : x ≠ s.root) : x ∈ l := by
  induction deep : depth x using Nat.strongRecOn generalizing x n with
  | _ k ih =>
      obtain ⟨⟨d, at_p⟩, mem⟩ := inv.links.parent at_x other
      obtain ⟨dir, -, -, -, deeper⟩ := inv.links.child at_p mem
      obtain ⟨g, k', below, among⟩ : ∃ g k', Shows s d.children g k' ∧ ∀ y ∈ k', y ∈ l := by
        by_cases top : n.parent = s.root
        · rw [top, at_root] at at_p
          obtain rfl := Option.some.inj at_p
          exact ⟨f, l, shows, fun _ held => held⟩
        · exact shows.inner (ih _ (by omega) at_p top rfl) at_p dir
      obtain ⟨c, chain, sub⟩ := below.chain
      rw [(inv.links.chain at_p).unique chain] at mem
      exact among x (sub x mem)

/-! ## A state and its forest -/

/-- Every entry has a node. -/
theorem exists_about {x : Nat} {es : List (List CString × Option (List UInt8))}
    (about : List.Forall₂ (About s) l es) (mem : x ∈ l) : ∃ e ∈ es, About s x e := by
  induction about with
  | nil => cases mem
  | cons first _ ih =>
      rcases List.mem_cons.mp mem with rfl | mem
      · exact ⟨_, List.mem_cons_self, first⟩
      · obtain ⟨e, listed, here⟩ := ih mem
        exact ⟨e, List.mem_cons_of_mem _ listed, here⟩

/-- Every node has an entry. -/
theorem exists_node {e : List CString × Option (List UInt8)}
    {es : List (List CString × Option (List UInt8))} (about : List.Forall₂ (About s) l es)
    (mem : e ∈ es) : ∃ x ∈ l, About s x e := by
  induction about with
  | nil => cases mem
  | cons first _ ih =>
      rcases List.mem_cons.mp mem with rfl | mem
      · exact ⟨_, List.mem_cons_self, first⟩
      · obtain ⟨x, held, here⟩ := ih mem
        exact ⟨x, List.mem_cons_of_mem _ held, here⟩

/-- Where no path is listed twice, a path leads to one node. -/
theorem node_of_nodup {x y : Nat} {names : List CString}
    {es : List (List CString × Option (List UInt8))} (about : List.Forall₂ (About s) l es)
    (once : (es.map Prod.fst).Nodup) (mem : x ∈ l) (mem' : y ∈ l) (path : PathTo s x names)
    (path' : PathTo s y names) : x = y := by
  induction about with
  | nil => cases mem
  | @cons a e l es first rest ih =>
      rw [List.map_cons, List.nodup_cons] at once
      -- the first entry is listed once
      have single : ∀ {z}, PathTo s a names → z ∈ l → ¬ PathTo s z names := by
        intro z here held path
        obtain ⟨e', listed, -, path', -⟩ := exists_about rest held
        have same : e'.1 = e.1 :=
          (path'.unique path).trans (here.unique first.2.1)
        exact once.1 (same ▸ List.mem_map_of_mem listed)
      rcases List.mem_cons.mp mem with rfl | later
      · rcases List.mem_cons.mp mem' with rfl | mem'
        · rfl
        · exact absurd path' (single path mem')
      · rcases List.mem_cons.mp mem' with rfl | mem'
        · exact absurd path (single path' later)
        · exact ih once.2 later mem'

namespace ShowsRoot

variable (inv : RamfsInv A s kids depth) (shown : ShowsRoot s f)
include inv shown

/-- The nodes below the root and the entries. -/
theorem about : ∃ l, List.Forall₂ (About s) l (f.entries []) ∧
    ∀ {x n}, s.nodes x = some n → x ≠ s.root → x ∈ l := by
  obtain ⟨r, l, at_root, shows⟩ := shown
  exact ⟨l, shows.about inv ⟨_, inv.links.chain at_root, fun _ mem => mem⟩ at_root .root,
    fun at_x other => shows.all inv at_root at_x other⟩

/-- **The tree of a state is that of its forest.** -/
theorem treeShows_iff : TreeShows s m ↔ Lists m (f.entries []) := by
  obtain ⟨l, about, all⟩ := shown.about inv
  obtain ⟨r, at_root, dir, -⟩ := inv.links.top
  have same : ∀ names e,
      (∃ n nd, PathTo s n names ∧ s.nodes n = some nd ∧ e = entryOf s n nd) ↔
        (names = [] ∧ e = .dir) ∨ ∃ o, (names, o) ∈ f.entries [] ∧ e = entryFor o := by
    intro names e
    constructor
    · rintro ⟨n, nd, path, at_n, rfl⟩
      by_cases top : n = s.root
      · subst top
        obtain rfl := Option.some.inj (at_n.symm.trans at_root)
        exact .inl ⟨path.unique .root, entryOf_dir.mpr dir⟩
      · obtain ⟨⟨names', o⟩, listed, -, path', nd', at_n', entry⟩ := exists_about about (all at_n top)
        obtain rfl := Option.some.inj (at_n.symm.trans at_n')
        obtain rfl := path.unique path'
        exact .inr ⟨o, listed, entry⟩
    · rintro (⟨rfl, rfl⟩ | ⟨o, listed, rfl⟩)
      · exact ⟨s.root, r, .root, at_root, (entryOf_dir.mpr dir).symm⟩
      · obtain ⟨x, -, -, path, nd, at_x, entry⟩ := exists_node about listed
        exact ⟨x, nd, path, at_x, entry.symm⟩
  unfold TreeShows Lists
  simp only [same]

/-- **Good names**: where no path is listed twice and the names in the tree are proper and short,
so are those of the nodes. -/
theorem named (once : ((f.entries []).map Prod.fst).Nodup) (tree : TreeShows s m)
    (every : m.Over fun name => ProperName name ∧ name.length < ramfsNameMax) : Named A s := by
  obtain ⟨l, about, all⟩ := shown.about inv
  have good : ∀ {c n}, s.nodes c = some n → c ≠ s.root →
      ProperName n.name ∧ n.name.length < ramfsNameMax := by
    intro c n at_c other
    obtain ⟨⟨d, at_p⟩, -⟩ := inv.links.parent at_c other
    obtain ⟨front, path⟩ := inv.pathTo at_p
    have there := tree.entry_at (.child at_c other path) at_c
    refine every (front ++ [n.name]) ?_ n.name (by simp)
    rw [there]
    exact Option.some_ne_none _
  refine ⟨⟨kids, depth, inv⟩, fun {c n} at_c other => ⟨(good at_c other).1, ?_⟩,
    fun c n at_c other => (good at_c other).2⟩
  intro c' n' at_c' other' differ parent name
  obtain ⟨⟨d, at_p⟩, -⟩ := inv.links.parent at_c other
  obtain ⟨front, path⟩ := inv.pathTo at_p
  have path' : PathTo s c' (front ++ [n.name]) := by
    rw [← name]
    exact .child at_c' other' (parent ▸ path)
  exact differ (node_of_nodup about once (all at_c' other') (all at_c other) path'
    (.child at_c other path))

end ShowsRoot

/-- The names in the tree of a state are those of its nodes. -/
theorem TreeShows.over (shown : TreeShows s m) {P : CString → Prop}
    (good : ∀ {c n}, s.nodes c = some n → c ≠ s.root → P n.name) : m.Over P := by
  intro names there
  obtain ⟨e, found⟩ := Option.ne_none_iff_exists'.mp there
  obtain ⟨n, -, path, -⟩ := (shown names e).mp found
  clear found there e
  induction path with
  | root => exact fun _ mem => absurd mem List.not_mem_nil
  | @child c nd names at_c other _ ih =>
      intro name mem
      rcases List.mem_append.mp mem with front | last
      · exact ih name front
      · rw [List.mem_singleton.mp last]
        exact good at_c other

end Flyos
