import Flyos.Fs.Ramfs
import Flyos.Lib.LinkChain
import Mathlib.Order.Interval.Finset.Nat

/-!
# The tree under the links

`Links nodes root kids depth` says that the raw pointers of the nodes form a tree:
`kids p` is the child list of node `p`, in list order, and `depth` counts levels.
Three updates keep it: adding a child at the head of a list (`Links.add`), taking
a childless node out of one (`Links.remove`), and changing anything but the links
(`Links.congr`).

The two loops over child lists, of `ramfs_find_child` and `ramfs_unlink_node`, are
characterised by the list they walk (`findChildLoop_spec`, `unlinkLoop_spec`).
-/

namespace Flyos

/-- `p->next`. -/
def nextOf (nodes : Nat → Option Node) (p : Nat) : Nat := (nodes p).elim 0 Node.next

/-- The links of the nodes form a tree under `root`. -/
structure Links (nodes : Nat → Option Node) (root : Nat) (kids : Nat → List Nat)
    (depth : Nat → Nat) : Prop where
  null : nodes 0 = none
  top : ∃ n, nodes root = some n ∧ n.type = .dir ∧ n.parent = 0
  /-- Child lists end, and `kids` lists them. -/
  chain : ∀ {p n}, nodes p = some n → LinkChain (nextOf nodes) (· = 0) n.children (kids p)
  /-- Only directories have children; a child points to its parent and lies one level deeper. -/
  child : ∀ {p n c}, nodes p = some n → c ∈ kids p → n.type = .dir ∧
    ∃ m, nodes c = some m ∧ m.parent = p ∧ depth c = depth p + 1
  /-- Every node but the root is in the child list of its parent. -/
  parent : ∀ {c m}, nodes c = some m → c ≠ root →
    (∃ n, nodes m.parent = some n) ∧ c ∈ kids m.parent

/-- The part of a node that makes the tree. -/
def Node.links (n : Node) : NodeType × Nat × Nat × Nat := (n.type, n.parent, n.children, n.next)

variable {nodes nodes' : Nat → Option Node} {root : Nat} {kids : Nat → List Nat}
  {depth : Nat → Nat}

theorem nextOf_some {p : Nat} {n : Node} (h : nodes p = some n) : nextOf nodes p = n.next := by
  rw [nextOf, h]
  rfl

namespace Links

/-- The root is in no child list. -/
theorem root_notMem (links : Links nodes root kids depth) {p : Nat} {n : Node}
    (h : nodes p = some n) : root ∉ kids p := fun mem => by
  obtain ⟨r, at_root, -, orphan⟩ := links.top
  obtain ⟨-, m, at_m, parent, -⟩ := links.child h mem
  rw [at_root, Option.some.injEq] at at_m
  rw [← at_m, orphan] at parent
  rw [← parent, links.null] at h
  cases h

/-- Children are nodes, and no node is its own child. -/
theorem mem_kids (links : Links nodes root kids depth) {p c : Nat} {n : Node}
    (h : nodes p = some n) (mem : c ∈ kids p) : (∃ m, nodes c = some m ∧ m.parent = p) ∧ c ≠ p := by
  obtain ⟨-, m, at_c, parent, deeper⟩ := links.child h mem
  refine ⟨⟨m, at_c, parent⟩, fun eq => ?_⟩
  rw [eq] at deeper
  omega

/-- A node is in one child list only. -/
theorem kids_disjoint (links : Links nodes root kids depth) {p q c : Nat} {n m : Node}
    (hp : nodes p = some n) (hq : nodes q = some m) (mem : c ∈ kids p) (mem' : c ∈ kids q) :
    p = q := by
  obtain ⟨⟨a, at_c, parent⟩, -⟩ := links.mem_kids hp mem
  obtain ⟨⟨b, at_c', parent'⟩, -⟩ := links.mem_kids hq mem'
  obtain rfl := Option.some.inj (at_c.symm.trans at_c')
  exact parent.symm.trans parent'

/-- Child lists have no repetition. -/
theorem nodup (links : Links nodes root kids depth) {p : Nat} {n : Node} (h : nodes p = some n) :
    (kids p).Nodup := (links.chain h).nodup

/-- The child list of a childless node is empty. -/
theorem kids_nil (links : Links nodes root kids depth) {p : Nat} {n : Node} (h : nodes p = some n)
    (none : n.type = .dir → n.children = 0) : kids p = [] := by
  cases list : kids p with
  | nil => rfl
  | cons c l =>
      have chain := links.chain h
      rw [list] at chain
      have dir := (links.child h (list ▸ List.mem_cons_self : c ∈ kids p)).1
      exact absurd (none dir) chain.2.1

/-- Anything but the links may change. -/
theorem congr (links : Links nodes root kids depth)
    (same : ∀ p, (nodes' p).map Node.links = (nodes p).map Node.links) :
    Links nodes' root kids depth := by
  -- a node after is a node before with the same links, and conversely
  have back : ∀ {p n'}, nodes' p = some n' → ∃ n, nodes p = some n ∧ n'.links = n.links := by
    intro p n' h
    have eq := same p
    rw [h] at eq
    cases old : nodes p with
    | none => rw [old] at eq; cases eq
    | some n => rw [old] at eq; exact ⟨n, rfl, Option.some.inj eq⟩
  have forth : ∀ {p n}, nodes p = some n → ∃ n', nodes' p = some n' ∧ n'.links = n.links := by
    intro p n h
    have eq := same p
    rw [h] at eq
    cases new : nodes' p with
    | none => rw [new] at eq; cases eq
    | some n' => rw [new] at eq; exact ⟨n', rfl, Option.some.inj eq⟩
  have next : ∀ p, nextOf nodes p = nextOf nodes' p := by
    intro p
    cases h : nodes p with
    | none =>
        have eq := same p
        rw [h, Option.map_none, Option.map_eq_none_iff] at eq
        rw [nextOf, nextOf, h, eq]
    | some n =>
        obtain ⟨n', h', eq⟩ := forth h
        simp only [Node.links, Prod.mk.injEq] at eq
        rw [nextOf_some h, nextOf_some h', eq.2.2.2]
  refine ⟨?_, ?_, fun {p n'} h => ?_, fun {p n' c} h mem => ?_, fun {c m'} h other => ?_⟩
  · have eq := same 0
    rwa [links.null, Option.map_none, Option.map_eq_none_iff] at eq
  · obtain ⟨n, h, dir, orphan⟩ := links.top
    obtain ⟨n', h', eq⟩ := forth h
    simp only [Node.links, Prod.mk.injEq] at eq
    exact ⟨n', h', eq.1.trans dir, eq.2.1.trans orphan⟩
  · obtain ⟨n, old, eq⟩ := back h
    simp only [Node.links, Prod.mk.injEq] at eq
    rw [eq.2.2.1]
    exact (links.chain old).congr fun x _ => next x
  · obtain ⟨n, old, eq⟩ := back h
    simp only [Node.links, Prod.mk.injEq] at eq
    obtain ⟨dir, m, at_c, parent, deeper⟩ := links.child old mem
    obtain ⟨m', at_c', eq'⟩ := forth at_c
    simp only [Node.links, Prod.mk.injEq] at eq'
    exact ⟨eq.1.trans dir, m', at_c', eq'.2.1.trans parent, deeper⟩
  · obtain ⟨m, old, eq⟩ := back h
    simp only [Node.links, Prod.mk.injEq] at eq
    obtain ⟨⟨n, at_p⟩, mem⟩ := links.parent old other
    rw [eq.2.1]
    obtain ⟨n', at_p', -⟩ := forth at_p
    exact ⟨⟨n', at_p'⟩, mem⟩

/-- A new node `m` at address `c`, put in front of the children of directory `p`. -/
theorem add (links : Links nodes root kids depth) {p c : Nat} {d m : Node}
    (at_p : nodes p = some d) (dir : d.type = .dir) (fresh : nodes c = none) (nonnull : c ≠ 0)
    (parent : m.parent = p) (leaf : m.children = 0) (next : m.next = d.children) :
    Links (Function.update (Function.update nodes c (some m)) p (some { d with children := c }))
      root (Function.update (Function.update kids c []) p (c :: kids p))
      (Function.update depth c (depth p + 1)) := by
  have cp : c ≠ p := fun eq => by rw [eq, at_p] at fresh; cases fresh
  set new := Function.update (Function.update nodes c (some m)) p (some { d with children := c })
    with new_eq
  have at_c' : new c = some m := by rw [new_eq, Function.update_of_ne cp, Function.update_self]
  have at_p' : new p = some { d with children := c } := Function.update_self ..
  have at_q : ∀ {q}, q ≠ c → q ≠ p → new q = nodes q := fun hc hp => by
    rw [new_eq, Function.update_of_ne hp, Function.update_of_ne hc]
  have old : ∀ {q n}, nodes q = some n → q ≠ c := fun h eq => by
    rw [eq, fresh] at h; cases h
  -- a node before is a node after, with the same type and parent
  have forth : ∀ {q n}, nodes q = some n →
      ∃ n', new q = some n' ∧ n'.type = n.type ∧ n'.parent = n.parent ∧ n'.next = n.next := by
    intro q n h
    by_cases here : q = p
    · subst here
      obtain rfl := Option.some.inj (h.symm.trans at_p)
      exact ⟨_, at_p', rfl, rfl, rfl⟩
    · exact ⟨n, (at_q (old h) here).trans h, rfl, rfl, rfl⟩
  have nexts : ∀ {q n}, nodes q = some n → nextOf nodes q = nextOf new q := by
    intro q n h
    obtain ⟨n', h', -, -, eq⟩ := forth h
    rw [nextOf_some h, nextOf_some h', eq]
  have kept : ∀ {q n}, nodes q = some n → LinkChain (nextOf new) (· = 0) n.children (kids q) :=
    fun h => (links.chain h).congr fun x mem => by
      obtain ⟨⟨a, at_x, -⟩, -⟩ := links.mem_kids h mem
      exact nexts at_x
  have deeper : ∀ {q n}, nodes q = some n →
      Function.update depth c (depth p + 1) q = depth q := fun h =>
    Function.update_of_ne (old h) ..
  refine ⟨?_, ?_, fun {q n} h => ?_, fun {q n x} h mem => ?_, fun {x a} h other => ?_⟩
  · have zero : 0 ≠ p := fun eq => by rw [← eq, links.null] at at_p; cases at_p
    rw [at_q nonnull.symm zero, links.null]
  · obtain ⟨r, at_r, isDir, orphan⟩ := links.top
    obtain ⟨r', at_r', type, par, -⟩ := forth at_r
    exact ⟨r', at_r', type.trans isDir, par.trans orphan⟩
  · by_cases hp : q = p
    · subst hp
      obtain rfl := Option.some.inj (at_p'.symm.trans h)
      rw [Function.update_self]
      refine ⟨rfl, nonnull, ?_⟩
      rw [nextOf_some at_c', next]
      exact kept at_p
    · rw [Function.update_of_ne hp]
      by_cases hc : q = c
      · subst hc
        obtain rfl := Option.some.inj (at_c'.symm.trans h)
        rw [Function.update_self]
        exact leaf
      · rw [Function.update_of_ne hc]
        exact kept ((at_q hc hp).symm.trans h)
  · by_cases hp : q = p
    · subst hp
      obtain rfl := Option.some.inj (at_p'.symm.trans h)
      rw [Function.update_self] at mem
      rw [deeper at_p]
      rcases List.mem_cons.mp mem with rfl | mem
      · exact ⟨dir, m, at_c', parent, Function.update_self ..⟩
      · obtain ⟨-, a, at_x, par, below⟩ := links.child at_p mem
        obtain ⟨a', at_x', -, par', -⟩ := forth at_x
        exact ⟨dir, a', at_x', par'.trans par, (deeper at_x).trans below⟩
    · rw [Function.update_of_ne hp] at mem
      by_cases hc : q = c
      · subst hc
        rw [Function.update_self] at mem
        cases mem
      · rw [Function.update_of_ne hc] at mem
        have h' := (at_q hc hp).symm.trans h
        obtain ⟨isDir, a, at_x, par, below⟩ := links.child h' mem
        obtain ⟨a', at_x', -, par', -⟩ := forth at_x
        exact ⟨isDir, a', at_x', par'.trans par, by rw [deeper at_x, deeper h', below]⟩
  · by_cases hc : x = c
    · subst hc
      obtain rfl := Option.some.inj (at_c'.symm.trans h)
      rw [parent, Function.update_self]
      exact ⟨⟨_, at_p'⟩, List.mem_cons_self⟩
    · obtain ⟨b, at_x, par⟩ : ∃ b, nodes x = some b ∧ a.parent = b.parent := by
        by_cases hp : x = p
        · subst hp
          obtain rfl := Option.some.inj (at_p'.symm.trans h)
          exact ⟨d, at_p, rfl⟩
        · exact ⟨a, (at_q hc hp).symm.trans h, rfl⟩
      obtain ⟨⟨n, at_par⟩, mem⟩ := links.parent at_x other
      obtain ⟨n', at_par', -⟩ := forth at_par
      rw [par]
      refine ⟨⟨n', at_par'⟩, ?_⟩
      by_cases hp : b.parent = p
      · rw [hp] at mem ⊢
        rw [Function.update_self]
        exact List.mem_cons_of_mem _ mem
      · rwa [Function.update_of_ne hp, Function.update_of_ne (old at_par)]

/-- A childless node `c` taken out of the child list of its parent `p`: the list
without it is linked, and nothing else but `c` itself has changed links. -/
theorem remove (links : Links nodes root kids depth) {p c : Nat} {d m : Node}
    (at_p : nodes p = some d) (at_c : nodes c = some m) (parent : m.parent = p)
    (other : c ≠ root) (leaf : kids c = []) (gone : nodes' c = none)
    (back : ∀ q, nodes q = none → nodes' q = none)
    (same : ∀ {q n}, q ≠ c → nodes q = some n → ∃ n', nodes' q = some n' ∧ n'.type = n.type ∧
      n'.parent = n.parent ∧ (q ≠ p → n'.children = n.children) ∧ (q ∉ kids p → n'.next = n.next))
    (chain : ∀ {d'}, nodes' p = some d' →
      LinkChain (nextOf nodes') (· = 0) d'.children ((kids p).erase c)) :
    Links nodes' root (Function.update kids p ((kids p).erase c)) depth := by
  obtain ⟨-, mem_c⟩ := links.parent at_c other
  rw [parent] at mem_c
  have nodup := links.nodup at_p
  -- a node after is another node before
  have old : ∀ {q n'}, nodes' q = some n' → q ≠ c ∧ ∃ n, nodes q = some n := by
    intro q n' h
    refine ⟨fun eq => (by rw [eq, gone] at h; cases h), ?_⟩
    cases at_q : nodes q with
    | none => rw [back q at_q] at h; cases h
    | some n => exact ⟨n, rfl⟩
  have sub : ∀ {q x}, x ∈ Function.update kids p ((kids p).erase c) q → x ∈ kids q := by
    intro q x mem
    by_cases hp : q = p
    · subst hp
      rw [Function.update_self] at mem
      exact List.mem_of_mem_erase mem
    · rwa [Function.update_of_ne hp] at mem
  refine ⟨back 0 links.null, ?_, fun {q n'} h => ?_, fun {q n' x} h mem => ?_,
    fun {x a'} h away => ?_⟩
  · obtain ⟨r, at_r, dir, orphan⟩ := links.top
    obtain ⟨r', at_r', type, par, -⟩ := same (Ne.symm other) at_r
    exact ⟨r', at_r', type.trans dir, par.trans orphan⟩
  · obtain ⟨hc, n, at_q⟩ := old h
    by_cases hp : q = p
    · subst hp
      rw [Function.update_self]
      exact chain h
    · rw [Function.update_of_ne hp]
      obtain ⟨n'', h', -, -, children, -⟩ := same hc at_q
      obtain rfl := Option.some.inj (h.symm.trans h')
      rw [children hp]
      refine (links.chain at_q).congr fun x mem => ?_
      obtain ⟨⟨a, at_x, -⟩, -⟩ := links.mem_kids at_q mem
      have out : x ∉ kids p := fun mem' => hp (links.kids_disjoint at_q at_p mem mem')
      have xc : x ≠ c := fun eq => out (eq ▸ mem_c)
      obtain ⟨a', at_x', -, -, -, next⟩ := same xc at_x
      rw [nextOf_some at_x, nextOf_some at_x', next out]
  · obtain ⟨hc, n, at_q⟩ := old h
    obtain ⟨n'', h', type, -⟩ := same hc at_q
    obtain rfl := Option.some.inj (h.symm.trans h')
    obtain ⟨dir, a, at_x, par, deeper⟩ := links.child at_q (sub mem)
    have xc : x ≠ c := by
      rintro rfl
      obtain rfl := Option.some.inj (at_c.symm.trans at_x)
      rw [← par, parent, Function.update_self] at mem
      exact (nodup.mem_erase_iff.mp mem).1 rfl
    obtain ⟨a', at_x', -, par', -⟩ := same xc at_x
    exact ⟨type.trans dir, a', at_x', par'.trans par, deeper⟩
  · obtain ⟨hc, a, at_x⟩ := old h
    obtain ⟨a'', h', -, par, -⟩ := same hc at_x
    obtain rfl := Option.some.inj (h.symm.trans h')
    obtain ⟨⟨n, at_par⟩, mem⟩ := links.parent at_x away
    rw [par]
    have parent_ne : a.parent ≠ c := fun eq => by rw [eq, leaf] at mem; cases mem
    obtain ⟨n', at_par', -⟩ := same parent_ne at_par
    refine ⟨⟨n', at_par'⟩, ?_⟩
    by_cases hp : a.parent = p
    · rw [hp] at mem ⊢
      rw [Function.update_self]
      exact nodup.mem_erase_iff.mpr ⟨hc, mem⟩
    · rwa [Function.update_of_ne hp]

end Links

/-! ## The loops over child lists -/

variable {H : Type*} {s : Ramfs H}

/-- A child list is shorter than the loops allow for. -/
theorem length_lt_walkFuel {l : List Nat} (nodup : l.Nodup)
    (pointers : ∀ x ∈ l, 0 < x ∧ x < 2 ^ 64) : l.length < walkFuel := by
  have sub : l.toFinset ⊆ Finset.Ioo 0 (2 ^ 64) := fun x hx => by
    rw [Finset.mem_Ioo]
    exact pointers x (List.mem_toFinset.mp hx)
  have card := Finset.card_le_card sub
  rw [List.toFinset_card_of_nodup nodup, Nat.card_Ioo] at card
  simp only [walkFuel]
  omega

theorem strEq_iff (a b : CString) : strEq a b = true ↔ a = b := by
  induction a generalizing b with
  | nil => cases b <;> simp [strEq]
  | cons x a ih => cases b <;> simp [strEq, ih]

/-- The loop of `ramfs_find_child` finds a child with the name, or there is none. -/
theorem findChildLoop_spec {name : CString} {fuel a : Nat} {l : List Nat}
    (chain : LinkChain (nextOf s.nodes) (· = 0) a l)
    (live : ∀ x ∈ l, ∃ n, s.nodes x = some n) (enough : l.length < fuel) :
    ∃ r, findChildLoop s name fuel a = some r ∧
      ((r = 0 ∧ ∀ x ∈ l, ∀ n, s.nodes x = some n → n.name ≠ name) ∨
        r ∈ l ∧ ∃ n, s.nodes r = some n ∧ n.name = name) := by
  induction l generalizing a fuel with
  | nil =>
      obtain ⟨k, rfl⟩ : ∃ k, fuel = k + 1 := ⟨fuel - 1, by simp at enough; omega⟩
      exact ⟨0, if_pos chain, .inl ⟨rfl, by simp⟩⟩
  | cons x l ih =>
      obtain ⟨k, rfl⟩ : ∃ k, fuel = k + 1 := ⟨fuel - 1, by omega⟩
      obtain ⟨rfl, nonnull, rest⟩ := chain
      obtain ⟨n, at_x⟩ := live x (by simp)
      rw [nextOf_some at_x] at rest
      simp only [findChildLoop, if_neg nonnull, at_x, Option.bind_some, strEq_iff]
      by_cases hit : n.name = name
      · exact ⟨x, if_pos hit, .inr ⟨by simp, n, at_x, hit⟩⟩
      · rw [if_neg hit]
        obtain ⟨r, ran, result⟩ := ih rest (fun y hy => live y (by simp [hy])) (by simpa using enough)
        refine ⟨r, ran, result.imp (fun ⟨zero, misses⟩ => ⟨zero, fun y hy m at_y => ?_⟩)
          fun ⟨mem, found⟩ => ⟨by simp [mem], found⟩⟩
        rcases List.mem_cons.mp hy with rfl | hy
        · obtain rfl := Option.some.inj (at_x.symm.trans at_y)
          exact hit
        · exact misses y hy m at_y

/-- The loop of `ramfs_unlink_node` stops at the link to the node. -/
theorem unlinkLoop_spec {c a fuel : Nat} {pp : Link} {pre post : List Nat}
    (read : pp.read s = some a)
    (chain : LinkChain (nextOf s.nodes) (· = 0) a (pre ++ c :: post)) (first : c ∉ pre)
    (live : ∀ x ∈ pre, ∃ n, s.nodes x = some n) (enough : pre.length < fuel) :
    ∃ pp', unlinkLoop s c fuel pp = some pp' ∧ pp'.read s = some c ∧
      ((pre = [] ∧ pp' = pp) ∨ ∃ pre' x, pre = pre' ++ [x] ∧ pp' = .next x) := by
  induction pre generalizing a fuel pp with
  | nil =>
      obtain ⟨k, rfl⟩ : ∃ k, fuel = k + 1 := ⟨fuel - 1, by simp at enough; omega⟩
      obtain rfl : c = a := chain.1
      exact ⟨pp, by simp [unlinkLoop, read], read, .inl ⟨rfl, rfl⟩⟩
  | cons x pre ih =>
      obtain ⟨k, rfl⟩ : ∃ k, fuel = k + 1 := ⟨fuel - 1, by omega⟩
      obtain ⟨rfl, nonnull, rest⟩ := chain
      obtain ⟨n, at_x⟩ := live x (by simp)
      rw [nextOf_some at_x] at rest
      have differ : x ≠ c := fun eq => first (by simp [eq])
      have next : (Link.next x).read s = some n.next := by rw [Link.read, at_x]; rfl
      obtain ⟨pp', ran, read', shape⟩ := ih next rest (fun mem => first (by simp [mem]))
        (fun y hy => live y (by simp [hy])) (by simpa using enough)
      refine ⟨pp', ?_, read', .inr ?_⟩
      · simp only [unlinkLoop, read, Option.bind_some, if_pos (And.intro nonnull differ), ran]
      · rcases shape with ⟨rfl, rfl⟩ | ⟨pre', y, rfl, rfl⟩
        · exact ⟨[], x, rfl, rfl⟩
        · exact ⟨x :: pre', y, rfl, rfl⟩

end Flyos
