import Flyos.Fs.RamfsInv

/-!
# Unlinking

`ramfs_unlink_node` takes a node out of its child list through a pointer to a link,
and frees the node and its buffer.  The tree loses that node and nothing else
(`ramfsUnlinkNode_spec`).
-/

namespace Flyos

variable {H : Type*} {A : Allocator H} {s : Ramfs H} {kids : Nat → List Nat} {depth : Nat → Nat}

/-- **The link rewritten** by `ramfs_unlink_node`: it is in the parent or in the
child before `c`, and with it rewritten the walk over the children skips `c`. -/
theorem unlinkLoop_write (inv : RamfsInv A s kids depth) {p c : Nat} {d m : Node}
    (at_p : s.nodes p = some d) (at_c : s.nodes c = some m) (mem : c ∈ kids p) :
    ∃ pp q n n', unlinkLoop s c walkFuel (.children p) = some pp ∧ pp.read s = some c ∧
      pp.write s m.next = some (s.setNode q n') ∧ q ≠ c ∧ s.nodes q = some n ∧
      n' = { n with children := n'.children, next := n'.next } ∧
      (q ≠ p → n'.children = n.children) ∧ (q ∉ kids p → n'.next = n.next) ∧
      ∀ {nodes' : Nat → Option Node}, (∀ x, x ≠ c → nodes' x = (s.setNode q n').nodes x) →
        ∀ {d'}, nodes' p = some d' →
          LinkChain (nextOf nodes') (· = 0) d'.children ((kids p).erase c) := by
  have pc : p ≠ c := fun eq => (inv.links.mem_kids at_p mem).2 eq.symm
  have chain := inv.links.chain at_p
  have live : ∀ x ∈ kids p, ∃ n, s.nodes x = some n := fun x hx => by
    obtain ⟨⟨n, at_x, -⟩, -⟩ := inv.links.mem_kids at_p hx
    exact ⟨n, at_x⟩
  have ends : ∀ x ∈ kids p, x ≠ p := fun x hx => (inv.links.mem_kids at_p hx).2
  have nodup := inv.links.nodup at_p
  have short := inv.kids_length at_p
  obtain ⟨pre, post, list⟩ := List.append_of_mem mem
  rw [list] at chain live ends nodup short
  have first : c ∉ pre := fun h => (List.disjoint_of_nodup_append nodup) h (by simp)
  have last : c ∉ post := (List.nodup_cons.mp (List.nodup_append.mp nodup).2.1).1
  have erased : (pre ++ c :: post).erase c = pre ++ post := by
    rw [List.erase_append_right _ first, List.erase_cons_head]
  have read : (Link.children p).read s = some d.children := by rw [Link.read, at_p]; rfl
  have enough : pre.length < walkFuel := by
    rw [List.length_append] at short
    omega
  obtain ⟨pp, ran, reads, shape⟩ := unlinkLoop_spec read chain first
    (fun x hx => live x (by simp [hx])) enough
  rw [list, erased]
  rcases shape with ⟨rfl, rfl⟩ | ⟨pre', x, rfl, rfl⟩
  · -- the link is in the parent
    refine ⟨_, p, d, { d with children := m.next }, ran, reads, by rw [Link.write, at_p]; rfl, pc,
      at_p, rfl, fun ne => absurd rfl ne, fun _ => rfl, fun {nodes'} agree {d'} h => ?_⟩
    rw [agree p pc, Ramfs.setNode_nodes, Function.update_self, Option.some.injEq] at h
    subst h
    obtain ⟨eq, -, rest⟩ := chain
    rw [← eq, nextOf_some at_c] at rest
    refine rest.congr fun y hy => ?_
    have yc : y ≠ c := fun eq => last (eq ▸ hy)
    rw [nextOf, nextOf, agree y yc, Ramfs.setNode_nodes, Function.update_of_ne (ends y (by simp [hy]))]
  · -- the link is in the child before
    obtain ⟨n, at_x⟩ := live x (by simp)
    have xc : x ≠ c := fun eq => first (by simp [eq])
    have xp : x ≠ p := ends x (by simp)
    have mem_x : x ∈ kids p := by rw [list]; simp
    refine ⟨_, x, n, { n with next := m.next }, ran, reads, by rw [Link.write, at_x]; rfl, xc,
      at_x, rfl, fun _ => rfl, fun out => absurd (by simp) out, fun {nodes'} agree {d'} h => ?_⟩
    rw [agree p pc, Ramfs.setNode_nodes, Function.update_of_ne xp.symm, at_p, Option.some.injEq] at h
    subst h
    rw [List.append_assoc, List.singleton_append] at chain ⊢
    refine chain.bypass ?_ fun y hy => ?_
    · rw [nextOf_some at_c, nextOf, agree x xc, Ramfs.setNode_nodes, Function.update_self]
      rfl
    · have split : y ∈ pre' ∨ y ∈ post := List.mem_append.mp hy
      have yc : y ≠ c := by
        rintro rfl
        exact split.elim (fun h => first (by simp [h])) last
      have yx : y ≠ x := by
        rintro rfl
        rw [List.append_assoc] at nodup
        obtain ⟨-, tail, apart⟩ := List.nodup_append.mp nodup
        refine split.elim (fun h => apart y h y (by simp) rfl) fun h => ?_
        exact (List.nodup_cons.mp tail).1 (by simp [h])
      rw [nextOf, nextOf, agree y yc, Ramfs.setNode_nodes, Function.update_of_ne yx]

/-- The buffers after a node `c` has gone, and its own buffer with it. -/
theorem Buffers.without {t : Ramfs H} (bufs : Buffers A s) {c : Nat} {m : Node}
    (at_c : s.nodes c = some m)
    (old : ∀ {q n'}, t.nodes q = some n' → q ≠ c ∧ ∃ n, s.nodes q = some n ∧
      n' = { n with children := n'.children, next := n'.next })
    (kept : ∀ {a}, a ≠ 0 → a ≠ m.data → t.bufs a = s.bufs a)
    (gone : m.data ≠ 0 → t.bufs m.data = none) (null : t.bufs 0 = none)
    (live : ∀ {q}, A.live s.heap q → q ≠ c → (m.data ≠ 0 → q ≠ m.data) → A.live t.heap q) :
    Buffers A t := by
  have null_buf : ∀ {a b}, t.bufs a = some b → a ≠ 0 ∧ a ≠ m.data := by
    intro a b h
    have nonnull : a ≠ 0 := fun eq => by rw [eq, null] at h; cases h
    refine ⟨nonnull, fun eq => ?_⟩
    rw [eq] at h nonnull
    rw [gone nonnull] at h
    cases h
  have other : ∀ {q n}, s.nodes q = some n → m.data ≠ 0 → q ≠ m.data := by
    intro q n h nonnull eq
    obtain ⟨-, b, held, -⟩ := (bufs.held at_c).resolve_left fun empty => nonnull empty.1
    rw [← eq, bufs.apart h] at held
    cases held
  refine ⟨fun {q n'} h => ?_, fun h => ?_, fun {q q' n' m'} hq hq' nonnull eq => ?_,
    fun {q n'} h => ?_, fun {a b} h => ?_, fun {q n'} h => ?_⟩
  · obtain ⟨qc, n, at_q, same⟩ := old h
    rw [same]
    refine (bufs.held at_q).imp id fun ⟨nonnull, b, held, sizes⟩ => ⟨nonnull, b, ?_, sizes⟩
    rw [kept nonnull fun eq => qc (bufs.own at_q at_c nonnull eq), held]
  · obtain ⟨-, n, at_q, same⟩ := old h
    rw [same]
    exact (bufs.caps at_q :)
  · obtain ⟨-, n, at_q, same⟩ := old hq
    obtain ⟨-, n₂, at_q', same'⟩ := old hq'
    rw [same] at nonnull eq
    rw [same'] at eq
    exact bufs.own at_q at_q' nonnull eq
  · obtain ⟨qc, n, at_q, -⟩ := old h
    exact live (bufs.nodeLive at_q) qc (other at_q)
  · obtain ⟨nonnull, ne⟩ := null_buf h
    have held : s.bufs a = some b := (kept nonnull ne).symm.trans h
    refine live (bufs.bufLive held) (fun eq => ?_) fun _ => ne
    rw [eq, bufs.apart at_c] at held
    cases held
  · obtain ⟨-, n, at_q, -⟩ := old h
    by_contra some_buf
    obtain ⟨b, held⟩ := Option.ne_none_iff_exists'.mp some_buf
    obtain ⟨nonnull, ne⟩ := null_buf held
    rw [kept nonnull ne, bufs.apart at_q] at held
    cases held

/-- There is no buffer at null. -/
theorem Buffers.null (bufs : Buffers A s) : s.bufs 0 = none := by
  by_contra some_buf
  obtain ⟨b, held⟩ := Option.ne_none_iff_exists'.mp some_buf
  exact absurd (A.pointer (bufs.bufLive held)).1 (by omega)

/-- `ramfs_unlink_node` takes the node out: it is neither the root nor a directory with
children. -/
def Removable (s : Ramfs H) (c : Nat) : Prop :=
  c ≠ s.root ∧ ∃ n, s.nodes c = some n ∧ (n.type = .dir → n.children = 0)

/-- What is left after a node is unlinked: the other nodes, with what they hold. -/
structure Unlinked (s : Ramfs H) (c : Nat) (m : Node) (t : Ramfs H) : Prop where
  gone : t.nodes c = none
  kept : ∀ {q n}, q ≠ c → s.nodes q = some n → ∃ n', t.nodes q = some n' ∧
    n' = { n with children := n'.children, next := n'.next }
  old : ∀ {q n'}, t.nodes q = some n' → q ≠ c ∧ ∃ n, s.nodes q = some n ∧
    n' = { n with children := n'.children, next := n'.next }
  bufs : ∀ {a}, a ≠ 0 → a ≠ m.data → t.bufs a = s.bufs a
  root : t.root = s.root
  cwd : t.cwd = s.cwd
  oom : t.oom = s.oom

/-- **What `ramfs_unlink_node` does** to a node of the tree.  It refuses the root
and directories with children; any other node is taken out. -/
theorem ramfsUnlinkNode_spec (inv : RamfsInv A s kids depth) {c : Nat} {m : Node}
    (at_c : s.nodes c = some m) :
    ((c = s.root ∨ m.type = .dir ∧ m.children ≠ 0) ∧ ramfsUnlinkNode A s c = some (-1, s)) ∨
      c ≠ s.root ∧ kids c = [] ∧ ∃ t, ramfsUnlinkNode A s c = some (0, t) ∧ Unlinked s c m t ∧
        RamfsInv A t (Function.update kids m.parent ((kids m.parent).erase c)) depth := by
  have nonnull : c ≠ 0 := fun eq => by rw [eq, inv.links.null] at at_c; cases at_c
  unfold ramfsUnlinkNode
  rw [if_neg nonnull, at_c, Option.bind_some]
  by_cases top : c = s.root
  · obtain ⟨r, at_root, -, orphan⟩ := inv.links.top
    obtain rfl := Option.some.inj ((top ▸ at_c).symm.trans at_root)
    exact .inl ⟨.inl top, by rw [if_pos orphan]⟩
  obtain ⟨⟨d, at_p⟩, mem⟩ := inv.links.parent at_c top
  have parent : m.parent ≠ 0 := fun eq => by rw [eq, inv.links.null] at at_p; cases at_p
  rw [if_neg parent]
  by_cases full : m.type = .dir ∧ m.children ≠ 0
  · exact .inl ⟨.inr full, by rw [if_pos full]⟩
  rw [if_neg full]
  have leaf : kids c = [] := inv.links.kids_nil at_c fun dir => by
    by_contra some_child
    exact full ⟨dir, some_child⟩
  obtain ⟨pp, q, n, n', ran, reads, writes, qc, at_q, only, children, next, chain⟩ :=
    unlinkLoop_write inv at_p at_c mem
  rw [ran, Option.bind_some, reads, Option.bind_some, if_neg nonnull, writes, Option.bind_some]
  -- the data buffer goes first, then the node
  obtain ⟨u, freed, nodes, bufs, null, unmapped, root, cwd, oom, live⟩ : ∃ u : Ramfs H,
      (if m.data ≠ 0 then (s.setNode q n').freeBuf A m.data else some (s.setNode q n')) = some u ∧
      u.nodes = (s.setNode q n').nodes ∧
      (∀ {a}, a ≠ 0 → a ≠ m.data → u.bufs a = s.bufs a) ∧
      (m.data ≠ 0 → u.bufs m.data = none) ∧ u.bufs 0 = none ∧ u.root = s.root ∧ u.cwd = s.cwd ∧ u.oom = s.oom ∧
      ∀ {q}, A.live s.heap q → (m.data ≠ 0 → q ≠ m.data) → A.live u.heap q := by
    by_cases data : m.data = 0
    · exact ⟨s.setNode q n', if_neg (not_not.mpr data), rfl, fun _ _ => rfl,
        fun nonnull => absurd data nonnull, inv.bufs.null, rfl, rfl, rfl, fun live _ => live⟩
    · obtain ⟨-, b, held, -⟩ := (inv.bufs.held at_c).resolve_left fun empty => data empty.1
      refine ⟨_, (if_pos data).trans (Ramfs.freeBuf_some A held), rfl,
        fun _ ne => Function.update_of_ne ne .., fun _ => Function.update_self ..,
        (Function.update_of_ne (Ne.symm data) ..).trans inv.bufs.null, rfl, rfl, rfl,
        fun live ne => (A.free_live (inv.bufs.bufLive held)).mpr ⟨live, ne data⟩⟩
  rw [freed]
  have live_c : A.live u.heap c := by
    refine live (inv.bufs.nodeLive at_c) fun data eq => ?_
    obtain ⟨-, b, held, -⟩ := (inv.bufs.held at_c).resolve_left fun empty => data empty.1
    rw [← eq, inv.bufs.apart at_c] at held
    cases held
  have away : ∀ {x}, x ≠ c → (u.freeNode A c).nodes x = (s.setNode q n').nodes x := fun h => by
    rw [Ramfs.freeNode_nodes, Function.update_of_ne h, nodes]
  have gone : (u.freeNode A c).nodes c = none := Function.update_self ..
  have kept : ∀ {x a}, x ≠ c → s.nodes x = some a → ∃ a', (u.freeNode A c).nodes x = some a' ∧
      a' = { a with children := a'.children, next := a'.next } ∧
      (x ≠ m.parent → a'.children = a.children) ∧ (x ∉ kids m.parent → a'.next = a.next) := by
    intro x a xc at_x
    rw [away xc]
    by_cases eq : x = q
    · subst eq
      obtain rfl := Option.some.inj (at_q.symm.trans at_x)
      exact ⟨n', Function.update_self .., only, children, next⟩
    · exact ⟨a, (Function.update_of_ne eq ..).trans at_x, rfl, fun _ => rfl, fun _ => rfl⟩
  have back : ∀ x, s.nodes x = none → (u.freeNode A c).nodes x = none := by
    intro x none
    have xc : x ≠ c := fun eq => by rw [eq, at_c] at none; cases none
    have xq : x ≠ q := fun eq => by rw [eq, at_q] at none; cases none
    rw [away xc, Ramfs.setNode_nodes, Function.update_of_ne xq, none]
  have old : ∀ {x a'}, (u.freeNode A c).nodes x = some a' → x ≠ c ∧ ∃ a, s.nodes x = some a ∧
      a' = { a with children := a'.children, next := a'.next } := by
    intro x a' h
    have xc : x ≠ c := fun eq => by rw [eq, gone] at h; cases h
    refine ⟨xc, ?_⟩
    cases at_x : s.nodes x with
    | none => rw [back x at_x] at h; cases h
    | some a =>
        obtain ⟨a'', h', same, -⟩ := kept xc at_x
        obtain rfl := Option.some.inj (h.symm.trans h')
        exact ⟨a, rfl, same⟩
  refine .inr ⟨top, leaf, u.freeNode A c, rfl, ⟨gone, fun xc h => ?_, old, bufs, root, cwd, oom⟩,
    ⟨?_, inv.bufs.without at_c old bufs null unmapped fun h ne other => ?_⟩⟩
  · obtain ⟨a', h', same, -⟩ := kept xc h
    exact ⟨a', h', same⟩
  · have renamed : (u.freeNode A c).root = s.root := root
    rw [renamed]
    refine inv.links.remove at_p at_c rfl top leaf gone back (fun xc at_x => ?_)
      fun h => chain (fun x xc => away xc) h
    obtain ⟨a', h', same, first, later⟩ := kept xc at_x
    exact ⟨a', h', by rw [same], by rw [same], first, later⟩
  · exact (A.free_live live_c).mpr ⟨live h other, ne⟩

end Flyos
