import Flyos.Fs.RamfsUnlink

/-!
# Writing and reading file contents

`ramfs_write` first makes room (`ramfsGrow_spec`: a buffer twice as large, or twice
that, gets the old contents), then copies.  In both steps one node gets new data
fields, and `Buffers.replace` says when the buffers are as they should be after
that.  Over contents, a write is an `overlay` (`ramfsWrite_spec`) and a read is a
stretch of the list (`ramfsRead_spec`).
-/

namespace Flyos

variable {H : Type*} {A : Allocator H} {s t : Ramfs H} {kids : Nat → List Nat} {depth : Nat → Nat}

/-- The name, the type and the links of a node: all but its data fields. -/
def Node.shell (n : Node) : CString × NodeType × Nat × Nat × Nat :=
  (n.name, n.type, n.parent, n.children, n.next)

/-- A buffer that no node has. -/
structure Spare (s : Ramfs H) (a : Nat) (b : List UInt8) : Prop where
  held : s.bufs a = some b
  unowned : ∀ {p n}, s.nodes p = some n → n.data ≠ a

/-! ## One node gets new data fields -/

/-- Node `f` becomes `n'`, which may have another buffer; buffers other than its old
and its new one stay. -/
structure Replaced (A : Allocator H) (s : Ramfs H) (f : Nat) (n n' : Node) (t : Ramfs H) :
    Prop where
  before : s.nodes f = some n
  nodes : t.nodes = Function.update s.nodes f (some n')
  shell : n'.shell = n.shell
  held : (n'.data = 0 ∧ n'.capacity = 0 ∧ n'.size = 0) ∨
    n'.data ≠ 0 ∧ ∃ b, t.bufs n'.data = some b ∧ b.length = n'.capacity ∧ n'.size ≤ n'.capacity
  caps : n'.capacity = 0 ∨ (∃ j, n'.capacity = 64 * 2 ^ j) ∧ n'.capacity ≤ heapSize
  fresh : n'.data = n.data ∨ s.bufs n'.data = none ∧ s.nodes n'.data = none
  others : ∀ {a}, a ≠ n.data → a ≠ n'.data → t.bufs a = s.bufs a
  live : ∀ {a}, A.live s.heap a → (n'.data ≠ n.data → n.data ≠ 0 → a ≠ n.data) → A.live t.heap a
  bufLive : ∀ {a b}, t.bufs a = some b → A.live t.heap a
  root : t.root = s.root
  cwd : t.cwd = s.cwd
  oom : t.oom = s.oom

namespace Replaced

variable {f : Nat} {n n' : Node} (r : Replaced A s f n n' t)
include r

/-- The buffer of another node is neither the old nor the new one of `f`. -/
theorem apart (bufs : Buffers A s) {q : Nat} {m : Node} (at_q : s.nodes q = some m) (qf : q ≠ f)
    (nonnull : m.data ≠ 0) : t.bufs m.data = s.bufs m.data ∧ m.data ≠ n'.data := by
  have old : m.data ≠ n.data := fun eq => qf (bufs.own at_q r.before nonnull eq)
  have new : m.data ≠ n'.data := by
    intro eq
    rcases r.fresh with same | ⟨unused, -⟩
    · exact old (eq.trans same)
    · obtain ⟨-, b, held, -⟩ := (bufs.held at_q).resolve_left fun empty => nonnull empty.1
      rw [← eq, held] at unused
      cases unused
  exact ⟨r.others old new, new⟩

/-- A node is neither the old nor the new buffer of `f`. -/
theorem not_buffer (inv : RamfsInv A s kids depth) {q : Nat} {m : Node}
    (at_q : s.nodes q = some m) : q ≠ n.data ∧ q ≠ n'.data := by
  have nonnull : q ≠ 0 := fun eq => by rw [eq, inv.links.null] at at_q; cases at_q
  have old : q ≠ n.data := by
    intro eq
    obtain ⟨-, b, held, -⟩ := (inv.bufs.held r.before).resolve_left fun empty =>
      nonnull (eq.trans empty.1)
    rw [← eq, inv.bufs.apart at_q] at held
    cases held
  refine ⟨old, fun eq => ?_⟩
  rcases r.fresh with same | ⟨-, unused⟩
  · exact old (eq.trans same)
  · rw [← eq, at_q] at unused
    cases unused

/-- A node after is `f`, or the node it was. -/
theorem cases_at {q : Nat} {m : Node} (h : t.nodes q = some m) :
    (q = f ∧ m = n') ∨ q ≠ f ∧ s.nodes q = some m := by
  rw [r.nodes] at h
  by_cases here : q = f
  · subst here
    rw [Function.update_self, Option.some.injEq] at h
    exact .inl ⟨rfl, h.symm⟩
  · rw [Function.update_of_ne here] at h
    exact .inr ⟨here, h⟩

/-- **The invariant is kept** when a node gets new data fields. -/
theorem inv (inv : RamfsInv A s kids depth) : RamfsInv A t kids depth := by
  refine ⟨?_, ?_⟩
  · rw [r.root]
    refine inv.links.congr fun p => ?_
    by_cases here : p = f
    · subst here
      have shell := r.shell
      simp only [Node.shell, Prod.mk.injEq] at shell
      rw [r.nodes, Function.update_self, r.before]
      simp [Node.links, shell]
    · rw [r.nodes, Function.update_of_ne here]
  · refine ⟨fun h => ?_, fun h => ?_, fun {p q a b} hp hq nonnull eq => ?_, fun {p a} h => ?_,
      r.bufLive, fun {p a} h => ?_⟩
    · rcases r.cases_at h with ⟨rfl, rfl⟩ | ⟨qf, at_q⟩
      · exact r.held
      · refine (inv.bufs.held at_q).imp id ?_
        rintro ⟨nonnull, b, held, sizes⟩
        refine ⟨nonnull, b, ?_, sizes⟩
        rw [(r.apart inv.bufs at_q qf nonnull).1, held]
    · rcases r.cases_at h with ⟨rfl, rfl⟩ | ⟨-, at_q⟩
      · exact r.caps
      · exact inv.bufs.caps at_q
    · rcases r.cases_at hp with ⟨rfl, rfl⟩ | ⟨pf, at_p⟩ <;>
        rcases r.cases_at hq with ⟨rfl, rfl⟩ | ⟨qf, at_q⟩
      · rfl
      · exact absurd eq.symm (r.apart inv.bufs at_q qf (eq ▸ nonnull)).2
      · exact absurd eq (r.apart inv.bufs at_p pf nonnull).2
      · exact inv.bufs.own at_p at_q nonnull eq
    · obtain ⟨m, at_p⟩ : ∃ m, s.nodes p = some m := by
        rcases r.cases_at h with ⟨rfl, -⟩ | ⟨-, at_p⟩
        · exact ⟨n, r.before⟩
        · exact ⟨a, at_p⟩
      exact r.live (inv.bufs.nodeLive at_p) fun _ _ => (r.not_buffer inv at_p).1
    · obtain ⟨m, at_p⟩ : ∃ m, s.nodes p = some m := by
        rcases r.cases_at h with ⟨rfl, -⟩ | ⟨-, at_p⟩
        · exact ⟨n, r.before⟩
        · exact ⟨a, at_p⟩
      obtain ⟨old, new⟩ := r.not_buffer inv at_p
      rw [r.others old new, inv.bufs.apart at_p]

/-- The contents of the other files stay. -/
theorem fileBytes_eq (inv : RamfsInv A s kids depth) {q : Nat} (qf : q ≠ f) :
    fileBytes t q = fileBytes s q := by
  rw [fileBytes, fileBytes, r.nodes, Function.update_of_ne qf]
  cases at_q : s.nodes q with
  | none => rfl
  | some m =>
      rcases inv.bufs.held at_q with ⟨-, -, empty⟩ | ⟨nonnull, -⟩
      · simp [empty]
      · simp [(r.apart inv.bufs at_q qf nonnull).1]

/-- A buffer that is not the old one of `f` stays as it is, and is not the new one. -/
theorem buffer {a : Nat} {b : List UInt8} (held : s.bufs a = some b) (old : a ≠ n.data) :
    t.bufs a = some b ∧ a ≠ n'.data := by
  have new : a ≠ n'.data := by
    rcases r.fresh with same | ⟨unused, -⟩
    · rwa [same]
    · intro eq
      rw [← eq, held] at unused
      cases unused
  exact ⟨(r.others old new).trans held, new⟩

/-- A spare buffer stays as it is. -/
theorem spare {a : Nat} {b : List UInt8} (h : Spare s a b) : Spare t a b := by
  obtain ⟨held, new⟩ := r.buffer h.held (h.unowned r.before).symm
  refine ⟨held, fun at_q => ?_⟩
  rcases r.cases_at at_q with ⟨-, rfl⟩ | ⟨-, at_q⟩
  · exact new.symm
  · exact h.unowned at_q

end Replaced

/-- What a file with a buffer contains. -/
theorem fileBytes_of {f : Nat} {n : Node} {b : List UInt8} (at_f : s.nodes f = some n)
    (held : s.bufs n.data = some b) : fileBytes s f = b.take n.size := by
  rw [fileBytes, at_f]
  simp [held]

/-- The size of a node is the length of its contents. -/
theorem Buffers.length_fileBytes (bufs : Buffers A s) {f : Nat} {n : Node}
    (at_f : s.nodes f = some n) : (fileBytes s f).length = n.size := by
  rcases bufs.held at_f with ⟨-, -, size⟩ | ⟨-, b, held, length, size⟩
  · rw [fileBytes, at_f]
    simp [size]
  · rw [fileBytes_of at_f held, List.length_take]
    omega

/-! ## Making room -/

/-- The loop of `ramfs_write` stops at the first doubling that is large enough. -/
theorem growCap_spec {need : Nat} (bound : need ≤ 2 ^ 63) (fuel j : Nat) (enough : 57 < fuel + j)
    (cap : 64 * 2 ^ j ≤ 2 ^ 63) :
    ∃ i, growCap need fuel (64 * 2 ^ j) = some (64 * 2 ^ i) ∧ need ≤ 64 * 2 ^ i ∧
      64 * 2 ^ i ≤ 2 ^ 63 := by
  induction fuel generalizing j with
  | zero =>
      have large : 2 ^ 58 ≤ 2 ^ j := Nat.pow_le_pow_right (by decide) (by omega)
      omega
  | succ fuel ih =>
      rw [growCap]
      by_cases small : 64 * 2 ^ j < need
      · have double : 64 * 2 ^ j * 2 = 64 * 2 ^ (j + 1) := by rw [Nat.pow_succ, Nat.mul_assoc]
        -- below 2 ^ 63 there is a power of two between
        have step : j + 1 ≤ 57 := by
          by_contra past
          have large : 2 ^ 57 ≤ 2 ^ j := Nat.pow_le_pow_right (by decide) (by omega)
          omega
        have fits : 2 ^ (j + 1) ≤ 2 ^ 57 := Nat.pow_le_pow_right (by decide) step
        rw [if_pos small, double, Nat.mod_eq_of_lt (by omega)]
        exact ih (j + 1) (by omega) (by omega)
      · rw [if_neg small]
        exact ⟨j, rfl, by omega, cap⟩

/-- A copy inside a buffer is an overlay. -/
theorem splice_eq {b src : List UInt8} {off : Nat} (inside : off + src.length ≤ b.length) :
    splice b off src = some (overlay b off src) := by
  by_cases empty : src = []
  · subst empty
    simp [splice]
  · rw [splice, if_neg empty, if_pos inside]

/-- A node with a buffer has as many bytes as its size says. -/
theorem Buffers.size_le (bufs : Buffers A s) {f : Nat} {n : Node} (at_f : s.nodes f = some n) :
    n.size ≤ n.capacity ∧ n.capacity ≤ heapSize := by
  have caps : n.capacity ≤ heapSize := by
    rcases bufs.caps at_f with zero | ⟨-, le⟩
    · omega
    · exact le
  rcases bufs.held at_f with ⟨-, cap, size⟩ | ⟨-, b, -, -, le⟩
  · omega
  · exact ⟨le, caps⟩

/-- The contents move to the new buffer at `d`, and the old one is freed. -/
theorem moveData_spec {n : Node} {d : Nat} {new : List UInt8} (at_d : s.bufs d = some new)
    (held : (n.data = 0 ∧ n.size = 0) ∨
      n.data ≠ 0 ∧ d ≠ n.data ∧ A.live s.heap n.data ∧ ∃ old, s.bufs n.data = some old ∧
        n.size ≤ old.length)
    (room : n.size ≤ new.length) :
    ∃ t, moveData A s n d = some t ∧ t.nodes = s.nodes ∧
      (∃ b, t.bufs d = some b ∧ b.length = new.length ∧
        b.take n.size = ((s.bufs n.data).getD []).take n.size) ∧
      (∀ {a}, (n.data ≠ 0 → a ≠ n.data) → a ≠ d → t.bufs a = s.bufs a) ∧ (n.data ≠ 0 → t.bufs n.data = none) ∧
      (∀ {a}, A.live s.heap a → (n.data ≠ 0 → a ≠ n.data) → A.live t.heap a) ∧
      t.root = s.root ∧ t.cwd = s.cwd ∧ t.oom = s.oom := by
  rcases held with ⟨data, empty⟩ | ⟨data, apart, live, old, at_old, size⟩
  · refine ⟨s, if_pos data, rfl, ⟨new, at_d, rfl, by simp [empty]⟩, fun _ _ => rfl,
      fun nonnull => absurd data nonnull, fun live _ => live, rfl, rfl, rfl⟩
  · have copies : splice new 0 (old.take n.size) = some (overlay new 0 (old.take n.size)) :=
      splice_eq (by rw [List.length_take]; omega)
    have freed : (s.setBuf d (overlay new 0 (old.take n.size))).bufs n.data = some old := by
      rw [Ramfs.setBuf_bufs, Function.update_of_ne apart.symm, at_old]
    have ran : moveData A s n d = some { s with
        heap := A.free s.heap n.data
        bufs := Function.update
          (Function.update s.bufs d (some (overlay new 0 (old.take n.size)))) n.data none } := by
      rw [moveData, if_neg data, at_old, Option.bind_some, at_d, Option.bind_some, if_pos size,
        copies, Option.bind_some, Ramfs.freeBuf_some A freed]
      rfl
    refine ⟨_, ran, rfl, ⟨overlay new 0 (old.take n.size), ?_, ?_, ?_⟩, fun ne ne' => ?_,
      fun _ => Function.update_self .., fun h ne => (A.free_live live).mpr ⟨h, ne data⟩,
      rfl, rfl, rfl⟩
    · exact (Function.update_of_ne apart ..).trans (Function.update_self ..)
    · exact length_overlay (by rw [List.length_take]; omega)
    · have front : (old.take n.size).length = n.size := by rw [List.length_take]; omega
      rw [overlay_zero, at_old, Option.getD_some, List.take_append_of_le_length (by omega),
        List.take_of_length_le (by omega)]
    · exact (Function.update_of_ne (ne data) ..).trans (Function.update_of_ne ne' ..)

/-- **Room for a write**: an unsuccessful `kmalloc` changes nothing; otherwise the
node has a buffer with room and the same contents. -/
theorem ramfsGrow_spec (inv : RamfsInv A s kids depth) {f : Nat} {n : Node}
    (at_f : s.nodes f = some n) {need : Nat} (bound : need ≤ 2 ^ 63) :
    (∃ t, ramfsGrow A s f n need = some (false, t) ∧ SameFiles s t ∧ RamfsInv A t kids depth ∧
        t.oom = true) ∨
      ∃ n' t, ramfsGrow A s f n need = some (true, t) ∧ Replaced A s f n n' t ∧
        n'.size = n.size ∧ need ≤ n'.capacity ∧ fileBytes t f = fileBytes s f := by
  unfold ramfsGrow
  by_cases room : need ≤ n.capacity
  · refine .inr ⟨n, s, if_pos room, ⟨at_f, (Function.update_eq_self_iff.mpr at_f.symm).symm, rfl,
      inv.bufs.held at_f, inv.bufs.caps at_f, .inl rfl, fun _ _ => rfl, fun live _ => live,
      inv.bufs.bufLive, rfl, rfl, rfl⟩, rfl, room, rfl⟩
  rw [if_neg room]
  obtain ⟨cap, grown, enough, max⟩ : ∃ i, growCap need 65
      (if n.capacity ≠ 0 then n.capacity else 64) = some (64 * 2 ^ i) ∧ need ≤ 64 * 2 ^ i ∧
        64 * 2 ^ i ≤ 2 ^ 63 := by
    rcases inv.bufs.caps at_f with zero | ⟨⟨j, eq⟩, le⟩
    · rw [zero, if_neg (by decide)]
      exact growCap_spec bound 65 0 (by omega) (by decide)
    · have nonzero : n.capacity ≠ 0 := by
        have := Nat.two_pow_pos j
        omega
      rw [if_pos nonzero, eq]
      simp only [heapSize, heapPages, pageSize] at le
      exact growCap_spec bound 65 j (by omega) (by omega)
  rw [grown, Option.bind_some]
  obtain ⟨files, inv', oom, fresh⟩ := kmalloc_keeps inv (64 * 2 ^ cap)
  have sized := A.malloc_size (h := s.heap) (n := 64 * 2 ^ cap)
  by_cases null : (s.kmalloc A (64 * 2 ^ cap)).1 = 0
  · exact .inl ⟨_, if_pos null, files, inv', by rw [oom, null]; simp⟩
  dsimp only
  rw [if_neg null]
  obtain ⟨unused, unbuf, live⟩ := fresh null
  have old_live : ∀ {p}, A.live s.heap p → A.live (s.kmalloc A (64 * 2 ^ cap)).2.heap p :=
    fun live => A.malloc_live.mpr (.inr live)
  obtain ⟨le, -⟩ := inv.bufs.size_le at_f
  have junk := A.junk_length s.heap (64 * 2 ^ cap)
  obtain ⟨d, u, got⟩ : ∃ d u, s.kmalloc A (64 * 2 ^ cap) = (d, u) := ⟨_, _, rfl⟩
  replace sized : 64 * 2 ^ cap ≤ heapSize := sized null max
  rw [got] at files inv' oom null unused unbuf live old_live ⊢
  dsimp only at files inv' oom null unused unbuf live old_live ⊢
  -- the old buffer is not the new one
  have other : n.data ≠ 0 → d ≠ n.data := fun nonnull eq => by
    obtain ⟨-, b, held, -⟩ := (inv.bufs.held at_f).resolve_left fun empty => nonnull empty.1
    rw [← eq, unbuf] at held
    cases held
  have same : ∀ {a}, a ≠ d → (u.setBuf d (A.junk s.heap (64 * 2 ^ cap))).bufs a = s.bufs a :=
    fun ne => by rw [Ramfs.setBuf_bufs, Function.update_of_ne ne, files.bufs]
  have at_new : (u.setBuf d (A.junk s.heap (64 * 2 ^ cap))).bufs d =
      some (A.junk s.heap (64 * 2 ^ cap)) := Function.update_self ..
  obtain ⟨v, moved, nodes, ⟨b, at_d, length, bytes⟩, others, gone, lives, root, cwd, oom'⟩ :=
    moveData_spec (A := A) (s := u.setBuf d (A.junk s.heap (64 * 2 ^ cap))) (n := n) at_new
      ((inv.bufs.held at_f).imp (fun empty => ⟨empty.1, empty.2.2⟩)
        fun ⟨nonnull, b, held, length, size⟩ => ⟨nonnull, other nonnull,
          old_live (inv.bufs.bufLive held), b, (same (other nonnull).symm).trans held, by omega⟩)
      (by rw [junk]; omega)
  have data_null : n.data = 0 → n.size = 0 := fun zero => by
    rcases inv.bufs.held at_f with empty | ⟨nonnull, -⟩
    · exact empty.2.2
    · exact absurd zero nonnull
  refine .inr ⟨{ n with data := d, capacity := 64 * 2 ^ cap },
    v.setNode f { n with data := d, capacity := 64 * 2 ^ cap }, by rw [moved]; rfl,
    ⟨at_f, ?_, rfl, .inr ⟨null, b, at_d, length.trans junk, by dsimp only; omega⟩,
      .inr ⟨⟨cap, rfl⟩, sized⟩, .inr ⟨unbuf, unused⟩, fun ne ne' => ?_, fun live ne => ?_,
      fun {a b} h => ?_, root.trans files.root, cwd.trans files.cwd, ?_⟩, rfl, enough, ?_⟩
  · rw [Ramfs.setNode_nodes, nodes, Ramfs.setBuf_nodes, files.nodes]
  · exact (others (fun _ => ne) ne').trans (same ne')
  · exact lives (old_live live) fun nonnull => ne (other nonnull) nonnull
  · change v.bufs a = some b at h
    by_cases here : a = d
    · subst here
      exact lives live other
    have old : n.data ≠ 0 → a ≠ n.data := fun nonnull eq => by
      rw [eq, gone nonnull] at h
      cases h
    rw [others old here, same here] at h
    exact lives (old_live (inv.bufs.bufLive h)) old
  · exact oom'.trans (oom.trans (by simp [null]))
  · rw [fileBytes_of (Function.update_self ..) at_d, fileBytes, at_f]
    refine bytes.trans ?_
    by_cases zero : n.data = 0
    · simp [data_null zero]
    · rw [same (other zero).symm]
      rfl

/-! ## The operations -/

/-- **The copy**, into a buffer with room. -/
theorem putData_spec (inv : RamfsInv A s kids depth) {f : Nat} {n : Node}
    (at_f : s.nodes f = some n) {buf : List UInt8} {off : Nat}
    (room : off + buf.length ≤ n.capacity) :
    ∃ n' t, putData s f buf off (off + buf.length) = some t ∧ Replaced A s f n n' t ∧
      n'.size = max n.size (off + buf.length) ∧
      (off ≤ n.size → fileBytes t f = overlay (fileBytes s f) off buf) ∧
      ((fileBytes t f).drop off).take buf.length = buf := by
  unfold putData
  rw [at_f, Option.bind_some]
  rcases inv.bufs.held at_f with ⟨data, cap, size⟩ | ⟨data, b, held, length, size⟩
  · -- without a buffer there is no room: nothing is written
    obtain rfl : buf = [] := List.length_eq_zero_iff.mp (by omega)
    obtain rfl : off = 0 := by omega
    refine ⟨n, s, by simp, ⟨at_f, (Function.update_eq_self_iff.mpr at_f.symm).symm, rfl,
      .inl ⟨data, cap, size⟩, inv.bufs.caps at_f, .inl rfl, fun _ _ => rfl, fun live _ => live,
      inv.bufs.bufLive, rfl, rfl, rfl⟩, by simp, fun _ => by simp, by simp⟩
  · have fits : off + buf.length ≤ b.length := by omega
    have copied : (if buf = [] then some s
        else (s.bufs n.data).bind fun b => (splice b off buf).map (s.setBuf n.data)) =
          some (s.setBuf n.data (overlay b off buf)) := by
      by_cases empty : buf = []
      · rw [if_pos empty, empty, overlay_nil, Ramfs.setBuf,
          Function.update_eq_self_iff.mpr held.symm]
      · rw [if_neg empty, held, Option.bind_some, splice_eq fits]
        rfl
    let n' : Node := { n with size := max n.size (off + buf.length) }
    have sized : (if n.size < off + buf.length
        then (s.setBuf n.data (overlay b off buf)).setNode f { n with size := off + buf.length }
        else s.setBuf n.data (overlay b off buf)) =
          (s.setBuf n.data (overlay b off buf)).setNode f n' := by
      by_cases longer : n.size < off + buf.length
      · rw [if_pos longer]
        simp only [n', Nat.max_eq_right (Nat.le_of_lt longer)]
      · have same : n' = n := by simp only [n', Nat.max_eq_left (Nat.le_of_not_lt longer)]
        rw [if_neg longer, same, Ramfs.setNode, Ramfs.setBuf_nodes,
          Function.update_eq_self_iff.mpr at_f.symm]
        rfl
    have held' : ((s.setBuf n.data (overlay b off buf)).setNode f n').bufs n'.data =
        some (overlay b off buf) := Function.update_self ..
    refine ⟨n', (s.setBuf n.data (overlay b off buf)).setNode f n',
      by rw [copied, Option.map_some, sized], ⟨at_f, rfl, rfl,
        .inr ⟨data, _, held', by rw [length_overlay fits, length],
          Nat.max_le.mpr ⟨size, room⟩⟩, (inv.bufs.caps at_f :), .inl rfl,
        fun ne _ => Function.update_of_ne ne .., fun live _ => live, fun {a c} h => ?_, rfl, rfl,
        rfl⟩, rfl, fun start => ?_, ?_⟩
    · by_cases here : a = n.data
      · subst here
        exact inv.bufs.bufLive held
      · exact inv.bufs.bufLive ((Function.update_of_ne here ..).symm.trans h)
    · rw [fileBytes_of (Function.update_self ..) held', fileBytes_of at_f held]
      exact take_overlay start fits
    · rw [fileBytes_of (Function.update_self ..) held']
      exact drop_take_overlay fits (Nat.le_max_right ..)

/-- What a successful write leaves. -/
structure Written (s : Ramfs H) (f : Nat) (n : Node) (buf : List UInt8) (off : Nat) (t : Ramfs H) :
    Prop where
  node : ∃ n', t.nodes f = some n' ∧ n'.shell = n.shell ∧ n'.size = max n.size (off + buf.length)
  nodes : ∀ {q}, q ≠ f → t.nodes q = s.nodes q
  bytes : off ≤ n.size → fileBytes t f = overlay (fileBytes s f) off buf
  stored : ((fileBytes t f).drop off).take buf.length = buf
  others : ∀ {q}, q ≠ f → fileBytes t q = fileBytes s q
  root : t.root = s.root
  cwd : t.cwd = s.cwd
  oom : t.oom = s.oom
  buffer : ∀ {a b}, s.bufs a = some b → a ≠ n.data → t.bufs a = some b
  spare : ∀ {a b}, Spare s a b → Spare t a b

/-- The result of a write to a file is its length: no buffer is longer than the heap. -/
theorem toInt32_of_le {n : Nat} (le : n ≤ heapSize) : toInt32 n = n := by
  simp only [heapSize, heapPages, pageSize] at le
  have small : n % 2 ^ 32 = n := Nat.mod_eq_of_lt (by omega)
  rw [toInt32, BitVec.toInt_eq_toNat_of_lt, BitVec.toNat_ofNat, small]
  rw [BitVec.toNat_ofNat, small]
  omega

/-- **What `ramfs_write` does** to a node of the tree, up to position `2 ^ 63`. -/
theorem ramfsWrite_spec (inv : RamfsInv A s kids depth) {f : Nat} {n : Node}
    (at_f : s.nodes f = some n) {buf : List UInt8} {off : Nat} (bound : off + buf.length ≤ 2 ^ 63) :
    ∃ t, RamfsInv A t kids depth ∧
      ((ramfsWrite A s f buf off = some (-1, t) ∧ SameFiles s t ∧
          ((n.type ≠ .file ∧ t.oom = s.oom) ∨ n.type = .file ∧ t.oom = true)) ∨
        n.type = .file ∧ ramfsWrite A s f buf off = some ((buf.length : Int), t) ∧
          Written s f n buf off t) := by
  have nonnull : f ≠ 0 := fun eq => by rw [eq, inv.links.null] at at_f; cases at_f
  unfold ramfsWrite
  rw [if_neg nonnull, at_f, Option.bind_some]
  by_cases file : n.type ≠ .file
  · rw [if_pos file]
    exact ⟨s, inv, .inl ⟨rfl, ⟨rfl, rfl, rfl, rfl⟩, .inl ⟨file, rfl⟩⟩⟩
  rw [if_neg file, Nat.mod_eq_of_lt (by omega)]
  replace file := not_not.mp file
  dsimp only
  rcases ramfsGrow_spec inv at_f bound with ⟨t, full, files, inv', oom⟩ |
    ⟨n₁, u, grown, r, size, room, bytes⟩
  · exact ⟨t, inv', .inl ⟨by rw [full]; rfl, files, .inr ⟨file, oom⟩⟩⟩
  have inv₁ := r.inv inv
  have at_u : u.nodes f = some n₁ := by rw [r.nodes, Function.update_self]
  obtain ⟨-, max_cap⟩ := inv₁.bufs.size_le at_u
  obtain ⟨n₂, t, put, r', size', bytes', stored⟩ := putData_spec inv₁ at_u room
  refine ⟨t, r'.inv inv₁, .inr ⟨file, ?_, ⟨⟨n₂, by rw [r'.nodes, Function.update_self],
    r'.shell.trans r.shell, by rw [size', size]⟩, fun ne => ?_, fun start => ?_, stored,
    fun ne => ?_,
    r'.root.trans r.root, r'.cwd.trans r.cwd, r'.oom.trans r.oom, fun held old => ?_,
    fun h => r'.spare (r.spare h)⟩⟩⟩
  · rw [grown, Option.bind_some, if_neg (by simp), put, Option.map_some,
      toInt32_of_le (by omega)]
  · rw [r'.nodes, r.nodes, Function.update_idem, Function.update_of_ne ne]
  · rw [bytes' (by omega), bytes]
  · rw [r'.fileBytes_eq inv₁ ne, r.fileBytes_eq inv ne]
  · obtain ⟨held', old'⟩ := r.buffer held old
    exact (r'.buffer held' old').1

/-- **What `ramfs_read` does** on a file of the tree: it delivers the next bytes, as
many as there are. -/
theorem ramfsRead_spec (inv : RamfsInv A s kids depth) {f : Nat} {n : Node}
    (at_f : s.nodes f = some n) (file : n.type = .file) (k off : Nat) :
    ∃ bytes, ramfsRead s f k off = some ((bytes.length : Int), bytes) ∧
      bytes = ((fileBytes s f).drop off).take k := by
  have nonnull : f ≠ 0 := fun eq => by rw [eq, inv.links.null] at at_f; cases at_f
  unfold ramfsRead
  rw [if_neg nonnull, at_f, Option.bind_some, if_neg (not_not.mpr file)]
  have length := inv.bufs.length_fileBytes at_f
  by_cases past : n.size ≤ off
  · refine ⟨[], if_pos past, ?_⟩
    rw [List.drop_eq_nil_of_le (by omega), List.take_nil]
  rw [if_neg past]
  dsimp only
  by_cases none : min k (n.size - off) = 0
  · refine ⟨[], if_pos none, ?_⟩
    have zero : k = 0 := by omega
    rw [zero, List.take_zero]
  rw [if_neg none]
  rcases inv.bufs.held at_f with ⟨-, -, size⟩ | ⟨data, b, held, length', size⟩
  · omega
  obtain ⟨-, cap⟩ := inv.bufs.size_le at_f
  have taken : (b.drop off).take (min k (n.size - off)) = ((fileBytes s f).drop off).take k := by
    rw [fileBytes_of at_f held, List.drop_take, List.take_take]
  refine ⟨(b.drop off).take (min k (n.size - off)), ?_, taken⟩
  have count : ((b.drop off).take (min k (n.size - off))).length = min k (n.size - off) := by
    rw [List.length_take, List.length_drop]
    omega
  rw [held, Option.bind_some, if_pos (by omega), toInt32_of_le (by omega), count]

end Flyos
