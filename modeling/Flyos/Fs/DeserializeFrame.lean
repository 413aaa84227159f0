import Flyos.Fs.DeserializeAny

/-!
# What reading an image touches

`AddsTo` says that all that is new is below one directory: the old nodes and buffers are as
they were, apart from the link from that directory to its first child.
`ramfsDeserialize_robust` proves it of `ramfs_deserialize`, for any bytes and whichever
allocations fail, and that every call of `deser_node` that goes on moves forward and stays
in the input.
-/

namespace Flyos

variable {H : Type*} {A : Allocator H} {s t u : Ramfs H} {kids : Nat → List Nat}
  {depth : Nat → Nat} {p c : Nat}

/-- **Nodes and buffers were added below the directory `p`**: nothing else changed, but for
the first child of `p`.  The names of the new nodes end within 64 bytes. -/
structure AddsTo (A : Allocator H) (s t : Ramfs H) (p : Nat) : Prop where
  inv : ∃ kids depth, RamfsInv A t kids depth
  nodes : ∀ x n, s.nodes x = some n → x ≠ p → t.nodes x = some n
  dir : ∀ n, s.nodes p = some n → ∃ c, t.nodes p = some { n with children := c }
  bufs : ∀ a b, s.bufs a = some b → t.bufs a = some b
  names : ∀ x n, s.nodes x = none → t.nodes x = some n → n.name.length < ramfsNameMax
  root : t.root = s.root
  cwd : t.cwd = s.cwd

namespace AddsTo

/-- Nothing is added. -/
theorem refl (inv : RamfsInv A s kids depth) : AddsTo A s s p :=
  ⟨⟨_, _, inv⟩, fun _ _ at_x _ => at_x, fun n at_p => ⟨n.children, at_p⟩, fun _ _ held => held,
    fun _ _ gone at_x => (by rw [gone] at at_x; cases at_x), rfl, rfl⟩

/-- A state with the same files. -/
theorem of_same (files : SameFiles s t) (inv : RamfsInv A t kids depth) : AddsTo A s t p := by
  refine ⟨⟨_, _, inv⟩, fun x n at_x _ => ?_, fun n at_p => ⟨n.children, ?_⟩, fun a b held => ?_,
    fun x n gone at_x => ?_, files.root, files.cwd⟩
  · rw [files.nodes, at_x]
  · rw [files.nodes, at_p]
  · rw [files.bufs, held]
  · rw [files.nodes, gone] at at_x
    cases at_x

/-- The nodes of before are still there. -/
theorem stays (h : AddsTo A s t p) {x : Nat} {n : Node} (at_x : s.nodes x = some n) :
    ∃ m, t.nodes x = some m ∧ m.name = n.name := by
  by_cases here : x = p
  · subst here
    obtain ⟨c, at_p⟩ := h.dir n at_x
    exact ⟨_, at_p, rfl⟩
  · exact ⟨n, h.nodes x n at_x here, rfl⟩

/-- What is unused in the end was unused before. -/
theorem unused (h : AddsTo A s t p) {x : Nat} (gone : t.nodes x = none) : s.nodes x = none := by
  by_contra used
  obtain ⟨n, at_x⟩ := Option.ne_none_iff_exists'.mp used
  obtain ⟨m, at_x', -⟩ := h.stays at_x
  rw [gone] at at_x'
  cases at_x'

/-- **One after the other** in one directory, or the second time in a node that the first
has added. -/
theorem trans (h : AddsTo A s t p) (h' : AddsTo A t u c) (below : c = p ∨ s.nodes c = none) :
    AddsTo A s u p := by
  have other : ∀ {x n}, s.nodes x = some n → x ≠ p → x ≠ c := by
    intro x n at_x ne eq
    rcases below with same | gone
    · exact ne (eq.trans same)
    · rw [← eq, at_x] at gone
      cases gone
  refine ⟨h'.inv, fun x n at_x ne => h'.nodes x n (h.nodes x n at_x ne) (other at_x ne),
    fun n at_p => ?_, fun a b held => h'.bufs a b (h.bufs a b held), fun x n gone at_x => ?_,
    h'.root.trans h.root, h'.cwd.trans h.cwd⟩
  · obtain ⟨k, at_p'⟩ := h.dir n at_p
    rcases below with rfl | gone
    · obtain ⟨k', at_p''⟩ := h'.dir _ at_p'
      exact ⟨k', at_p''⟩
    · have ne : p ≠ c := fun eq => by rw [← eq, at_p] at gone; cases gone
      exact ⟨k, h'.nodes p _ at_p' ne⟩
  · cases between : t.nodes x with
    | none => exact h'.names x n between at_x
    | some m =>
        obtain ⟨n', at_x', same⟩ := h'.stays between
        obtain rfl := Option.some.inj (at_x.symm.trans at_x')
        rw [same]
        exact h.names x m gone between

end AddsTo

/-- **A creation** adds a node, or nothing. -/
theorem createNode_adds (inv : RamfsInv A s kids depth) {n : Node} (at_p : s.nodes p = some n)
    {type : NodeType} {name : CString} (ran : createNode A type s p name = some (c, t)) :
    AddsTo A s t p ∧ (c ≠ 0 → s.nodes c = none ∧
      ∃ m, t.nodes c = some m ∧ m.data = 0 ∧ m.type = type) := by
  obtain ⟨c', t', ran', result⟩ := createNode_spec inv at_p type name
  obtain ⟨rfl, rfl⟩ := Prod.mk.inj (Option.some.inj (ran.symm.trans ran'))
  rcases result with ⟨null, files, inv', -⟩ |
    ⟨-, -, -, unused, -, nodes, bufs, root, cwd, -, inv'⟩
  · exact ⟨.of_same files inv', fun nonnull => absurd null nonnull⟩
  have pc : c ≠ p := fun eq => by rw [eq, at_p] at unused; cases unused
  have at_c : t.nodes c = some (newNode type name p n.children) := by
    rw [nodes, withChild, Function.update_of_ne pc, Function.update_self]
  refine ⟨⟨⟨_, _, inv'⟩, fun x m at_x ne => ?_, fun m at_p' => ⟨c, ?_⟩, fun a b held => ?_,
    fun x m gone at_x => ?_, root, cwd⟩, fun _ => ⟨unused, _, at_c, rfl, rfl⟩⟩
  · have xc : x ≠ c := fun eq => by rw [eq, unused] at at_x; cases at_x
    rw [nodes, withChild, Function.update_of_ne ne, Function.update_of_ne xc, at_x]
  · obtain rfl := Option.some.inj (at_p.symm.trans at_p')
    rw [nodes, withChild, Function.update_self]
  · rw [bufs, held]
  · rw [nodes] at at_x
    rcases withChild_some at_p at_x with ⟨-, rfl⟩ | ⟨m', at_x', -⟩
    · exact Nat.lt_of_le_of_lt (List.length_take_le _ _) (by decide)
    · rw [gone] at at_x'
      cases at_x'

/-- **The contents of a new file** go into a buffer of its own. -/
theorem AddsTo.write (h : AddsTo A s t p) (unused : s.nodes c = none) {n : Node}
    (at_c : t.nodes c = some n) (blank : n.data = 0) {buf : List UInt8}
    (bound : buf.length ≤ 2 ^ 63) {r : Int} (ran : ramfsWrite A t c buf 0 = some (r, u)) :
    AddsTo A s u p := by
  obtain ⟨_, _, inv⟩ := h.inv
  obtain ⟨u', inv', ⟨ran', files, -⟩ | ⟨-, ran', w⟩⟩ :=
    ramfsWrite_spec inv at_c (by omega : 0 + buf.length ≤ 2 ^ 63)
  · obtain ⟨rfl, rfl⟩ := Prod.mk.inj (Option.some.inj (ran.symm.trans ran'))
    exact h.trans (.of_same files inv') (.inl rfl)
  obtain ⟨rfl, rfl⟩ := Prod.mk.inj (Option.some.inj (ran.symm.trans ran'))
  obtain ⟨m, at_c', shell, -⟩ := w.node
  simp only [Node.shell, Prod.mk.injEq] at shell
  have other : ∀ {x n}, s.nodes x = some n → x ≠ c := fun at_x eq => by
    rw [eq, unused] at at_x
    cases at_x
  refine ⟨⟨_, _, inv'⟩, fun x k at_x ne => ?_, fun k at_p => ?_, fun a b held => ?_,
    fun x k gone at_x => ?_, w.root.trans h.root, w.cwd.trans h.cwd⟩
  · rw [w.nodes (other at_x), h.nodes x k at_x ne]
  · obtain ⟨first, at_p'⟩ := h.dir k at_p
    exact ⟨first, by rw [w.nodes (other at_p), at_p']⟩
  · have held' := h.bufs a b held
    refine w.buffer held' fun eq => ?_
    rw [eq, blank, inv.bufs.null] at held'
    cases held'
  · by_cases here : x = c
    · subst here
      obtain rfl := Option.some.inj (at_x.symm.trans at_c')
      rw [shell.1]
      exact h.names x n unused at_c
    · rw [w.nodes here] at at_x
      exact h.names x k gone at_x

/-! ## The recursion -/

variable {input : List UInt8} {len : Nat}

/-- What every call of `deser_node` does, at some fuel: it adds below its directory, and goes
on behind `pos` and inside the input, or fails. -/
def NodeAdds (A : Allocator H) (input : List UInt8) (len fuel : Nat) : Prop :=
  ∀ {s t : Ramfs H} {kids depth p n pos r}, RamfsInv A s kids depth → s.nodes p = some n →
    deserNode A input len fuel s p pos = some (r, t) →
    AddsTo A s t p ∧ (r ≠ 0 → pos < r ∧ r ≤ len)

/-- The same for the loop over a directory. -/
def KidsAdd (A : Allocator H) (input : List UInt8) (len fuel : Nat) : Prop :=
  ∀ {s t : Ramfs H} {kids depth p n pos r}, RamfsInv A s kids depth → s.nodes p = some n →
    deserKids A input len fuel s p pos = some (r, t) →
    AddsTo A s t p ∧ (r ≠ 0 → pos < r ∧ r ≤ len)

/-- **One node.** -/
theorem NodeAdds.succ {fuel : Nat} (kidsAdd : KidsAdd A input len fuel) :
    NodeAdds A input len (fuel + 1) := by
  intro s t kids depth p n pos r inv at_p ran
  have fails : some (0, s) = some (r, t) → AddsTo A s t p ∧ (r ≠ 0 → pos < r ∧ r ≤ len) := by
    rintro ⟨⟩
    exact ⟨.refl inv, fun nonzero => absurd rfl nonzero⟩
  rw [deserNode] at ran
  by_cases past : len < pos + 2
  · rw [if_pos past] at ran
    exact fails ran
  rw [if_neg past] at ran
  obtain ⟨type, -, ran⟩ := Option.bind_eq_some_iff.mp ran
  obtain ⟨nlen, -, ran⟩ := Option.bind_eq_some_iff.mp ran
  dsimp only at ran
  by_cases marker : type = 0xFF
  · -- a type 0xFF in front of another byte than 0 is skipped
    rw [if_pos marker] at ran
    cases ran
    exact ⟨.refl inv, fun _ => ⟨by omega, by omega⟩⟩
  rw [if_neg marker] at ran
  by_cases cut : len < pos + 2 + nlen.toNat
  · rw [if_pos cut] at ran
    exact fails ran
  rw [if_neg cut] at ran
  obtain ⟨name, -, ran⟩ := Option.bind_eq_some_iff.mp ran
  by_cases file : type = NodeType.file.byte
  · rw [if_pos file] at ran
    by_cases cut' : len < pos + 2 + nlen.toNat + 4
    · rw [if_pos cut'] at ran
      exact fails ran
    rw [if_neg cut'] at ran
    obtain ⟨sz, sized, ran⟩ := Option.bind_eq_some_iff.mp ran
    by_cases cut'' : len < pos + 2 + nlen.toNat + 4 + ofLe32 sz
    · rw [if_pos cut''] at ran
      exact fails ran
    rw [if_neg cut''] at ran
    obtain ⟨⟨c, t₁⟩, made, ran⟩ := Option.bind_eq_some_iff.mp ran
    obtain ⟨adds, new⟩ := createNode_adds inv at_p made
    dsimp only at ran
    by_cases null : c = 0
    · rw [if_pos null] at ran
      cases ran
      exact ⟨adds, fun nonzero => absurd rfl nonzero⟩
    rw [if_neg null] at ran
    obtain ⟨unused, m, at_c, blank, -⟩ := new null
    obtain ⟨data, read, ran⟩ := Option.bind_eq_some_iff.mp ran
    obtain ⟨⟨w, u⟩, wrote, ran⟩ := Option.map_eq_some_iff.mp ran
    cases ran
    have small := ofLe32_lt (drop_of_slice sized).1
    have length := (drop_of_slice read).1
    exact ⟨adds.write unused at_c blank (by omega) wrote, fun _ => ⟨by omega, by omega⟩⟩
  rw [if_neg file] at ran
  by_cases dir : type = NodeType.dir.byte
  · rw [if_pos dir] at ran
    obtain ⟨⟨c, t₁⟩, made, ran⟩ := Option.bind_eq_some_iff.mp ran
    obtain ⟨adds, new⟩ := createNode_adds inv at_p made
    dsimp only at ran
    by_cases null : c = 0
    · rw [if_pos null] at ran
      cases ran
      exact ⟨adds, fun nonzero => absurd rfl nonzero⟩
    rw [if_neg null] at ran
    obtain ⟨unused, m, at_c, -⟩ := new null
    obtain ⟨_, _, inv'⟩ := adds.inv
    obtain ⟨adds', forward⟩ := kidsAdd inv' at_c ran
    refine ⟨adds.trans adds' (.inr unused), fun nonzero => ?_⟩
    obtain ⟨low, high⟩ := forward nonzero
    exact ⟨by omega, high⟩
  · rw [if_neg dir] at ran
    exact fails ran

/-- **The loop over a directory.** -/
theorem KidsAdd.succ {fuel : Nat} (nodeAdds : NodeAdds A input len fuel)
    (kidsAdd : KidsAdd A input len fuel) : KidsAdd A input len (fuel + 1) := by
  intro s t kids depth p n pos r inv at_p ran
  rw [deserKids] at ran
  by_cases past : len < pos + 2
  · rw [if_pos past] at ran
    cases ran
    exact ⟨.refl inv, fun nonzero => absurd rfl nonzero⟩
  rw [if_neg past] at ran
  obtain ⟨done, -, ran⟩ := Option.bind_eq_some_iff.mp ran
  by_cases last : done = true
  · rw [if_pos last] at ran
    cases ran
    exact ⟨.refl inv, fun _ => ⟨by omega, by omega⟩⟩
  rw [if_neg last] at ran
  obtain ⟨⟨q, t₁⟩, ran₁, ran⟩ := Option.bind_eq_some_iff.mp ran
  obtain ⟨adds, forward⟩ := nodeAdds inv at_p ran₁
  dsimp only at ran
  by_cases stop : q = 0 ∨ q ≤ pos
  · rw [if_pos stop] at ran
    cases ran
    exact ⟨adds, fun nonzero => absurd rfl nonzero⟩
  rw [if_neg stop] at ran
  obtain ⟨m, at_p', -⟩ := adds.stays at_p
  obtain ⟨_, _, inv'⟩ := adds.inv
  obtain ⟨adds', forward'⟩ := kidsAdd inv' at_p' ran
  refine ⟨adds.trans adds' (.inl rfl), fun nonzero => ?_⟩
  obtain ⟨low, high⟩ := forward' nonzero
  exact ⟨by omega, high⟩

/-- Both recursions, at every fuel. -/
theorem deserNode_adds (fuel : Nat) : NodeAdds A input len fuel ∧ KidsAdd A input len fuel := by
  induction fuel with
  | zero =>
      constructor
      · intro s t kids depth p n pos r inv at_p ran
        cases ran
      · intro s t kids depth p n pos r inv at_p ran
        cases ran
  | succ fuel ih => exact ⟨NodeAdds.succ ih.2, KidsAdd.succ ih.1 ih.2⟩

/-- **The loop below the root.** -/
theorem deserTop_adds (fuel : Nat) (inv : RamfsInv A s kids depth) {pos : Nat} {r : Int}
    (ran : deserTop A input len fuel s pos = some (r, t)) : AddsTo A s t s.root := by
  induction fuel generalizing s kids depth pos with
  | zero => cases ran
  | succ fuel ih =>
      rw [deserTop] at ran
      by_cases past : len < pos + 2
      · rw [if_pos past] at ran
        cases ran
        exact .refl inv
      rw [if_neg past] at ran
      obtain ⟨done, -, ran⟩ := Option.bind_eq_some_iff.mp ran
      by_cases last : done = true
      · rw [if_pos last] at ran
        cases ran
        exact .refl inv
      rw [if_neg last] at ran
      obtain ⟨⟨q, t₁⟩, ran₁, ran⟩ := Option.bind_eq_some_iff.mp ran
      obtain ⟨n, at_root, -⟩ := inv.links.top
      obtain ⟨adds, -⟩ := (deserNode_adds fuel).1 inv at_root ran₁
      dsimp only at ran
      by_cases stop : q = 0 ∨ q ≤ pos
      · rw [if_pos stop] at ran
        cases ran
        exact adds
      rw [if_neg stop] at ran
      obtain ⟨_, _, inv'⟩ := adds.inv
      exact adds.trans (ih inv' ran) (.inl adds.root)

/-- **The decoder is robust**, whatever the bytes are and whichever allocations fail.  It ends
and reads no byte behind its input; it writes to nodes and buffers that it has allocated, in
their bounds, and to the link from the root to its first child; and every call of
`deser_node` that answers a position answers one behind its own and inside the input. -/
theorem ramfsDeserialize_robust (inv : RamfsInv A s kids depth) (input : List UInt8) :
    (∃ r t, ramfsDeserialize A s input = some (r, t) ∧ AddsTo A s t s.root ∧
      ∀ x n, t.nodes x = some n → n.size ≤ n.capacity ∧
        (n.data ≠ 0 → ∃ b, t.bufs n.data = some b ∧ b.length = n.capacity)) ∧
    ∀ (u v : Ramfs H) kids depth p n len fuel pos r, RamfsInv A u kids depth →
      u.nodes p = some n → deserNode A input len fuel u p pos = some (r, v) → r ≠ 0 →
        pos < r ∧ r ≤ len := by
  refine ⟨?_, fun u v kids' depth' p n len fuel pos r inv' at_p ran nonzero =>
    ((deserNode_adds fuel).1 inv' at_p ran).2 nonzero⟩
  obtain ⟨r, t, ran, -⟩ := ramfsDeserialize_spec inv input
  have adds : AddsTo A s t s.root := by
    have run := ran
    rw [ramfsDeserialize] at run
    by_cases few : input.length < 16
    · rw [if_pos few] at run
      cases run
      exact .refl inv
    rw [if_neg few] at run
    by_cases other : input.take 8 ≠ magic
    · rw [if_pos other] at run
      cases run
      exact .refl inv
    rw [if_neg other] at run
    exact deserTop_adds _ inv run
  refine ⟨r, t, ran, adds, fun x n at_x => ?_⟩
  obtain ⟨_, _, inv'⟩ := adds.inv
  refine ⟨(inv'.bufs.size_le at_x).1, fun nonnull => ?_⟩
  obtain ⟨null, -⟩ | ⟨-, b, held, length, -⟩ := inv'.bufs.held at_x
  · exact absurd null nonnull
  · exact ⟨b, held, length⟩

/-- The image of one file, read into an empty tree. -/
theorem ramfsDeserialize_robust_one : ∃ r t,
    ramfsDeserialize countingAllocator freshRoot imageOfOne = some (r, t) ∧
      AddsTo countingAllocator freshRoot t freshRoot.root := by
  obtain ⟨depth, inv⟩ := freshRoot_inv
  obtain ⟨r, t, ran, adds, -⟩ := (ramfsDeserialize_robust inv imageOfOne).1
  exact ⟨r, t, ran, adds⟩

/-- **The root is written to**, which was there before. -/
theorem ramfsDeserialize_links : ¬ ∀ {s t : Ramfs CountingHeap} {kids : Nat → List Nat}
    {depth : Nat → Nat} {input : List UInt8} {r : Int},
    RamfsInv countingAllocator s kids depth →
      ramfsDeserialize countingAllocator s input = some (r, t) →
        ∀ x n, s.nodes x = some n → t.nodes x = some n := by
  intro all
  obtain ⟨depth, inv⟩ := freshRoot_inv
  have result : (ramfsDeserialize countingAllocator freshRoot imageOfOne).map
      (fun r => (r.2.nodes 1).map Node.children) = some (some 2) := rfl
  obtain ⟨⟨r, t⟩, ran, linked⟩ := Option.map_eq_some_iff.mp result
  have same := all inv ran 1 (newNode .dir [47] 0 0) rfl
  rw [same] at linked
  cases linked

end Flyos
