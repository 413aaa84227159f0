import Flyos.Fs.RamfsData
import Flyos.Fs.Serialize

/-!
# Reading an image keeps the tree

Whatever the bytes are and whichever allocations fail, `ramfs_deserialize` ends,
reads inside its input, and leaves a tree (`ramfsDeserialize_spec`).  The recursion is
followed with a measure: a directory costs two bytes, and every round of a loop over
a directory moves forward.
-/

namespace Flyos

variable {H : Type*} {A : Allocator H} {s t u : Ramfs H} {kids : Nat → List Nat}
  {depth : Nat → Nat}

/-- A tree that has the nodes of `s`, and maybe more. -/
structure Extends (A : Allocator H) (s t : Ramfs H) : Prop where
  inv : ∃ kids depth, RamfsInv A t kids depth
  nodes : ∀ {p n}, s.nodes p = some n → ∃ n', t.nodes p = some n'
  root : t.root = s.root
  cwd : t.cwd = s.cwd
  oom : s.oom = true → t.oom = true
  spare : ∀ {a b}, Spare s a b → Spare t a b

namespace Extends

/-- A tree extends itself. -/
theorem refl (inv : RamfsInv A s kids depth) : Extends A s s :=
  ⟨⟨kids, depth, inv⟩, fun h => ⟨_, h⟩, rfl, rfl, fun h => h, fun h => h⟩

/-- Extensions compose. -/
theorem trans (h : Extends A s t) (h' : Extends A t u) : Extends A s u :=
  ⟨h'.inv, fun at_p => (h.nodes at_p).elim fun _ at_p' => h'.nodes at_p', h'.root.trans h.root,
    h'.cwd.trans h.cwd, fun full => h'.oom (h.oom full), fun h₀ => h'.spare (h.spare h₀)⟩

/-- No allocation failed before if none failed in the end. -/
theorem calm (h : Extends A s t) (calm : t.oom = false) : s.oom = false := by
  rw [Bool.eq_false_iff] at calm ⊢
  exact fun full => calm (h.oom full)

/-- A state with the same files extends a tree. -/
theorem of_same (files : SameFiles s t) (inv : RamfsInv A t kids depth)
    (oom : t.oom = s.oom ∨ t.oom = true) : Extends A s t :=
  ⟨⟨kids, depth, inv⟩, fun h => ⟨_, by rw [files.nodes, h]⟩, files.root, files.cwd,
    fun full => oom.elim (fun same => same.trans full) id,
    fun h => ⟨by rw [files.bufs, h.held], fun at_p => h.unowned (files.nodes ▸ at_p)⟩⟩

end Extends

/-- A creation extends the tree, by a node if it succeeds. -/
theorem createNode_extends (inv : RamfsInv A s kids depth) {p : Nat} {d : Node}
    (at_p : s.nodes p = some d) (type : NodeType) (name : CString) :
    ∃ c t, createNode A type s p name = some (c, t) ∧ Extends A s t ∧
      (c ≠ 0 → ∃ n, t.nodes c = some n) := by
  obtain ⟨c, t, ran, ⟨null, files, inv', oom, -⟩ |
      ⟨-, -, -, unused, -, nodes, bufs, root, cwd, oom, inv'⟩⟩ :=
    createNode_spec inv at_p type name
  · exact ⟨c, t, ran, .of_same files inv' oom, fun nonnull => absurd null nonnull⟩
  · have at_c : t.nodes c = some (newNode type name p d.children) := by
      have pc : c ≠ p := fun eq => by rw [eq, at_p] at unused; cases unused
      rw [nodes, withChild, Function.update_of_ne pc, Function.update_self]
    refine ⟨c, t, ran, ⟨⟨_, _, inv'⟩, fun {q n} h => ?_, root, cwd, fun full => oom.trans full,
      fun {a b} h => ⟨by rw [bufs, h.held], fun {q n} at_q => ?_⟩⟩, fun _ => ⟨_, at_c⟩⟩
    · by_cases hp : q = p
      · subst hp
        rw [nodes, withChild, Function.update_self]
        exact ⟨_, rfl⟩
      · have qc : q ≠ c := fun eq => by rw [eq, unused] at h; cases h
        rw [nodes, withChild, Function.update_of_ne hp, Function.update_of_ne qc]
        exact ⟨n, h⟩
    · rw [nodes] at at_q
      rcases withChild_some at_p at_q with ⟨-, rfl⟩ | ⟨n', at_q', eq⟩
      · exact Nat.ne_of_lt (A.pointer (inv.bufs.bufLive h.held)).1
      · have data : n.data = n'.data := by rw [eq]
        rw [data]
        exact h.unowned at_q'

/-- A write extends the tree, by nothing. -/
theorem ramfsWrite_extends (inv : RamfsInv A s kids depth) {f : Nat} {n : Node}
    (at_f : s.nodes f = some n) {buf : List UInt8} {off : Nat} (bound : off + buf.length ≤ 2 ^ 63) :
    ∃ r t, ramfsWrite A s f buf off = some (r, t) ∧ Extends A s t := by
  obtain ⟨t, inv', ⟨ran, files, oom⟩ | ⟨-, ran, w⟩⟩ := ramfsWrite_spec inv at_f bound
  · exact ⟨-1, t, ran, .of_same files inv' (oom.imp And.right And.right)⟩
  · refine ⟨_, t, ran, ⟨⟨kids, depth, inv'⟩, fun {p m} h => ?_, w.root, w.cwd, fun full =>
      w.oom.trans full, w.spare⟩⟩
    by_cases here : p = f
    · obtain ⟨n', at_f', -⟩ := w.node
      exact ⟨n', here ▸ at_f'⟩
    · exact ⟨m, (w.nodes here).trans h⟩

/-! ## The recursion -/

/-- A slice inside the input. -/
theorem slice_some (input : List UInt8) (pos n : Nat) (inside : pos + n ≤ input.length) :
    ∃ b, slice input pos n = some b ∧ b.length = n := by
  refine ⟨_, if_pos inside, ?_⟩
  rw [List.length_take, List.length_drop]
  omega

/-- The end marker can be looked for inside the input. -/
theorem atEnd_some (input : List UInt8) (pos : Nat) (inside : pos + 2 ≤ input.length) :
    ∃ b, atEnd input pos = some b := by
  have first : input[pos]? = some (input[pos]) := List.getElem?_eq_getElem (by omega)
  have second : input[pos + 1]? = some (input[pos + 1]) := List.getElem?_eq_getElem (by omega)
  exact ⟨_, by rw [atEnd, first, Option.bind_some, second]; rfl⟩

/-- Four bytes are a number below `2 ^ 32`. -/
theorem ofLe32_lt {b : List UInt8} (four : b.length = 4) : ofLe32 b < 2 ^ 32 := by
  match b, four with
  | [w, x, y, z], _ =>
      have := w.toNat_lt
      have := x.toNat_lt
      have := y.toNat_lt
      have := z.toNat_lt
      simp only [ofLe32, List.foldr_cons, List.foldr_nil]
      omega

variable {input : List UInt8} {len : Nat}

/-- **Reading one node, and one directory**: by induction on the fuel, of which a
node at `pos` needs `2 * (len - pos) + 1` and a directory one more. -/
theorem deserNode_extends (inside : len ≤ input.length) (short : len < 2 ^ 33) (fuel : Nat) :
    (∀ {s : Ramfs H} {kids depth p d} (pos), RamfsInv A s kids depth → s.nodes p = some d →
        2 * (len - pos) + 1 ≤ fuel →
        ∃ r t, deserNode A input len fuel s p pos = some (r, t) ∧ Extends A s t) ∧
      ∀ {s : Ramfs H} {kids depth p d} (pos), RamfsInv A s kids depth → s.nodes p = some d →
        2 * (len - pos) + 2 ≤ fuel →
        ∃ r t, deserKids A input len fuel s p pos = some (r, t) ∧ Extends A s t := by
  induction fuel with
  | zero => exact ⟨fun _ _ _ enough => by omega, fun _ _ _ enough => by omega⟩
  | succ fuel ih =>
      constructor
      · intro s kids depth p d pos inv at_p enough
        rw [deserNode]
        by_cases past : len < pos + 2
        · exact ⟨0, s, if_pos past, .refl inv⟩
        have first : input[pos]? = some (input[pos]) := List.getElem?_eq_getElem (by omega)
        have second : input[pos + 1]? = some (input[pos + 1]) :=
          List.getElem?_eq_getElem (by omega)
        rw [if_neg past, first, Option.bind_some, second, Option.bind_some]
        generalize input[pos] = type
        generalize input[pos + 1] = nlen
        dsimp only
        by_cases marker : type = 0xFF
        · exact ⟨_, s, if_pos marker, .refl inv⟩
        rw [if_neg marker]
        by_cases cut : len < pos + 2 + nlen.toNat
        · exact ⟨0, s, if_pos cut, .refl inv⟩
        obtain ⟨name, named, -⟩ :=
          slice_some input (pos + 2) (min nlen.toNat (ramfsNameMax - 1))
            (by omega)
        rw [if_neg cut, named, Option.bind_some]
        by_cases file : type = NodeType.file.byte
        · rw [if_pos file]
          by_cases cut' : len < pos + 2 + nlen.toNat + 4
          · exact ⟨0, s, if_pos cut', .refl inv⟩
          obtain ⟨sz, sized, four⟩ :=
            slice_some input (pos + 2 + nlen.toNat) 4 (by omega)
          have small := ofLe32_lt four
          rw [if_neg cut', sized, Option.bind_some]
          by_cases cut'' : len < pos + 2 + nlen.toNat + 4 + ofLe32 sz
          · exact ⟨0, s, if_pos cut'', .refl inv⟩
          obtain ⟨c, t, made, ext, at_c⟩ := createNode_extends inv at_p .file (cString name)
          rw [if_neg cut'', ramfsCreateFile, made, Option.bind_some]
          by_cases null : c = 0
          · exact ⟨0, t, if_pos null, ext⟩
          obtain ⟨data, read, length⟩ :=
            slice_some input (pos + 2 + nlen.toNat + 4) (ofLe32 sz)
              (by omega)
          obtain ⟨n, at_c⟩ := at_c null
          obtain ⟨_, _, inv'⟩ := ext.inv
          obtain ⟨r, u, wrote, ext'⟩ :=
            ramfsWrite_extends inv' at_c (by omega : 0 + data.length ≤ 2 ^ 63)
          rw [if_neg null, read, Option.bind_some, wrote]
          exact ⟨_, u, rfl, ext.trans ext'⟩
        rw [if_neg file]
        by_cases dir : type = NodeType.dir.byte
        · obtain ⟨c, t, made, ext, at_c⟩ := createNode_extends inv at_p .dir (cString name)
          rw [if_pos dir, ramfsMkdir, made, Option.bind_some]
          by_cases null : c = 0
          · exact ⟨0, t, if_pos null, ext⟩
          obtain ⟨n, at_c⟩ := at_c null
          obtain ⟨_, _, inv'⟩ := ext.inv
          obtain ⟨r, u, ran, ext'⟩ := ih.2 (pos + 2 + nlen.toNat) inv' at_c (by omega)
          rw [if_neg null]
          exact ⟨r, u, ran, ext.trans ext'⟩
        · exact ⟨0, s, if_neg dir, .refl inv⟩
      · intro s kids depth p d pos inv at_p enough
        rw [deserKids]
        by_cases past : len < pos + 2
        · exact ⟨0, s, if_pos past, .refl inv⟩
        obtain ⟨done, looked⟩ := atEnd_some input pos (by omega)
        rw [if_neg past, looked, Option.bind_some]
        by_cases last : done = true
        · exact ⟨_, s, if_pos last, .refl inv⟩
        obtain ⟨r, t, ran, ext⟩ := ih.1 pos inv at_p (by omega)
        rw [if_neg last, ran, Option.bind_some]
        by_cases stop : r = 0 ∨ r ≤ pos
        · exact ⟨0, t, if_pos stop, ext⟩
        obtain ⟨_, _, inv'⟩ := ext.inv
        obtain ⟨d', at_p'⟩ := ext.nodes at_p
        obtain ⟨r', u, ran', ext'⟩ := ih.2 r inv' at_p' (by omega)
        rw [if_neg stop]
        exact ⟨r', u, ran', ext.trans ext'⟩

/-- Under a null directory nothing is read in. -/
theorem deserNode_null (inside : len ≤ input.length) (fuel pos : Nat) :
    ∃ r, deserNode A input len (fuel + 1) s 0 pos = some (r, s) := by
  rw [deserNode]
  by_cases past : len < pos + 2
  · exact ⟨0, if_pos past⟩
  have first : input[pos]? = some (input[pos]) := List.getElem?_eq_getElem (by omega)
  have second : input[pos + 1]? = some (input[pos + 1]) := List.getElem?_eq_getElem (by omega)
  rw [if_neg past, first, Option.bind_some, second, Option.bind_some]
  generalize input[pos] = type
  generalize input[pos + 1] = nlen
  dsimp only
  by_cases marker : type = 0xFF
  · exact ⟨_, if_pos marker⟩
  rw [if_neg marker]
  by_cases cut : len < pos + 2 + nlen.toNat
  · exact ⟨0, if_pos cut⟩
  obtain ⟨name, named, -⟩ :=
    slice_some input (pos + 2) (min nlen.toNat (ramfsNameMax - 1)) (by omega)
  rw [if_neg cut, named, Option.bind_some]
  by_cases file : type = NodeType.file.byte
  · rw [if_pos file]
    by_cases cut' : len < pos + 2 + nlen.toNat + 4
    · exact ⟨0, if_pos cut'⟩
    obtain ⟨sz, sized, -⟩ :=
      slice_some input (pos + 2 + nlen.toNat) 4 (by omega)
    rw [if_neg cut', sized, Option.bind_some]
    by_cases cut'' : len < pos + 2 + nlen.toNat + 4 + ofLe32 sz
    · exact ⟨0, if_pos cut''⟩
    · exact ⟨0, by rw [if_neg cut'']; rfl⟩
  rw [if_neg file]
  by_cases dir : type = NodeType.dir.byte
  · exact ⟨0, by rw [if_pos dir]; rfl⟩
  · exact ⟨0, if_neg dir⟩

/-- The loop over the nodes below the root. -/
theorem deserTop_extends (inside : len ≤ input.length) (short : len < 2 ^ 33) (fuel : Nat)
    (inv : RamfsInv A s kids depth) (pos : Nat) (enough : 2 * (len - pos) + 2 ≤ fuel) :
    ∃ r t, deserTop A input len fuel s pos = some (r, t) ∧ Extends A s t := by
  induction fuel generalizing s kids depth pos with
  | zero => omega
  | succ fuel ih =>
      rw [deserTop]
      by_cases past : len < pos + 2
      · exact ⟨0, s, if_pos past, .refl inv⟩
      obtain ⟨done, looked⟩ := atEnd_some input pos (by omega)
      rw [if_neg past, looked, Option.bind_some]
      by_cases last : done = true
      · exact ⟨_, s, if_pos last, .refl inv⟩
      obtain ⟨d, at_root, -⟩ := inv.links.top
      obtain ⟨r, t, ran, ext⟩ :=
        (deserNode_extends inside short fuel).1 pos inv at_root (by omega)
      rw [if_neg last, ran, Option.bind_some]
      by_cases stop : r = 0 ∨ r ≤ pos
      · exact ⟨-1, t, if_pos stop, ext⟩
      obtain ⟨_, _, inv'⟩ := ext.inv
      obtain ⟨r', u, ran', ext'⟩ := ih inv' r (by omega)
      rw [if_neg stop]
      exact ⟨r', u, ran', ext.trans ext'⟩

/-- The same loop when there is no root. -/
theorem deserTop_null (inside : len ≤ input.length) (fuel : Nat) (null : s.root = 0) (pos : Nat)
    (enough : 2 * (len - pos) + 2 ≤ fuel) :
    ∃ r, deserTop A input len fuel s pos = some (r, s) := by
  induction fuel generalizing pos with
  | zero => omega
  | succ fuel ih =>
      rw [deserTop]
      by_cases past : len < pos + 2
      · exact ⟨0, if_pos past⟩
      obtain ⟨done, looked⟩ := atEnd_some input pos (by omega)
      rw [if_neg past, looked, Option.bind_some]
      by_cases last : done = true
      · exact ⟨_, if_pos last⟩
      obtain ⟨k, rfl⟩ : ∃ k, fuel = k + 1 := ⟨fuel - 1, by omega⟩
      obtain ⟨r, ran⟩ := deserNode_null (A := A) (s := s) inside k pos
      rw [if_neg last, null, ran, Option.bind_some]
      by_cases stop : r = 0 ∨ r ≤ pos
      · exact ⟨-1, if_pos stop⟩
      rw [if_neg stop]
      exact ih r (by omega)

/-- The length an image gives, cut to the input. -/
theorem total_lt (input : List UInt8) :
    min (ofLe32 ((input.drop 8).take 4)) input.length < 2 ^ 33 := by
  by_cases long : 12 ≤ input.length
  · have := ofLe32_lt (b := (input.drop 8).take 4) (by rw [List.length_take, List.length_drop]; omega)
    omega
  · omega

/-- **What `ramfs_deserialize` does** with any bytes: it ends, and leaves a tree. -/
theorem ramfsDeserialize_spec (inv : RamfsInv A s kids depth) (input : List UInt8) :
    ∃ r t, ramfsDeserialize A s input = some (r, t) ∧ Extends A s t := by
  unfold ramfsDeserialize
  by_cases few : input.length < 16
  · exact ⟨-1, s, if_pos few, .refl inv⟩
  rw [if_neg few]
  by_cases other : input.take 8 ≠ magic
  · exact ⟨-1, s, if_pos other, .refl inv⟩
  rw [if_neg other]
  exact deserTop_extends (Nat.min_le_right ..) (total_lt input) _ inv 12 (by omega)

/-- Without a root, `ramfs_deserialize` does nothing. -/
theorem ramfsDeserialize_null (null : s.root = 0) (input : List UInt8) :
    ∃ r, ramfsDeserialize A s input = some (r, s) := by
  unfold ramfsDeserialize
  by_cases few : input.length < 16
  · exact ⟨-1, if_pos few⟩
  rw [if_neg few]
  by_cases other : input.take 8 ≠ magic
  · exact ⟨-1, if_pos other⟩
  rw [if_neg other]
  exact deserTop_null (Nat.min_le_right ..) _ null 12 (by omega)

end Flyos
