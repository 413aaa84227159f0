import Flyos.Fs.File
import Flyos.Fs.RamfsData

/-!
# Paths and descriptors

The path walks end at a node of the tree or at null (`ramfsLookup_spec`), and
`file_open` and the other calls on descriptors do one of a few things to the table
and to the tree.
-/

namespace Flyos

variable {H : Type*} {A : Allocator H} {kids : Nat → List Nat} {depth : Nat → Nat}

/-! ## Paths -/

section Paths

variable {s : Ramfs H}

/-- The current directory is a node of the tree. -/
def HasCwd (s : Ramfs H) : Prop := ∃ n, s.nodes s.cwd = some n

/-- A path can be walked: it starts at the root, or the current directory is there. -/
def Resolvable (s : Ramfs H) (path : CString) : Prop := path.head? = some 47 ∨ HasCwd s

/-- A path walk gives null or a node. -/
def NodeOrNull (s : Ramfs H) (r : Nat) : Prop := r = 0 ∨ ∃ n, s.nodes r = some n

/-- Every round of `ramfs_lookup` takes bytes off the path. -/
theorem rest_shorter {p : CString} (more : p ≠ []) :
    ((p.drop (takeName p).length).dropWhile (· = 47)).length < p.length := by
  have drop_le := (List.dropWhile_suffix (l := p.drop (takeName p).length) (· = 47)).length_le
  obtain ⟨c, q, rfl⟩ := List.exists_cons_of_ne_nil more
  by_cases slash : c = 47
  · have none : takeName (c :: q) = [] := by simp [takeName, slash]
    have tail := (List.dropWhile_suffix (l := q) (· = 47)).length_le
    rw [none, List.length_nil, List.drop_zero, slash]
    simp only [List.dropWhile_cons, decide_true, if_true, List.length_cons]
    omega
  · have some_byte : 0 < (takeName (c :: q)).length := by
      simp [takeName, slash, ramfsNameMax]
    rw [List.length_drop] at drop_le
    simp only [List.length_cons] at drop_le ⊢
    omega

/-- The loop of `ramfs_lookup` walks from node to node. -/
theorem lookupLoop_spec (inv : RamfsInv A s kids depth) {fuel cur : Nat} {n : Node} {p : CString}
    (at_cur : s.nodes cur = some n) (enough : p.length < fuel) :
    ∃ r, lookupLoop s fuel cur p = some r ∧ NodeOrNull s r := by
  induction fuel generalizing cur n p with
  | zero => omega
  | succ fuel ih =>
      rw [lookupLoop]
      by_cases done : p = []
      · exact ⟨cur, if_pos done, .inr ⟨n, at_cur⟩⟩
      have shorter := rest_shorter done
      rw [if_neg done]
      dsimp only
      by_cases skip : takeName p = []
      · rw [if_pos skip]
        exact ih at_cur (by omega)
      rw [if_neg skip]
      by_cases dot : takeName p = [46]
      · rw [if_pos dot]
        exact ih at_cur (by omega)
      rw [if_neg dot, at_cur, Option.bind_some]
      by_cases up : takeName p = [46, 46]
      · rw [if_pos up]
        by_cases top : cur = s.root
        · obtain ⟨r, at_root, -, orphan⟩ := inv.links.top
          obtain rfl := Option.some.inj ((top ▸ at_cur).symm.trans at_root)
          rw [if_neg (not_not.mpr orphan)]
          exact ih at_cur (by omega)
        · obtain ⟨⟨m, at_parent⟩, -⟩ := inv.links.parent at_cur top
          have parent : n.parent ≠ 0 := fun eq => by
            rw [eq, inv.links.null] at at_parent
            cases at_parent
          rw [if_pos parent]
          exact ih at_parent (by omega)
      rw [if_neg up]
      by_cases file : n.type ≠ .dir
      · exact ⟨0, if_pos file, .inl rfl⟩
      obtain ⟨c, found, result⟩ := ramfsFindChild_spec inv at_cur (takeName p)
      rw [if_neg file, found, Option.bind_some]
      by_cases null : c = 0
      · exact ⟨0, if_pos null, .inl rfl⟩
      · obtain ⟨-, m, at_c, -⟩ := result.resolve_left fun miss => null miss.1
        rw [if_neg null]
        exact ih at_c (by omega)

/-- **`ramfs_lookup` ends** at a node or at null. -/
theorem ramfsLookup_spec (inv : RamfsInv A s kids depth) {path : CString}
    (walk : Resolvable s path) : ∃ r, ramfsLookup s path = some r ∧ NodeOrNull s r := by
  cases path with
  | nil => exact ⟨0, rfl, .inl rfl⟩
  | cons c p =>
      unfold ramfsLookup
      by_cases slash : c = 47
      · obtain ⟨r, at_root, -⟩ := inv.links.top
        simp only [if_pos slash]
        exact lookupLoop_spec inv at_root (by simp only [List.length_cons]; omega)
      · obtain ⟨n, at_cwd⟩ := walk.resolve_left fun head => slash (Option.some.inj head)
        simp only [if_neg slash]
        exact lookupLoop_spec inv at_cwd (by simp)

/-- A path without a `/`. -/
theorem lastSlash_none {path : CString} (h : lastSlash path = none) : 47 ∉ path := by
  induction path with
  | nil => simp
  | cons c p ih =>
      rw [lastSlash] at h
      cases tail : lastSlash p with
      | some i => rw [tail] at h; cases h
      | none =>
          rw [tail] at h
          have other : c ≠ 47 := fun eq => by simp [eq] at h
          exact List.not_mem_cons_of_ne_of_not_mem other.symm (ih tail)

/-- Behind the last `/` there is no other. -/
theorem lastSlash_some {path : CString} {i : Nat} (h : lastSlash path = some i) :
    i < path.length ∧ 47 ∉ path.drop (i + 1) := by
  induction path generalizing i with
  | nil => cases h
  | cons c p ih =>
      rw [lastSlash] at h
      cases tail : lastSlash p with
      | some j =>
          rw [tail, Option.some.injEq] at h
          subst h
          obtain ⟨inside, rest⟩ := ih tail
          exact ⟨by simpa using inside, by simpa using rest⟩
      | none =>
          rw [tail] at h
          by_cases slash : c = 47
          · simp only [slash, if_true, Option.some.injEq] at h
            subst h
            exact ⟨by simp, by simpa using lastSlash_none tail⟩
          · simp [slash] at h

/-- The directory a path is split at is a node or null, and the name has no `/`. -/
theorem splitPath_spec (inv : RamfsInv A s kids depth) {path : CString}
    (walk : Resolvable s path) :
    ∃ parent base, splitPath s path = some (parent, base) ∧ NodeOrNull s parent ∧ 47 ∉ base := by
  unfold splitPath
  obtain ⟨r, at_root, -⟩ := inv.links.top
  cases slash : lastSlash path with
  | none =>
      have plain := lastSlash_none slash
      refine ⟨s.cwd, path, rfl, .inr (walk.resolve_left fun head => ?_), plain⟩
      cases path with
      | nil => cases head
      | cons c p => exact plain (by simp [Option.some.inj head])
  | some i =>
      obtain ⟨inside, plain⟩ := lastSlash_some slash
      by_cases top : min i 127 = 0
      · exact ⟨s.root, path.drop (i + 1), if_pos top, .inr ⟨r, at_root⟩, plain⟩
      · have walk' : Resolvable s (parentPath path i) := walk.imp (fun head => by
          rw [parentPath, List.head?_take, if_neg top, head]) id
        obtain ⟨p, found, node⟩ := ramfsLookup_spec inv walk'
        exact ⟨p, path.drop (i + 1), by simp [top, found], node, plain⟩

/-- A path was split and a node created there. -/
def CreatesAt (A : Allocator H) (type : NodeType) (s : Ramfs H) (path : CString) (c : Nat)
    (t : Ramfs H) : Prop :=
  ∃ parent base, splitPath s path = some (parent, base) ∧
    createNode A type s parent base = some (c, t)

/-- In a null directory nothing is created. -/
theorem createNode_null (type : NodeType) (name : CString) :
    createNode A type s 0 name = some (0, s) := if_pos rfl

/-- `file_open` checks twice that it creates in a directory. -/
theorem openCreate_eq (name : CString) :
    openCreate A s name = (splitPath s name).bind fun r => ramfsCreateFile A s r.1 r.2 := by
  unfold openCreate
  congr 1
  funext r
  by_cases slash : (lastSlash name).isSome = true
  · rw [if_pos slash]
    by_cases null : r.1 = 0
    · rw [if_pos null, null, ramfsCreateFile, createNode_null]
    rw [if_neg null, ramfsCreateFile, createNode, if_neg null]
    cases s.nodes r.1 with
    | none => rfl
    | some d =>
        rw [Option.bind_some, Option.bind_some]
        by_cases file : d.type ≠ .dir
        · rw [if_pos file, if_pos file]
        · rw [if_neg file]
  · rw [if_neg slash]

/-- Creating where a path says is defined, and keeps the tree. -/
theorem createAt_spec (inv : RamfsInv A s kids depth) (type : NodeType) {path : CString}
    (walk : Resolvable s path) :
    ∃ parent base c t, splitPath s path = some (parent, base) ∧
      createNode A type s parent base = some (c, t) ∧ (∃ kids depth, RamfsInv A t kids depth) ∧
      (∀ {p n}, s.nodes p = some n → ∃ n', t.nodes p = some n' ∧
        n' = { n with children := n'.children }) ∧
      (∀ q, fileBytes t q = fileBytes s q) ∧ (c ≠ 0 → ∃ n, t.nodes c = some n ∧ n.type = type) ∧
      t.root = s.root ∧ t.cwd = s.cwd := by
  obtain ⟨parent, base, split, null | ⟨d, at_p⟩, -⟩ := splitPath_spec inv walk
  · exact ⟨parent, base, 0, s, split, (by rw [null]; exact createNode_null type base), ⟨_, _, inv⟩,
      fun h => ⟨_, h, rfl⟩, fun _ => rfl, fun ne => absurd rfl ne, rfl, rfl⟩
  obtain ⟨c, t, ran, ⟨null, files, inv', -⟩ |
    ⟨-, -, -, unused, -, nodes, bufs, root, cwd, -, inv'⟩⟩ := createNode_spec inv at_p type base
  · refine ⟨parent, base, c, t, split, ran, ⟨_, _, inv'⟩, fun h => ⟨_, by rw [files.nodes, h], rfl⟩,
      fun q => ?_, fun ne => absurd null ne, files.root, files.cwd⟩
    rw [fileBytes, fileBytes, files.nodes, files.bufs]
  have pc : c ≠ parent := fun eq => by rw [eq, at_p] at unused; cases unused
  have at_c : t.nodes c = some (newNode type base parent d.children) := by
    rw [nodes, withChild, Function.update_of_ne pc, Function.update_self]
  have kept : ∀ {p n}, s.nodes p = some n → ∃ n', t.nodes p = some n' ∧
      n' = { n with children := n'.children } := by
    intro p n h
    by_cases hp : p = parent
    · subst hp
      obtain rfl := Option.some.inj (h.symm.trans at_p)
      exact ⟨_, by rw [nodes, withChild, Function.update_self], rfl⟩
    · have qc : p ≠ c := fun eq => by rw [eq, unused] at h; cases h
      refine ⟨n, ?_, rfl⟩
      rw [nodes, withChild, Function.update_of_ne hp, Function.update_of_ne qc, h]
  refine ⟨parent, base, c, t, split, ran, ⟨_, _, inv'⟩, kept, fun q => ?_,
    fun _ => ⟨_, at_c, rfl⟩, root, cwd⟩
  cases at_q : s.nodes q with
  | some n =>
      obtain ⟨n', at_q', same⟩ := kept at_q
      rw [fileBytes, fileBytes, at_q, at_q', bufs, same]
      rfl
  | none =>
      have blank : fileBytes s q = [] := by rw [fileBytes, at_q]; rfl
      rw [blank]
      by_cases hc : q = c
      · rw [hc, fileBytes, at_c]
        simp [newNode]
      · have hp : q ≠ parent := fun eq => by rw [eq, at_p] at at_q; cases at_q
        rw [fileBytes, nodes, withChild, Function.update_of_ne hp, Function.update_of_ne hc, at_q]
        rfl

end Paths

/-! ## The descriptor calls -/

variable {s : FileSys H}

/-- The guard of the descriptor calls. -/
theorem FileSys.fd?_eq_some {fd : Int} {i : Nat} :
    s.fd? fd = some i ↔ fd = i ∧ 3 ≤ i ∧ i < maxFd ∧ (s.fdTable i).used = true := by
  unfold FileSys.fd?
  by_cases guard : fd < 3 ∨ (maxFd : Int) ≤ fd ∨ (s.fdTable fd.toNat).used = false
  · rw [if_pos guard]
    refine ⟨fun h => (by cases h), ?_⟩
    rintro ⟨rfl, low, high, used⟩
    rcases guard with h | h | h
    · omega
    · omega
    · rw [Int.toNat_natCast, used] at h
      cases h
  · rw [if_neg guard, Option.some.injEq]
    simp only [not_or, Bool.not_eq_false] at guard
    constructor
    · rintro rfl
      exact ⟨by omega, by omega, by omega, guard.2.2⟩
    · rintro ⟨rfl, -⟩
      exact Int.toNat_natCast i

/-- A descriptor that is not in use, if there is one. -/
theorem FileSys.freeFd_some {i : Nat} (h : s.freeFd = some i) :
    3 ≤ i ∧ i < maxFd ∧ (s.fdTable i).used = false := by
  have mem := List.mem_of_find?_eq_some h
  have unused := List.find?_some h
  rw [List.mem_range'_1] at mem
  refine ⟨mem.1, by omega, ?_⟩
  simpa using unused

/-- What `file_open` leaves in the tree: what was there, or one more file. -/
def OpenLeaves (A : Allocator H) (s : Ramfs H) (name : CString) (t : Ramfs H) : Prop :=
  t = s ∨ ramfsLookup s name = some 0 ∧ ∃ c, CreatesAt A .file s name c t

/-- **What `file_open` does**: it fails, or takes a descriptor for a file. -/
theorem fileOpen_spec (inv : RamfsInv A s.fs kids depth) {name : CString}
    (walk : Resolvable s.fs name) :
    ∃ r t, fileOpen A s name = some (r, t) ∧ OpenLeaves A s.fs name t.fs ∧
      (∃ kids depth, RamfsInv A t.fs kids depth) ∧
      (∀ {p n}, s.fs.nodes p = some n → ∃ n', t.fs.nodes p = some n' ∧
        n' = { n with children := n'.children }) ∧
      (∀ q, fileBytes t.fs q = fileBytes s.fs q) ∧ t.fs.root = s.fs.root ∧ t.fs.cwd = s.fs.cwd ∧
      ((r = -1 ∧ t.fdTable = s.fdTable) ∨
        ∃ (i n : Nat) (node : Node), r = i ∧ 3 ≤ i ∧ i < maxFd ∧ (s.fdTable i).used = false ∧
          t.fdTable = Function.update s.fdTable i ⟨true, n, 0, false⟩ ∧
          t.fs.nodes n = some node ∧ node.type = .file) := by
  obtain ⟨found, looked, node⟩ := ramfsLookup_spec inv walk
  -- the node to open, found or created, and the tree then
  obtain ⟨c, fs, got, leaves, inv', kept, bytes, root, cwd, nodeOrNull⟩ : ∃ c fs,
      (if found ≠ 0 then some (found, s.fs) else openCreate A s.fs name) = some (c, fs) ∧
      OpenLeaves A s.fs name fs ∧ (∃ kids depth, RamfsInv A fs kids depth) ∧
      (∀ {p n}, s.fs.nodes p = some n → ∃ n', fs.nodes p = some n' ∧
        n' = { n with children := n'.children }) ∧
      (∀ q, fileBytes fs q = fileBytes s.fs q) ∧ fs.root = s.fs.root ∧ fs.cwd = s.fs.cwd ∧
      NodeOrNull fs c := by
    by_cases null : found = 0
    · obtain ⟨parent, base, c, t, split, ran, inv', kept, bytes, at_c, root, cwd⟩ :=
        createAt_spec inv .file walk
      refine ⟨c, t, ?_, .inr ⟨null ▸ looked, c, parent, base, split, ran⟩, inv', kept, bytes, root,
        cwd, ?_⟩
      · rw [if_neg (not_not.mpr null), openCreate_eq, split, Option.bind_some, ramfsCreateFile, ran]
      · by_cases zero : c = 0
        · exact .inl zero
        · obtain ⟨n, h, -⟩ := at_c zero
          exact .inr ⟨n, h⟩
    · exact ⟨found, s.fs, if_pos null, .inl rfl, ⟨_, _, inv⟩, fun h => ⟨_, h, rfl⟩, fun _ => rfl,
        rfl, rfl, node⟩
  unfold fileOpen
  rw [looked, Option.bind_some, got, Option.bind_some]
  dsimp only
  by_cases zero : c = 0
  · exact ⟨-1, _, if_pos zero, leaves, inv', kept, bytes, root, cwd, .inl ⟨rfl, rfl⟩⟩
  obtain ⟨n, at_c⟩ := nodeOrNull.resolve_left zero
  rw [if_neg zero, at_c, Option.map_some]
  by_cases dir : n.type ≠ .file
  · exact ⟨-1, { s with fs }, by rw [if_pos dir], leaves, inv', kept, bytes, root, cwd, .inl ⟨rfl, rfl⟩⟩
  rw [if_neg dir]
  cases free : ({ s with fs } : FileSys H).freeFd with
  | none => exact ⟨-1, _, rfl, leaves, inv', kept, bytes, root, cwd, .inl ⟨rfl, rfl⟩⟩
  | some i =>
      obtain ⟨low, high, unused⟩ := FileSys.freeFd_some free
      exact ⟨i, _, rfl, leaves, inv', kept, bytes, root, cwd,
        .inr ⟨i, c, n, rfl, low, high, unused, rfl, at_c, not_not.mp dir⟩⟩

/-- **What a `dir_open` that returns has done**: nothing, or it has taken the first descriptor
that is not in use for the directory that the path names. -/
theorem dirOpen_cases {s t : FileSys H} {path : CString} {r : Int}
    (ran : dirOpen s path = some (r, t)) : (r = -1 ∧ t = s) ∨ ∃ (i n : Nat) (d : Node), r = i ∧
      s.freeFd = some i ∧ s.fs.nodes n = some d ∧ d.type = .dir ∧
      t = s.setFd i ⟨true, n, 0, true⟩ := by
  rw [dirOpen] at ran
  obtain ⟨c, -, body⟩ := Option.bind_eq_some_iff.mp ran
  by_cases null : c = 0
  · rw [if_pos null] at body
    cases body
    exact .inl ⟨rfl, rfl⟩
  rw [if_neg null] at body
  obtain ⟨d, at_c, taken⟩ := Option.map_eq_some_iff.mp body
  by_cases file : d.type ≠ .dir
  · rw [if_pos file] at taken
    cases taken
    exact .inl ⟨rfl, rfl⟩
  rw [if_neg file] at taken
  cases free : s.freeFd with
  | none =>
      rw [free] at taken
      cases taken
      exact .inl ⟨rfl, rfl⟩
  | some i =>
      rw [free] at taken
      cases taken
      exact .inr ⟨i, c, d, rfl, rfl, at_c, not_not.mp file, rfl⟩

end Flyos
