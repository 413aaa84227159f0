import Flyos.Fs.RamfsRun
import Flyos.Fs.FileSpec

/-!
# Opens that fail

`file_open` creates the file first and looks for a descriptor then.
`opensUnchanged_iff` says when the failures of `file_open`, `dir_open` and
`file_open_node` change nothing: always, except that a file is left behind when one is
created and all descriptors are in use.
-/

namespace Flyos

variable {H : Type*} {A : Allocator H} {kids : Nat → List Nat} {depth : Nat → Nat}

/-- A call that answers `bad` leaves the tree, the contents of files and the descriptors as
they were. -/
def FailsUnchanged {R : Type*} (bad : R) (s : FileSys H) (call : Option (R × FileSys H)) : Prop :=
  ∀ t, call = some (bad, t) → SameFiles s.fs t.fs ∧ t.fdTable = s.fdTable

/-- **No failed open changes anything.** -/
def OpensUnchanged (A : Allocator H) (s : FileSys H) (path : CString) : Prop :=
  FailsUnchanged (-1) s (fileOpen A s path) ∧ FailsUnchanged (-1) s (dirOpen s path) ∧
    FailsUnchanged 0 s (fileOpenNode A s path)

/-- In directory `p` a node can be created under the name: no child has it, and `kmalloc`
has room for a node. -/
def CanCreate (A : Allocator H) (s : Ramfs H) (p : Nat) (name : CString) : Prop :=
  ∃ d, s.nodes p = some d ∧ d.type = .dir ∧ ramfsFindChild s p name = some 0 ∧
    (A.malloc s.heap nodeSize).1 ≠ 0

/-- The path names no node, and `file_open` creates one. -/
def CreatesFile (A : Allocator H) (s : Ramfs H) (path : CString) : Prop :=
  ramfsLookup s path = some 0 ∧
    ∃ p base, splitPath s path = some (p, base) ∧ CanCreate A s p base

/-- **A node is created exactly where it can be**; elsewhere nothing happens. -/
theorem createNode_cases {s t : Ramfs H} (inv : RamfsInv A s kids depth) {type : NodeType}
    {p c : Nat} {name : CString} (ran : createNode A type s p name = some (c, t)) :
    (CanCreate A s p name ↔ c ≠ 0) ∧ (c = 0 → SameFiles s t) ∧
      (c ≠ 0 → s.nodes c = none ∧ ∃ n, t.nodes c = some n ∧ n.type = type) := by
  by_cases null : p = 0
  · rw [null, createNode_null] at ran
    cases ran
    refine ⟨⟨?_, fun ne => absurd rfl ne⟩, fun _ => ⟨rfl, rfl, rfl, rfl⟩,
      fun ne => absurd rfl ne⟩
    rintro ⟨d, at_p, -⟩
    rw [null, inv.links.null] at at_p
    cases at_p
  have unfolded := ran
  rw [createNode, if_neg null] at unfolded
  obtain ⟨d, at_p, body⟩ := Option.bind_eq_some_iff.mp unfolded
  obtain ⟨c', t', ran', result⟩ := createNode_spec inv at_p type name
  obtain ⟨rfl, rfl⟩ := Prod.mk.inj (Option.some.inj (ran.symm.trans ran'))
  have made : (A.malloc s.heap nodeSize).1 = 0 → (nodeAlloc A s type name p).1 = 0 := fun none => by
    rw [nodeAlloc]
    exact if_pos none ▸ rfl
  rcases result with ⟨zero, files, -⟩ | ⟨nonnull, dir, -, unused, -, nodes, -⟩
  · refine ⟨⟨?_, fun ne => absurd zero ne⟩, fun _ => files, fun ne => absurd zero ne⟩
    rintro ⟨d', at_p', dir, absent, room⟩
    -- with room, the result is the new node
    obtain rfl := Option.some.inj (at_p.symm.trans at_p')
    have new : (nodeAlloc A s type name p).1 = (A.malloc s.heap nodeSize).1 := by
      rw [nodeAlloc]
      exact if_neg room ▸ rfl
    rw [if_neg (not_not.mpr dir), absent, Option.bind_some, if_neg (not_not.mpr rfl),
      if_neg (new ▸ room)] at body
    obtain ⟨_, _, body⟩ := Option.bind_eq_some_iff.mp body
    obtain ⟨_, _, body⟩ := Option.bind_eq_some_iff.mp body
    rw [← (Prod.mk.inj (Option.some.inj body)).1, new] at zero
    exact absurd zero room
  · rw [if_neg (not_not.mpr dir)] at body
    obtain ⟨found, searched, body⟩ := Option.bind_eq_some_iff.mp body
    have absent : found = 0 := by
      by_contra there
      rw [if_pos there] at body
      exact nonnull (Prod.mk.inj (Option.some.inj body)).1.symm
    have room : (A.malloc s.heap nodeSize).1 ≠ 0 := fun none => by
      rw [if_neg (not_not.mpr absent), if_pos (made none)] at body
      exact nonnull (Prod.mk.inj (Option.some.inj body)).1.symm
    have other : c ≠ p := fun eq => by rw [eq, at_p] at unused; cases unused
    refine ⟨⟨fun _ => nonnull, fun _ => ⟨d, at_p, dir, absent ▸ searched, room⟩⟩,
      fun zero => absurd zero nonnull, fun _ => ⟨unused, newNode type name p d.children, ?_, rfl⟩⟩
    rw [nodes, withChild, Function.update_of_ne other, Function.update_self]

/-- `file_open` finds the node `c`, or tries to create it, and leaves the tree `t`. -/
def FindsOrCreates (A : Allocator H) (s : Ramfs H) (path : CString) (c : Nat)
    (t : Ramfs H) : Prop :=
  (ramfsLookup s path = some c ∧ c ≠ 0 ∧ t = s) ∨
    (ramfsLookup s path = some 0 ∧ CreatesAt A .file s path c t)

section Open

variable {s t : FileSys H} {path : CString}

/-- **What a `file_open` that returns has done**: it has no node, or the node is no file, or
there is no descriptor for it, or it has taken the first one. -/
theorem fileOpen_cases {r : Int} (ran : fileOpen A s path = some (r, t)) :
    ∃ c fs, FindsOrCreates A s.fs path c fs ∧
      ((c = 0 ∧ r = -1 ∧ t = { s with fs }) ∨
        c ≠ 0 ∧ ∃ n, fs.nodes c = some n ∧
          (((n.type ≠ .file ∨ s.freeFd = none) ∧ r = -1 ∧ t = { s with fs }) ∨
            n.type = .file ∧ ∃ i : Nat, s.freeFd = some i ∧ r = i ∧
              t = ({ s with fs } : FileSys H).setFd i ⟨true, c, 0, false⟩)) := by
  rw [fileOpen] at ran
  obtain ⟨found, looked, ran⟩ := Option.bind_eq_some_iff.mp ran
  obtain ⟨⟨c, fs⟩, got, ran⟩ := Option.bind_eq_some_iff.mp ran
  refine ⟨c, fs, ?_, ?_⟩
  · by_cases there : found ≠ 0
    · rw [if_pos there] at got
      cases got
      exact .inl ⟨looked, there, rfl⟩
    · rw [if_neg there, openCreate_eq] at got
      obtain ⟨⟨p, base⟩, split, created⟩ := Option.bind_eq_some_iff.mp got
      exact .inr ⟨not_not.mp there ▸ looked, p, base, split, created⟩
  dsimp only at ran
  by_cases null : c = 0
  · rw [if_pos null] at ran
    cases ran
    exact .inl ⟨null, rfl, rfl⟩
  rw [if_neg null] at ran
  obtain ⟨n, at_c, taken⟩ := Option.map_eq_some_iff.mp ran
  refine .inr ⟨null, n, at_c, ?_⟩
  by_cases other : n.type ≠ .file
  · rw [if_pos other] at taken
    cases taken
    exact .inl ⟨.inl other, rfl, rfl⟩
  rw [if_neg other] at taken
  cases free : s.freeFd with
  | none =>
      rw [show ({ s with fs } : FileSys H).freeFd = none from free] at taken
      cases taken
      exact .inl ⟨.inr rfl, rfl, rfl⟩
  | some i =>
      rw [show ({ s with fs } : FileSys H).freeFd = some i from free] at taken
      cases taken
      exact .inr ⟨not_not.mp other, i, rfl, rfl, rfl⟩

/-- **A failed `file_open`** has changed nothing, or has created a file and found no
descriptor for it. -/
theorem fileOpen_fails (inv : RamfsInv A s.fs kids depth) (ran : fileOpen A s path = some (-1, t)) :
    (SameFiles s.fs t.fs ∧ t.fdTable = s.fdTable) ∨ CreatesFile A s.fs path ∧ s.freeFd = none := by
  obtain ⟨c, fs, got, result⟩ := fileOpen_cases ran
  rcases got with ⟨-, nonnull, rfl⟩ | ⟨looked, p, base, split, created⟩
  · obtain ⟨null, -⟩ | ⟨-, n, -, ⟨-, -, rfl⟩ | ⟨-, i, -, answer, -⟩⟩ := result
    · exact absurd null nonnull
    · exact .inl ⟨⟨rfl, rfl, rfl, rfl⟩, rfl⟩
    · omega
  · obtain ⟨possible, nothing, new⟩ := createNode_cases inv created
    obtain ⟨null, -, rfl⟩ | ⟨nonnull, n, at_c, ⟨refused, -⟩ | ⟨-, i, -, answer, -⟩⟩ := result
    · exact .inl ⟨nothing null, rfl⟩
    · obtain ⟨-, n', at_c', file⟩ := new nonnull
      obtain rfl := Option.some.inj (at_c.symm.trans at_c')
      exact .inr ⟨⟨looked, p, base, split, possible.mpr nonnull⟩,
        refused.resolve_left (not_not.mpr file)⟩
    · omega

/-- **Without a descriptor the file stays behind.** -/
theorem fileOpen_leaves (inv : RamfsInv A s.fs kids depth) (creates : CreatesFile A s.fs path)
    (full : s.freeFd = none) :
    ∃ t, fileOpen A s path = some (-1, t) ∧ ¬ SameFiles s.fs t.fs := by
  obtain ⟨looked, p, base, split, can⟩ := creates
  have ⟨d, at_p, _⟩ := can
  obtain ⟨c, fs, created, -⟩ := createNode_spec inv at_p .file base
  obtain ⟨possible, -, new⟩ := createNode_cases inv created
  have nonnull := possible.mp can
  obtain ⟨unused, n, at_c, file⟩ := new nonnull
  refine ⟨{ s with fs }, ?_, fun same => ?_⟩
  · rw [fileOpen, looked, Option.bind_some, if_neg (not_not.mpr rfl), openCreate_eq, split,
      Option.bind_some, ramfsCreateFile, created, Option.bind_some]
    dsimp only
    rw [if_neg nonnull, at_c, Option.map_some, if_neg (not_not.mpr file),
      show ({ s with fs } : FileSys H).freeFd = none from full]
  · rw [same.nodes, unused] at at_c
    cases at_c

/-- `file_open_node` fails when `file_open` does. -/
theorem fileOpenNode_fails (ran : fileOpenNode A s path = some (0, t)) :
    fileOpen A s path = some (-1, t) := by
  rw [fileOpenNode] at ran
  obtain ⟨⟨fd, u⟩, opened, answer⟩ := Option.map_eq_some_iff.mp ran
  obtain ⟨c, fs, -, ⟨-, rfl, -⟩ | ⟨nonnull, n, -, ⟨-, rfl, -⟩ | ⟨-, i, -, rfl, rfl⟩⟩⟩ :=
    fileOpen_cases opened
  · cases answer
    exact opened
  · cases answer
    exact opened
  · -- a descriptor was taken, and its node is not null
    dsimp only at answer
    rw [if_neg (by omega), FileSys.setFd_fdTable, Int.toNat_natCast, Function.update_self] at answer
    exact absurd (Prod.mk.inj answer).1 nonnull

/-- A failed `dir_open` changes nothing. -/
theorem dirOpen_fails : FailsUnchanged (-1) s (dirOpen s path) := by
  intro t ran
  rcases dirOpen_cases ran with ⟨-, rfl⟩ | ⟨i, n, d, answer, -⟩
  · exact ⟨⟨rfl, rfl, rfl, rfl⟩, rfl⟩
  · omega

/-- **No failed open changes anything, exactly when** a descriptor is free or no file is created:
for every tree, every descriptor table and every path.  `file_open` creates the file before it
looks for a descriptor and does not take it back, and `file_open_node` goes through it;
`dir_open` creates nothing. -/
theorem opensUnchanged_iff (inv : RamfsInv A s.fs kids depth) :
    OpensUnchanged A s path ↔ ¬ (CreatesFile A s.fs path ∧ s.freeFd = none) := by
  constructor
  · rintro ⟨opens, -⟩ ⟨creates, full⟩
    obtain ⟨t, ran, changed⟩ := fileOpen_leaves inv creates full
    exact changed (opens t ran).1
  · intro roomy
    exact ⟨fun t ran => (fileOpen_fails inv ran).resolve_right roomy, dirOpen_fails,
      fun t ran => (fileOpen_fails inv (fileOpenNode_fails ran)).resolve_right roomy⟩

end Open

/-- With free descriptors no failure changes anything. -/
theorem opensUnchanged_free : OpensUnchanged countingAllocator (fileInit freshRoot) [97] := by
  obtain ⟨depth, inv⟩ := freshRoot_inv
  refine (opensUnchanged_iff inv).mpr fun ⟨_, full⟩ => ?_
  revert full
  decide

/-- An empty tree, and every descriptor open on its root. -/
def fullTable : FileSys CountingHeap :=
  ⟨freshRoot, fun i => if 3 ≤ i ∧ i < maxFd then ⟨true, 1, 0, true⟩ else .closed⟩

/-- **The 62nd open** fails, and the new file is there. -/
theorem opensUnchanged_full : ¬ OpensUnchanged countingAllocator fullTable [97] := by
  obtain ⟨depth, inv⟩ := freshRoot_inv
  rintro ⟨opens, -⟩
  have creates : CreatesFile countingAllocator fullTable.fs [97] :=
    ⟨rfl, 1, [97], rfl, newNode .dir [47] 0 0, rfl, rfl, rfl, by decide⟩
  obtain ⟨t, ran, changed⟩ := fileOpen_leaves inv creates (by decide)
  exact changed (opens t ran).1

end Flyos
