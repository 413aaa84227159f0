import Flyos.Fs.RamfsRun
import Flyos.Fs.Syscall

/-!
# Names

What a path can name: a node whose name is not empty, not `.` or `..`, has no `/` in
it, and is the name of no sibling.  The calls that create nodes do not check all of
this, and store at most 63 bytes of a name they compared in full.  `NamesOk` is kept
in every run whose creating calls store a name that is fit (`nameRun_invariant`);
`SYS_MKDIR` of the empty path stores one that is not (`sysMkdir_empty`).
-/

namespace Flyos

variable {H : Type*} {A : Allocator H} {s t : Ramfs H} {kids : Nat → List Nat}
  {depth : Nat → Nat}

/-- A name that a path can contain, and that does not stand for something else. -/
structure ProperName (name : CString) : Prop where
  some_byte : name ≠ []
  notDot : name ≠ [46]
  notDotDot : name ≠ [46, 46]
  noSlash : 47 ∉ name

/-- Nodes other than the root have proper names that tell them from their siblings. -/
def NamesOk (s : Ramfs H) : Prop :=
  ∀ {c m}, s.nodes c = some m → c ≠ s.root → ProperName m.name ∧
    ∀ {c' m'}, s.nodes c' = some m' → c' ≠ s.root → c' ≠ c → m'.parent = m.parent →
      m'.name ≠ m.name

/-- The calls on paths. -/
inductive NameCall where
  | open (path : CString)
  | mkdir (path : CString)
  | unlink (path : CString)
  | chdir (path : CString)

/-- The path of a call. -/
def NameCall.path : NameCall → CString
  | .open path => path
  | .mkdir path => path
  | .unlink path => path
  | .chdir path => path

/-- One call. -/
def nameExec (A : Allocator H) (s : FileSys H) : NameCall → Option (Int × FileSys H)
  | .open path => fileOpen A s path
  | .mkdir path => (sysMkdir A s.fs path).map fun r => (r.1, { s with fs := r.2 })
  | .unlink path => (sysUnlink A s.fs path).map fun r => (r.1, { s with fs := r.2 })
  | .chdir path => (sysChdir s.fs path).map fun r => (r.1, { s with fs := r.2 })

/-- A step is a call that is defined. -/
def NameStep (A : Allocator H) (s : FileSys H) (c : NameCall) (t : FileSys H) : Prop :=
  ∃ r, nameExec A s c = some (r, t)

/-- Where a creation is reached, the 63 bytes it stores are fit: not empty, not `.` or
`..`, and the name of no child. -/
def StoresFit (s : Ramfs H) (path : CString) : Prop :=
  ∀ {p base d}, splitPath s path = some (p, base) → s.nodes p = some d → d.type = .dir →
    ramfsFindChild s p base = some 0 →
      strCopy base ramfsNameMax ≠ [] ∧ strCopy base ramfsNameMax ≠ [46] ∧
        strCopy base ramfsNameMax ≠ [46, 46] ∧
        ramfsFindChild s p (strCopy base ramfsNameMax) = some 0

/-- A name of at most 63 bytes is stored in full. -/
theorem StoresFit.of_short {path base : CString} {p : Nat}
    (split : splitPath s path = some (p, base)) (short : base.length < ramfsNameMax)
    (fit : base ≠ [] ∧ base ≠ [46] ∧ base ≠ [46, 46]) : StoresFit s path := by
  intro p' base' d split' _ _ absent
  obtain ⟨rfl, rfl⟩ := Prod.mk.inj (Option.some.inj (split.symm.trans split'))
  have whole : strCopy base ramfsNameMax = base := List.take_of_length_le (by omega)
  rw [whole]
  exact ⟨fit.1, fit.2.1, fit.2.2, absent⟩

/-- The path does not start in a directory that is gone, and the call creates nothing
with an unfit name. -/
def NameCall.Fit (s : FileSys H) (c : NameCall) : Prop :=
  Resolvable s.fs c.path ∧
    match c with
    | .open path => ramfsLookup s.fs path = some 0 → StoresFit s.fs path
    | .mkdir path => StoresFit s.fs path
    | _ => True

/-! ## One call -/

/-- **A creation** with a fit name keeps the names. -/
theorem createNode_names (inv : RamfsInv A s kids depth) (names : NamesOk s) {type : NodeType}
    {path : CString} {c : Nat} (walk : Resolvable s path) (fit : StoresFit s path)
    (creates : CreatesAt A type s path c t) :
    (∃ kids depth, RamfsInv A t kids depth) ∧ NamesOk t := by
  obtain ⟨p, base, split, ran⟩ := creates
  obtain ⟨p', base', split', node, plain⟩ := splitPath_spec inv walk
  obtain ⟨rfl, rfl⟩ := Prod.mk.inj (Option.some.inj (split.symm.trans split'))
  rcases node with null | ⟨d, at_p⟩
  · rw [null, createNode_null, Option.some.injEq, Prod.mk.injEq] at ran
    exact ran.2 ▸ ⟨⟨_, _, inv⟩, names⟩
  obtain ⟨c', t', ran', result⟩ := createNode_spec inv at_p type base
  obtain ⟨rfl, rfl⟩ := Prod.mk.inj (Option.some.inj (ran.symm.trans ran'))
  rcases result with ⟨-, files, inv', -⟩ |
    ⟨-, dir, differ, unused, -, nodes, -, root, -, -, inv'⟩
  · refine ⟨⟨_, _, inv'⟩, ?_⟩
    unfold NamesOk
    rw [files.nodes, files.root]
    exact names
  -- no child has the name, and none has what is stored of it
  have absent : ramfsFindChild s p base = some 0 := by
    obtain ⟨r, found, ⟨rfl, -⟩ | ⟨mem, n, at_r, eq⟩⟩ := ramfsFindChild_spec inv at_p base
    · exact found
    · exact absurd eq (differ r mem n at_r)
  obtain ⟨some_byte, notDot, notDotDot, unique⟩ := fit split at_p dir absent
  have fresh : ∀ {x n}, s.nodes x = some n → x ≠ s.root → n.parent = p →
      n.name ≠ strCopy base ramfsNameMax := by
    intro x n at_x other parent
    obtain ⟨-, mem⟩ := inv.links.parent at_x other
    obtain ⟨r, found, ⟨-, none⟩ | ⟨mem', n', at_r, -⟩⟩ :=
      ramfsFindChild_spec inv at_p (strCopy base ramfsNameMax)
    · exact none x (parent ▸ mem) n at_x
    · rw [unique, Option.some.injEq] at found
      rw [← found, inv.links.null] at at_r
      cases at_r
  have stored : ProperName (newNode type base p d.children).name :=
    ⟨some_byte, notDot, notDotDot, fun slash => plain (List.mem_of_mem_take slash)⟩
  have old : ∀ {x n}, t.nodes x = some n →
      (x = c ∧ n = newNode type base p d.children) ∨
        ∃ n', s.nodes x = some n' ∧ n.name = n'.name ∧ n.parent = n'.parent := by
    intro x n h
    rw [nodes] at h
    rcases withChild_some at_p h with here | ⟨n', at_x, same⟩
    · exact .inl here
    · exact .inr ⟨n', at_x, by rw [same], by rw [same]⟩
  refine ⟨⟨_, _, inv'⟩, fun {x n} h other => ?_⟩
  rw [root] at other
  rcases old h with ⟨rfl, rfl⟩ | ⟨n', at_x, name, parent⟩
  · refine ⟨stored, fun {x' m'} h' other' differ siblings => ?_⟩
    rcases old h' with ⟨rfl, -⟩ | ⟨m'', at_x', name', parent'⟩
    · exact absurd rfl differ
    · rw [name']
      exact fresh at_x' (root ▸ other') (parent'.symm.trans siblings)
  · rw [name]
    refine ⟨(names at_x other).1, fun {x' m'} h' other' differ siblings => ?_⟩
    rcases old h' with ⟨rfl, rfl⟩ | ⟨m'', at_x', name', parent'⟩
    · exact (fresh at_x other (parent.symm.trans siblings.symm)).symm
    · rw [name']
      exact (names at_x other).2 at_x' (root ▸ other') differ
        (parent'.symm.trans (siblings.trans parent))

/-- Taking a node away keeps the names of the others. -/
theorem Unlinked.names {c : Nat} {m : Node} (rest : Unlinked s c m t) (names : NamesOk s) :
    NamesOk t := by
  intro x n h other
  obtain ⟨-, n', at_x, same⟩ := rest.old h
  rw [rest.root] at other
  refine ⟨by rw [same]; exact (names at_x other).1, fun {x' m'} h' other' differ siblings => ?_⟩
  obtain ⟨-, m'', at_x', same'⟩ := rest.old h'
  have parents : m''.parent = n'.parent := by rw [same, same'] at siblings; exact siblings
  have unlike := (names at_x other).2 at_x' (rest.root ▸ other') differ parents
  rw [same, same']
  exact unlike

/-- **One call** on a tree: it is defined, and keeps the names if it is fit. -/
theorem nameExec_spec {s : FileSys H} (inv : RamfsInv A s.fs kids depth) (c : NameCall)
    (walk : Resolvable s.fs c.path) :
    ∃ r t, nameExec A s c = some (r, t) ∧
      (NamesOk s.fs → c.Fit s → (∃ kids depth, RamfsInv A t.fs kids depth) ∧ NamesOk t.fs) := by
  cases c with
  | «open» path =>
      replace walk : Resolvable s.fs path := walk
      obtain ⟨r, t, ran, leaves, -⟩ := fileOpen_spec inv walk
      refine ⟨r, t, ran, fun names fit => ?_⟩
      rcases leaves with same | ⟨missing, c, creates⟩
      · exact same ▸ ⟨⟨_, _, inv⟩, names⟩
      · exact createNode_names inv names walk (fit.2 missing) creates
  | mkdir path =>
      replace walk : Resolvable s.fs path := walk
      obtain ⟨r, t, c, ran, creates⟩ := sysMkdir_spec inv walk
      exact ⟨r, { s with fs := t }, by rw [nameExec, ran]; rfl,
        fun names fit => createNode_names inv names walk fit.2 creates⟩
  | unlink path =>
      replace walk : Resolvable s.fs path := walk
      obtain ⟨r, t, ran, rfl | ⟨c, m, _, _, -, -, -, -, rest, inv'⟩⟩ := sysUnlink_spec inv walk
      · exact ⟨r, s, by rw [nameExec, ran]; rfl, fun names _ => ⟨⟨_, _, inv⟩, names⟩⟩
      · exact ⟨r, { s with fs := t }, by rw [nameExec, ran]; rfl,
          fun names _ => ⟨⟨_, _, inv'⟩, rest.names names⟩⟩
  | chdir path =>
      replace walk : Resolvable s.fs path := walk
      obtain ⟨r, t, ran, rfl | ⟨n, d, -, -, rfl⟩⟩ := sysChdir_spec inv walk
      · exact ⟨r, s, by rw [nameExec, ran]; rfl, fun names _ => ⟨⟨_, _, inv⟩, names⟩⟩
      · exact ⟨r, { s with fs := { s.fs with cwd := n } }, by rw [nameExec, ran]; rfl,
          fun names _ => ⟨⟨_, _, inv.setCwd n⟩, names⟩⟩

/-! ## Without a root -/

/-- From a null node a path leads nowhere. -/
theorem lookupLoop_null (none : Rootless s) {fuel r : Nat} {p : CString}
    (ran : lookupLoop s fuel 0 p = some r) : r = 0 := by
  induction fuel generalizing p with
  | zero => cases ran
  | succ fuel ih =>
      rw [lookupLoop] at ran
      by_cases done : p = []
      · rw [if_pos done, Option.some.injEq] at ran
        exact ran.symm
      rw [if_neg done] at ran
      dsimp only at ran
      by_cases skip : takeName p = []
      · rw [if_pos skip] at ran
        exact ih ran
      rw [if_neg skip] at ran
      by_cases dot : takeName p = [46]
      · rw [if_pos dot] at ran
        exact ih ran
      · rw [if_neg dot, none.nodes] at ran
        cases ran

/-- Without a root and a current directory every path leads to null. -/
theorem ramfsLookup_null (none : Rootless s) (cwd : s.cwd = 0) {path : CString} {r : Nat}
    (ran : ramfsLookup s path = some r) : r = 0 := by
  cases path with
  | nil => exact (Option.some.inj ran).symm
  | cons c p =>
      unfold ramfsLookup at ran
      by_cases slash : c = 47
      · simp only [if_pos slash, none.root] at ran
        exact lookupLoop_null none ran
      · simp only [if_neg slash, cwd] at ran
        exact lookupLoop_null none ran

theorem splitPath_null (none : Rootless s) (cwd : s.cwd = 0) {path base : CString} {p : Nat}
    (ran : splitPath s path = some (p, base)) : p = 0 := by
  unfold splitPath at ran
  cases slash : lastSlash path with
  | none =>
      rw [slash, Option.some.injEq, Prod.mk.injEq] at ran
      exact ran.1.symm.trans cwd
  | some i =>
      rw [slash] at ran
      dsimp only at ran
      by_cases top : min i 127 = 0
      · rw [if_pos top, Option.some.injEq, Prod.mk.injEq] at ran
        exact ran.1.symm.trans none.root
      · rw [if_neg top, Option.map_eq_some_iff] at ran
        obtain ⟨r, looked, eq⟩ := ran
        exact (Prod.mk.inj eq).1.symm.trans (ramfsLookup_null none cwd looked)

/-- Without a root no call changes the tree. -/
theorem nameExec_null {s t : FileSys H} (none : Rootless s.fs) (cwd : s.fs.cwd = 0)
    {c : NameCall} {r : Int} (ran : nameExec A s c = some (r, t)) : t.fs = s.fs := by
  cases c with
  | «open» path =>
      rw [nameExec, fileOpen, Option.bind_eq_some_iff] at ran
      obtain ⟨found, looked, ran⟩ := ran
      obtain rfl := ramfsLookup_null none cwd looked
      rw [if_neg (not_not.mpr rfl), openCreate_eq, Option.bind_eq_some_iff] at ran
      obtain ⟨⟨n, fs⟩, created, ran⟩ := ran
      obtain ⟨⟨p, base⟩, split, created⟩ := Option.bind_eq_some_iff.mp created
      rw [splitPath_null none cwd split, ramfsCreateFile, createNode_null, Option.some.injEq,
        Prod.mk.injEq] at created
      obtain ⟨rfl, rfl⟩ := created
      rw [if_pos rfl, Option.some.injEq, Prod.mk.injEq] at ran
      rw [← ran.2]
  | mkdir path =>
      rw [nameExec, sysMkdir_eq, Option.map_eq_some_iff] at ran
      obtain ⟨⟨r', fs⟩, ran, eq⟩ := ran
      obtain ⟨⟨p, base⟩, split, made⟩ := Option.bind_eq_some_iff.mp ran
      rw [splitPath_null none cwd split, ramfsMkdir, createNode_null, Option.map_some,
        Option.some.injEq, Prod.mk.injEq] at made
      rw [← (Prod.mk.inj eq).2, ← made.2]
  | unlink path =>
      rw [nameExec, Option.map_eq_some_iff] at ran
      obtain ⟨⟨r', fs⟩, ran, eq⟩ := ran
      obtain ⟨n, looked, ran⟩ := Option.bind_eq_some_iff.mp ran
      rw [if_pos (ramfsLookup_null none cwd looked), Option.some.injEq, Prod.mk.injEq] at ran
      rw [← (Prod.mk.inj eq).2, ← ran.2]
  | chdir path =>
      rw [nameExec, Option.map_eq_some_iff] at ran
      obtain ⟨⟨r', fs⟩, ran, eq⟩ := ran
      obtain ⟨n, looked, ran⟩ := Option.bind_eq_some_iff.mp ran
      rw [if_pos (ramfsLookup_null none cwd looked), Option.some.injEq, Prod.mk.injEq] at ran
      rw [← (Prod.mk.inj eq).2, ← ran.2]

/-! ## Runs -/

/-- **Names are kept** in every run from `ramfs_init` whose calls are fit; and in the state
reached, if there is a root, every call on a path that can be walked is defined.  Since a name is
bounded where it is cut off or refused, a fit call adds no name that breaks the rules
(`nameExec_spec`); where `ramfs_init` found no memory for a root, every call fails. -/
theorem nameRun_invariant {h : H} {cs : List NameCall} {s : FileSys H}
    (run : Run (Guarded NameCall.Fit (NameStep A))
      (fileInit (ramfsInit A (Ramfs.empty h))) cs s) :
    NamesOk s.fs ∧ (s.fs.root ≠ 0 → ∀ c : NameCall, Resolvable s.fs c.path →
      ∃ t, NameStep A s c t) := by
  have reached : ((∃ kids depth, RamfsInv A s.fs kids depth) ∧ NamesOk s.fs) ∨
      Rootless s.fs ∧ s.fs.cwd = 0 := by
    refine run.invariant (fun s => ((∃ kids depth, RamfsInv A s.fs kids depth) ∧ NamesOk s.fs) ∨
      Rootless s.fs ∧ s.fs.cwd = 0) ?_ ?_
    · rintro s c t (⟨⟨kids, depth, inv⟩, names⟩ | ⟨none, cwd⟩) ⟨fit, r, ran⟩
      · obtain ⟨r', t', ran', keeps⟩ := nameExec_spec inv c fit.1
        obtain ⟨-, rfl⟩ := Prod.mk.inj (Option.some.inj (ran.symm.trans ran'))
        exact .inl (keeps names fit)
      · rw [nameExec_null none cwd ran]
        exact .inr ⟨none, cwd⟩
    · rcases ramfsInit_spec (A := A) h with ⟨depth, inv⟩ | none
      · refine .inl ⟨⟨_, depth, inv⟩, fun {c m} at_c other => ?_⟩
        -- the root is the only node
        obtain ⟨-, mem⟩ := inv.links.parent at_c other
        cases mem
      · exact .inr ⟨none, none.root⟩
  refine ⟨?_, fun root c walk => ?_⟩
  · rcases reached with ⟨-, names⟩ | ⟨none, -⟩
    · exact names
    · intro c m at_c
      rw [none.nodes] at at_c
      cases at_c
  · rcases reached with ⟨⟨kids, depth, inv⟩, -⟩ | ⟨none, -⟩
    · obtain ⟨r, t, ran, -⟩ := nameExec_spec inv c walk
      exact ⟨t, r, ran⟩
    · exact absurd none.root root

/-- Names after a directory `a` and a file `a/b` are made. -/
theorem nameRun_invariant_ab :
    ∃ s : FileSys CountingHeap, Run (Guarded NameCall.Fit (NameStep countingAllocator))
        (fileInit (ramfsInit countingAllocator (Ramfs.empty CountingHeap.empty)))
        [.mkdir [97], .open [97, 47, 98]] s ∧
      (s.fs.nodes 3).map Node.parent = some 2 ∧ NamesOk s.fs := by
  have run : ∃ s : FileSys CountingHeap, Run (Guarded NameCall.Fit (NameStep countingAllocator))
        (fileInit (ramfsInit countingAllocator (Ramfs.empty CountingHeap.empty)))
        [.mkdir [97], .open [97, 47, 98]] s ∧ (s.fs.nodes 3).map Node.parent = some 2 := by
    refine ⟨_, .cons ⟨⟨.inr ⟨_, rfl⟩, StoresFit.of_short rfl (by decide) (by decide)⟩, _, rfl⟩
      (.single ⟨⟨.inr ⟨_, rfl⟩, fun _ => StoresFit.of_short rfl (by decide) (by decide)⟩, _, rfl⟩), rfl⟩
  obtain ⟨s, run, parent⟩ := run
  exact ⟨s, run, parent, (nameRun_invariant run).1⟩

/-- **The exception.**  `SYS_MKDIR` of the empty path, right after `ramfs_init`, makes
a directory without a name. -/
theorem sysMkdir_empty :
    ∃ s : FileSys CountingHeap, Run (NameStep countingAllocator)
        (fileInit (ramfsInit countingAllocator (Ramfs.empty CountingHeap.empty)))
        [.mkdir []] s ∧ ¬ NamesOk s.fs := by
  have made : ∃ s : FileSys CountingHeap, NameStep countingAllocator
        (fileInit (ramfsInit countingAllocator (Ramfs.empty CountingHeap.empty)))
        (.mkdir []) s ∧ s.fs.root = 1 ∧ ∃ n, s.fs.nodes 2 = some n ∧ n.name = [] :=
    ⟨_, ⟨_, rfl⟩, rfl, _, rfl, rfl⟩
  obtain ⟨s, step, root, n, at_two, blank⟩ := made
  refine ⟨s, .single step, fun names => ?_⟩
  have proper := (names at_two (by rw [root]; decide)).1
  exact proper.some_byte blank

end Flyos
