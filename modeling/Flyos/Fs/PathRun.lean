import Flyos.Fs.FileModel
import Flyos.Fs.PathOps

/-!
# The file system does what it is for

Every run of the calls on paths and descriptors is a run of `PathFs` with the same answers
(`pathRun_refines`): what the nodes, links, buffers and descriptors do, a map from paths to
directories and contents does.  An event is a call with its answer; it also says whether
`kmalloc` failed in the call.

The runs are those whose calls store no unfit name, unlink nothing that is the current
directory or open, and write no further than position `2 ^ 63`.
-/

namespace Flyos

variable {H : Type*} {A : Allocator H} {kids : Nat → List Nat} {depth : Nat → Nat}

/-- A call, its answer, and whether memory ran out in it. -/
structure PathEvent where
  call : PathCall
  answer : Int × List UInt8
  noMemory : Bool

/-- One call, with its answer. -/
def pathExec (A : Allocator H) (s : FileSys H) : PathCall → Option ((Int × List UInt8) × FileSys H)
  | .open path => (fileOpen A s path).map fun r => ((r.1, []), r.2)
  | .close fd => some (((fileClose s fd).1, []), (fileClose s fd).2)
  | .read fd n => (fileRead s fd n).map fun r => ((r.1, r.2.1), r.2.2)
  | .write fd buf => (fileWrite A s fd buf).map fun r => ((r.1, []), r.2)
  | .mkdir path => (sysMkdir A s.fs path).map fun r => ((r.1, []), { s with fs := r.2 })
  | .unlink path => (sysUnlink A s.fs path).map fun r => ((r.1, []), { s with fs := r.2 })
  | .chdir path => (sysChdir s.fs path).map fun r => ((r.1, []), { s with fs := r.2 })

/-- A step of the code; the ghost `oom` is cleared before the call. -/
def PathEventStep (A : Allocator H) (s : FileSys H) (e : PathEvent) (t : FileSys H) : Prop :=
  pathExec A s.clearOom e.call = some (e.answer, t) ∧ t.fs.oom = e.noMemory

/-- A step of the model. -/
def PathFs.Step (m : PathFs) (e : PathEvent) (m' : PathFs) : Prop :=
  m.exec e.noMemory e.call = (e.answer, m')

/-- The call stores no unfit name, unlinks nothing in use, and does not write too far. -/
def PathCall.Fit (s : FileSys H) (c : PathCall) : Prop :=
  match c with
  | .open path => ramfsLookup s.fs path = some 0 → StoresFit s.fs path
  | .mkdir path => StoresFit s.fs path
  | .unlink path => ∀ n, ramfsLookup s.fs path = some n → Removable s.fs n →
      n ≠ s.fs.cwd ∧ ∀ i, (s.fdTable i).used = true → (s.fdTable i).node ≠ n
  | .write fd buf => s.InRange fd buf
  | _ => True

/-- The call of an event is fit. -/
def PathEvent.Fit (s : FileSys H) (e : PathEvent) : Prop := e.call.Fit s.clearOom

/-- What holds between calls. -/
structure PathInv (A : Allocator H) (s : FileSys H) : Prop where
  files : FileInv A s
  named : Named A s.fs

/-- **The state shows what the model says.** -/
structure SysShows (s : FileSys H) (m : PathFs) : Prop where
  fs : FsShows s.fs m
  desc : ∀ i, ((s.fdTable i).used = false ∧ m.desc i = none) ∨
    (s.fdTable i).used = true ∧ ∃ names, m.desc i = some (names, (s.fdTable i).pos) ∧
      PathTo s.fs (s.fdTable i).node names

variable {s t : FileSys H} {m : PathFs}

/-! ## Descriptors -/

/-- The end of `file_open`: a descriptor for the node, if it is a file. -/
def takeFd (s : FileSys H) (c : Nat) (n : Node) : Int × FileSys H :=
  if n.type ≠ .file then (-1, s)
  else
    match s.freeFd with
    | some i => (i, s.setFd i ⟨true, c, 0, false⟩)
    | none => (-1, s)

namespace SysShows

variable (shown : SysShows s m)
include shown

/-- The least descriptor not in use is the same. -/
theorem freeDesc : s.freeFd = m.freeDesc := by
  unfold FileSys.freeFd PathFs.freeDesc
  congr 1
  funext i
  rcases shown.desc i with ⟨unused, none⟩ | ⟨used, names, some_, -⟩
  · rw [unused, none]
    rfl
  · rw [used, some_]
    rfl

/-- Another tree, another current directory, the same descriptors. -/
theorem setFs {fs : Ramfs H} {m' : PathFs} (fsShown : FsShows fs m') (desc : m'.desc = m.desc)
    (keeps : ∀ {i names}, (s.fdTable i).used = true → PathTo s.fs (s.fdTable i).node names →
      PathTo fs (s.fdTable i).node names) : SysShows { s with fs } m' := by
  refine ⟨fsShown, fun i => ?_⟩
  rw [desc]
  exact (shown.desc i).imp id fun ⟨used, names, some_, path⟩ =>
    ⟨used, names, some_, keeps used path⟩

/-- A descriptor is set. -/
theorem setFd {i : Nat} {f : Fd} {d : Option (List CString × Nat)}
    (new : (f.used = false ∧ d = none) ∨
      f.used = true ∧ ∃ names, d = some (names, f.pos) ∧ PathTo s.fs f.node names) :
    SysShows (s.setFd i f) (m.setDesc i d) := by
  refine ⟨⟨shown.fs.tree, shown.fs.cwd⟩, fun j => ?_⟩
  rw [FileSys.setFd_fdTable, PathFs.setDesc_desc]
  by_cases here : j = i
  · subst here
    rw [Function.update_self, Function.update_self]
    exact new
  · rw [Function.update_of_ne here, Function.update_of_ne here]
    exact shown.desc j

/-- A descriptor number that the code refuses is not held in the model. -/
theorem refused (inv : FileInv A s) {fd : Int} (bad : s.fd? fd = none) : m.held fd = none := by
  unfold PathFs.held
  by_cases negative : fd < 0
  · rw [if_pos negative]
  rw [if_neg negative]
  rcases shown.desc fd.toNat with ⟨-, absent⟩ | ⟨used, -⟩
  · exact absent
  · obtain ⟨low, high, -⟩ := inv.fds used
    have taken : s.fd? fd = some fd.toNat :=
      FileSys.fd?_eq_some.mpr ⟨by omega, low, high, used⟩
    rw [bad] at taken
    cases taken

/-- A descriptor number that the code takes is held in the model. -/
theorem held {i : Nat} (taken : s.fd? i = some i) :
    ∃ names, m.held i = some (names, (s.fdTable i).pos) ∧
      PathTo s.fs (s.fdTable i).node names := by
  obtain ⟨-, -, -, used⟩ := FileSys.fd?_eq_some.mp taken
  unfold PathFs.held
  rw [if_neg (by omega), Int.toNat_natCast]
  rcases shown.desc i with ⟨unused, -⟩ | ⟨-, held⟩
  · rw [used] at unused
    cases unused
  · exact held

/-- **A descriptor is taken** for the file under a path, in the code and in the model. -/
theorem take (named : Named A s.fs) {c : Nat} {names : List CString}
    (path : PathTo s.fs c names) : ∃ n t, s.fs.nodes c = some n ∧
      takeFd s c n = ((m.take names).1, t) ∧ t.fs = s.fs ∧ SysShows t (m.take names).2 := by
  obtain ⟨n, at_c⟩ := named.node path
  have entry := shown.fs.tree.entry_at path at_c
  refine ⟨n, (takeFd s c n).2, at_c, ?_⟩
  unfold takeFd PathFs.take
  rw [entry, ← shown.freeDesc]
  cases type : n.type with
  | dir =>
      rw [entryOf, type, if_pos (by decide)]
      exact ⟨rfl, rfl, shown⟩
  | file =>
      rw [entryOf, type, if_neg (by decide)]
      cases s.freeFd with
      | none => exact ⟨rfl, rfl, shown⟩
      | some i => exact ⟨rfl, rfl, shown.setFd (.inr ⟨rfl, names, rfl, path⟩)⟩

end SysShows

/-! ## One call -/

/-- A call of the code is the call of the model, given whether memory runs out. -/
def CallAgrees (A : Allocator H) (s : FileSys H) (m : PathFs) (c : PathCall) : Prop :=
  ∃ a t m', pathExec A s c = some (a, t) ∧ PathInv A t ∧ m.exec t.fs.oom c = (a, m') ∧ SysShows t m'

/-- Nodes that keep their types and sizes keep the descriptors good. -/
theorem FileInv.setFs (inv : FileInv A s) {fs : Ramfs H}
    (tree : ∃ kids depth, RamfsInv A fs kids depth) (here : HasCwd fs)
    (kept : ∀ {i n}, (s.fdTable i).used = true → s.fs.nodes (s.fdTable i).node = some n →
      ∃ n', fs.nodes (s.fdTable i).node = some n' ∧ n'.type = n.type ∧ n'.size = n.size) :
    FileInv A { s with fs } := by
  refine ⟨tree, here, fun {i} used => ?_⟩
  obtain ⟨low, high, dir, n, at_f, file, pos⟩ := inv.fds used
  obtain ⟨n', at_f', type, size⟩ := kept used at_f
  exact ⟨low, high, dir, n', at_f', type.trans file, by rw [size]; exact pos⟩

/-- A creation leaves the descriptors good. -/
theorem FileInv.created (inv : FileInv A s) {fs : Ramfs H} (named : Named A fs)
    (cwd : fs.cwd = s.fs.cwd) (grows : NodesKept s.fs fs) : FileInv A { s with fs } := by
  refine inv.setFs named.tree ?_ fun _ at_f => ?_
  · obtain ⟨n, at_cwd⟩ := inv.cwd
    obtain ⟨n', at_cwd', -⟩ := grows at_cwd
    exact ⟨n', by rw [cwd, at_cwd']⟩
  · obtain ⟨n', at_f', same⟩ := grows at_f
    exact ⟨n', at_f', by rw [same], by rw [same]⟩

section Calls

variable (inv : PathInv A s) (shown : SysShows s m)
include inv shown

/-- `SYS_CHDIR`. -/
theorem chdir_agrees (path : CString) : CallAgrees A s m (.chdir path) := by
  obtain ⟨r, looked, ⟨rfl, nowhere⟩ | ⟨nonnull, names, resolved, path'⟩⟩ :=
    lookup_resolves inv.named shown.fs path
  · refine ⟨(-1, []), s, m, ?_, inv, ?_, shown⟩
    · rw [pathExec, sysChdir, looked]
      rfl
    · rw [PathFs.exec, nowhere]
  obtain ⟨d, at_r⟩ := inv.named.node path'
  have entry := shown.fs.tree.entry_at path' at_r
  by_cases file : d.type ≠ .dir
  · refine ⟨(-1, []), s, m, ?_, inv, ?_, shown⟩
    · rw [pathExec, sysChdir, looked, Option.bind_some, if_neg nonnull, at_r, Option.bind_some,
        if_pos file]
      rfl
    · rw [PathFs.exec, resolved]
      refine if_neg ?_
      rw [entry]
      simpa using file
  · have same : ∀ {n front}, PathTo { s.fs with cwd := r } n front ↔ PathTo s.fs n front :=
      PathTo.iff_of_nodes (s := s.fs) (t := { s.fs with cwd := r }) rfl rfl
    refine ⟨(0, []), { s with fs := { s.fs with cwd := r } }, { m with cwd := names }, ?_, ⟨?_, ?_⟩,
      ?_, shown.setFs ⟨fun front e => ?_, same.mpr path'⟩ rfl fun _ path => same.mpr path⟩
    · rw [pathExec, sysChdir, looked, Option.bind_some, if_neg nonnull, at_r, Option.bind_some,
        if_neg file, ramfsSetCwd, if_neg nonnull, at_r, Option.map_some,
        if_pos (not_not.mp file)]
      rfl
    · obtain ⟨kids, depth, tree⟩ := inv.files.tree
      exact inv.files.setFs ⟨kids, depth, tree.setCwd r⟩ ⟨d, at_r⟩
        fun _ at_f => ⟨_, at_f, rfl, rfl⟩
    · obtain ⟨kids, depth, tree⟩ := inv.named.tree
      exact ⟨⟨kids, depth, tree.setCwd r⟩, inv.named.names, inv.named.short⟩
    · rw [PathFs.exec, resolved]
      refine if_pos ?_
      rw [entry, Option.some.injEq, entryOf_dir]
      exact not_not.mp file
    · simp only [same]
      exact shown.fs.tree front e

/-- `SYS_UNLINK`. -/
theorem unlink_agrees (path : CString)
    (spares : ∀ n, ramfsLookup s.fs path = some n → Removable s.fs n →
      n ≠ s.fs.cwd ∧ ∀ i, (s.fdTable i).used = true → (s.fdTable i).node ≠ n) :
    CallAgrees A s m (.unlink path) := by
  obtain ⟨r, looked, ⟨rfl, nowhere⟩ | ⟨nonnull, names, resolved, path'⟩⟩ :=
    lookup_resolves inv.named shown.fs path
  · refine ⟨(-1, []), s, m, ?_, inv, ?_, shown⟩
    · rw [pathExec, sysUnlink, looked]
      rfl
    · rw [PathFs.exec, nowhere]
      rfl
  rcases ramfsUnlinkNode_shows inv.named shown.fs.tree path' with ⟨none, ran⟩ |
    ⟨fs, m', remove, ran, named, cwd, tree, keeps, nd, at_r, rest⟩
  · refine ⟨(-1, []), s, m, ?_, inv, ?_, shown⟩
    · rw [pathExec, sysUnlink, looked, Option.bind_some, if_neg nonnull, ran]
      rfl
    · rw [PathFs.exec, resolved, Option.bind_some, none]
  · have removable : Removable s.fs r := by
      obtain ⟨kids, depth, tree⟩ := inv.named.tree
      rcases ramfsUnlinkNode_spec tree at_r with ⟨-, refused⟩ | ⟨other, leaf, -⟩
      · rw [ran] at refused
        cases refused
      · refine ⟨other, nd, at_r, fun _ => ?_⟩
        have chain := tree.links.chain at_r
        rw [leaf] at chain
        exact chain
    obtain ⟨notCwd, notOpen⟩ := spares r looked removable
    have cwdPath : PathTo fs fs.cwd m.cwd := by
      rw [cwd]
      exact keeps (Ne.symm notCwd) shown.fs.cwd
    refine ⟨(0, []), { s with fs }, { m with tree := m' }, ?_, ⟨?_, named⟩, ?_,
      shown.setFs ⟨tree, cwdPath⟩ rfl fun {i front} used path => keeps (notOpen i used) path⟩
    · rw [pathExec, sysUnlink, looked, Option.bind_some, if_neg nonnull, ran]
      rfl
    · refine inv.files.setFs named.tree (named.node cwdPath) fun {i n} used at_f => ?_
      obtain ⟨n', at_f', same⟩ := rest.kept (notOpen i used) at_f
      exact ⟨n', at_f', by rw [same], by rw [same]⟩
    · rw [PathFs.exec, resolved, Option.bind_some, remove]

variable (clear : s.fs.oom = false)
include clear

/-- `SYS_MKDIR`. -/
theorem mkdir_agrees (path : CString) (fit : StoresFit s.fs path) :
    CallAgrees A s m (.mkdir path) := by
  obtain ⟨c, fs, made, named, cwd, grows, keeps, result⟩ :=
    createAt_shows inv.named shown.fs .dir fit
  have files := inv.files.created named cwd grows
  have ran : sysMkdir A s.fs path = some (if c ≠ 0 then 0 else -1, fs) := by
    rw [sysMkdir_eq]
    obtain ⟨r, split, one⟩ := Option.bind_eq_some_iff.mp made
    rw [split, Option.bind_some, ramfsMkdir, one]
    rfl
  rcases result with ⟨rfl, same, noMemory⟩ | ⟨nonnull, oom, names, m', create, desc, fsShown, -⟩
  · refine ⟨(-1, []), { s with fs }, m, by rw [pathExec, ran]; rfl, ⟨files, named⟩, ?_, ?_⟩
    · rw [PathFs.exec]
      rcases noMemory with noMemory | ⟨-, absent⟩
      · rw [if_pos noMemory]
      · rw [show m.create path .dir = none from absent, ite_self]
    · refine shown.setFs ⟨shown.fs.tree.of_same same, ?_⟩ rfl fun _ path => keeps path
      rw [cwd]
      exact keeps shown.fs.cwd
  · refine ⟨(0, []), { s with fs }, m', by rw [pathExec, ran, if_pos nonnull]; rfl,
      ⟨files, named⟩, ?_, shown.setFs fsShown desc fun _ path => keeps path⟩
    rw [PathFs.exec, if_neg (by rw [oom, clear]; decide),
      show m.create path .dir = some (names, m') from create]

/-- `file_open`. -/
theorem open_agrees (path : CString)
    (fit : ramfsLookup s.fs path = some 0 → StoresFit s.fs path) : CallAgrees A s m (.open path) := by
  obtain ⟨r, t, ran, files, -⟩ := fileOpen_refines inv.files path
  obtain ⟨found, looked, ⟨rfl, nowhere⟩ | ⟨nonnull, names, resolved, path'⟩⟩ :=
    lookup_resolves inv.named shown.fs path
  · obtain ⟨c, fs, made, named, cwd, grows, keeps, result⟩ :=
      createAt_shows inv.named shown.fs .file (fit looked)
    have created : openCreate A s.fs path = some (c, fs) := by
      rw [openCreate_eq]
      exact made
    have step : fileOpen A s path = if c = 0 then some (-1, { s with fs })
        else (fs.nodes c).map (takeFd { s with fs } c) := by
      rw [fileOpen, looked, Option.bind_some, if_neg (not_not.mpr rfl), created]
      rfl
    rcases result with ⟨rfl, same, noMemory⟩ | ⟨nonnull, oom, names, m', create, desc, fsShown, new⟩
    · rw [step, if_pos rfl] at ran
      cases ran
      refine ⟨(-1, []), { s with fs }, m, by rw [pathExec, step, if_pos rfl]; rfl,
        ⟨files, named⟩, ?_, ?_⟩
      · rw [PathFs.exec, nowhere]
        rcases noMemory with noMemory | ⟨-, absent⟩
        · rw [if_pos noMemory]
        · rw [show m.create path (.file []) = none from absent, ite_self]
      · refine shown.setFs ⟨shown.fs.tree.of_same same, ?_⟩ rfl fun _ path => keeps path
        rw [cwd]
        exact keeps shown.fs.cwd
    · have shown' : SysShows { s with fs } m' := shown.setFs fsShown desc fun _ path => keeps path
      obtain ⟨n, t', at_c, take, same, shown''⟩ := shown'.take named new
      rw [step, if_neg nonnull, at_c, Option.map_some, take, Option.some.injEq,
        Prod.mk.injEq] at ran
      obtain ⟨-, rfl⟩ := ran
      refine ⟨((m'.take names).1, []), t', (m'.take names).2, ?_, ⟨files, same ▸ named⟩, ?_, shown''⟩
      · rw [pathExec, step, if_neg nonnull, at_c, Option.map_some, take]
        rfl
      · rw [PathFs.exec, nowhere, same, if_neg (by rw [oom, clear]; decide),
          show m.create path (.file []) = some (names, m') from create]
  · obtain ⟨n, t', at_c, take, same, shown'⟩ := shown.take inv.named path'
    have step : fileOpen A s path = some (takeFd s found n) := by
      rw [fileOpen, looked, Option.bind_some, if_pos nonnull, Option.bind_some]
      dsimp only
      rw [if_neg nonnull, at_c]
      rfl
    rw [step, take, Option.some.injEq, Prod.mk.injEq] at ran
    obtain ⟨-, rfl⟩ := ran
    refine ⟨((m.take names).1, []), t', (m.take names).2, ?_, ⟨files, same ▸ inv.named⟩, ?_, shown'⟩
    · rw [pathExec, step, take]
      rfl
    · rw [PathFs.exec, resolved]

omit clear

/-- `file_close`. -/
theorem close_agrees (fd : Int) : CallAgrees A s m (.close fd) := by
  obtain ⟨r, t, ran, files, -⟩ := fileClose_refines inv.files fd
  unfold fileClose at ran
  cases taken : s.fd? fd with
  | none =>
      rw [taken] at ran
      cases ran
      refine ⟨(-1, []), s, m, ?_, inv, ?_, shown⟩
      · rw [pathExec, fileClose, taken]
      · rw [PathFs.exec, shown.refused inv.files taken]
  | some i =>
      rw [taken] at ran
      cases ran
      obtain ⟨rfl, -⟩ := FileSys.fd?_eq_some.mp taken
      obtain ⟨names, held, -⟩ := shown.held taken
      refine ⟨(0, []), s.setFd i .closed, m.setDesc i none, ?_, ⟨files, inv.named⟩, ?_,
        shown.setFd (.inl ⟨rfl, rfl⟩)⟩
      · rw [pathExec, fileClose, taken]
      · rw [PathFs.exec, held]
        rfl

/-- `file_read`. -/
theorem read_agrees (fd : Int) (n : Nat) : CallAgrees A s m (.read fd n) := by
  obtain ⟨r, bytes, t, ran, files, -⟩ := fileRead_refines inv.files fd n
  cases taken : s.fd? fd with
  | none =>
      refine ⟨(-1, []), s, m, ?_, inv, ?_, shown⟩
      · rw [pathExec, fileRead, taken]
        rfl
      · rw [PathFs.exec, shown.refused inv.files taken]
  | some i =>
      obtain ⟨rfl, low, high, used⟩ := FileSys.fd?_eq_some.mp taken
      obtain ⟨names, held, path⟩ := shown.held taken
      obtain ⟨-, -, dir, node, at_f, file, pos⟩ := inv.files.fds used
      obtain ⟨kids, depth, tree⟩ := inv.named.tree
      obtain ⟨bytes, one, eq⟩ := ramfsRead_spec tree at_f file n (s.fdTable i).pos
      have answers : fileRead s i n = some ((bytes.length : Int), bytes, s.advance i bytes.length) := by
        simp only [fileRead, taken, dir, one, Option.map_some, Bool.false_eq_true, if_false]
        rw [← advance_eq s rfl, dir]
      rw [answers] at ran
      cases ran
      have contents : m.contents names = fileBytes s.fs (s.fdTable i).node := by
        rw [PathFs.contents, shown.fs.tree.entry_at path at_f, entryOf, file]
      refine ⟨((bytes.length : Int), bytes), s.advance i bytes.length,
        m.setDesc i (some (names, (s.fdTable i).pos + bytes.length)), ?_, ⟨files, inv.named⟩, ?_,
        shown.setFd (.inr ⟨used, names, rfl, path⟩)⟩
      · rw [pathExec, answers]
        rfl
      · rw [PathFs.exec, held]
        dsimp only
        rw [contents, ← eq, Int.toNat_natCast]

include clear

/-- `file_write`. -/
theorem write_agrees (fd : Int) (buf : List UInt8) (range : s.InRange fd buf) :
    CallAgrees A s m (.write fd buf) := by
  obtain ⟨r, t, ran, files, -⟩ := fileWrite_refines inv.files clear fd buf range
  cases taken : s.fd? fd with
  | none =>
      refine ⟨(-1, []), s, m, ?_, inv, ?_, shown⟩
      · rw [pathExec, fileWrite, taken]
        rfl
      · rw [PathFs.exec, shown.refused inv.files taken, ite_self]
  | some i =>
      obtain ⟨rfl, low, high, used⟩ := FileSys.fd?_eq_some.mp taken
      obtain ⟨names, held, path⟩ := shown.held taken
      obtain ⟨-, -, dir, node, at_f, file, pos⟩ := inv.files.fds used
      obtain ⟨kids, depth, tree⟩ := inv.named.tree
      obtain ⟨fs, tree', ⟨one, same, failed⟩ | ⟨-, one, w⟩⟩ :=
        ramfsWrite_spec tree at_f (range i taken)
      · have noMemory : fs.oom = true := by
          rcases failed with ⟨dir', -⟩ | ⟨-, noMemory⟩
          · exact absurd file dir'
          · exact noMemory
        have answers : fileWrite A s i buf = some (-1, { s with fs }) := by
          simp only [fileWrite, taken, dir, one, Option.map_some, Bool.false_eq_true, if_false]
          rw [if_neg (by decide)]
        rw [answers] at ran
        cases ran
        refine ⟨(-1, []), { s with fs }, m, ?_, ⟨files, inv.named.of_same tree' same⟩, ?_, ?_⟩
        · rw [pathExec, answers]
          rfl
        · rw [PathFs.exec, if_pos noMemory]
        · have keeps : ∀ {n front}, PathTo s.fs n front → PathTo fs n front :=
            (PathTo.iff_of_nodes same.nodes same.root).mpr
          refine shown.setFs ⟨shown.fs.tree.of_same same, ?_⟩ rfl fun _ path => keeps path
          rw [same.cwd]
          exact keeps shown.fs.cwd
      · obtain ⟨named, modified, keeps⟩ :=
          ramfsWrite_shows inv.named shown.fs.tree path at_f file pos tree' w
        let written : FileSys H := { s with fs }
        have answers : fileWrite A s i buf =
            some ((buf.length : Int), written.advance i buf.length) := by
          simp only [fileWrite, taken, dir, one, Option.map_some, Bool.false_eq_true, if_false]
          rw [← advance_eq written rfl]
          simp only [written, dir]
        rw [answers] at ran
        cases ran
        have cwdPath : PathTo fs fs.cwd m.cwd := by
          rw [w.cwd]
          exact keeps shown.fs.cwd
        have shown' : SysShows written
            { m with tree := m.tree.modify names (overlay · (s.fdTable i).pos buf) } :=
          shown.setFs ⟨modified, cwdPath⟩ rfl fun _ path => keeps path
        refine ⟨((buf.length : Int), []), written.advance i buf.length, _, ?_, ⟨files, named⟩, ?_,
          shown'.setFd (d := some (names, (s.fdTable i).pos + buf.length))
            (.inr ⟨used, names, rfl, keeps path⟩)⟩
        · rw [pathExec, answers]
          rfl
        · have enough : (written.advance i buf.length).fs.oom = false := w.oom.trans clear
          rw [PathFs.exec, if_neg (by rw [enough]; decide), held]
          rfl

end Calls

/-- **Every call** that is fit is a call of the model. -/
theorem call_agrees (inv : PathInv A s) (shown : SysShows s m) (clear : s.fs.oom = false)
    (c : PathCall) (fit : c.Fit s) : CallAgrees A s m c := by
  cases c with
  | «open» path => exact open_agrees inv shown clear path fit
  | close fd => exact close_agrees inv shown fd
  | read fd n => exact read_agrees inv shown fd n
  | write fd buf => exact write_agrees inv shown clear fd buf fit
  | mkdir path => exact mkdir_agrees inv shown clear path fit
  | unlink path => exact unlink_agrees inv shown path fit
  | chdir path => exact chdir_agrees inv shown path

/-! ## Runs -/

/-- The invariant does not speak of the ghost. -/
theorem PathInv.clearOom (inv : PathInv A s) : PathInv A s.clearOom := by
  obtain ⟨kids, depth, tree⟩ := inv.named.tree
  exact ⟨inv.files.clearOom, ⟨⟨kids, depth, tree.setOom false⟩, inv.named.names, inv.named.short⟩⟩

/-- Nor does the model. -/
theorem SysShows.clearOom (shown : SysShows s m) : SysShows s.clearOom m := by
  have same : ∀ {n front}, PathTo s.clearOom.fs n front ↔ PathTo s.fs n front :=
    PathTo.iff_of_nodes (s := s.fs) (t := s.clearOom.fs) rfl rfl
  exact shown.setFs ⟨shown.fs.tree.of_same ⟨rfl, rfl, rfl, rfl⟩, same.mpr shown.fs.cwd⟩ rfl
    fun _ path => same.mpr path

/-- **A step** of the code is one of the model. -/
theorem pathStep_agrees {e : PathEvent} (inv : PathInv A s) (shown : SysShows s m)
    (step : Guarded PathEvent.Fit (PathEventStep A) s e t) :
    ∃ m', PathFs.Step m e m' ∧ PathInv A t ∧ SysShows t m' := by
  obtain ⟨fit, ran, noMemory⟩ := step
  obtain ⟨a, t', m', ran', inv', exec, shown'⟩ :=
    call_agrees inv.clearOom shown.clearOom rfl e.call fit
  obtain ⟨rfl, rfl⟩ := Prod.mk.inj (Option.some.inj (ran.symm.trans ran'))
  refine ⟨m', ?_, inv', shown'⟩
  rw [PathFs.Step, ← noMemory]
  exact exec

/-- The file system right after `ramfs_init`. -/
theorem fileInit_shows {fs : Ramfs H} (tree : RamfsInv A fs (fun _ => []) depth)
    (here : fs.cwd = fs.root) :
    PathInv A (fileInit fs) ∧ SysShows (fileInit fs) .empty := by
  obtain ⟨r, at_root, dir, -⟩ := tree.links.top
  -- the root is the only node
  have only : ∀ {c n}, fs.nodes c = some n → c = fs.root := by
    intro c n at_c
    by_contra other
    obtain ⟨-, mem⟩ := tree.links.parent at_c other
    cases mem
  refine ⟨⟨⟨⟨_, _, tree⟩, ⟨r, here ▸ at_root⟩, fun used => ?_⟩, ⟨⟨_, _, tree⟩, ?_, ?_⟩⟩,
    ⟨⟨fun names e => ?_, ?_⟩, fun i => .inl ⟨rfl, rfl⟩⟩⟩
  · exact absurd used (by decide : ¬ Fd.closed.used = true)
  · intro c n at_c other
    exact absurd (only at_c) other
  · intro c n at_c other
    exact absurd (only at_c) other
  · cases names with
    | nil =>
        rw [PathFs.empty, PathTree.bare_nil, Option.some.injEq]
        constructor
        · rintro rfl
          exact ⟨_, r, .root, at_root, (entryOf_dir.mpr dir).symm⟩
        · rintro ⟨n, nd, path, at_n, rfl⟩
          obtain rfl := only at_n
          obtain rfl := Option.some.inj (at_root.symm.trans at_n)
          exact (entryOf_dir.mpr dir).symm
    | cons k names =>
        rw [PathFs.empty, PathTree.bare_cons]
        refine ⟨fun no => (by cases no), ?_⟩
        rintro ⟨n, nd, path, at_n, -⟩
        obtain ⟨front, last, split⟩ := (List.eq_nil_or_concat (k :: names)).resolve_left (by simp)
        rw [split, List.concat_eq_append] at path
        obtain ⟨nd', at_n', other, -⟩ := path.last
        exact absurd (only at_n') other
  · change PathTo fs fs.cwd []
    rw [here]
    exact .root

/-- **The RAM file system is a map from paths.**  From `ramfs_init`, every run of calls that
are fit is a run of the model with the same answers, whichever allocations fail; the state
reached shows what the model says, and there every call that is fit is answered. -/
theorem pathRun_refines {h : H} (root : (ramfsInit A (Ramfs.empty h)).root ≠ 0)
    {es : List PathEvent} (run : Run (Guarded PathEvent.Fit (PathEventStep A))
      (fileInit (ramfsInit A (Ramfs.empty h))) es s) :
    (∃ m, Run PathFs.Step .empty es m ∧ SysShows s m) ∧
      ∀ c : PathCall, c.Fit s.clearOom → ∃ a t, pathExec A s.clearOom c = some (a, t) := by
  rcases ramfsInit_spec (A := A) h with ⟨depth, tree⟩ | none
  swap
  · exact absurd none.root root
  obtain ⟨start, shown⟩ := fileInit_shows tree rfl
  obtain ⟨m, model, inv, shows_⟩ := run.simulates (fun s m => PathInv A s ∧ SysShows s m)
    (fun related step => pathStep_agrees related.1 related.2 step) (m := .empty) ⟨start, shown⟩
  refine ⟨⟨m, model, shows_⟩, fun c fit => ?_⟩
  obtain ⟨a, t, -, ran, -⟩ := call_agrees inv.clearOom shows_.clearOom rfl c fit
  exact ⟨a, t, ran⟩

/-- A directory and a file in it are made, the file is written through one path and read
through another. -/
theorem pathRun_refines_ab : ∃ (s : FileSys CountingHeap) (m : PathFs),
    Run PathFs.Step .empty
      [⟨.mkdir [47, 97], (0, []), false⟩, ⟨.open [47, 97, 47, 98], (3, []), false⟩,
        ⟨.write 3 [1, 2], (2, []), false⟩, ⟨.chdir [97], (0, []), false⟩,
        ⟨.open [46, 46, 47, 97, 47, 98], (4, []), false⟩, ⟨.read 4 5, (2, [1, 2]), false⟩] m ∧
      SysShows s m := by
  have range : ∀ {s : FileSys CountingHeap}, (s.fdTable 3).pos = 0 → s.InRange 3 [1, 2] := by
    intro s start i taken
    obtain ⟨eq, -⟩ := FileSys.fd?_eq_some.mp taken
    obtain rfl : i = 3 := by omega
    rw [start]
    decide
  have run : ∃ s : FileSys CountingHeap, Run
      (Guarded PathEvent.Fit (PathEventStep countingAllocator))
      (fileInit (ramfsInit countingAllocator (Ramfs.empty CountingHeap.empty)))
      [⟨.mkdir [47, 97], (0, []), false⟩, ⟨.open [47, 97, 47, 98], (3, []), false⟩,
        ⟨.write 3 [1, 2], (2, []), false⟩, ⟨.chdir [97], (0, []), false⟩,
        ⟨.open [46, 46, 47, 97, 47, 98], (4, []), false⟩, ⟨.read 4 5, (2, [1, 2]), false⟩] s :=
    ⟨_, .cons ⟨StoresFit.of_short rfl (by decide) (by decide), rfl, rfl⟩ <|
      .cons ⟨fun _ => StoresFit.of_short rfl (by decide) (by decide), rfl, rfl⟩ <|
      .cons ⟨range rfl, rfl, rfl⟩ <| .cons ⟨trivial, rfl, rfl⟩ <|
      .cons ⟨fun missing => (by cases missing), rfl, rfl⟩ <| .single ⟨trivial, rfl, rfl⟩⟩
  obtain ⟨s, run⟩ := run
  obtain ⟨⟨m, model, shown⟩, -⟩ := pathRun_refines (by decide) run
  exact ⟨s, m, model, shown⟩

end Flyos
