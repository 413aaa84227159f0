import Flyos.Fs.FileSpec
import Flyos.Fs.RamfsRun

/-!
# What the descriptors are for

`FileModel` is the purpose of `file.c` in its own terms: a file is a list of bytes, a
descriptor is a file and a position.  A read delivers what comes next, a write goes
over what is there or behind it, and each moves its own position.

The C code does this: every run of calls is a run of the model with the same answers
(`fileRun_refines`).  An event is a call with its answer; for a write it also says
whether `kmalloc` failed in it, which is what the ghost `oom` of the file system tells
when it is cleared before the call.
-/

namespace Flyos

/-- A call with its answer. -/
inductive FileEvent where
  | open (name : CString) (r : Int)
  | close (fd : Int) (r : Int)
  | read (fd : Int) (n : Nat) (r : Int) (bytes : List UInt8)
  | write (fd : Int) (buf : List UInt8) (r : Int) (noMemory : Bool)

/-- Files are lists of bytes, descriptors a file and a position. -/
structure FileModel where
  file : Nat → List UInt8
  desc : Nat → Option (Nat × Nat)

namespace FileModel

/-- The number is no open descriptor. -/
def Bad (m : FileModel) (fd : Int) : Prop := ∀ i : Nat, fd = i → m.desc i = none

/-- The descriptor `i` after a call. -/
def move (m : FileModel) (i : Nat) (d : Option (Nat × Nat)) : FileModel :=
  { m with desc := Function.update m.desc i d }

/-- The file `f` after a write at `pos`. -/
def put (m : FileModel) (f pos : Nat) (buf : List UInt8) : FileModel :=
  { m with file := Function.update m.file f (overlay (m.file f) pos buf) }

@[simp] theorem put_file (m : FileModel) (f pos : Nat) (buf : List UInt8) :
    (m.put f pos buf).file = Function.update m.file f (overlay (m.file f) pos buf) := rfl

@[simp] theorem move_desc (m : FileModel) (i : Nat) (d : Option (Nat × Nat)) :
    (m.move i d).desc = Function.update m.desc i d := rfl

/-- **The model.** -/
inductive Step : FileModel → FileEvent → FileModel → Prop
  | opens {m : FileModel} {i : Nat} (name : CString) (f : Nat) (free : m.desc i = none) :
      Step m (.open name i) (m.move i (some (f, 0)))
  | openFails {m : FileModel} (name : CString) : Step m (.open name (-1)) m
  | closes {m : FileModel} {i : Nat} {d : Nat × Nat} (held : m.desc i = some d) :
      Step m (.close i 0) (m.move i none)
  | reads {m : FileModel} {i f pos n : Nat} {bytes : List UInt8} (held : m.desc i = some (f, pos))
      (next : bytes = ((m.file f).drop pos).take n) :
      Step m (.read i n bytes.length bytes) (m.move i (some (f, pos + bytes.length)))
  | writes {m : FileModel} {i f pos : Nat} (buf : List UInt8) (held : m.desc i = some (f, pos)) :
      Step m (.write i buf buf.length false)
        ((m.put f pos buf).move i (some (f, pos + buf.length)))
  | writeFails {m : FileModel} {i f pos : Nat} (buf : List UInt8)
      (held : m.desc i = some (f, pos)) : Step m (.write i buf (-1) true) m
  | badClose {m : FileModel} {fd : Int} (bad : m.Bad fd) : Step m (.close fd (-1)) m
  | badRead {m : FileModel} {fd : Int} (n : Nat) (bad : m.Bad fd) : Step m (.read fd n (-1) []) m
  | badWrite {m : FileModel} {fd : Int} (buf : List UInt8) (bad : m.Bad fd) :
      Step m (.write fd buf (-1) false) m

end FileModel

/-! ## The calls of the code -/

variable {H : Type*} {A : Allocator H} {s t : FileSys H} {kids : Nat → List Nat}
  {depth : Nat → Nat}

/-- The state with the ghost `oom` cleared. -/
def FileSys.clearOom (s : FileSys H) : FileSys H := { s with fs := { s.fs with oom := false } }

/-- A write through a descriptor in use ends by position `2 ^ 63`. -/
def FileSys.InRange (s : FileSys H) (fd : Int) (buf : List UInt8) : Prop :=
  ∀ i, s.fd? fd = some i → (s.fdTable i).pos + buf.length ≤ 2 ^ 63

/-- One call, with its answer. -/
def FileStep (A : Allocator H) (s : FileSys H) : FileEvent → FileSys H → Prop
  | .open name r, t => fileOpen A s.clearOom name = some (r, t)
  | .close fd r, t => fileClose s.clearOom fd = (r, t)
  | .read fd n r bytes, t => fileRead s.clearOom fd n = some (r, bytes, t)
  | .write fd buf r noMemory, t =>
      s.InRange fd buf ∧ fileWrite A s.clearOom fd buf = some (r, t) ∧ t.fs.oom = noMemory

/-- What holds between calls. -/
structure FileInv (A : Allocator H) (s : FileSys H) : Prop where
  tree : ∃ kids depth, RamfsInv A s.fs kids depth
  cwd : HasCwd s.fs
  /-- A descriptor in use is on a file, at a position in it. -/
  fds : ∀ {i}, (s.fdTable i).used = true → 3 ≤ i ∧ i < maxFd ∧ (s.fdTable i).isDir = false ∧
    ∃ n, s.fs.nodes (s.fdTable i).node = some n ∧ n.type = .file ∧ (s.fdTable i).pos ≤ n.size

/-- The state shows what the model says. -/
structure Refines (s : FileSys H) (m : FileModel) : Prop where
  file : ∀ f, m.file f = fileBytes s.fs f
  desc : ∀ i, m.desc i =
    if (s.fdTable i).used then some ((s.fdTable i).node, (s.fdTable i).pos) else none

/-- The invariant does not speak of the ghost. -/
theorem RamfsInv.setOom {s : Ramfs H} (inv : RamfsInv A s kids depth) (b : Bool) :
    RamfsInv A { s with oom := b } kids depth :=
  ⟨inv.links, inv.bufs.held, inv.bufs.caps, inv.bufs.own, inv.bufs.nodeLive, inv.bufs.bufLive,
    inv.bufs.apart⟩

namespace Refines

variable {m : FileModel} (r : Refines s m)
include r

/-- A number that the code refuses is no open descriptor of the model. -/
theorem bad (inv : FileInv A s) {fd : Int} (refused : s.fd? fd = none) : m.Bad fd := by
  rintro i rfl
  rw [r.desc i]
  by_cases used : (s.fdTable i).used = true
  · obtain ⟨low, high, -⟩ := inv.fds used
    have taken : s.fd? i = some i := FileSys.fd?_eq_some.mpr ⟨rfl, low, high, used⟩
    rw [refused] at taken
    cases taken
  · rw [if_neg used]

/-- A number that the code takes is an open descriptor of the model. -/
theorem held {fd : Int} {i : Nat} (taken : s.fd? fd = some i) :
    m.desc i = some ((s.fdTable i).node, (s.fdTable i).pos) := by
  obtain ⟨-, -, -, used⟩ := FileSys.fd?_eq_some.mp taken
  rw [r.desc i, if_pos used]

/-- One descriptor changes, and nothing else the model sees. -/
theorem move {i : Nat} {f : Fd} (files : ∀ q, fileBytes t.fs q = fileBytes s.fs q)
    (table : t.fdTable = Function.update s.fdTable i f) :
    Refines t (m.move i (if f.used then some (f.node, f.pos) else none)) := by
  refine ⟨fun q => (r.file q).trans (files q).symm, fun j => ?_⟩
  by_cases here : j = i
  · subst here
    rw [table, FileModel.move_desc, Function.update_self, Function.update_self]
  · rw [table, FileModel.move_desc, Function.update_of_ne here, Function.update_of_ne here, r.desc j]

end Refines

/-- Changing the descriptor `i` keeps the invariant, when it stays on a file. -/
theorem FileInv.move (inv : FileInv A s) {i : Nat} {f : Fd}
    (tree : ∃ kids depth, RamfsInv A t.fs kids depth)
    (kept : ∀ {p n}, s.fs.nodes p = some n → ∃ n', t.fs.nodes p = some n' ∧ n'.type = n.type ∧
      n.size ≤ n'.size)
    (cwd : t.fs.cwd = s.fs.cwd) (table : t.fdTable = Function.update s.fdTable i f)
    (good : f.used = true → 3 ≤ i ∧ i < maxFd ∧ f.isDir = false ∧
      ∃ n, t.fs.nodes f.node = some n ∧ n.type = .file ∧ f.pos ≤ n.size) : FileInv A t := by
  refine ⟨tree, ?_, fun {j} used => ?_⟩
  · obtain ⟨n, at_cwd⟩ := inv.cwd
    obtain ⟨n', at_cwd', -⟩ := kept at_cwd
    exact ⟨n', by rw [cwd, at_cwd']⟩
  · rw [table] at used ⊢
    by_cases here : j = i
    · subst here
      rw [Function.update_self] at used ⊢
      exact good used
    · rw [Function.update_of_ne here] at used ⊢
      obtain ⟨low, high, dir, n, at_f, file, pos⟩ := inv.fds used
      obtain ⟨n', at_f', type, size⟩ := kept at_f
      exact ⟨low, high, dir, n', at_f', type.trans file, by omega⟩

/-! ## One call -/

/-- The nodes of `s` are there, with their types, and no shorter. -/
def Larger (s t : Ramfs H) : Prop :=
  ∀ {p n}, s.nodes p = some n → ∃ n', t.nodes p = some n' ∧ n'.type = n.type ∧ n.size ≤ n'.size

/-- **Opening.** -/
theorem fileOpen_refines (inv : FileInv A s) (name : CString) :
    ∃ r t, fileOpen A s name = some (r, t) ∧ FileInv A t ∧
      ∀ {m}, Refines s m → ∃ m', FileModel.Step m (.open name r) m' ∧ Refines t m' := by
  obtain ⟨kids, depth, tree⟩ := inv.tree
  obtain ⟨r, t, ran, -, tree', kept, bytes, -, cwd, result⟩ := fileOpen_spec tree (.inr inv.cwd)
  have larger : Larger s.fs t.fs := fun h => by
    obtain ⟨n', at_p, same⟩ := kept h
    exact ⟨n', at_p, by rw [same], by rw [same]⟩
  refine ⟨r, t, ran, ?_⟩
  rcases result with ⟨rfl, table⟩ | ⟨i, f, n, rfl, low, high, unused, table, at_f, file⟩
  · refine ⟨⟨tree', ?_, fun {j} used => ?_⟩, fun {m} ref => ⟨m, .openFails name, fun q => ?_,
      fun j => ?_⟩⟩
    · obtain ⟨n, at_cwd⟩ := inv.cwd
      obtain ⟨n', at_cwd', -⟩ := larger at_cwd
      exact ⟨n', by rw [cwd]; exact at_cwd'⟩
    · rw [table] at used ⊢
      obtain ⟨low, high, dir, n, at_f, file, pos⟩ := inv.fds used
      obtain ⟨n', at_f', type, size⟩ := larger at_f
      exact ⟨low, high, dir, n', at_f', type.trans file, Nat.le_trans pos size⟩
    · exact (ref.file q).trans (bytes q).symm
    · rw [table]
      exact ref.desc j
  · refine ⟨inv.move tree' larger cwd table fun _ => ⟨low, high, rfl, n, at_f, file, by simp⟩,
      fun {m} ref => ⟨_, .opens name f ?_, ref.move bytes table⟩⟩
    rw [ref.desc i, unused, if_neg (by decide)]

/-- **Closing.** -/
theorem fileClose_refines (inv : FileInv A s) (fd : Int) :
    ∃ r t, fileClose s fd = (r, t) ∧ FileInv A t ∧
      ∀ {m}, Refines s m → ∃ m', FileModel.Step m (.close fd r) m' ∧ Refines t m' := by
  unfold fileClose
  cases taken : s.fd? fd with
  | none => exact ⟨-1, s, rfl, inv, fun {m} ref => ⟨m, .badClose (ref.bad inv taken), ref⟩⟩
  | some i =>
      obtain ⟨rfl, -⟩ := FileSys.fd?_eq_some.mp taken
      refine ⟨0, s.setFd i .closed, rfl,
        inv.move inv.tree (fun h => ⟨_, h, rfl, Nat.le_refl _⟩) rfl rfl
          (fun used => absurd used (by decide)),
        fun {m} ref => ⟨_, .closes (ref.held taken), ?_⟩⟩
      exact ref.move (t := s.setFd i .closed) (f := .closed) (fun _ => rfl) rfl

/-- The descriptor `i` moved by the bytes transferred. -/
def FileSys.advance (s : FileSys H) (i k : Nat) : FileSys H :=
  s.setFd i { s.fdTable i with pos := (s.fdTable i).pos + k }

/-- A descriptor does not move where no bytes are transferred. -/
theorem advance_eq (s : FileSys H) {i : Nat} {f : Fd} (at_i : s.fdTable i = f) (k : Nat) :
    (if 0 < (k : Int) then s.setFd i { f with pos := f.pos + (k : Int).toNat } else s) =
      s.advance i k := by
  subst at_i
  by_cases some_byte : 0 < (k : Int)
  · rw [if_pos some_byte, Int.toNat_natCast]
    rfl
  · obtain rfl : k = 0 := by omega
    rw [if_neg some_byte, FileSys.advance, FileSys.setFd, Nat.add_zero, Function.update_eq_self]

/-- A used descriptor that moves is the model's descriptor that moves. -/
theorem Refines.advance {m : FileModel} (ref : Refines s m) {i k : Nat}
    (used : (s.fdTable i).used = true) :
    Refines (s.advance i k) (m.move i (some ((s.fdTable i).node, (s.fdTable i).pos + k))) := by
  have moved := ref.move (t := s.advance i k)
    (f := { s.fdTable i with pos := (s.fdTable i).pos + k }) (fun _ => rfl) rfl
  dsimp only at moved
  rwa [if_pos used] at moved

/-- **Reading.** -/
theorem fileRead_refines (inv : FileInv A s) (fd : Int) (n : Nat) :
    ∃ r bytes t, fileRead s fd n = some (r, bytes, t) ∧ FileInv A t ∧
      ∀ {m}, Refines s m → ∃ m', FileModel.Step m (.read fd n r bytes) m' ∧ Refines t m' := by
  cases taken : s.fd? fd with
  | none =>
      exact ⟨-1, [], s, by simp only [fileRead, taken], inv,
        fun {m} ref => ⟨m, .badRead n (ref.bad inv taken), ref⟩⟩
  | some i =>
      obtain ⟨rfl, low, high, used⟩ := FileSys.fd?_eq_some.mp taken
      obtain ⟨kids, depth, tree⟩ := inv.tree
      obtain ⟨-, -, dir, node, at_f, file, pos⟩ := inv.fds used
      obtain ⟨bytes, ran, eq⟩ := ramfsRead_spec tree at_f file n (s.fdTable i).pos
      have count : bytes.length ≤ node.size - (s.fdTable i).pos := by
        rw [eq, List.length_take, List.length_drop, tree.bufs.length_fileBytes at_f]
        omega
      have answers : fileRead s i n = some ((bytes.length : Int), bytes, s.advance i bytes.length) := by
        simp only [fileRead, taken, dir, ran, Option.map_some, Bool.false_eq_true, if_false]
        rw [← advance_eq s rfl, dir]
      refine ⟨bytes.length, bytes, s.advance i bytes.length, answers,
        inv.move inv.tree (fun h => ⟨_, h, rfl, Nat.le_refl _⟩) rfl rfl
          (fun _ => ⟨low, high, dir, node, at_f, file, by dsimp only; omega⟩),
        fun {m} ref => ⟨_, .reads (ref.held taken) ?_, ref.advance used⟩⟩
      rw [ref.file]
      exact eq

/-- **Writing.** -/
theorem fileWrite_refines (inv : FileInv A s) (fresh : s.fs.oom = false) (fd : Int)
    (buf : List UInt8) (range : s.InRange fd buf) :
    ∃ r t, fileWrite A s fd buf = some (r, t) ∧ FileInv A t ∧
      ∀ {m}, Refines s m →
        ∃ m', FileModel.Step m (.write fd buf r t.fs.oom) m' ∧ Refines t m' := by
  cases taken : s.fd? fd with
  | none =>
      refine ⟨-1, s, by simp only [fileWrite, taken], inv, fun {m} ref => ⟨m, ?_, ref⟩⟩
      rw [fresh]
      exact .badWrite buf (ref.bad inv taken)
  | some i =>
      obtain ⟨rfl, low, high, used⟩ := FileSys.fd?_eq_some.mp taken
      obtain ⟨kids, depth, tree⟩ := inv.tree
      obtain ⟨-, -, dir, node, at_f, file, pos⟩ := inv.fds used
      obtain ⟨fs, tree', ⟨ran, files, failed⟩ | ⟨-, ran, w⟩⟩ :=
        ramfsWrite_spec tree at_f (range i taken)
      · -- no memory: nothing has changed
        have noMemory : fs.oom = true := by
          rcases failed with ⟨dir', -⟩ | ⟨-, noMemory⟩
          · exact absurd file dir'
          · exact noMemory
        have bytes : ∀ q, fileBytes fs q = fileBytes s.fs q := fun q => by
          rw [fileBytes, fileBytes, files.nodes, files.bufs]
        refine ⟨-1, { s with fs }, ?_, ⟨⟨kids, depth, tree'⟩, ?_, fun {j} used => ?_⟩,
          fun {m} ref => ⟨m, ?_, fun q => (ref.file q).trans (bytes q).symm, ref.desc⟩⟩
        · simp only [fileWrite, taken, dir, ran, Option.map_some, Bool.false_eq_true, if_false]
          rw [if_neg (by decide)]
        · obtain ⟨n, at_cwd⟩ := inv.cwd
          exact ⟨n, by dsimp only; rw [files.nodes, files.cwd, at_cwd]⟩
        · dsimp only
          rw [files.nodes]
          exact inv.fds used
        · dsimp only
          rw [noMemory]
          exact .writeFails buf (ref.held taken)
      · have same : fs.oom = false := w.oom.trans fresh
        obtain ⟨node', at_f', shell, size⟩ := w.node
        simp only [Node.shell, Prod.mk.injEq] at shell
        have larger : Larger s.fs fs := fun {p n} h => by
          by_cases here : p = (s.fdTable i).node
          · subst here
            obtain rfl := Option.some.inj (h.symm.trans at_f)
            exact ⟨node', at_f', shell.2.1, by omega⟩
          · exact ⟨n, (w.nodes here).trans h, rfl, Nat.le_refl _⟩
        let written : FileSys H := { s with fs }
        have answers : fileWrite A s i buf =
            some ((buf.length : Int), written.advance i buf.length) := by
          simp only [fileWrite, taken, dir, ran, Option.map_some, Bool.false_eq_true, if_false]
          rw [← advance_eq written rfl]
          simp only [written, dir]
        refine ⟨buf.length, written.advance i buf.length, answers,
          inv.move ⟨kids, depth, tree'⟩ larger w.cwd rfl
            (fun _ => ⟨low, high, dir, node', at_f', shell.2.1.trans file,
              show (s.fdTable i).pos + buf.length ≤ node'.size by omega⟩),
          fun {m} ref => ?_⟩
        have one := FileModel.Step.writes buf (ref.held taken)
        have shows : Refines written (m.put (s.fdTable i).node (s.fdTable i).pos buf) := by
          refine ⟨fun q => ?_, ref.desc⟩
          by_cases here : q = (s.fdTable i).node
          · subst here
            rw [FileModel.put_file, Function.update_self, ref.file]
            exact (w.bytes pos).symm
          · rw [FileModel.put_file, Function.update_of_ne here, ref.file]
            exact (w.others here).symm
        refine ⟨_, ?_, shows.advance used⟩
        rw [show (written.advance i buf.length).fs.oom = false from same]
        exact one

/-! ## Runs -/

/-- The invariant does not speak of the ghost. -/
theorem FileInv.clearOom (inv : FileInv A s) : FileInv A s.clearOom := by
  obtain ⟨kids, depth, tree⟩ := inv.tree
  exact ⟨⟨kids, depth, tree.setOom false⟩, inv.cwd, inv.fds⟩

/-- Nor does the model. -/
theorem Refines.clearOom {m : FileModel} (ref : Refines s m) : Refines s.clearOom m :=
  ⟨ref.file, ref.desc⟩

/-- **One call** of the code is one call of the model with the same answer. -/
theorem fileStep_refines (inv : FileInv A s) {e : FileEvent} (step : FileStep A s e t) :
    FileInv A t ∧ ∀ {m}, Refines s m → ∃ m', FileModel.Step m e m' ∧ Refines t m' := by
  cases e with
  | «open» name r =>
      obtain ⟨r', t', ran, inv', sim⟩ := fileOpen_refines inv.clearOom name
      obtain ⟨rfl, rfl⟩ := Prod.mk.inj (Option.some.inj (ran.symm.trans step))
      exact ⟨inv', fun ref => sim ref.clearOom⟩
  | close fd r =>
      obtain ⟨r', t', ran, inv', sim⟩ := fileClose_refines inv.clearOom fd
      obtain ⟨rfl, rfl⟩ := Prod.mk.inj (ran.symm.trans step)
      exact ⟨inv', fun ref => sim ref.clearOom⟩
  | read fd n r bytes =>
      obtain ⟨r', bytes', t', ran, inv', sim⟩ := fileRead_refines inv.clearOom fd n
      obtain ⟨rfl, rest⟩ := Prod.mk.inj (Option.some.inj (ran.symm.trans step))
      obtain ⟨rfl, rfl⟩ := Prod.mk.inj rest
      exact ⟨inv', fun ref => sim ref.clearOom⟩
  | write fd buf r noMemory =>
      obtain ⟨range, ran, rfl⟩ := step
      obtain ⟨r', t', ran', inv', sim⟩ := fileWrite_refines inv.clearOom rfl fd buf range
      obtain ⟨rfl, rfl⟩ := Prod.mk.inj (Option.some.inj (ran'.symm.trans ran))
      exact ⟨inv', fun ref => sim ref.clearOom⟩

/-- The calls there are, without their answers. -/
def FileEvent.Answered (A : Allocator H) (s : FileSys H) : FileEvent → Prop
  | .open name _ => ∃ r t, FileStep A s (.open name r) t
  | .close fd _ => ∃ r t, FileStep A s (.close fd r) t
  | .read fd n _ _ => ∃ r bytes t, FileStep A s (.read fd n r bytes) t
  | .write fd buf _ _ => s.InRange fd buf → ∃ r o t, FileStep A s (.write fd buf r o) t

/-- Every call is answered. -/
theorem FileInv.answers (inv : FileInv A s) (e : FileEvent) : e.Answered A s := by
  cases e with
  | «open» name r =>
      obtain ⟨r', t, ran, -⟩ := fileOpen_refines inv.clearOom name
      exact ⟨r', t, ran⟩
  | close fd r =>
      obtain ⟨r', t, ran, -⟩ := fileClose_refines inv.clearOom fd
      exact ⟨r', t, ran⟩
  | read fd n r bytes =>
      obtain ⟨r', bytes', t, ran, -⟩ := fileRead_refines inv.clearOom fd n
      exact ⟨r', bytes', t, ran⟩
  | write fd buf r noMemory =>
      intro range
      obtain ⟨r', t, ran, -⟩ := fileWrite_refines inv.clearOom rfl fd buf range
      exact ⟨r', t.fs.oom, t, range, ran, rfl⟩

/-- **The descriptors are what they are for.**  Start with any tree and no descriptor
in use.  Every run of calls is a run of the model with the same answers, from the
contents there are; every call is answered; and every descriptor in use stands in its
file, whose size its buffer has room for. -/
theorem fileRun_refines {fs : Ramfs H} (tree : RamfsInv A fs kids depth) (here : HasCwd fs)
    {es : List FileEvent} (run : Run (FileStep A) (fileInit fs) es s) :
    (∃ m, Run FileModel.Step ⟨fileBytes fs, fun _ => none⟩ es m ∧ Refines s m) ∧
      (∀ e : FileEvent, e.Answered A s) ∧
      ∀ i, (s.fdTable i).used = true → ∃ n, s.fs.nodes (s.fdTable i).node = some n ∧
        (s.fdTable i).pos ≤ n.size ∧ n.size ≤ n.capacity := by
  have start : FileInv A (fileInit fs) :=
    ⟨⟨kids, depth, tree⟩, here, fun used => absurd used (by decide : ¬ Fd.closed.used = true)⟩
  have inv : FileInv A s := run.invariant (FileInv A) (fun inv step => (fileStep_refines inv step).1)
    start
  refine ⟨?_, inv.answers, fun i used => ?_⟩
  · obtain ⟨m, model, -, ref⟩ := run.simulates (fun s m => FileInv A s ∧ Refines s m)
      (fun ⟨inv, ref⟩ step => by
        obtain ⟨inv', sim⟩ := fileStep_refines inv step
        obtain ⟨m', one, ref'⟩ := sim ref
        exact ⟨m', one, inv', ref'⟩)
      (m := ⟨fileBytes fs, fun _ => none⟩) ⟨start, fun _ => rfl, fun _ => rfl⟩
    exact ⟨m, model, ref⟩
  · obtain ⟨kids', depth', tree'⟩ := inv.tree
    obtain ⟨-, -, -, n, at_f, -, pos⟩ := inv.fds used
    exact ⟨n, at_f, pos, (tree'.bufs.size_le at_f).1⟩

/-- Two descriptors on a new file: what is written through one is read through the other. -/
theorem fileRun_refines_two :
    ∃ s : FileSys CountingHeap, Run (FileStep countingAllocator)
        (fileInit (ramfsInit countingAllocator (Ramfs.empty CountingHeap.empty)))
        [.open [97] 3, .open [97] 4, .write 3 [1, 2] 2 false, .read 4 5 2 [1, 2]] s ∧
      (s.fdTable 4).pos = 2 ∧
      ∃ m, Run FileModel.Step ⟨fileBytes
          (ramfsInit countingAllocator (Ramfs.empty CountingHeap.empty)), fun _ => none⟩
        [.open [97] 3, .open [97] 4, .write 3 [1, 2] 2 false, .read 4 5 2 [1, 2]] m ∧
        Refines s m := by
  have range : ∀ {s : FileSys CountingHeap}, (s.fdTable 3).pos = 0 → s.InRange 3 [1, 2] := by
    intro s start i taken
    obtain ⟨eq, -⟩ := FileSys.fd?_eq_some.mp taken
    obtain rfl : i = 3 := by omega
    rw [start]
    decide
  have run : ∃ s : FileSys CountingHeap, Run (FileStep countingAllocator)
        (fileInit (ramfsInit countingAllocator (Ramfs.empty CountingHeap.empty)))
        [.open [97] 3, .open [97] 4, .write 3 [1, 2] 2 false, .read 4 5 2 [1, 2]] s ∧
      (s.fdTable 4).pos = 2 :=
    ⟨_, .cons rfl (.cons rfl (.cons ⟨range rfl, rfl, rfl⟩ (.single rfl))), rfl⟩
  obtain ⟨s, run, pos⟩ := run
  rcases ramfsInit_spec (A := countingAllocator) CountingHeap.empty with ⟨depth, tree⟩ | none
  · have here : HasCwd (ramfsInit countingAllocator (Ramfs.empty CountingHeap.empty)) :=
      ⟨_, rfl⟩
    exact ⟨s, run, pos, (fileRun_refines tree here run).1⟩
  · exact absurd none.root (by decide)

end Flyos
