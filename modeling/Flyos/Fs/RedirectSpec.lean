import Flyos.Fs.Redirect
import Flyos.Fs.WriteCases

/-!
# What the calls of tasks keep

The file system, the descriptors and the redirections of the tasks fit together
(`IoInv`): the tree is well formed, and the current directory, every descriptor in use
and every redirection is on one of its nodes.  The calls that open, read and write files
keep this (`fileCall_inv`), since they remove no node.
-/

namespace Flyos

variable {H : Type*} {A : Allocator H} {kids : Nat → List Nat} {depth : Nat → Nat}

/-! ## What stays -/

/-- A node of the tree, of a type. -/
def OnNode (fs : Ramfs H) (type : NodeType) (p : Nat) : Prop :=
  ∃ n, fs.nodes p = some n ∧ n.type = type

/-- A descriptor in use is on a file or on a directory. -/
def Fd.Ok (fs : Ramfs H) (f : Fd) : Prop :=
  OnNode fs (if f.isDir then .dir else .file) f.node ∧ (f.isDir = false → f.pos < 2 ^ 64)

/-- Redirections are null or on files. -/
structure Redir.Ok (fs : Ramfs H) (d : Redir) : Prop where
  stdin : d.stdinNode ≠ 0 → OnNode fs .file d.stdinNode
  stdout : d.stdoutNode ≠ 0 → OnNode fs .file d.stdoutNode
  pos : d.stdoutPos < 2 ^ 64

/-- **What holds between calls**: nothing dangles. -/
structure IoInv (A : Allocator H) (s : TaskFiles H) : Prop where
  tree : ∃ kids depth, RamfsInv A s.sys.fs kids depth
  cwd : HasCwd s.sys.fs
  fds : ∀ {i}, (s.sys.fdTable i).used = true → (s.sys.fdTable i).Ok s.sys.fs
  redirs : ∀ k, (s.redir k).Ok s.sys.fs

/-- The tree is well formed, and the nodes of `s` are still in it. -/
structure KeepsNodes (A : Allocator H) (s t : Ramfs H) : Prop where
  tree : ∃ kids depth, RamfsInv A t kids depth
  nodes : ∀ {p n}, s.nodes p = some n → ∃ n', t.nodes p = some n' ∧ n'.type = n.type
  cwd : t.cwd = s.cwd

section KeepsNodes

variable {s t : Ramfs H} (keeps : KeepsNodes A s t)
include keeps

theorem OnNode.keep {type : NodeType} {p : Nat} (on : OnNode s type p) : OnNode t type p := by
  obtain ⟨n, at_p, rfl⟩ := on
  exact keeps.nodes at_p

theorem Fd.Ok.keep {f : Fd} (ok : f.Ok s) : f.Ok t := ⟨ok.1.keep keeps, ok.2⟩

theorem Redir.Ok.keep {d : Redir} (ok : d.Ok s) : d.Ok t :=
  ⟨fun redirected => (ok.stdin redirected).keep keeps,
    fun redirected => (ok.stdout redirected).keep keeps, ok.pos⟩

end KeepsNodes

/-- A call that changes neither nodes nor the current directory. -/
theorem KeepsNodes.of_same {s t : Ramfs H} (inv : RamfsInv A t kids depth) (same : SameFiles s t) :
    KeepsNodes A s t :=
  ⟨⟨kids, depth, inv⟩, fun {p n} at_p => ⟨n, by rw [same.nodes, at_p], rfl⟩, same.cwd⟩

variable {s t : TaskFiles H}

/-- A call that keeps the nodes keeps the invariant, when the descriptors and the
redirections that it changes are on nodes. -/
theorem IoInv.keep (inv : IoInv A s) (keeps : KeepsNodes A s.sys.fs t.sys.fs)
    (fds : ∀ i, t.sys.fdTable i = s.sys.fdTable i ∨
      ((t.sys.fdTable i).used = true → (t.sys.fdTable i).Ok t.sys.fs))
    (redirs : ∀ k, t.redir k = s.redir k ∨ (t.redir k).Ok t.sys.fs) : IoInv A t := by
  refine ⟨keeps.tree, ?_, fun {i} used => ?_, fun k => ?_⟩
  · obtain ⟨n, at_cwd⟩ := inv.cwd
    obtain ⟨n', at_cwd', -⟩ := keeps.nodes at_cwd
    exact ⟨n', by rw [keeps.cwd, at_cwd']⟩
  · rcases fds i with same | ok
    · rw [same] at used ⊢
      exact (inv.fds used).keep keeps
    · exact ok used
  · rcases redirs k with same | ok
    · rw [same]
      exact (inv.redirs k).keep keeps
    · exact ok

/-- One entry of a table changes. -/
theorem update_cases {α : Type*} (g : Nat → α) (i : Nat) (x : α) (j : Nat) :
    Function.update g i x j = g j ∨ Function.update g i x j = x := by
  by_cases here : j = i
  · subst here
    exact .inr (Function.update_self ..)
  · exact .inl (Function.update_of_ne here ..)

/-! ## Opening -/

/-- What opening a file leaves: the nodes there were, and all contents. -/
structure Opened (A : Allocator H) (s u : FileSys H) : Prop where
  keeps : KeepsNodes A s.fs u.fs
  bytes : fileBytes u.fs = fileBytes s.fs

/-- A file that was created is empty. -/
theorem createdBy_follows {fs : Ramfs H} (inv : RamfsInv A fs kids depth) {name : CString}
    (walk : Resolvable fs name) :
    Follows (fileBytes fs) (createdBy A fs name) (fileBytes fs) := by
  unfold createdBy
  split
  case h_2 => exact .nil _
  case h_1 c u _ ran =>
    by_cases null : c = 0
    · rw [if_pos null]
      exact .nil _
    rw [if_neg null]
    refine .single (.created ?_)
    obtain ⟨parent, base, split, node, -⟩ := splitPath_spec inv walk
    rw [openCreate_eq, split, Option.bind_some, ramfsCreateFile] at ran
    rcases node with nowhere | ⟨d, at_p⟩
    · rw [nowhere, createNode_null] at ran
      cases ran
      exact absurd rfl null
    obtain ⟨c', u', ran', ⟨zero, -⟩ | ⟨-, -, -, unused, -⟩⟩ := createNode_spec inv at_p .file base
    · obtain ⟨rfl, -⟩ := Prod.mk.inj (Option.some.inj (ran.symm.trans ran'))
      exact absurd zero null
    · obtain ⟨rfl, -⟩ := Prod.mk.inj (Option.some.inj (ran.symm.trans ran'))
      rw [fileBytes, unused]
      rfl

/-- **What `file_open` leaves.** -/
theorem fileOpen_returns {s u : FileSys H} (tree : ∃ kids depth, RamfsInv A s.fs kids depth)
    (here : HasCwd s.fs) {name : CString} {r : Int} (ran : fileOpen A s name = some (r, u)) :
    Opened A s u ∧ ((r = -1 ∧ u.fdTable = s.fdTable) ∨
      ∃ i n : Nat, r = i ∧ 3 ≤ i ∧ i < maxFd ∧ OnNode u.fs .file n ∧
        u.fdTable = Function.update s.fdTable i ⟨true, n, 0, false⟩) := by
  obtain ⟨kids, depth, inv⟩ := tree
  obtain ⟨r', u', ran', -, tree', kept, bytes, -, cwd, result⟩ := fileOpen_spec inv (.inr here)
  obtain ⟨rfl, rfl⟩ := Prod.mk.inj (Option.some.inj (ran.symm.trans ran'))
  refine ⟨⟨⟨tree', fun at_p => ?_, cwd⟩, funext bytes⟩, ?_⟩
  · obtain ⟨n', at_p', same⟩ := kept at_p
    exact ⟨n', at_p', by rw [same]⟩
  · rcases result with failed | ⟨i, n, node, rfl, low, high, -, table, at_n, file⟩
    · exact .inl failed
    · exact .inr ⟨i, n, rfl, low, high, ⟨node, at_n, file⟩, table⟩

/-- **What `file_open_node` leaves**: it closes the descriptor again. -/
theorem fileOpenNode_returns {s u : FileSys H} (tree : ∃ kids depth, RamfsInv A s.fs kids depth)
    (here : HasCwd s.fs) {name : CString} {n : Nat} (ran : fileOpenNode A s name = some (n, u)) :
    Opened A s u ∧ (n ≠ 0 → OnNode u.fs .file n) ∧
      ∀ j, u.fdTable j = s.fdTable j ∨ u.fdTable j = .closed := by
  rw [fileOpenNode] at ran
  obtain ⟨⟨fd, v⟩, opened, rest⟩ := Option.map_eq_some_iff.mp ran
  obtain ⟨left, ⟨rfl, table⟩ | ⟨i, f, rfl, low, high, on, table⟩⟩ := fileOpen_returns tree here opened
  · cases rest
    exact ⟨left, fun ne => absurd rfl ne, fun j => .inl (congrFun table j)⟩
  · have at_i : v.fdTable i = ⟨true, f, 0, false⟩ := by rw [table, Function.update_self]
    have taken : v.fd? i = some i := FileSys.fd?_eq_some.mpr ⟨rfl, low, high, by rw [at_i]⟩
    dsimp only at rest
    rw [if_neg (by omega), Int.toNat_natCast, at_i, fileClose, taken] at rest
    cases rest
    refine ⟨⟨left.keeps, left.bytes⟩, fun _ => on, fun j => ?_⟩
    show (v.setFd i .closed).fdTable j = _ ∨ (v.setFd i .closed).fdTable j = _
    rw [FileSys.setFd_fdTable, table, Function.update_idem]
    exact update_cases ..

/-! ## Reading and writing -/

/-- `kmalloc` has no block for the buffer that a write to node `n` asks for. -/
def NoRoom (A : Allocator H) (fs : Ramfs H) (n : Node) (need : Nat) : Prop :=
  n.capacity < need ∧
    ∃ cap, growCap need 65 (if n.capacity ≠ 0 then n.capacity else 64) = some cap ∧
      (A.malloc fs.heap cap).1 = 0

/-- **A write that leaves no gap**: it starts in its file or at its end, or it finds no
memory. -/
def StartsInside (A : Allocator H) (fs : Ramfs H) (f : Nat) (buf : List UInt8) (off : Nat) :
    Prop :=
  ∀ n, fs.nodes f = some n → off ≤ n.size ∨ NoRoom A fs n ((off + buf.length) % 2 ^ 64)

section Transfers

variable {fs u : Ramfs H} {f off : Nat} {n : Node} {buf : List UInt8} {r : Int}

/-- Without memory a buffer is not made larger. -/
theorem ramfsGrow_noRoom {need : Nat} (full : NoRoom A fs n need) :
    ∃ v, ramfsGrow A fs f n need = some (false, v) := by
  obtain ⟨short, cap, grown, none⟩ := full
  rw [ramfsGrow, if_neg (Nat.not_le.mpr short), grown, Option.bind_some]
  exact ⟨_, if_pos none⟩

/-- Without memory a write fails. -/
theorem ramfsWrite_noRoom (full : NoRoom A fs n ((off + buf.length) % 2 ^ 64))
    (at_f : fs.nodes f = some n) (ran : ramfsWrite A fs f buf off = some (r, u)) : r = -1 := by
  unfold ramfsWrite at ran
  by_cases null : f = 0
  · rw [if_pos null] at ran
    cases ran
    rfl
  rw [if_neg null, at_f, Option.bind_some] at ran
  by_cases file : n.type ≠ .file
  · rw [if_pos file] at ran
    cases ran
    rfl
  obtain ⟨v, fails⟩ := ramfsGrow_noRoom (f := f) full
  rw [if_neg file] at ran
  dsimp only at ran
  rw [fails, Option.bind_some] at ran
  cases ran
  rfl

/-- **A write**: the nodes stay, and without a gap the contents follow what it stored. -/
theorem ramfsWrite_follows (inv : RamfsInv A fs kids depth) (at_f : fs.nodes f = some n)
    (small : off < 2 ^ 64) (ran : ramfsWrite A fs f buf off = some (r, u)) :
    KeepsNodes A fs u ∧ (0 < r → off + r.toNat < 2 ^ 64) ∧
      (StartsInside A fs f buf off →
        Follows (fileBytes fs) (storedBy A fs f buf off) (fileBytes u)) := by
  have effect : storedBy A fs f buf off = if r = -1 then [] else [.stored f off buf] := by
    rw [storedBy, ran]
  rw [effect]
  obtain ⟨inv', ⟨rfl, files⟩ | ⟨-, rfl, w⟩⟩ := ramfsWrite_returns inv at_f small ran
  · refine ⟨.of_same inv' files, fun pos => absurd pos (by decide), fun _ => ?_⟩
    have same : fileBytes u = fileBytes fs := funext fun q => by
      rw [fileBytes, fileBytes, files.nodes, files.bufs]
    rw [if_pos rfl, same]
    exact .nil _
  · obtain ⟨n', at_f', shell, size⟩ := w.node
    simp only [Node.shell, Prod.mk.injEq] at shell
    refine ⟨⟨⟨kids, depth, inv'⟩, fun {p m} at_p => ?_, w.cwd⟩, fun _ => ?_, fun inside => ?_⟩
    · by_cases here : p = f
      · subst here
        obtain rfl := Option.some.inj (at_p.symm.trans at_f)
        exact ⟨n', at_f', shell.2.1⟩
      · exact ⟨m, (w.nodes here).trans at_p, rfl⟩
    · have fits := inv'.bufs.size_le at_f'
      have le : heapSize ≤ 2 ^ 63 := by decide
      rw [Int.toNat_natCast]
      omega
    · have start : off ≤ n.size := (inside n at_f).resolve_right fun full => by
        have failed := ramfsWrite_noRoom full at_f ran
        omega
      have same : fileBytes u =
          Function.update (fileBytes fs) f (overlay (fileBytes fs f) off buf) := by
        funext q
        by_cases here : q = f
        · subst here
          rw [Function.update_self, w.bytes start]
        · rw [Function.update_of_ne here, w.others here]
      rw [if_neg (by omega), same]
      exact .single (.stored buf (by rw [inv.bufs.length_fileBytes at_f]; exact start))

/-- **A read** returns bytes of the file. -/
theorem ramfsRead_follows (inv : RamfsInv A fs kids depth) (on : OnNode fs .file f) {k : Nat}
    {bytes : List UInt8} (ran : ramfsRead fs f k off = some (r, bytes)) :
    Follows (fileBytes fs) [.returned f off bytes] (fileBytes fs) ∧
      (0 < r → off + r.toNat < 2 ^ 64) := by
  obtain ⟨n, at_f, file⟩ := on
  obtain ⟨bytes', ran', eq⟩ := ramfsRead_spec inv at_f file k off
  obtain ⟨rfl, rfl⟩ := Prod.mk.inj (Option.some.inj (ran.symm.trans ran'))
  refine ⟨.single (.returned fun i b there => ?_), fun pos => ?_⟩
  · rw [eq, List.getElem?_take] at there
    split at there
    · rwa [List.getElem?_drop] at there
    · cases there
  · have length := inv.bufs.length_fileBytes at_f
    have fits := inv.bufs.size_le at_f
    have le : heapSize ≤ 2 ^ 63 := by decide
    have count : bytes.length ≤ n.size - off := by
      rw [eq, List.length_take, List.length_drop, length]
      omega
    rw [Int.toNat_natCast]
    omega

/-- **A truncation**: the file is empty, and keeps its buffer. -/
theorem truncate_follows (inv : RamfsInv A fs kids depth) (at_f : fs.nodes f = some n) :
    KeepsNodes A fs (fs.setNode f { n with size := 0 }) ∧
      Follows (fileBytes fs) [.truncated f] (fileBytes (fs.setNode f { n with size := 0 })) := by
  have replaced : Replaced A fs f n { n with size := 0 } (fs.setNode f { n with size := 0 }) :=
    ⟨at_f, rfl, rfl, (inv.bufs.held at_f).imp (fun empty => ⟨empty.1, empty.2.1, rfl⟩)
      fun ⟨nonnull, b, held, length, _⟩ => ⟨nonnull, b, held, length, Nat.zero_le _⟩,
      (inv.bufs.caps at_f :), .inl rfl, fun _ _ => rfl, fun live _ => live, inv.bufs.bufLive, rfl,
      rfl, rfl⟩
  refine ⟨⟨⟨kids, depth, replaced.inv inv⟩, fun {p m} at_p => ?_, rfl⟩, ?_⟩
  · rw [Ramfs.setNode_nodes]
    by_cases here : p = f
    · subst here
      obtain rfl := Option.some.inj (at_p.symm.trans at_f)
      exact ⟨_, Function.update_self .., rfl⟩
    · exact ⟨m, by rw [Function.update_of_ne here, at_p], rfl⟩
  · have same : fileBytes (fs.setNode f { n with size := 0 }) =
        Function.update (fileBytes fs) f [] := by
      funext q
      by_cases here : q = f
      · subst here
        rw [Function.update_self, fileBytes, Ramfs.setNode_nodes, Function.update_self]
        rfl
      · rw [Function.update_of_ne here, replaced.fileBytes_eq inv here]
    rw [same]
    exact .single (.truncated f)

end Transfers

/-! ## One call -/

/-- **The writes of a call leave no gap.** -/
def WritesInside (A : Allocator H) (s : TaskFiles H) (k : Nat) : FileCall → Prop
  | .fwrite fd buf => ∀ i, s.sys.fd? fd = some i → (s.sys.fdTable i).isDir = false →
      StartsInside A s.sys.fs (s.sys.fdTable i).node buf (s.sys.fdTable i).pos
  | .write buf => (s.redir k).stdoutNode ≠ 0 →
      StartsInside A s.sys.fs (s.redir k).stdoutNode buf (s.redir k).stdoutPos
  | _ => True

/-- What every call does: it keeps the invariant, and the contents follow its effects. -/
def Traced (A : Allocator H) (s : TaskFiles H) (inside : Prop) (t : TaskFiles H)
    (es : List FileEffect) : Prop :=
  IoInv A t ∧ (inside → Follows (fileBytes s.sys.fs) es (fileBytes t.sys.fs))

section Calls

variable {k : Nat} {es : List FileEffect} {inside : Prop}

theorem open_traced (inv : IoInv A s) {name : CString}
    (ran : fileCall A s k (.open name) = some (t, es)) : Traced A s inside t es := by
  obtain ⟨⟨r, u⟩, opened, rest⟩ := Option.map_eq_some_iff.mp ran
  cases rest
  obtain ⟨left, result⟩ := fileOpen_returns inv.tree inv.cwd opened
  obtain ⟨kids, depth, tree⟩ := inv.tree
  refine ⟨inv.keep left.keeps (fun j => ?_) fun _ => .inl rfl, fun _ => ?_⟩
  · rcases result with ⟨-, table⟩ | ⟨i, n, -, -, -, on, table⟩
    · exact .inl (congrFun table j)
    · dsimp only
      rw [table]
      refine (update_cases _ i _ j).imp id fun here _ => ?_
      rw [here]
      exact ⟨on, fun _ => Nat.two_pow_pos 64⟩
  · rw [left.bytes]
    exact createdBy_follows tree (.inr inv.cwd)

theorem close_traced (inv : IoInv A s) {fd : Int}
    (ran : fileCall A s k (.close fd) = some (t, es)) : Traced A s inside t es := by
  cases ran
  obtain ⟨kids, depth, tree⟩ := inv.tree
  have files : (fileClose s.sys fd).2.fs = s.sys.fs := by
    rw [fileClose]
    cases s.sys.fd? fd <;> rfl
  have table : ∀ j, (fileClose s.sys fd).2.fdTable j = s.sys.fdTable j ∨
      (fileClose s.sys fd).2.fdTable j = .closed := by
    intro j
    rw [fileClose]
    cases s.sys.fd? fd with
    | none => exact .inl rfl
    | some i => exact update_cases ..
  refine ⟨inv.keep ?_ (fun j => (table j).imp id fun closed used => ?_) fun _ => .inl rfl,
    fun _ => ?_⟩
  · dsimp only
    rw [files]
    exact .of_same tree ⟨rfl, rfl, rfl, rfl⟩
  · dsimp only at used
    rw [closed] at used
    cases used
  · dsimp only
    rw [files]
    exact .nil _

/-- A descriptor moves, on its node. -/
theorem Fd.Ok.advance {fs : Ramfs H} {f : Fd} (ok : f.Ok fs) {r : Int}
    (small : f.isDir = false → 0 < r → f.pos + r.toNat < 2 ^ 64) (moved : 0 < r) :
    Fd.Ok fs { f with pos := f.pos + r.toNat } :=
  ⟨ok.1, fun file => small file moved⟩

theorem fread_traced (inv : IoInv A s) {fd : Int} {n : Nat}
    (ran : fileCall A s k (.fread fd n) = some (t, es)) : Traced A s inside t es := by
  obtain ⟨⟨r, bytes, u⟩, read, rest⟩ := Option.map_eq_some_iff.mp ran
  cases rest
  obtain ⟨kids, depth, tree⟩ := inv.tree
  rw [fileRead] at read
  cases taken : s.sys.fd? fd with
  | none =>
      rw [taken] at read
      cases read
      exact ⟨inv, fun _ => .nil _⟩
  | some i =>
      obtain ⟨-, -, -, used⟩ := FileSys.fd?_eq_some.mp taken
      have ok := inv.fds used
      rw [taken] at read
      dsimp only at read ⊢
      by_cases dir : (s.sys.fdTable i).isDir = true
      · rw [if_pos dir] at read
        cases read
        exact ⟨inv, fun _ => .single (.returned fun j b there => by cases there)⟩
      rw [if_neg dir] at read
      obtain ⟨⟨r', bytes'⟩, inner, rest⟩ := Option.map_eq_some_iff.mp read
      cases rest
      have on : OnNode s.sys.fs .file (s.sys.fdTable i).node := by
        have on := ok.1
        rwa [if_neg dir] at on
      obtain ⟨follows, small⟩ := ramfsRead_follows tree on inner
      dsimp only
      by_cases moved : 0 < r'
      · rw [if_pos moved]
        refine ⟨inv.keep (.of_same tree ⟨rfl, rfl, rfl, rfl⟩) (fun j => ?_) fun _ => .inl rfl,
          fun _ => follows⟩
        exact (update_cases _ i _ j).imp id fun here _ => by
          rw [FileSys.setFd_fdTable, here]
          exact ok.advance (fun _ => small) moved
      · rw [if_neg moved]
        exact ⟨inv, fun _ => follows⟩

theorem fwrite_traced (inv : IoInv A s) {fd : Int} {buf : List UInt8}
    (ran : fileCall A s k (.fwrite fd buf) = some (t, es)) :
    Traced A s (WritesInside A s k (.fwrite fd buf)) t es := by
  obtain ⟨⟨r, u⟩, wrote, rest⟩ := Option.map_eq_some_iff.mp ran
  cases rest
  obtain ⟨kids, depth, tree⟩ := inv.tree
  rw [fileWrite] at wrote
  cases taken : s.sys.fd? fd with
  | none =>
      rw [taken] at wrote
      cases wrote
      exact ⟨inv, fun _ => .nil _⟩
  | some i =>
      obtain ⟨-, -, -, used⟩ := FileSys.fd?_eq_some.mp taken
      have ok := inv.fds used
      rw [taken] at wrote
      dsimp only at wrote ⊢
      by_cases dir : (s.sys.fdTable i).isDir = true
      · rw [if_pos dir] at wrote ⊢
        cases wrote
        exact ⟨inv, fun _ => .nil _⟩
      rw [if_neg dir] at wrote ⊢
      replace dir := Bool.not_eq_true _ ▸ dir
      obtain ⟨⟨r', fs⟩, inner, rest⟩ := Option.map_eq_some_iff.mp wrote
      cases rest
      obtain ⟨n, at_f, -⟩ : OnNode s.sys.fs .file (s.sys.fdTable i).node := by
        have on := ok.1
        rwa [dir] at on
      obtain ⟨keeps, small, follows⟩ := ramfsWrite_follows tree at_f (ok.2 dir) inner
      dsimp only
      by_cases moved : 0 < r'
      · rw [if_pos moved]
        refine ⟨inv.keep keeps (fun j => ?_) fun _ => .inl rfl,
          fun within => follows (within i taken dir)⟩
        exact (update_cases _ i _ j).imp id fun here _ => by
          rw [FileSys.setFd_fdTable, here]
          exact (ok.keep keeps).advance (fun _ => small) moved
      · rw [if_neg moved]
        exact ⟨inv.keep keeps (fun _ => .inl rfl) fun _ => .inl rfl,
          fun within => follows (within i taken dir)⟩

theorem write_traced (inv : IoInv A s) {buf : List UInt8}
    (ran : fileCall A s k (.write buf) = some (t, es)) :
    Traced A s (WritesInside A s k (.write buf)) t es := by
  obtain ⟨⟨r, u⟩, wrote, rest⟩ := Option.map_eq_some_iff.mp ran
  cases rest
  obtain ⟨kids, depth, tree⟩ := inv.tree
  have ok := inv.redirs k
  rw [sysWrite] at wrote
  by_cases terminal : (s.redir k).stdoutNode = 0
  · rw [if_neg (not_not.mpr terminal)] at wrote ⊢
    cases wrote
    exact ⟨inv, fun _ => .nil _⟩
  rw [if_pos terminal] at wrote ⊢
  obtain ⟨⟨r', fs⟩, inner, rest⟩ := Option.map_eq_some_iff.mp wrote
  cases rest
  obtain ⟨n, at_f, -⟩ := ok.stdout terminal
  obtain ⟨keeps, -, follows⟩ := ramfsWrite_follows tree at_f ok.pos inner
  refine ⟨inv.keep keeps (fun _ => .inl rfl) fun j => ?_, fun within => follows (within terminal)⟩
  exact (update_cases s.redir k _ j).imp id fun here => by
    rw [TaskFiles.setRedir_redir, TaskFiles.setFs_redir, here]
    exact ⟨(ok.keep keeps).stdin, (ok.keep keeps).stdout, Nat.mod_lt _ (by decide)⟩

theorem read_traced (inv : IoInv A s) {n : Nat} {typed : List UInt8}
    (ran : fileCall A s k (.read n typed) = some (t, es)) : Traced A s inside t es := by
  obtain ⟨⟨r, bytes, u⟩, read, rest⟩ := Option.map_eq_some_iff.mp ran
  cases rest
  obtain ⟨kids, depth, tree⟩ := inv.tree
  have ok := inv.redirs k
  rw [sysRead] at read
  by_cases keyboard : (s.redir k).stdinNode = 0
  · rw [if_neg (not_not.mpr keyboard)] at read ⊢
    cases read
    exact ⟨inv, fun _ => .nil _⟩
  rw [if_pos keyboard] at read ⊢
  obtain ⟨⟨r', bytes'⟩, inner, rest⟩ := Option.map_eq_some_iff.mp read
  obtain ⟨follows, -⟩ := ramfsRead_follows tree (ok.stdin keyboard) inner
  by_cases moved : 0 < r'
  · rw [if_pos moved] at rest
    cases rest
    refine ⟨inv.keep (.of_same tree ⟨rfl, rfl, rfl, rfl⟩) (fun _ => .inl rfl) fun j => ?_,
      fun _ => follows⟩
    exact (update_cases s.redir k _ j).imp id fun here => by
      rw [TaskFiles.setRedir_redir, here]
      exact ⟨ok.stdin, ok.stdout, ok.pos⟩
  · rw [if_neg moved] at rest
    cases rest
    exact ⟨inv, fun _ => follows⟩

theorem redir_traced (inv : IoInv A s) {which : Int} {name : CString}
    (ran : fileCall A s k (.redir which name) = some (t, es)) : Traced A s inside t es := by
  obtain ⟨⟨r, u⟩, redirected, rest⟩ := Option.map_eq_some_iff.mp ran
  cases rest
  obtain ⟨kids, depth, tree⟩ := inv.tree
  rw [sysRedir] at redirected
  obtain ⟨⟨n, v⟩, opened, rest⟩ := Option.bind_eq_some_iff.mp redirected
  obtain ⟨left, on, table⟩ := fileOpenNode_returns inv.tree inv.cwd opened
  have created : Follows (fileBytes s.sys.fs) (createdBy A s.sys.fs name) (fileBytes v.fs) := by
    rw [left.bytes]
    exact createdBy_follows tree (.inr inv.cwd)
  have fds : ∀ j, v.fdTable j = s.sys.fdTable j ∨
      ((v.fdTable j).used = true → (v.fdTable j).Ok v.fs) := fun j =>
    (table j).imp id fun closed used => by rw [closed] at used; cases used
  dsimp only at rest
  by_cases null : n = 0
  · rw [if_pos null] at rest
    cases rest
    rw [if_neg fun both => absurd both.1 (show ¬ (-1 : Int) = 0 by decide)]
    exact ⟨inv.keep left.keeps fds fun _ => .inl rfl, fun _ => created⟩
  rw [if_neg null] at rest
  have ok := (inv.redirs k).keep left.keeps
  by_cases stdin : which = 0
  · rw [if_pos stdin] at rest
    cases rest
    rw [if_neg fun both => both.2 stdin]
    refine ⟨inv.keep left.keeps fds fun j => ?_, fun _ => created⟩
    exact (update_cases s.redir k _ j).imp id fun here => by
      rw [TaskFiles.setRedir_redir, here]
      exact ⟨fun _ => on null, ok.stdout, ok.pos⟩
  rw [if_neg stdin] at rest
  obtain ⟨node, at_n, done⟩ := Option.map_eq_some_iff.mp rest
  cases done
  obtain ⟨kids', depth', tree'⟩ := left.keeps.tree
  obtain ⟨keeps, truncated⟩ := truncate_follows tree' at_n
  have both : KeepsNodes A s.sys.fs (v.fs.setNode n { node with size := 0 }) := by
    refine ⟨keeps.tree, fun at_p => ?_, keeps.cwd.trans left.keeps.cwd⟩
    obtain ⟨n₁, at_p₁, type₁⟩ := left.keeps.nodes at_p
    obtain ⟨n₂, at_p₂, type₂⟩ := keeps.nodes at_p₁
    exact ⟨n₂, at_p₂, type₂.trans type₁⟩
  refine ⟨inv.keep both (fun j => (fds j).imp id fun ok used => (ok used).keep keeps) fun j => ?_,
    fun _ => ?_⟩
  · exact (update_cases s.redir k _ j).imp id fun here => by
      rw [TaskFiles.setRedir_redir, TaskFiles.setFs_redir, here]
      exact ⟨(ok.keep keeps).stdin, fun _ => (on null).keep keeps, Nat.two_pow_pos 64⟩
  · rw [if_pos ⟨rfl, stdin⟩, TaskFiles.setRedir_redir, Function.update_self]
    cases truncated with
    | cons nothing one =>
        cases nothing
        exact .cons created one

/-- **One call** keeps the invariant, and without a gap the contents follow its effects. -/
theorem fileCall_traced (inv : IoInv A s) {c : FileCall}
    (ran : fileCall A s k c = some (t, es)) : Traced A s (WritesInside A s k c) t es := by
  cases c with
  | «open» name => exact open_traced inv ran
  | close fd => exact close_traced inv ran
  | fread fd n => exact fread_traced inv ran
  | fwrite fd buf => exact fwrite_traced inv ran
  | write buf => exact write_traced inv ran
  | read n typed => exact read_traced inv ran
  | redir which name => exact redir_traced inv ran

end Calls

end Flyos
