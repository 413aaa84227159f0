import Flyos.Fs.Alike
import Flyos.Fs.Persist

/-!
# What tasks see of their calls

`fsCall` says what a system call does to the files; `fsAnswer` is what it gives back to the
task, and what it shows on the terminal.  Two more calls only read the tree, `SYS_LS` and
`SYS_GETCWD`.
-/

namespace Flyos

variable {H K : Type*} {A : Allocator H} {B : Allocator K} {Rel : H → K → Prop}

/-! ## Answers -/

/-- What a call gives back: its result, the bytes that it stores for the task, and those that
it shows on the terminal. -/
structure Reply where
  result : Int
  bytes : List UInt8
  shown : List UInt8
  deriving DecidableEq

/-- A result and nothing else. -/
def Reply.value (r : Int) : Reply := ⟨r, [], []⟩

/-- The loop of `SYS_LS`, with the bytes that are in the buffer. -/
def lsLoop (s : Ramfs H) (max : Nat) : Nat → Nat → List UInt8 → Option (List UInt8)
  | 0, _, _ => none
  | fuel + 1, c, buf =>
      if c = 0 then some buf
      else (s.nodes c).bind fun n =>
        let line := n.name ++ (if n.type = .dir then [47] else []) ++ [10]
        if max < buf.length + line.length then some buf
        else lsLoop s max fuel n.next (buf ++ line)

/-- `SYS_LS` into a buffer of `max` bytes: what it stores there. -/
def sysLs (s : Ramfs H) (max : Nat) : Option (List UInt8) :=
  (s.nodes s.cwd).bind fun dir => lsLoop s max walkFuel dir.children []

/-- `kfree` of a block that holds no node and no buffer. -/
def Ramfs.release (A : Allocator H) (s : Ramfs H) (p : Nat) : Ramfs H :=
  { s with heap := A.free s.heap p }

/-- `persist_save`, as far as the task sees: `written` when the disk takes all sectors. -/
def sysSync (A : Allocator H) (s : Ramfs H) (written : Bool) : Option (Int × Ramfs H) :=
  let blob := s.kmalloc A blobMax
  if blob.1 = 0 then some (-1, blob.2)
  else (ramfsSerialize blob.2 (A.junk s.heap blobMax) blobMax).map fun image =>
    (if image.isSome && written then 0 else -1, blob.2.release A blob.1)

/-- **The answer of a call** of task `k`.  `SYS_EXIT` does not return, and a fork is not one of
these calls, for its record comes from the heap. -/
def fsAnswer (A : Allocator H) (s : TaskSystem H) (k : Nat) : FsCall → Option Reply
  | .file (.open name) => (fileOpen A s.io.sys name).map fun r => .value r.1
  | .file (.close fd) => some (.value (fileClose s.io.sys fd).1)
  | .file (.fread fd n) => (fileRead s.io.sys fd n).map fun r => ⟨r.1, r.2.1, []⟩
  | .file (.fwrite fd buf) => (fileWrite A s.io.sys fd buf).map fun r => .value r.1
  | .file (.write buf) => (sysWrite A s.io k buf).map fun r =>
      ⟨r.1, [], if (s.io.redir k).stdoutNode = 0 then buf else []⟩
  | .file (.read n typed) => (sysRead s.io k n typed).map fun r => ⟨r.1, r.2.1, []⟩
  | .file (.redir which name) => (sysRedir A s.io k which name).map fun r => .value r.1
  | .unlink path => (sysUnlink A s.io.sys.fs path).map fun r => .value r.1
  | .mkdir path => (sysMkdir A s.io.sys.fs path).map fun r => .value r.1
  | .chdir path => (sysChdir s.io.sys.fs path).map fun r => .value r.1
  | .opendir path => (dirOpen s.io.sys path).map fun r => .value r.1
  | .readdir fd max => (dirRead s.io.sys fd max).map fun r =>
      ⟨r.1, r.2.1.elim [] fun entry => entry.1, []⟩
  | .fork _ => none
  | .exit => some (.value 0)

/-! ## Tasks in states that are alike -/

/-- **The same redirections**: to the same files, and there from the same positions.  The
position beside a null node is not looked at. -/
structure Redir.SameTargets (d e : Redir) : Prop where
  stdin : e.stdinNode = d.stdinNode
  stdout : e.stdoutNode = d.stdoutNode
  stdinPos : d.stdinNode ≠ 0 → e.stdinPos = d.stdinPos
  stdoutPos : d.stdoutNode ≠ 0 → e.stdoutPos = d.stdoutPos

/-- Files and descriptors are alike, and the redirections of task `k`. -/
structure IoAlike (Rel : H → K → Prop) (k : Nat) (s : TaskFiles H) (t : TaskFiles K) : Prop where
  sys : SysAlike Rel s.sys t.sys
  redir : (s.redir k).SameTargets (t.redir k)

/-- The same tasks are alive, too. -/
structure TaskAlike (Rel : H → K → Prop) (k : Nat) (s : TaskSystem H) (t : TaskSystem K) :
    Prop where
  io : IoAlike Rel k s.io t.io
  alive : t.alive = s.alive

section Io

variable {s : TaskFiles H} {t : TaskFiles K} {k : Nat} (alike : IoAlike Rel k s t)

include alike

/-- Another state of the file system. -/
theorem IoAlike.setFs {fs : Ramfs H} {fs' : Ramfs K} (alike' : FsAlike Rel fs fs') :
    IoAlike Rel k (s.setFs fs) (t.setFs fs') :=
  ⟨⟨alike', alike.sys.fds⟩, alike.redir⟩

/-- Another state of the files. -/
theorem IoAlike.setSys {sys : FileSys H} {sys' : FileSys K} (alike' : SysAlike Rel sys sys') :
    IoAlike Rel k { s with sys } { t with sys := sys' } :=
  ⟨alike', alike.redir⟩

/-- Other redirections. -/
theorem IoAlike.setRedir {d e : Redir} (same : d.SameTargets e) :
    IoAlike Rel k (s.setRedir k d) (t.setRedir k e) := by
  refine ⟨alike.sys, ?_⟩
  rw [TaskFiles.setRedir_redir, TaskFiles.setRedir_redir, Function.update_self,
    Function.update_self]
  exact same

/-- `SYS_WRITE`, without a gap. -/
theorem IoAlike.sysWrite (answers : AnswersAlike A B Rel) {kids : Nat → List Nat}
    {depth : Nat → Nat} (inv : RamfsInv A s.sys.fs kids depth) {buf : List UInt8}
    (inside : (s.redir k).stdoutNode ≠ 0 →
      StartsInside A s.sys.fs (s.redir k).stdoutNode buf (s.redir k).stdoutPos) :
    Option.Rel (SameAnswer (IoAlike Rel k)) (sysWrite A s k buf) (sysWrite B t k buf) := by
  rw [Flyos.sysWrite, Flyos.sysWrite]
  rw [alike.redir.stdout]
  refine .ite (fun redirected => ?_) fun _ => .some ⟨rfl, alike⟩
  rw [alike.redir.stdoutPos redirected]
  refine (alike.sys.fs.ramfsWrite answers inv (inside redirected)).map fun {x y} same => ?_
  exact ⟨rfl, (alike.setFs same.2).setRedir
    ⟨alike.redir.stdin, rfl, alike.redir.stdinPos, fun _ => rfl⟩⟩

/-- `SYS_READ`. -/
theorem IoAlike.sysRead (n : Nat) (typed : List UInt8) :
    Option.Rel (fun x y => y.1 = x.1 ∧ SameAnswer (IoAlike Rel k) x.2 y.2)
      (sysRead s k n typed) (sysRead t k n typed) := by
  rw [Flyos.sysRead, Flyos.sysRead]
  rw [alike.redir.stdin]
  refine .ite (fun redirected => ?_) fun _ => .some ⟨rfl, rfl, alike⟩
  rw [alike.redir.stdinPos redirected, alike.sys.fs.ramfsRead]
  refine .map_same fun r => ?_
  by_cases some_byte : 0 < r.1
  · rw [if_pos some_byte, if_pos some_byte]
    exact ⟨rfl, rfl, alike.setRedir
      ⟨rfl, alike.redir.stdout, fun _ => rfl, alike.redir.stdoutPos⟩⟩
  · rw [if_neg some_byte, if_neg some_byte]
    exact ⟨rfl, rfl, alike⟩

/-- `SYS_REDIR`. -/
theorem IoAlike.sysRedir (answers : AnswersAlike A B Rel) (which : Int) (name : CString) :
    Option.Rel (SameAnswer (IoAlike Rel k)) (sysRedir A s k which name)
      (sysRedir B t k which name) := by
  rw [Flyos.sysRedir, Flyos.sysRedir]
  refine (alike.sys.fileOpenNode answers name).bind fun {x y} same => ?_
  have alike' := alike.setSys same.2
  dsimp only
  rw [same.1]
  refine .ite (fun _ => .some ⟨rfl, alike'⟩) fun _ => .ite (fun _ => .some ⟨rfl, ?_⟩) fun _ => ?_
  · exact alike'.setRedir ⟨rfl, alike.redir.stdout, fun _ => rfl, alike.redir.stdoutPos⟩
  rw [same.2.fs.nodes]
  cases at_n : x.2.fs.nodes x.1 with
  | none => exact .none
  | some n =>
      have emptied : FsAlike Rel (x.2.fs.setNode x.1 { n with size := 0 })
          (y.2.fs.setNode x.1 { n with size := 0 }) := same.2.fs.setEmpty rfl
      exact .some ⟨rfl, (alike'.setFs emptied).setRedir
        ⟨alike.redir.stdin, rfl, alike.redir.stdinPos, fun _ => rfl⟩⟩

end Io

section Calls

variable {s : TaskSystem H} {t : TaskSystem K} {k : Nat} {kids : Nat → List Nat} {depth : Nat → Nat}

/-- The listing of the current directory. -/
theorem FsAlike.sysLs {s : Ramfs H} {t : Ramfs K} (alike : FsAlike Rel s t) (max : Nat) :
    sysLs t max = sysLs s max := by
  have loop : ∀ fuel c buf, lsLoop t max fuel c buf = lsLoop s max fuel c buf := by
    intro fuel
    induction fuel with
    | zero => exact fun _ _ => rfl
    | succ fuel ih => exact fun c buf => by simp only [lsLoop, alike.nodes, ih]
  simp only [Flyos.sysLs, alike.nodes, alike.cwd, loop]

/-! ### `SYS_SYNC` -/

section Images

variable {s : Ramfs H} {t : Ramfs K} {p max : Nat} {n : Node} {out out' : List UInt8}

/-- Images of the same length, or none. -/
abbrev SameRoom : Option (List UInt8) → Option (List UInt8) → Prop :=
  Option.Rel fun a b => b.length = a.length

/-- The bytes of a file. -/
theorem FsAlike.fileData (alike : FsAlike Rel s t) (at_p : s.nodes p = some n) :
    fileData t n = fileData s n := by
  rw [Flyos.fileData, Flyos.fileData]
  by_cases empty : n.size = 0
  · rw [if_pos empty, if_pos empty]
  rw [if_neg empty, if_neg empty]
  have sizes := alike.sizes n.data
  cases at_b : s.bufs n.data with
  | none =>
      rw [at_b, Option.map_none, Option.map_eq_none_iff] at sizes
      rw [sizes]
  | some b =>
      rw [at_b, Option.map_some, Option.map_eq_some_iff] at sizes
      obtain ⟨c, at_c, length⟩ := sizes
      rw [at_c, Option.bind_some, Option.bind_some, length, alike.bytes at_p at_b at_c]

/-- Bytes behind images of the same length. -/
theorem emit_alike (same : out'.length = out.length) (bs : List UInt8) :
    SameRoom (emit out max bs) (emit out' max bs) := by
  rw [emit, emit, same]
  exact .ite (fun _ => .some (by rw [List.length_append, List.length_append, same])) fun _ => .none

/-- **The image** of the tree takes the same room, whatever the block held that it is written
to. -/
theorem FsAlike.serialize (alike : FsAlike Rel s t) (max fuel : Nat) :
    (∀ {p out out'}, out'.length = out.length →
      Option.Rel SameRoom (serNode s fuel p out max) (serNode t fuel p out' max)) ∧
    ∀ {p out out'}, out'.length = out.length →
      Option.Rel SameRoom (serKids s fuel p out max) (serKids t fuel p out' max) := by
  induction fuel with
  | zero => exact ⟨fun _ => .none, fun _ => .none⟩
  | succ fuel ih =>
      refine ⟨fun {p out out'} same => ?_, fun {p out out'} same => ?_⟩
      · rw [serNode, serNode, alike.nodes]
        cases at_p : s.nodes p with
        | none => exact .none
        | some n =>
            rw [Option.bind_some, Option.bind_some]
            dsimp only
            rw [same]
            refine .ite (fun _ => .some .none) fun _ => (emit_alike same _).bind fun same => ?_
            refine .ite (fun _ => (emit_alike same _).bind fun same => ?_) fun _ =>
              (ih.2 same).bind fun {a b} same => ?_
            · rw [same, alike.fileData at_p]
              refine .ite (fun _ => .some .none) fun _ => .bind_same fun data => ?_
              exact (emit_alike same _).map fun same => .some same
            · cases same with
              | none => exact .some .none
              | some same =>
                  dsimp only
                  rw [same]
                  refine .ite (fun _ => .some .none) fun _ => ?_
                  exact (emit_alike same _).map fun same => .some same
      · rw [serKids, serKids, alike.nodes]
        refine .ite (fun _ => .some (.some same)) fun _ => (ih.1 same).bind fun {a b} same => ?_
        cases same with
        | none => exact .some .none
        | some same => exact .bind_same fun n => ih.2 same

/-- `ramfs_serialize`. -/
theorem FsAlike.ramfsSerialize (alike : FsAlike Rel s t) {old old' : List UInt8}
    (same : old'.length = old.length) (max : Nat) :
    Option.Rel SameRoom (ramfsSerialize s old max) (ramfsSerialize t old' max) := by
  rw [Flyos.ramfsSerialize, Flyos.ramfsSerialize, alike.nodes, alike.root]
  refine .ite (fun _ => .some .none) fun _ => ?_
  have length : (magic ++ (old'.drop 8).take 4).length =
      (magic ++ (old.drop 8).take 4).length := by
    simp only [List.length_append, List.length_take, List.length_drop, same]
  have start : SameRoom (emit [] max (magic ++ (old.drop 8).take 4))
      (emit [] max (magic ++ (old'.drop 8).take 4)) := by
    rw [emit, emit, length]
    exact .ite (fun _ => .some (by rw [List.nil_append, List.nil_append, length])) fun _ => .none
  refine start.bind fun same => .bind_same fun r => ((alike.serialize _ _).2 same).map ?_
  intro a b same
  cases same with
  | none => exact .none
  | some same => exact .some (by
      simp only [overlay, List.length_append, List.length_take, List.length_drop, same])

/-- `kfree` of a block. -/
theorem FsAlike.release (answers : AnswersAlike A B Rel) (alike : FsAlike Rel s t) (p : Nat) :
    FsAlike Rel (s.release A p) (t.release B p) :=
  ⟨answers.free alike.heap p, alike.nodes, alike.root, alike.cwd, alike.sizes, alike.bytes⟩

/-- `SYS_SYNC`. -/
theorem FsAlike.sysSync (answers : AnswersAlike A B Rel) (alike : FsAlike Rel s t)
    (written : Bool) :
    Option.Rel (SameAnswer (FsAlike Rel)) (sysSync A s written) (sysSync B t written) := by
  obtain ⟨same, alike'⟩ := alike.kmalloc answers blobMax
  rw [Flyos.sysSync, Flyos.sysSync, same]
  refine .ite (fun _ => .some ⟨rfl, alike'⟩) fun _ => ?_
  have length : (B.junk t.heap blobMax).length = (A.junk s.heap blobMax).length := by
    rw [B.junk_length, A.junk_length]
  refine (alike'.ramfsSerialize length blobMax).map fun {x y} room => ?_
  exact ⟨by rw [room.isSome_eq], alike'.release answers _⟩

end Images

/-- **What a call gives back** is the same in states that are alike, when its write leaves no
gap. -/
theorem TaskAlike.fsAnswer (answers : AnswersAlike A B Rel) (alike : TaskAlike Rel k s t)
    (inv : RamfsInv A s.io.sys.fs kids depth) {c : FsCall}
    (inside : ∀ f, c = .file f → WritesInside A s.io k f) :
    fsAnswer B t k c = fsAnswer A s k c := by
  have fs := alike.io.sys.fs
  cases c with
  | file f =>
      cases f with
      | «open» name =>
          exact (alike.io.sys.fileOpen answers name).map_eq fun same => by rw [same.1]
      | close fd => exact congrArg (fun r => some (Reply.value r)) (alike.io.sys.fileClose fd).1
      | fread fd n =>
          exact (alike.io.sys.fileRead fd n).map_eq fun same => by rw [same.1, same.2.1]
      | fwrite fd buf =>
          exact (alike.io.sys.fileWrite answers inv (inside _ rfl)).map_eq fun same => by
            rw [same.1]
      | write buf =>
          refine (alike.io.sysWrite answers inv (inside _ rfl)).map_eq fun same => ?_
          rw [same.1, alike.io.redir.stdout]
      | read n typed =>
          exact (alike.io.sysRead n typed).map_eq fun same => by rw [same.1, same.2.1]
      | redir which name =>
          exact (alike.io.sysRedir answers which name).map_eq fun same => by rw [same.1]
  | unlink path => exact (fs.sysUnlink answers path).map_eq fun same => by rw [same.1]
  | mkdir path => exact (fs.sysMkdir answers path).map_eq fun same => by rw [same.1]
  | chdir path => exact (fs.sysChdir path).map_eq fun same => by rw [same.1]
  | opendir path => exact (alike.io.sys.dirOpen path).map_eq fun same => by rw [same.1]
  | readdir fd max =>
      exact (alike.io.sys.dirRead fd max).map_eq fun same => by rw [same.1, same.2.1]
  | fork child => rfl
  | exit => rfl

/-- **What a call leaves** is alike. -/
theorem TaskAlike.fsCall (answers : AnswersAlike A B Rel) (alike : TaskAlike Rel k s t)
    (inv : RamfsInv A s.io.sys.fs kids depth) {c : FsCall}
    (inside : ∀ f, c = .file f → WritesInside A s.io k f) :
    Option.Rel (TaskAlike Rel k) (fsCall A s k c) (fsCall B t k c) := by
  have io := alike.io
  have fs := alike.io.sys.fs
  -- the other parts of the state stay
  have of_io : ∀ {u : TaskFiles H} {v : TaskFiles K}, IoAlike Rel k u v →
      TaskAlike Rel k { s with io := u } { t with io := v } := fun alike' => ⟨alike', alike.alive⟩
  cases c with
  | file f =>
      refine Option.Rel.map (R := fun x y => IoAlike Rel k x.1 y.1) ?_ of_io
      cases f with
      | «open» name => exact (io.sys.fileOpen answers name).map fun same => io.setSys same.2
      | close fd => exact .some (io.setSys (io.sys.fileClose fd).2)
      | fread fd n => exact (io.sys.fileRead fd n).map fun same => io.setSys same.2.2
      | fwrite fd buf =>
          exact (io.sys.fileWrite answers inv (inside _ rfl)).map fun same => io.setSys same.2
      | write buf => exact (io.sysWrite answers inv (inside _ rfl)).map And.right
      | read n typed => exact (io.sysRead n typed).map fun same => same.2.2
      | redir which name => exact (io.sysRedir answers which name).map And.right
  | unlink path =>
      exact (fs.sysUnlink answers path).map fun same => of_io (io.setFs same.2)
  | mkdir path => exact (fs.sysMkdir answers path).map fun same => of_io (io.setFs same.2)
  | chdir path => exact (fs.sysChdir path).map fun same => of_io (io.setFs same.2)
  | opendir path => exact (io.sys.dirOpen path).map fun same => of_io (io.setSys same.2)
  | readdir fd max => exact (io.sys.dirRead fd max).map fun same => of_io (io.setSys same.2.2)
  | fork child =>
      rw [Flyos.fsCall, Flyos.fsCall, alike.alive]
      refine .ite (fun _ => .none) fun _ => .some ⟨⟨io.sys, ?_⟩, by dsimp only⟩
      rw [TaskFiles.setRedir_redir, TaskFiles.setRedir_redir]
      by_cases here : k = child
      · rw [← here, Function.update_self, Function.update_self]
        exact io.redir
      · rw [Function.update_of_ne here, Function.update_of_ne here]
        exact io.redir
  | exit => exact .some ⟨io, by rw [alike.alive]⟩

end Calls

end Flyos
