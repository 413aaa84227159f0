import Flyos.Fs.FileSpec

/-!
# System calls on paths

`SYS_UNLINK`, `SYS_MKDIR` and `SYS_CHDIR` of `kernel/arch/syscall.c`, and
`fs_mkdir_path` of `kernel/fs/file.c`, which is `SYS_MKDIR` written once more, with the
cases split another way.
-/

namespace Flyos

variable {H : Type*} (A : Allocator H)

/-- `SYS_UNLINK`. -/
def sysUnlink (s : Ramfs H) (path : CString) : Option (Int × Ramfs H) :=
  (ramfsLookup s path).bind fun n => if n = 0 then some (-1, s) else ramfsUnlinkNode A s n

/-- `SYS_MKDIR`. -/
def sysMkdir (s : Ramfs H) (name : CString) : Option (Int × Ramfs H) :=
  (splitPath s name).bind fun r =>
    if r.1 = 0 then some (-1, s)
    else (s.nodes r.1).bind fun d =>
      if d.type ≠ .dir then some (-1, s)
      else (ramfsMkdir A s r.1 r.2).map fun n => (if n.1 ≠ 0 then 0 else -1, n.2)

/-- `fs_mkdir_path`. -/
def fsMkdirPath (s : Ramfs H) (path : CString) : Option (Int × Ramfs H) :=
  if path = [] then some (-1, s)
  else
    let make (parent : Nat) (name : CString) :=
      (ramfsMkdir A s parent name).map fun n => (if n.1 ≠ 0 then 0 else -1, n.2)
    match lastSlash path with
    | none => make s.cwd path
    | some 0 => make s.root (path.drop 1)
    | some (i + 1) =>
        (ramfsLookup s (parentPath path (i + 1))).bind fun parent =>
          if parent = 0 then some (-1, s)
          else (s.nodes parent).bind fun d =>
            if d.type ≠ .dir then some (-1, s) else make parent (path.drop (i + 2))

/-- `ramfs_set_cwd`. -/
def ramfsSetCwd (s : Ramfs H) (n : Nat) : Option (Ramfs H) :=
  if n = 0 then some s
  else (s.nodes n).map fun d => if d.type = .dir then { s with cwd := n } else s

/-- `SYS_CHDIR`. -/
def sysChdir (s : Ramfs H) (path : CString) : Option (Int × Ramfs H) :=
  (ramfsLookup s path).bind fun n =>
    if n = 0 then some (-1, s)
    else (s.nodes n).bind fun d =>
      if d.type ≠ .dir then some (-1, s) else (ramfsSetCwd s n).map fun s => (0, s)

variable {A} {s : Ramfs H} {kids : Nat → List Nat} {depth : Nat → Nat}

/-- A directory is made only where there is a directory to put it in. -/
theorem ramfsMkdir_checked (parent : Nat) (name : CString) :
    (if parent = 0 then some (-1, s)
      else (s.nodes parent).bind fun d =>
        if d.type ≠ .dir then some (-1, s)
        else (ramfsMkdir A s parent name).map fun n => (if n.1 ≠ 0 then (0 : Int) else -1, n.2)) =
      (ramfsMkdir A s parent name).map fun n => (if n.1 ≠ 0 then 0 else -1, n.2) := by
  by_cases null : parent = 0
  · rw [if_pos null, null, ramfsMkdir, createNode_null]
    rfl
  rw [if_neg null, ramfsMkdir, createNode, if_neg null]
  cases s.nodes parent with
  | none => rfl
  | some d =>
      rw [Option.bind_some, Option.bind_some]
      by_cases file : d.type ≠ .dir
      · rw [if_pos file, if_pos file]
        rfl
      · rw [if_neg file]

/-- `SYS_MKDIR` checks twice that it creates in a directory. -/
theorem sysMkdir_eq (name : CString) :
    sysMkdir A s name = (splitPath s name).bind fun r =>
      (ramfsMkdir A s r.1 r.2).map fun n => (if n.1 ≠ 0 then 0 else -1, n.2) := by
  unfold sysMkdir
  congr 1
  funext r
  exact ramfsMkdir_checked r.1 r.2

/-- **What `SYS_MKDIR` does**: it creates a directory where the path says, or not. -/
theorem sysMkdir_spec (inv : RamfsInv A s kids depth) {path : CString} (walk : Resolvable s path) :
    ∃ r t c, sysMkdir A s path = some (r, t) ∧ CreatesAt A .dir s path c t := by
  obtain ⟨parent, base, c, t, split, ran, -⟩ := createAt_spec inv .dir walk
  exact ⟨_, t, c, by rw [sysMkdir_eq, split, Option.bind_some, ramfsMkdir, ran]; rfl,
    parent, base, split, ran⟩

/-- **What `SYS_UNLINK` does**: nothing, or it unlinks the node the path leads to. -/
theorem sysUnlink_spec (inv : RamfsInv A s kids depth) {path : CString}
    (walk : Resolvable s path) :
    ∃ r t, sysUnlink A s path = some (r, t) ∧ (t = s ∨ ∃ c m kids depth,
      ramfsLookup s path = some c ∧ s.nodes c = some m ∧ c ≠ s.root ∧
        ¬ (m.type = .dir ∧ m.children ≠ 0) ∧ Unlinked s c m t ∧ RamfsInv A t kids depth) := by
  obtain ⟨n, looked, node⟩ := ramfsLookup_spec inv walk
  have at_node : sysUnlink A s path = if n = 0 then some (-1, s) else ramfsUnlinkNode A s n := by
    rw [sysUnlink, looked, Option.bind_some]
  rw [at_node]
  by_cases null : n = 0
  · exact ⟨-1, s, if_pos null, .inl rfl⟩
  rw [if_neg null]
  obtain ⟨m, at_n⟩ := node.resolve_left null
  rcases ramfsUnlinkNode_spec inv at_n with ⟨-, ran⟩ | ⟨other, leaf, t, ran, rest, inv'⟩
  · exact ⟨-1, s, ran, .inl rfl⟩
  · refine ⟨0, t, ran, .inr ⟨n, m, _, _, looked, at_n, other, fun full => ?_, rest, inv'⟩⟩
    have chain := inv.links.chain at_n
    rw [leaf] at chain
    exact full.2 chain

/-- **What `SYS_CHDIR` does**: nothing, or the directory the path leads to becomes the
current one. -/
theorem sysChdir_spec (inv : RamfsInv A s kids depth) {path : CString}
    (walk : Resolvable s path) :
    ∃ r t, sysChdir s path = some (r, t) ∧ (t = s ∨ ∃ n d,
      s.nodes n = some d ∧ d.type = .dir ∧ t = { s with cwd := n }) := by
  obtain ⟨n, looked, node⟩ := ramfsLookup_spec inv walk
  unfold sysChdir
  rw [looked, Option.bind_some]
  by_cases null : n = 0
  · exact ⟨-1, s, if_pos null, .inl rfl⟩
  obtain ⟨d, at_n⟩ := node.resolve_left null
  rw [if_neg null, at_n, Option.bind_some]
  by_cases file : d.type ≠ .dir
  · exact ⟨-1, s, if_pos file, .inl rfl⟩
  · rw [if_neg file, ramfsSetCwd, if_neg null, at_n]
    exact ⟨0, _, rfl, .inr ⟨n, d, at_n, not_not.mp file, if_pos (not_not.mp file)⟩⟩

/-- The invariant does not speak of the current directory. -/
theorem RamfsInv.setCwd (inv : RamfsInv A s kids depth) (n : Nat) :
    RamfsInv A { s with cwd := n } kids depth :=
  ⟨inv.links, inv.bufs.held, inv.bufs.caps, inv.bufs.own, inv.bufs.nodeLive, inv.bufs.bufLive,
    inv.bufs.apart⟩

end Flyos
