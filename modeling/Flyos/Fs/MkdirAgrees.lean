import Flyos.Fs.FailedOpen
import Flyos.Fs.Syscall

/-!
# The two ways to make a directory

`SYS_MKDIR` and `fs_mkdir_path` split a path at its last slash, each in its own way.  They
do the same to every path that is not empty (`fsMkdirPath_eq`).  `fs_mkdir_path` refuses
the empty path; `SYS_MKDIR` takes it for a name in the current directory, so they part
exactly when a child without a name can be created there (`mkdirs_agree_iff`).
-/

namespace Flyos

variable {H : Type*} {A : Allocator H} {s : Ramfs H} {kids : Nat → List Nat} {depth : Nat → Nat}
  {path : CString}

/-- **The two paths agree**: both calls return, with the same result and the same tree. -/
def MkdirsAgree (A : Allocator H) (s : Ramfs H) (path : CString) : Prop :=
  ∃ r t u, sysMkdir A s path = some (r, t) ∧ fsMkdirPath A s path = some (r, u) ∧ SameFiles u t

/-- **On a path that is not empty the two calls are the same.** -/
theorem fsMkdirPath_eq (some_byte : path ≠ []) : fsMkdirPath A s path = sysMkdir A s path := by
  rw [fsMkdirPath, if_neg some_byte, sysMkdir_eq, splitPath]
  cases slash : lastSlash path with
  | none => rfl
  | some i =>
      cases i with
      | zero => rfl
      | succ i =>
          have prefixed : min (i + 1) 127 ≠ 0 := by omega
          dsimp only
          rw [if_neg prefixed]
          cases ramfsLookup s (parentPath path (i + 1)) with
          | none => rfl
          | some parent =>
              rw [Option.bind_some, ramfsMkdir_checked]
              rfl

/-- `SYS_MKDIR` of the empty path creates a child without a name. -/
theorem sysMkdir_nil : sysMkdir A s [] =
    (createNode A .dir s s.cwd []).map fun n => (if n.1 ≠ 0 then 0 else -1, n.2) := by
  rw [sysMkdir_eq]
  rfl

/-- `fs_mkdir_path` refuses it. -/
theorem fsMkdirPath_nil : fsMkdirPath A s [] = some (-1, s) := if_pos rfl

/-- **The two paths agree**, in every tree with any current directory, except on the empty path
where a child without a name can be created.  On a path with a name both split off the last one
and create it in the same directory; `fs_mkdir_path` refuses the empty path at once, while
`SYS_MKDIR` goes on with an empty name. -/
theorem mkdirs_agree_iff (inv : RamfsInv A s kids depth) (here : HasCwd s) :
    MkdirsAgree A s path ↔ ¬ (path = [] ∧ CanCreate A s s.cwd []) := by
  by_cases empty : path = []
  · obtain ⟨d, at_cwd⟩ := here
    obtain ⟨c, t, made, -⟩ := createNode_spec inv at_cwd .dir []
    obtain ⟨created, refused, -⟩ := createNode_cases inv made
    have called : sysMkdir A s [] = some (if c ≠ 0 then 0 else -1, t) := by
      rw [sysMkdir_nil, made]
      rfl
    subst empty
    rw [created]
    constructor
    · rintro ⟨r, t', u, ran, ran', -⟩ ⟨-, nonnull⟩
      rw [called, if_pos nonnull] at ran
      rw [fsMkdirPath_nil] at ran'
      cases ran
      cases ran'
    · intro null
      have zero : c = 0 := not_not.mp fun nonnull => null ⟨rfl, nonnull⟩
      rw [if_neg (not_not.mpr zero)] at called
      exact ⟨-1, t, s, called, fsMkdirPath_nil, refused zero⟩
  · obtain ⟨r, t, c, ran, -⟩ := sysMkdir_spec inv (.inr here)
    exact ⟨fun _ both => empty both.1, fun _ =>
      ⟨r, t, t, ran, (fsMkdirPath_eq empty).trans ran, rfl, rfl, rfl, rfl⟩⟩

/-- Right after `ramfs_init` the two agree on `/a`. -/
theorem mkdirs_agree_a : MkdirsAgree countingAllocator freshRoot [47, 97] := by
  obtain ⟨depth, inv⟩ := freshRoot_inv
  have here : HasCwd freshRoot := ⟨_, rfl⟩
  exact (mkdirs_agree_iff inv here).mpr fun both => by cases both.1

/-- And they differ on the empty path. -/
theorem mkdirs_differ : ¬ MkdirsAgree countingAllocator freshRoot [] := by
  rintro ⟨r, t, u, ran, ran', -⟩
  have made : (sysMkdir countingAllocator freshRoot []).map Prod.fst = some 0 := rfl
  rw [ran] at made
  rw [fsMkdirPath_nil] at ran'
  cases ran'
  cases made

end Flyos
