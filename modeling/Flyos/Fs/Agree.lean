import Flyos.Fs.RedirectSpec

/-!
# Redirected calls and calls on descriptors

`SYS_WRITE` and `SYS_READ` of a redirected task drive the functions of the RAM file system
on their own, with a position of their own.  `redirected_agrees` compares them with
`SYS_FWRITE` and `SYS_FREAD` on a descriptor for the same node at the same position: reads
agree always, writes exactly when `ramfs_write` does not refuse, since `SYS_WRITE` ignores
what it answers.
-/

namespace Flyos

variable {H : Type*} {A : Allocator H} {kids : Nat → List Nat} {depth : Nat → Nat}
  {s : TaskFiles H} {k i n : Nat} {buf typed : List UInt8}

/-- A result as the word that a system call returns. -/
def asWord (r : Int) : Nat := (r % 2 ^ 64).toNat

/-- Descriptor `i` stands for the file `f` at position `pos`. -/
def FileSys.withFile (s : FileSys H) (i f pos : Nat) : FileSys H := s.setFd i ⟨true, f, pos, false⟩

/-- **`SYS_WRITE` of a redirected task is `SYS_FWRITE`** on a descriptor for its output:
the same answer, the same files and the same position. -/
def WriteAgrees (A : Allocator H) (s : TaskFiles H) (k i : Nat) (buf : List UInt8) : Prop :=
  match sysWrite A s k buf,
    fileWrite A (s.sys.withFile i (s.redir k).stdoutNode (s.redir k).stdoutPos) i buf with
  | some (a, t), some (r, u) =>
      a = asWord r ∧ t.sys.fs = u.fs ∧ (t.redir k).stdoutPos = (u.fdTable i).pos
  | none, none => True
  | _, _ => False

/-- **`SYS_READ` of a redirected task is `SYS_FREAD`** on a descriptor for its input: the
same bytes and the same position. -/
def ReadAgrees (s : TaskFiles H) (k i n : Nat) (typed : List UInt8) : Prop :=
  match sysRead s k n typed,
    fileRead (s.sys.withFile i (s.redir k).stdinNode (s.redir k).stdinPos) i n with
  | some (_, bytes, t), some (_, bytes', u) =>
      bytes = bytes' ∧ t.sys.fs = u.fs ∧ (t.redir k).stdinPos = (u.fdTable i).pos
  | none, none => True
  | _, _ => False

section WithFile

variable {s : FileSys H} {f pos : Nat} (low : 3 ≤ i) (high : i < maxFd)
include low high

theorem withFile_fd : (s.withFile i f pos).fd? i = some i := by
  rw [FileSys.fd?, if_neg, Int.toNat_natCast]
  rintro (below | above | unused)
  · omega
  · omega
  · rw [FileSys.withFile, FileSys.setFd_fdTable, Int.toNat_natCast, Function.update_self] at unused
    cases unused

/-- `file_write` on a file. -/
theorem fileWrite_withFile : fileWrite A (s.withFile i f pos) i buf =
    (ramfsWrite A s.fs f buf pos).map fun r =>
      (r.1, ⟨r.2, Function.update s.fdTable i
        ⟨true, f, if 0 < r.1 then pos + r.1.toNat else pos, false⟩⟩) := by
  rw [fileWrite, withFile_fd low high]
  simp only [FileSys.withFile, FileSys.setFd_fdTable, FileSys.setFd_fs, Function.update_self,
    Bool.false_eq_true, if_false]
  congr 1
  funext r
  by_cases more : 0 < r.1
  · simp only [FileSys.setFd, more, if_true, Function.update_idem]
  · simp only [FileSys.setFd, more, if_false]

/-- `file_read` on a file. -/
theorem fileRead_withFile : fileRead (s.withFile i f pos) i n =
    (ramfsRead s.fs f n pos).map fun r =>
      (r.1, r.2, ⟨s.fs, Function.update s.fdTable i
        ⟨true, f, if 0 < r.1 then pos + r.1.toNat else pos, false⟩⟩) := by
  rw [fileRead, withFile_fd low high]
  simp only [FileSys.withFile, FileSys.setFd_fdTable, FileSys.setFd_fs, Function.update_self,
    Bool.false_eq_true, if_false]
  congr 1
  funext r
  by_cases more : 0 < r.1
  · simp only [FileSys.setFd, more, if_true, Function.update_idem]
  · simp only [FileSys.setFd, more, if_false]

end WithFile

/-- A redirected task that reads. -/
theorem ReadAgrees.of_inv (inv : RamfsInv A s.sys.fs kids depth) (low : 3 ≤ i) (high : i < maxFd)
    (redirected : (s.redir k).stdinNode ≠ 0) : ReadAgrees s k i n typed := by
  rw [ReadAgrees, sysRead, if_pos redirected, fileRead_withFile low high]
  cases at_f : s.sys.fs.nodes (s.redir k).stdinNode with
  | none =>
      rw [ramfsRead, if_neg redirected, at_f]
      trivial
  | some nd =>
      by_cases file : nd.type = .file
      · obtain ⟨bytes, ran, eq⟩ := ramfsRead_spec inv at_f file n (s.redir k).stdinPos
        rw [ran]
        by_cases more : 0 < (bytes.length : Int)
        · have inside : (s.redir k).stdinPos + bytes.length < 2 ^ 64 := by
            have length := inv.bufs.length_fileBytes at_f
            obtain ⟨size, cap⟩ := inv.bufs.size_le at_f
            have le : heapSize < 2 ^ 64 := by decide
            have taken : bytes.length ≤ nd.size - (s.redir k).stdinPos := by
              rw [eq, List.length_take, List.length_drop, length]
              exact Nat.min_le_right _ _
            omega
          simp only [Option.map_some, more, if_true, Int.toNat_natCast, TaskFiles.setRedir,
            Function.update_self, Nat.mod_eq_of_lt inside, and_self]
        · simp only [Option.map_some, more, if_false, Function.update_self, and_self]
      · rw [ramfsRead, if_neg redirected, at_f, Option.bind_some, if_pos file]
        simp

/-- A redirected task that writes. -/
theorem writeAgrees_iff (inv : RamfsInv A s.sys.fs kids depth) (low : 3 ≤ i) (high : i < maxFd)
    (redirected : (s.redir k).stdoutNode ≠ 0) (word : (s.redir k).stdoutPos < 2 ^ 64) :
    WriteAgrees A s k i buf ↔
      ¬ WriteRefused A s.sys.fs (s.redir k).stdoutNode (s.redir k).stdoutPos buf.length := by
  rw [WriteAgrees, sysWrite, if_pos redirected, fileWrite_withFile low high,
    ← ramfsWrite_refused inv redirected]
  cases ran : ramfsWrite A s.sys.fs (s.redir k).stdoutNode buf (s.redir k).stdoutPos with
  | none => simp
  | some r =>
      obtain ⟨r, t⟩ := r
      by_cases refused : r = -1
      · -- the answers differ unless the size is `2 ^ 64 - 1`, and then the positions do
        subst refused
        refine ⟨?_, fun unrefused => absurd ⟨t, rfl⟩ unrefused⟩
        rintro ⟨answer, -, pos⟩
        have size : buf.length = 2 ^ 64 - 1 := answer
        simp only [TaskFiles.setRedir, Function.update_self] at pos
        rw [if_neg (by decide), size] at pos
        omega
      · refine ⟨?_, fun _ => ?_⟩
        · rintro _ ⟨t', ran'⟩
          cases ran'
          exact refused rfl
        · obtain ⟨nd, at_f⟩ : ∃ nd, s.sys.fs.nodes (s.redir k).stdoutNode = some nd := by
            rw [ramfsWrite, if_neg redirected] at ran
            obtain ⟨nd, at_f, -⟩ := Option.bind_eq_some_iff.mp ran
            exact ⟨nd, at_f⟩
          obtain ⟨inv', ⟨refused', -⟩ | ⟨-, rfl, w⟩⟩ := ramfsWrite_returns inv at_f word ran
          · exact absurd refused' refused
          obtain ⟨nd', at_t, -, size⟩ := w.node
          obtain ⟨le, cap⟩ := inv'.bufs.size_le at_t
          have small : heapSize < 2 ^ 64 := by decide
          have inside : (s.redir k).stdoutPos + buf.length < 2 ^ 64 := by omega
          refine ⟨?_, rfl, ?_⟩
          · show buf.length = (((buf.length : Int)) % 2 ^ 64).toNat
            omega
          · simp only [TaskFiles.setRedir, Function.update_self, Nat.mod_eq_of_lt inside,
              Int.toNat_natCast]
            by_cases more : 0 < (buf.length : Int)
            · rw [if_pos more]
            · rw [if_neg more]
              omega

/-- **Redirected output and input are those of descriptors exactly when no write is refused**, in
every state, for every buffer and size, whatever `kmalloc` answers.  Both sides end in the same
`ramfs_write` and `ramfs_read` on the same node and position; they part where a write is refused,
since `SYS_WRITE` ignores what `ramfs_write` answers. -/
theorem redirected_agrees (inv : RamfsInv A s.sys.fs kids depth) (low : 3 ≤ i) (high : i < maxFd)
    (word : (s.redir k).stdoutPos < 2 ^ 64) :
    (((s.redir k).stdoutNode ≠ 0 → WriteAgrees A s k i buf) ∧
        ((s.redir k).stdinNode ≠ 0 → ReadAgrees s k i n typed)) ↔
      ((s.redir k).stdoutNode ≠ 0 →
        ¬ WriteRefused A s.sys.fs (s.redir k).stdoutNode (s.redir k).stdoutPos buf.length) := by
  constructor
  · intro ⟨writes, _⟩ redirected
    exact (writeAgrees_iff inv low high redirected word).mp (writes redirected)
  · intro unrefused
    exact ⟨fun redirected => (writeAgrees_iff inv low high redirected word).mpr
      (unrefused redirected), fun redirected => ReadAgrees.of_inv inv low high redirected⟩

/-- A task whose output is the one file of a tree. -/
def toFile (pos : Nat) : TaskFiles CountingHeap :=
  ⟨fileInit oneFile, fun _ => ⟨0, 2, 0, pos⟩⟩

/-- Three bytes at position 0. -/
theorem redirected_agrees_three : WriteAgrees countingAllocator (toFile 0) 0 3 [7, 8, 9] := by
  obtain ⟨kids, depth, inv⟩ := oneFile_inv
  have agrees := @redirected_agrees _ _ _ _ (toFile 0) 0 3 0 [7, 8, 9] [] inv (by decide)
    (by decide) (by decide)
  refine (agrees.mpr fun _ => ?_).1 (by decide)
  rintro ⟨nd, at_f, other | ⟨-, denied⟩⟩
  · cases (show some nd = some (newNode .file [97] 1 0) from at_f.symm)
    exact other rfl
  · cases (show some nd = some (newNode .file [97] 1 0) from at_f.symm)
    obtain ⟨-, c, first, null⟩ := denied
    obtain rfl : c = 64 := first.unique ⟨0, rfl, by decide, fun j below => by omega⟩
    exact absurd null (by decide)

/-- **The task is not told**: the heap has no room for `2 ^ 30` bytes, the write is
refused, and `SYS_WRITE` answers that all of them were written. -/
theorem redirected_untold :
    ¬ WriteAgrees countingAllocator (toFile 0) 0 3 (List.replicate (2 ^ 30) 0) := by
  obtain ⟨kids, depth, inv⟩ := oneFile_inv
  have at_f : oneFile.nodes 2 = some (newNode .file [97] 1 0) := rfl
  generalize eq : List.replicate (2 ^ 30) (0 : UInt8) = buf
  have length : buf.length = 2 ^ 30 := by rw [← eq, List.length_replicate]
  have first : FirstDoubling 64 (2 ^ 30) (64 * 2 ^ 24) := by
    refine ⟨24, rfl, by decide, fun j below => ?_⟩
    have le : 2 ^ j ≤ 2 ^ 23 := Nat.pow_le_pow_right (by decide) (by omega)
    omega
  rw [writeAgrees_iff inv (by decide) (by decide) (by decide) (by decide), not_not]
  refine ⟨_, at_f, .inr ?_⟩
  rw [length]
  exact ⟨by decide, by decide, _, first, by decide⟩

end Flyos
