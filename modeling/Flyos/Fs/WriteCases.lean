import Flyos.Fs.RamfsRun

/-!
# Writes of every size

`ramfs_write` gets its size from a system call, so the end of a write, `off + n`, may wrap
around, and the doubling of the capacity too.  `ramfsWrite_honest` says exactly when the
call ends, stays in its buffer and tells the truth: up to position `2 ^ 63` it does, and
beyond only when it asks for memory and gets none.
-/

namespace Flyos

variable {H : Type*} {A : Allocator H} {kids : Nat → List Nat} {depth : Nat → Nat}
  {s t : Ramfs H} {f off need : Nat} {n : Node} {buf : List UInt8} {r : Int}

/-! ## Room -/

/-- Above `2 ^ 63` no doubling is large enough: the loop of `ramfs_write` does not end. -/
theorem growCap_never (large : 2 ^ 63 < need) (fuel i : Nat) :
    growCap need fuel (2 ^ i % 2 ^ 64) = none := by
  induction fuel generalizing i with
  | zero => rfl
  | succ fuel ih =>
      have small : 2 ^ i % 2 ^ 64 ≤ 2 ^ 63 := by
        by_cases low : i < 64
        · have le : 2 ^ i ≤ 2 ^ 63 := Nat.pow_le_pow_right (by decide) (by omega)
          rw [Nat.mod_eq_of_lt (by omega)]
          exact le
        · rw [Nat.mod_eq_zero_of_dvd (Nat.pow_dvd_pow 2 (Nat.le_of_not_lt low))]
          exact Nat.zero_le _
      have double : 2 ^ i % 2 ^ 64 * 2 % 2 ^ 64 = 2 ^ (i + 1) % 2 ^ 64 := by
        rw [show 2 ^ (i + 1) = 2 ^ i * 2 from Nat.pow_succ .., Nat.mul_mod, Nat.mod_mod,
          ← Nat.mul_mod]
      rw [growCap, if_pos (by omega), double]
      exact ih (i + 1)

/-- So no room is made above `2 ^ 63`. -/
theorem ramfsGrow_never (bufs : Buffers A s) (at_f : s.nodes f = some n) (large : 2 ^ 63 < need) :
    ramfsGrow A s f n need = none := by
  obtain ⟨-, cap⟩ := bufs.size_le at_f
  have le : heapSize ≤ 2 ^ 63 := by decide
  obtain ⟨i, start⟩ : ∃ i, (if n.capacity ≠ 0 then n.capacity else 64) = 2 ^ i % 2 ^ 64 := by
    rcases bufs.caps at_f with zero | ⟨⟨j, eq⟩, -⟩
    · exact ⟨6, by rw [zero]; rfl⟩
    · have pos := Nat.two_pow_pos j
      refine ⟨6 + j, ?_⟩
      rw [if_pos (by omega), Nat.pow_add, ← show 64 * 2 ^ j = 2 ^ 6 * 2 ^ j from rfl, ← eq,
        Nat.mod_eq_of_lt (by omega)]
  rw [ramfsGrow, if_neg (by omega), start, growCap_never large]
  rfl

/-- `c` is the first of the doublings of `cap` that has room for `need` bytes. -/
def FirstDoubling (cap need c : Nat) : Prop :=
  ∃ k, c = cap * 2 ^ k ∧ need ≤ c ∧ ∀ j < k, cap * 2 ^ j < need

/-- There is one. -/
theorem FirstDoubling.unique {cap c c' : Nat} (first : FirstDoubling cap need c)
    (first' : FirstDoubling cap need c') : c = c' := by
  obtain ⟨k, rfl, enough, less⟩ := first
  obtain ⟨k', rfl, enough', less'⟩ := first'
  rcases Nat.lt_trichotomy k k' with before | rfl | after
  · exact absurd (less' k before) (Nat.not_lt.mpr enough)
  · rfl
  · exact absurd (less k' after) (Nat.not_lt.mpr enough')

/-- The loop of `ramfs_write` finds it. -/
theorem growCap_first (bound : need ≤ 2 ^ 63) {fuel cap c : Nat}
    (grown : growCap need fuel cap = some c) : FirstDoubling cap need c := by
  induction fuel generalizing cap with
  | zero => cases grown
  | succ fuel ih =>
      rw [growCap] at grown
      by_cases small : cap < need
      · rw [if_pos small, Nat.mod_eq_of_lt (by omega)] at grown
        obtain ⟨k, rfl, enough, less⟩ := ih grown
        have shift : ∀ j, cap * 2 ^ (j + 1) = cap * 2 * 2 ^ j := fun j => by
          rw [Nat.pow_succ, Nat.mul_comm (2 ^ j), Nat.mul_assoc]
        refine ⟨k + 1, (shift k).symm, enough, fun j below => ?_⟩
        cases j with
        | zero => omega
        | succ j =>
            rw [shift]
            exact less j (by omega)
      · rw [if_neg small] at grown
        obtain rfl := Option.some.inj grown
        exact ⟨0, by omega, by omega, fun j below => absurd below (Nat.not_lt_zero j)⟩

/-- A write up to `need` asks for a larger buffer, and `kmalloc` has none. -/
def RoomDenied (A : Allocator H) (s : Ramfs H) (n : Node) (need : Nat) : Prop :=
  n.capacity < need ∧ ∃ c,
    FirstDoubling (if n.capacity ≠ 0 then n.capacity else 64) need c ∧
      (A.malloc s.heap c).1 = 0

/-- **`ramfs_write` finds no room** exactly then. -/
theorem ramfsGrow_denied (inv : RamfsInv A s kids depth) (at_f : s.nodes f = some n)
    (bound : need ≤ 2 ^ 63) :
    (∃ t, ramfsGrow A s f n need = some (false, t)) ↔ RoomDenied A s n need := by
  have outcome := ramfsGrow_spec inv at_f bound
  rw [ramfsGrow] at outcome ⊢
  by_cases room : need ≤ n.capacity
  · rw [if_pos room]
    constructor
    · rintro ⟨t, ran⟩
      cases ran
    · intro denied
      exact absurd denied.1 (Nat.not_lt.mpr room)
  rw [if_neg room] at outcome ⊢
  cases grown : growCap need 65 (if n.capacity ≠ 0 then n.capacity else 64) with
  | none =>
      rw [grown] at outcome
      rcases outcome with ⟨t, ran, -⟩ | ⟨n', t, ran, -⟩ <;> cases ran
  | some c =>
      have first := growCap_first bound grown
      rw [Option.bind_some]
      by_cases null : (s.kmalloc A c).1 = 0
      · refine ⟨fun _ => ⟨Nat.lt_of_not_le room, c, first, null⟩, fun _ => ⟨_, if_pos null⟩⟩
      · refine ⟨fun ⟨t, ran⟩ => ?_, fun ⟨_, c', first', null'⟩ => ?_⟩
        · dsimp only at ran
          rw [if_neg null] at ran
          obtain ⟨u, -, eq⟩ := Option.map_eq_some_iff.mp ran
          cases eq
        · rw [← first.unique first'] at null'
          exact absurd null' null

/-! ## Writes that return -/

/-- `ramfs_write` on a file. -/
theorem ramfsWrite_eq (inv : RamfsInv A s kids depth) (at_f : s.nodes f = some n)
    (file : n.type = .file) : ramfsWrite A s f buf off =
      (ramfsGrow A s f n ((off + buf.length) % 2 ^ 64)).bind fun r =>
        if r.1 = false then some (-1, r.2)
        else (putData r.2 f buf off ((off + buf.length) % 2 ^ 64)).map fun s =>
          (toInt32 buf.length, s) := by
  have nonnull : f ≠ 0 := fun eq => by rw [eq, inv.links.null] at at_f; cases at_f
  rw [ramfsWrite, if_neg nonnull, at_f, Option.bind_some, if_neg (not_not.mpr file)]

/-- The copy stays in the buffer of the file. -/
theorem putData_inside (bufs : Buffers A s) (put : putData s f buf off need = some t) :
    buf = [] ∨ off + buf.length ≤ heapSize := by
  by_cases empty : buf = []
  · exact .inl empty
  rw [putData] at put
  obtain ⟨n, at_f, put⟩ := Option.bind_eq_some_iff.mp put
  rw [if_neg empty] at put
  obtain ⟨u, stored, -⟩ := Option.map_eq_some_iff.mp put
  obtain ⟨b, held, stored⟩ := Option.bind_eq_some_iff.mp stored
  obtain ⟨b', copied, -⟩ := Option.map_eq_some_iff.mp stored
  obtain ⟨-, cap⟩ := bufs.size_le at_f
  have length : b.length ≤ heapSize := by
    rcases bufs.held at_f with ⟨data, -⟩ | ⟨-, b₀, held₀, length, -⟩
    · rw [data, bufs.null] at held
      cases held
    · obtain rfl := Option.some.inj (held.symm.trans held₀)
      omega
  rw [splice, if_neg empty] at copied
  by_cases inside : off + buf.length ≤ b.length
  · exact .inr (inside.trans length)
  · rw [if_neg inside] at copied
    cases copied

/-- **A write whose end has wrapped around** returns only when it has found no room: its
bytes do not fit in any buffer. -/
theorem ramfsWrite_wrapped (inv : RamfsInv A s kids depth) (at_f : s.nodes f = some n)
    (file : n.type = .file) (small : off < 2 ^ 64) (far : 2 ^ 63 < off + buf.length)
    (bound : (off + buf.length) % 2 ^ 64 ≤ 2 ^ 63)
    (ran : ramfsWrite A s f buf off = some (r, t)) :
    r = -1 ∧ ramfsGrow A s f n ((off + buf.length) % 2 ^ 64) = some (false, t) := by
  rw [ramfsWrite_eq inv at_f file] at ran
  rcases ramfsGrow_spec inv at_f bound with ⟨u, full, -⟩ | ⟨n₁, u, grown, replaced, -⟩
  · rw [full] at ran
    cases ran
    exact ⟨rfl, full⟩
  · have le : heapSize ≤ 2 ^ 63 := by decide
    rw [grown, Option.bind_some, if_neg (by simp)] at ran
    obtain ⟨v, put, -⟩ := Option.map_eq_some_iff.mp ran
    rcases putData_inside (replaced.inv inv).bufs put with rfl | inside
    · rw [List.length_nil, Nat.add_zero] at far bound
      omega
    · omega

/-- **A write that returns** has failed and changed nothing, or it ends in the address
space and has stored its bytes. -/
theorem ramfsWrite_returns (inv : RamfsInv A s kids depth) (at_f : s.nodes f = some n)
    (small : off < 2 ^ 64) (ran : ramfsWrite A s f buf off = some (r, t)) :
    RamfsInv A t kids depth ∧ ((r = -1 ∧ SameFiles s t) ∨
      n.type = .file ∧ r = buf.length ∧ Written s f n buf off t) := by
  by_cases bound : off + buf.length ≤ 2 ^ 63
  · obtain ⟨t', inv', ⟨ran', files, -⟩ | ⟨file, ran', w⟩⟩ := ramfsWrite_spec inv at_f bound
    · obtain ⟨rfl, rfl⟩ := Prod.mk.inj (Option.some.inj (ran.symm.trans ran'))
      exact ⟨inv', .inl ⟨rfl, files⟩⟩
    · obtain ⟨rfl, rfl⟩ := Prod.mk.inj (Option.some.inj (ran.symm.trans ran'))
      exact ⟨inv', .inr ⟨file, rfl, w⟩⟩
  by_cases file : n.type = .file
  · by_cases large : 2 ^ 63 < (off + buf.length) % 2 ^ 64
    · rw [ramfsWrite_eq inv at_f file, ramfsGrow_never inv.bufs at_f large] at ran
      cases ran
    · obtain ⟨rfl, full⟩ := ramfsWrite_wrapped inv at_f file small (Nat.lt_of_not_le bound)
        (Nat.le_of_not_lt large) ran
      rcases ramfsGrow_spec inv at_f (Nat.le_of_not_lt large) with
        ⟨u, full', files, inv', -⟩ | ⟨n₁, u, grown, -⟩
      · obtain rfl := (Prod.mk.inj (Option.some.inj (full.symm.trans full'))).2
        exact ⟨inv', .inl ⟨rfl, files⟩⟩
      · cases full.symm.trans grown
  · have nonnull : f ≠ 0 := fun eq => by rw [eq, inv.links.null] at at_f; cases at_f
    rw [ramfsWrite, if_neg nonnull, at_f, Option.bind_some, if_pos file] at ran
    cases ran
    exact ⟨inv, .inl ⟨rfl, rfl, rfl, rfl, rfl⟩⟩

/-- What `ramfs_write` answers -1 for: a node that is no file, or no room. -/
def WriteRefused (A : Allocator H) (s : Ramfs H) (f off len : Nat) : Prop :=
  ∃ n, s.nodes f = some n ∧ (n.type ≠ .file ∨
    (off + len) % 2 ^ 64 ≤ 2 ^ 63 ∧ RoomDenied A s n ((off + len) % 2 ^ 64))

/-- **A refused write** is one of these, at every position and of every size. -/
theorem ramfsWrite_refused (inv : RamfsInv A s kids depth) (nonnull : f ≠ 0) :
    (∃ t, ramfsWrite A s f buf off = some (-1, t)) ↔ WriteRefused A s f off buf.length := by
  cases at_f : s.nodes f with
  | none =>
      refine ⟨fun ⟨t, ran⟩ => ?_, fun ⟨n, at_f', _⟩ => by cases at_f.symm.trans at_f'⟩
      rw [ramfsWrite, if_neg nonnull, at_f] at ran
      cases ran
  | some n =>
      by_cases file : n.type = .file
      · constructor
        · rintro ⟨t, ran⟩
          rw [ramfsWrite_eq inv at_f file] at ran
          by_cases large : 2 ^ 63 < (off + buf.length) % 2 ^ 64
          · rw [ramfsGrow_never inv.bufs at_f large] at ran
            cases ran
          have bound := Nat.le_of_not_lt large
          refine ⟨n, at_f, .inr ⟨bound, (ramfsGrow_denied inv at_f bound).mp ?_⟩⟩
          rcases ramfsGrow_spec inv at_f bound with ⟨u, full, -⟩ | ⟨n₁, u, grown, replaced, -⟩
          · exact ⟨u, full⟩
          · rw [grown, Option.bind_some, if_neg (by simp)] at ran
            obtain ⟨v, put, eq⟩ := Option.map_eq_some_iff.mp ran
            have fits : buf.length ≤ heapSize := by
              rcases putData_inside (replaced.inv inv).bufs put with rfl | inside
              · exact Nat.zero_le _
              · omega
            have answer := (Prod.mk.inj eq).1
            rw [toInt32_of_le fits] at answer
            omega
        · rintro ⟨n', at_f', other | ⟨bound, denied⟩⟩
          · obtain rfl := Option.some.inj (at_f.symm.trans at_f')
            exact absurd file other
          · obtain rfl := Option.some.inj (at_f.symm.trans at_f')
            obtain ⟨t, full⟩ := (ramfsGrow_denied inv at_f bound).mpr denied
            exact ⟨t, by rw [ramfsWrite_eq inv at_f file, full]; rfl⟩
      · refine ⟨fun _ => ⟨n, at_f, .inl file⟩, fun _ => ⟨s, ?_⟩⟩
        rw [ramfsWrite, if_neg nonnull, at_f, Option.bind_some, if_pos file]

/-! ## Honest writes -/

/-- **What a caller of `ramfs_write` relies on**: the call ends and stores nothing outside
its buffer, and either it answers with the size of the write, whose bytes are there, or it
answers -1 and has changed nothing. -/
def WriteHonest (A : Allocator H) (s : Ramfs H) (f : Nat) (buf : List UInt8) (off : Nat) : Prop :=
  ∃ r t, ramfsWrite A s f buf off = some (r, t) ∧
    ((r = buf.length ∧ ((fileBytes t f).drop off).take buf.length = buf) ∨
      (r = -1 ∧ SameFiles s t))

/-- The write ends at `2 ^ 63` at the latest; or its end wraps around to a position that
asks for room, and there is none. -/
def WriteFits (A : Allocator H) (s : Ramfs H) (n : Node) (off len : Nat) : Prop :=
  off + len ≤ 2 ^ 63 ∨ 2 ^ 64 ≤ off + len ∧ (off + len) % 2 ^ 64 ≤ 2 ^ 63 ∧
    RoomDenied A s n ((off + len) % 2 ^ 64)

/-- **`ramfs_write` is honest exactly under `WriteFits`**, for every file of the tree, every
position and every size.  The end of the write is a sum in 64 bits: beyond 2^63 the doubling of
the capacity never reaches it, and one that wraps passes for a small one unless its room is
refused.  The condition is on the file and the allocator before the call. -/
theorem ramfsWrite_honest (inv : RamfsInv A s kids depth) (at_f : s.nodes f = some n)
    (file : n.type = .file) (small : off < 2 ^ 64) :
    WriteHonest A s f buf off ↔ WriteFits A s n off buf.length := by
  constructor
  · rintro ⟨r, t, ran, -⟩
    by_contra unfit
    rw [WriteFits, not_or, not_le] at unfit
    obtain ⟨far, wraps⟩ := unfit
    by_cases large : 2 ^ 63 < (off + buf.length) % 2 ^ 64
    · rw [ramfsWrite_eq inv at_f file, ramfsGrow_never inv.bufs at_f large] at ran
      cases ran
    · obtain ⟨-, full⟩ := ramfsWrite_wrapped inv at_f file small far (Nat.le_of_not_lt large) ran
      refine wraps ⟨?_, Nat.le_of_not_lt large,
        (ramfsGrow_denied inv at_f (Nat.le_of_not_lt large)).mp ⟨t, full⟩⟩
      by_contra below
      rw [Nat.mod_eq_of_lt (Nat.lt_of_not_le below)] at large
      exact large far
  · rintro (fits | ⟨-, bound, denied⟩)
    · obtain ⟨t, -, ⟨ran, files, -⟩ | ⟨-, ran, w⟩⟩ := ramfsWrite_spec inv at_f fits
      · exact ⟨-1, t, ran, .inr ⟨rfl, files⟩⟩
      · exact ⟨_, t, ran, .inl ⟨rfl, w.stored⟩⟩
    · obtain ⟨t, full⟩ := (ramfsGrow_denied inv at_f bound).mpr denied
      rcases ramfsGrow_spec inv at_f bound with ⟨u, full', files, -⟩ | ⟨n₁, u, grown, -⟩
      · obtain rfl := (Prod.mk.inj (Option.some.inj (full.symm.trans full'))).2
        exact ⟨-1, t, by rw [ramfsWrite_eq inv at_f file, full]; rfl, .inr ⟨rfl, files⟩⟩
      · cases full.symm.trans grown

/-- Three bytes at position 0 of a new file. -/
theorem ramfsWrite_honest_three : WriteHonest countingAllocator oneFile 2 [7, 8, 9] 0 := by
  obtain ⟨kids, depth, inv⟩ := oneFile_inv
  exact (ramfsWrite_honest inv (rfl : oneFile.nodes 2 = some (newNode .file [97] 1 0)) rfl
    (by decide)).mpr (.inl (by decide))

/-- **A size of `2 ^ 63 + 1`**: the doubling of the capacity of the new file does not end. -/
theorem ramfsWrite_endless :
    ¬ WriteHonest countingAllocator oneFile 2 (List.replicate (2 ^ 63 + 1) 0) 0 := by
  obtain ⟨kids, depth, inv⟩ := oneFile_inv
  rintro ⟨r, t, ran, -⟩
  have at_f : oneFile.nodes 2 = some (newNode .file [97] 1 0) := rfl
  rw [ramfsWrite_eq inv at_f rfl, List.length_replicate, Nat.zero_add,
    ramfsGrow_never inv.bufs at_f (by decide)] at ran
  cases ran

end Flyos
