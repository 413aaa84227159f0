import Flyos.Mm.HeapClient

/-!
# How well the kernel heap fits

`kmalloc` is complete: it returns null only if no run of bytes outside the blocks in use
(`Gap`) is long enough, and otherwise takes the lowest one; and when everything has been
freed the heap is one free block again (`heapRun_complete`).

The block it takes is as large as asked for, unless the size wraps in `ALIGN16` and there
is a free block to be given for it (`asLarge_iff`).
-/

namespace Flyos

open Heap

/-- Whether `x` lies in a block in use, its header included. -/
def InUse (m : ByteMemory) (x : Nat) : Prop :=
  ∃ bs, LinkChain (next m) (· = 0) heapStart bs ∧
    ∃ b ∈ bs, isFree m b = 0 ∧ b ≤ x ∧ x < b + size m b

/-- A run of `n` bytes from `a` outside the blocks in use. -/
def Gap (m : ByteMemory) (a n : Nat) : Prop :=
  heapStart ≤ a ∧ a + n ≤ heapEnd ∧ ∀ x, a ≤ x → x < a + n → ¬ InUse m x

/-! ## Gaps in a layout -/

section Layout

variable {m : ByteMemory} {l : List Seg} {a x n : Nat}

/-- The walk along `next` from the start of the heap. -/
theorem Holds.linkChain (holds : Holds m l) :
    LinkChain (next m) (· = 0) heapStart ((blocks heapStart l).map Prod.fst) := by
  have start : nextPtr heapStart = heapStart := nextPtr_of_lt (by
    simp only [heapEnd, heapStart, heapSize, heapPages, pageSize]; omega)
  have chain := holds.rep.linkChain holds.tidy.sized holds.tidy.full (by simp)
  rwa [start] at chain

/-- A block of the list in memory is one of the layout. -/
theorem Holds.mem_blocks (holds : Holds m l) {bs : List Nat} {b : Nat}
    (chain : LinkChain (next m) (· = 0) heapStart bs) (mem : b ∈ bs) :
    ∃ s, (b, s) ∈ blocks heapStart l := by
  rw [chain.unique holds.linkChain] at mem
  obtain ⟨⟨a, s⟩, block, rfl⟩ := List.mem_map.mp mem
  exact ⟨s, block⟩

/-- A block of the layout is in use when its segment is. -/
theorem Holds.isFree_iff (holds : Holds m l) {b : Nat × Seg} (mem : b ∈ blocks heapStart l) :
    isFree m b.1 ≠ 0 ↔ b.2.free = true := by
  rw [(holds.rep.header mem).2.1]
  cases b.2.free <;> simp

/-- A free block of the list in memory is a free segment of the layout. -/
theorem Holds.exists_free (holds : Holds m l) (free : HasFree m) :
    ∃ b ∈ blocks heapStart l, b.2.free = true := by
  obtain ⟨bs, chain, b, mem, flag⟩ := free
  obtain ⟨s, block⟩ := holds.mem_blocks chain mem
  exact ⟨(b, s), block, (holds.isFree_iff block).mp flag⟩

/-- The bytes in use, by the layout. -/
theorem Holds.inUse_iff (holds : Holds m l) :
    InUse m x ↔ ∃ b ∈ blocks heapStart l, b.2.free = false ∧ b.1 ≤ x ∧ x < b.1 + b.2.size := by
  constructor
  · rintro ⟨bs, chain, b, mem, busy, low, high⟩
    obtain ⟨s, block⟩ := holds.mem_blocks chain mem
    refine ⟨(b, s), block, ?_, low, ?_⟩
    · rw [← Bool.not_eq_true, ← holds.isFree_iff block]
      exact not_not_intro busy
    · rwa [(holds.rep.header block).1] at high
  · rintro ⟨b, block, busy, low, high⟩
    refine ⟨_, holds.linkChain, b.1, List.mem_map.mpr ⟨b, block, rfl⟩, ?_, low, ?_⟩
    · by_contra free
      rw [(holds.isFree_iff block).mp free] at busy
      cases busy
    · rwa [(holds.rep.header block).1]

/-- **A gap lies in one free block**, since no two free blocks are neighbours. -/
theorem gap_in_block (sized : Sized l) (pairs : NoFreePair l) (positive : 0 < n) (low : a ≤ x)
    (high : x + n ≤ a + extent l)
    (unused : ∀ y, x ≤ y → y < x + n → ¬ ∃ b ∈ blocks a l, b.2.free = false ∧ b.1 ≤ y ∧
      y < b.1 + b.2.size) :
    ∃ b ∈ blocks a l, b.2.free = true ∧ b.1 ≤ x ∧ x + n ≤ b.1 + b.2.size := by
  induction l generalizing a with
  | nil =>
      rw [extent_nil] at high
      omega
  | cons s l ih =>
      rw [extent_cons] at high
      have later : ∀ {b : Nat × Seg}, b ∈ blocks (a + s.size) l → b ∈ blocks a (s :: l) :=
        fun mem => List.mem_cons_of_mem _ mem
      by_cases here : x < a + s.size
      · have free : s.free = true := by
          by_contra busy
          refine unused x (Nat.le_refl x) (by omega) ⟨(a, s), List.mem_cons_self, ?_, low, here⟩
          simpa using busy
        refine ⟨(a, s), List.mem_cons_self, free, low, ?_⟩
        by_contra beyond
        have reach : a + s.size < x + n := Nat.not_le.mp beyond
        cases l with
        | nil =>
            rw [extent_nil] at high
            omega
        | cons t l =>
            -- the block behind is in use, and the gap reaches into it
            have apart := (List.isChain_cons_cons.mp pairs).1
            have room := sized.tail.head.2
            refine unused (a + s.size) (by omega) reach ⟨(a + s.size, t), later (by simp), ?_,
              Nat.le_refl _, by dsimp only; omega⟩
            by_contra busy
            exact apart ⟨free, by simpa using busy⟩
      · obtain ⟨b, mem, rest⟩ := ih sized.tail (List.IsChain.tail pairs) (by omega) (by omega)
          fun y from_ below ⟨b, mem, held⟩ => unused y from_ below ⟨b, later mem, held⟩
        exact ⟨b, later mem, rest⟩

/-- A gap in memory lies in one free block of the layout. -/
theorem Holds.gap (holds : Holds m l) (positive : 0 < n) (gap : Gap m x n) :
    ∃ b ∈ blocks heapStart l, b.2.free = true ∧ b.1 ≤ x ∧ x + n ≤ b.1 + b.2.size := by
  obtain ⟨low, high, unused⟩ := gap
  have full := holds.tidy.full
  refine gap_in_block holds.tidy.sized holds.tidy.noFreePair positive low (by omega) ?_
  intro y from_ below held
  exact unused y from_ below (holds.inUse_iff.mpr held)

/-- A free block of the layout is a gap. -/
theorem Holds.gap_of_free (holds : Holds m l) {b : Nat × Seg} (mem : b ∈ blocks heapStart l)
    (free : b.2.free = true) (fits : n ≤ b.2.size) : Gap m b.1 n := by
  have range := blocks_range mem
  have full := holds.tidy.full
  refine ⟨range.1, by omega, fun y from_ below held => ?_⟩
  obtain ⟨c, mem', busy, low, high⟩ := holds.inUse_iff.mp held
  rcases blocks_apart mem mem' with rfl | before | before
  · rw [free] at busy
    cases busy
  · omega
  · omega

end Layout

/-! ## First fit is complete -/

section Complete

variable {m : ByteMemory} {l : List Seg} {size : Nat}

/-- The block size, for sizes that do not wrap. -/
theorem need_eq (small : size ≤ 2 ^ 63) : need size = max 48 ((size + 32 + 15) / 16 * 16) := by
  unfold need align16
  simp only [headerSize]
  split <;> omega

/-- `kmalloc` of a size is the placement of its block. -/
theorem Holds.kmalloc_place (holds : Holds m l) (positive : size ≠ 0) :
    match place (need size) l with
    | none => kmalloc m size = some (0, m)
    | some (o, l') => ∃ m', kmalloc m size = some (heapStart + o + headerSize, m') ∧ Holds m' l' := by
  have large := need_sized size
  have walk := kmallocLoop_rep (need size) holds.rep holds.tidy.sized holds.tidy.full
    (by simp) large.2 (length_lt_heapFuel holds.tidy)
  have start : nextPtr heapStart = heapStart := nextPtr_of_lt (by
    simp only [heapEnd, heapStart, heapSize, heapPages, pageSize]; omega)
  rw [start] at walk
  rw [kmalloc, if_neg positive]
  cases found : place (need size) l with
  | none =>
      rw [found] at walk
      exact walk
  | some r =>
      obtain ⟨o, l'⟩ := r
      rw [found] at walk
      obtain ⟨m', ran, rep', -⟩ := walk
      exact ⟨m', ran, rep', holds.tidy.place found large.1 large.2⟩

/-- Without a gap `kmalloc` returns null. -/
theorem Holds.kmalloc_null (holds : Holds m l) (positive : size ≠ 0)
    (nowhere : ¬ ∃ a, Gap m a (need size)) : kmalloc m size = some (0, m) := by
  have placed := holds.kmalloc_place positive
  cases found : place (need size) l with
  | none =>
      rw [found] at placed
      exact placed
  | some r =>
      obtain ⟨o, l'⟩ := r
      obtain ⟨pre, s, post, rfl, free, fits, -⟩ := place_some found
      refine absurd ⟨heapStart + extent pre, ?_⟩ nowhere
      exact holds.gap_of_free (b := (heapStart + extent pre, s)) (by simp [blocks_append]) free fits

/-- **With a gap `kmalloc` takes the lowest one.** -/
theorem Holds.kmalloc_lowest (holds : Holds m l) (positive : size ≠ 0) {a : Nat}
    (gap : Gap m a (need size)) (lowest : ∀ b < a, ¬ Gap m b (need size)) :
    ∃ m', kmalloc m size = some (a + headerSize, m') ∧ isFree m' a = 0 ∧
      need size ≤ Heap.size m' a := by
  have large := need_sized size
  have placed := holds.kmalloc_place positive
  obtain ⟨b, mem, free, below, reach⟩ := holds.gap (by omega) gap
  cases found : place (need size) l with
  | none => exact absurd ⟨free, by omega⟩ (place_none found b.2 (mem_of_mem_blocks mem))
  | some r =>
      obtain ⟨o, l'⟩ := r
      rw [found] at placed
      obtain ⟨m', ran, holds'⟩ := placed
      obtain ⟨pre, s, post, rfl, free', fits, first, rfl, rfl⟩ := place_some found
      -- the segment taken is a gap, so it is not below `a`; and the gap at `a` is not before it
      have here : ¬ heapStart + extent pre < a := fun less => lowest _ less <|
        holds.gap_of_free (b := (heapStart + extent pre, s)) (by simp [blocks_append]) free' fits
      have there : heapStart + extent pre ≤ b.1 := by
        rw [blocks_append, List.mem_append] at mem
        rcases mem with mem | mem
        · exact absurd ⟨free, by omega⟩ (first b.2 (mem_of_mem_blocks mem))
        · exact (blocks_range mem).1
      obtain rfl : a = heapStart + extent pre := by omega
      obtain ⟨k, rest, cut, wide, -⟩ := carve_eq (need size) s fits
      have block : (heapStart + extent pre, (⟨k, false⟩ : Seg)) ∈
          blocks heapStart (pre ++ (carve (need size) s ++ post)) := by
        rw [cut]
        simp [blocks_append]
      obtain ⟨sized', flag, -⟩ := holds'.rep.header block
      refine ⟨m', ran, flag, ?_⟩
      rw [sized']
      exact wide

/-- When nothing is in use the layout is one free segment. -/
theorem Holds.eq_single (holds : Holds m l) (unused : ∀ p n, ¬ IsUsed heapStart l p n) :
    l = [⟨heapSize, true⟩] := by
  have full := holds.tidy.full
  have free : ∀ b ∈ blocks heapStart l, b.2.free = true := by
    rintro ⟨b, s⟩ mem
    by_contra busy
    have shape : s = ⟨s.size, false⟩ := by
      cases s
      simpa using busy
    rw [shape] at mem
    exact unused _ _ ⟨b, mem, rfl⟩
  cases l with
  | nil =>
      simp only [extent_nil, heapEnd, heapSize, heapPages, pageSize] at full
      omega
  | cons s l =>
      cases l with
      | nil =>
          have whole : heapStart + s.size = heapStart + heapSize := full
          obtain ⟨size, flag⟩ := s
          obtain rfl : flag = true := free _ List.mem_cons_self
          rw [show size = heapSize from Nat.add_left_cancel whole]
      | cons t l =>
          have apart := (List.isChain_cons_cons.mp holds.tidy.noFreePair).1
          exact absurd ⟨free (heapStart, s) List.mem_cons_self,
            free (heapStart + s.size, t) (by simp)⟩ apart

/-- When nothing is in use the heap is one free block. -/
theorem Holds.single (holds : Holds m l) (unused : ∀ p n, ¬ IsUsed heapStart l p n) :
    next m heapStart = 0 ∧ isFree m heapStart ≠ 0 ∧ Heap.size m heapStart = heapSize := by
  obtain rfl := holds.eq_single unused
  obtain ⟨sized, flag, link⟩ :=
    holds.rep.header (b := (heapStart, (⟨heapSize, true⟩ : Seg))) List.mem_cons_self
  dsimp only at sized flag link
  refine ⟨?_, ?_, sized⟩
  · rw [link]
    exact nextPtr_heapEnd
  · rw [flag]
    exact Nat.one_ne_zero

end Complete

/-! ## Runs -/

section Runs

variable {m : ByteMemory} {l : List Seg} {s t : HeapState} {c : HeapCall} {cs : List HeapCall}

/-- A size that wraps is given the smallest block. -/
theorem need_wrapped {size : Nat} (large : 2 ^ 64 - 47 ≤ size) (fits : size < 2 ^ 64) :
    need size = 48 := by
  unfold need align16
  simp only [headerSize]
  split <;> omega

/-- With a free block a size that wraps is given one. -/
theorem Holds.kmalloc_wrapped (holds : Holds m l) (free : HasFree m) {size : Nat}
    (large : 2 ^ 64 - 47 ≤ size) (fits : size < 2 ^ 64) :
    ∃ p m', kmalloc m size = some (p, m') ∧ p ≠ 0 := by
  have placed := holds.kmalloc_place (show size ≠ 0 by omega)
  obtain ⟨b, mem, flag⟩ := holds.exists_free free
  cases found : place (need size) l with
  | none =>
      have room := (holds.tidy.sized b.2 (mem_of_mem_blocks mem)).2
      refine absurd ⟨flag, ?_⟩ (place_none found b.2 (mem_of_mem_blocks mem))
      rw [need_wrapped large fits]
      exact room
  | some r =>
      obtain ⟨o, l'⟩ := r
      rw [found] at placed
      obtain ⟨m', ran, -⟩ := placed
      exact ⟨_, m', ran, by simp only [heapStart]; omega⟩

/-- After a wrapping `kzalloc` the machine has stopped. -/
theorem HeapInv.noWrap (inv : HeapInv s l) (step : HeapStep s c t) (running : t.halted = false) :
    NoWrap s c := by
  obtain ⟨-, legal, ran⟩ := step
  cases c with
  | kmalloc size => trivial
  | kfree ptr => trivial
  | store ptr off v => trivial
  | kzalloc size =>
      by_contra wraps
      rw [NoWrap, not_or, Nat.not_lt, not_not] at wraps
      have fits : size < 2 ^ 64 := legal
      obtain ⟨p, m', took, nonnull⟩ := inv.holds.kmalloc_wrapped wraps.2 wraps.1 fits
      have beyond : ¬ p + size ≤ heapEnd := by
        have large := wraps.1
        simp only [heapEnd, heapStart, heapSize, heapPages, pageSize]
        omega
      simp only [heapExec, kzalloc, took, Option.map_some, if_neg nonnull, if_neg beyond,
        Option.some.injEq] at ran
      rw [← ran] at running
      cases running

/-- A run that ends with the machine running began with it. -/
theorem running_of_run (run : Run HeapStep s cs t) (running : t.halted = false) :
    s.halted = false := by
  cases run with
  | nil s => exact running
  | cons step _ => exact step.1

/-- **Every run of legal calls that has not stopped the machine keeps the invariant.** -/
theorem HeapInv.run (inv : HeapInv s l) (run : Run HeapStep s cs t) (running : t.halted = false) :
    ∃ l', HeapInv t l' := by
  induction run generalizing l with
  | nil s => exact ⟨l, inv⟩
  | cons step rest ih =>
      have noWrap := inv.noWrap step (running_of_run rest running)
      obtain ⟨-, legal, ran⟩ := step
      obtain ⟨u, ran', ⟨l', inv'⟩, -⟩ := heapExec_inv inv _ legal noWrap
      rw [ran] at ran'
      obtain rfl := Option.some.inj ran'
      exact ih inv' running

/-- **The heap fits as well as it can.**  In every state that legal calls lead to, `kmalloc` of
up to 2^63 bytes returns null exactly when no run of bytes outside the blocks in use has room for
the block, and otherwise allocates it at the start of the lowest such run; and when every pointer
has been freed the heap is a single free block.  The layout of the heap is tidy, with no two free
blocks side by side, so that the free blocks are exactly the gaps; and first fit takes the lowest
of them. -/
theorem heapRun_complete (run : Run HeapStep (HeapState.init m) cs s) (running : s.halted = false) :
    (∀ size, 1 ≤ size → size ≤ 2 ^ 63 →
      ((∃ m', kmalloc s.mem size = some (0, m')) ↔
        ¬ ∃ a, Gap s.mem a (max 48 ((size + 32 + 15) / 16 * 16))) ∧
      ∀ a, Gap s.mem a (max 48 ((size + 32 + 15) / 16 * 16)) →
        (∀ b < a, ¬ Gap s.mem b (max 48 ((size + 32 + 15) / 16 * 16))) →
        ∃ m', kmalloc s.mem size = some (a + headerSize, m') ∧ isFree m' a = 0 ∧
          max 48 ((size + 32 + 15) / 16 * 16) ≤ Heap.size m' a) ∧
    (s.outstanding = [] →
      next s.mem heapStart = 0 ∧ isFree s.mem heapStart ≠ 0 ∧ Heap.size s.mem heapStart = heapSize) := by
  obtain ⟨l, inv⟩ := (heapInit_inv m).run run running
  refine ⟨fun size low high => ?_, fun empty => ?_⟩
  · have positive : size ≠ 0 := by omega
    rw [← need_eq high]
    refine ⟨⟨fun ⟨m', null⟩ => ?_, fun nowhere => ?_⟩, fun a gap lowest => ?_⟩
    · rintro ⟨a, gap⟩
      have some : ∃ a, Gap s.mem a (need size) := ⟨a, gap⟩
      classical
      obtain ⟨m'', ran, -⟩ := inv.holds.kmalloc_lowest positive (Nat.find_spec some)
        fun b less => Nat.find_min some less
      rw [null, Option.some.injEq, Prod.mk.injEq] at ran
      have zero := ran.1
      simp only [headerSize] at zero
      omega
    · exact ⟨s.mem, inv.holds.kmalloc_null positive nowhere⟩
    · exact inv.holds.kmalloc_lowest positive gap lowest
  · refine inv.holds.single fun p n used => ?_
    have held := (inv.used p).mpr ⟨n, used⟩
    rw [empty] at held
    cases held

instance (s : HeapState) (c : HeapCall) : Decidable (Legal s c) := by
  unfold Legal
  cases c <;> infer_instance

/-- Given calls, one after the other, as long as they are legal. -/
def HeapState.calls : List HeapCall → HeapState → Option HeapState
  | [], s => some s
  | c :: cs, s =>
      if s.halted = false ∧ Legal s c then (heapExec s c).bind (HeapState.calls cs) else none

/-- Calls that come through lead to a state with a property that can be computed. -/
theorem HeapState.calls_run {cs : List HeapCall} {s : HeapState} {p : HeapState → Bool}
    (done : (HeapState.calls cs s).any p = true) : ∃ t, Run HeapStep s cs t ∧ p t = true := by
  induction cs generalizing s with
  | nil => exact ⟨s, .nil s, done⟩
  | cons c cs ih =>
      rw [HeapState.calls] at done
      split at done
      case isFalse => cases done
      case isTrue can =>
        cases ran : heapExec s c with
        | none =>
            rw [ran] at done
            cases done
        | some u =>
            rw [ran] at done
            obtain ⟨t, run, holds⟩ := ih done
            exact ⟨t, .cons ⟨can.1, can.2, ran⟩ run, holds⟩

/-- Two blocks are taken and the first is freed: there is a gap for another one; the second is
freed as well, and the heap is one free block. -/
theorem heapRun_complete_twoBlocks :
    (∃ s, Run HeapStep (HeapState.init fun _ => 0)
        [.kmalloc 100, .kmalloc 200, .kfree (heapStart + 32)] s ∧
      s.outstanding = [heapStart + 144 + 32] ∧ ∃ a, Gap s.mem a 144) ∧
    ∃ s, Run HeapStep (HeapState.init fun _ => 0)
        [.kmalloc 100, .kmalloc 200, .kfree (heapStart + 32), .kfree (heapStart + 144 + 32)] s ∧
      next s.mem heapStart = 0 ∧ isFree s.mem heapStart ≠ 0 ∧
      Heap.size s.mem heapStart = heapSize := by
  constructor
  · obtain ⟨s, run, facts⟩ : ∃ s, Run HeapStep (HeapState.init fun _ => 0)
        [.kmalloc 100, .kmalloc 200, .kfree (heapStart + 32)] s ∧
        decide (s.halted = false ∧ s.outstanding = [heapStart + 144 + 32] ∧
          (kmalloc s.mem 100).all fun r => decide (r.1 ≠ 0)) = true :=
      HeapState.calls_run (by decide +kernel)
    obtain ⟨running, held, found⟩ := of_decide_eq_true facts
    refine ⟨s, run, held, ?_⟩
    have complete := ((heapRun_complete run running).1 100 (by decide) (by decide)).1
    refine not_not.mp fun nowhere => ?_
    obtain ⟨m', null⟩ := complete.mpr nowhere
    rw [null] at found
    cases found
  · obtain ⟨s, run, facts⟩ : ∃ s, Run HeapStep (HeapState.init fun _ => 0)
        [.kmalloc 100, .kmalloc 200, .kfree (heapStart + 32), .kfree (heapStart + 144 + 32)] s ∧
        decide (s.halted = false ∧ s.outstanding = []) = true :=
      HeapState.calls_run (by decide +kernel)
    obtain ⟨running, empty⟩ := of_decide_eq_true facts
    exact ⟨s, run, (heapRun_complete run running).2 empty⟩

end Runs

/-! ## The size of the block -/

section Sizes

variable {m m' : ByteMemory} {l : List Seg} {size : Nat}

/-- **An allocation is as large as asked for**: the block of the pointer that `kmalloc` returns
extends at least `size` bytes past it, and `kzalloc` returns as well, having written in the
payload of its block only. -/
structure AsLarge (m : ByteMemory) (size : Nat) : Prop where
  kmalloc : ∀ p m', kmalloc m size = some (p, m') → p ≠ 0 → size ≤ payload m' p
  kzalloc : ∀ o, kzalloc m size = some o → ∃ p m' m'', o = .ret p m' ∧
    Flyos.kmalloc m size = some (p, m'') ∧
    (p ≠ 0 → size ≤ payload m' p ∧ ∀ x, x < p ∨ p + payload m'' p ≤ x → m' x = m'' x)

/-- The block that is taken has the size that was looked for. -/
theorem le_size_taken {b n : Nat} (fits : n < 2 ^ 64) (room : n ≤ Heap.size m b) :
    n ≤ Heap.size (setIsFree (if (n + headerSize + 64) % 2 ^ 64 ≤ Heap.size m b then splitBlock m b n
      else m) b 0) b := by
  have apart : b + 8 ≤ b + 8 ∨ b + 8 + 8 ≤ b := by omega
  rw [Heap.size, setIsFree, ByteMemory.load_store_of_disjoint _ _ apart]
  split
  · rw [splitBlock, setSize, ByteMemory.load_store_same _ _ (by omega)]
  · exact room

/-- The walk of `kmalloc` returns a block of the size that was looked for. -/
theorem kmallocLoop_size {n fuel b p : Nat} (fits : n < 2 ^ 64)
    (ran : kmallocLoop m n fuel b = some (p, m')) (nonnull : p ≠ 0) :
    n ≤ Heap.size m' (p - headerSize) := by
  induction fuel generalizing b with
  | zero => cases ran
  | succ fuel ih =>
      rw [kmallocLoop] at ran
      split at ran
      · obtain ⟨null, -⟩ := Prod.mk.inj (Option.some.inj ran)
        exact absurd null.symm nonnull
      split at ran
      · next taken =>
          obtain ⟨rfl, rfl⟩ := Prod.mk.inj (Option.some.inj ran)
          rw [Nat.add_sub_cancel]
          exact le_size_taken fits taken.2
      · exact ih ran

theorem need_lt (size : Nat) : need size < 2 ^ 64 := by
  unfold need align16
  simp only [headerSize]
  split <;> omega

/-- A pointer that is not null has a block of the size that was looked for. -/
theorem kmalloc_size {p : Nat} (ran : kmalloc m size = some (p, m')) (nonnull : p ≠ 0) :
    need size ≤ Heap.size m' (p - headerSize) := by
  rw [kmalloc] at ran
  split at ran
  · obtain ⟨null, -⟩ := Prod.mk.inj (Option.some.inj ran)
    exact absurd null.symm nonnull
  · exact kmallocLoop_size (need_lt size) ran nonnull

/-- **An allocation is as large as asked for** exactly when the size does not wrap or no block is
free.  The size that is looked for wraps from 2^64 - 47 on and is then 48, which the first free
block has; below, the block taken has the size that was looked for (`kmallocLoop_size`). -/
theorem asLarge_iff (holds : Holds m l) (fits : size < 2 ^ 64) :
    AsLarge m size ↔ size < 2 ^ 64 - 47 ∨ ¬ HasFree m := by
  constructor
  · intro large
    by_contra wraps
    rw [not_or, Nat.not_lt, not_not] at wraps
    obtain ⟨p, m', ran, nonnull⟩ := holds.kmalloc_wrapped wraps.2 wraps.1 fits
    have room := large.kmalloc p m' ran nonnull
    have bound := ByteMemory.load_lt m' (p - headerSize) 8
    have above := wraps.1
    rcases kmalloc_spec holds size with null | ⟨q, m'', l', k, ran', holds', -, -, used, -⟩
    · rw [ran] at null
      exact nonnull (Prod.mk.inj (Option.some.inj null)).1
    · rw [ran] at ran'
      obtain ⟨rfl, rfl⟩ := Prod.mk.inj (Option.some.inj ran')
      have mine : IsUsed heapStart l' p k := (used p k).mpr (.inl ⟨rfl, rfl⟩)
      rw [holds'.payload mine] at room
      have range := mine.range
      have full := holds'.tidy.full
      simp only [heapEnd, heapStart, heapSize, heapPages, pageSize, headerSize] at range full room
      omega
  · intro condition
    have enough : ∀ p m', kmalloc m size = some (p, m') → p ≠ 0 → size ≤ payload m' p := by
      intro p m' ran nonnull
      rcases condition with small | full
      · have room := kmalloc_size ran nonnull
        have fits := le_need small
        rw [payload]
        omega
      · rcases kmalloc_spec holds size with null | ⟨q, m'', l', k, -, -, free, -⟩
        · rw [ran] at null
          exact absurd (Prod.mk.inj (Option.some.inj null)).1 nonnull
        · exact absurd (holds.hasFree free) full
    refine ⟨enough, fun o ran => ?_⟩
    rw [Flyos.kzalloc] at ran
    obtain ⟨⟨p, m'⟩, took, result⟩ := Option.map_eq_some_iff.mp ran
    by_cases null : p = 0
    · subst null
      exact ⟨0, m', m', result.symm, took, fun nonnull => absurd rfl nonnull⟩
    · have room := enough p m' took null
      rcases kmalloc_spec holds size with none | ⟨q, m'', l', k, ran', holds', -, -, used, -⟩
      · rw [took] at none
        exact absurd (Prod.mk.inj (Option.some.inj none)).1 null
      rw [took] at ran'
      obtain ⟨rfl, rfl⟩ := Prod.mk.inj (Option.some.inj ran')
      have mine : IsUsed heapStart l' p k := (used p k).mpr (.inl ⟨rfl, rfl⟩)
      have range := mine.range
      have full := holds'.tidy.full
      have wide := mine.large holds'.tidy.sized
      have length := holds'.payload mine
      have inside : p + size ≤ heapEnd := by omega
      have header : payload (m'.fill p size 0) p = payload m' p := by
        rw [payload, payload, Heap.size, Heap.size, ByteMemory.fill,
          ByteMemory.load_blit_of_disjoint _ _ (by simp only [headerSize] at range ⊢; omega)]
      dsimp only at result
      rw [if_neg null, if_pos inside] at result
      refine ⟨p, _, m', result.symm, took, fun _ => ⟨by rw [header]; exact room, fun x out => ?_⟩⟩
      exact ByteMemory.blit_of_notMem _ _ (by omega)

/-- An allocation of 100 bytes on a fresh heap is as large as asked for. -/
theorem asLarge_small : AsLarge (heapInit fun _ => 0) 100 :=
  (asLarge_iff (heapInit_inv fun _ => 0).holds (by decide)).mpr (.inl (by decide))

/-- **The exception.**  On a fresh heap `kmalloc` of 2^64 - 16 bytes returns a block of 48. -/
theorem asLarge_wraps : ¬ AsLarge (heapInit fun _ => 0) (2 ^ 64 - 16) := by
  have holds := (heapInit_inv fun _ => 0).holds
  intro large
  have free : HasFree (heapInit fun _ => 0) :=
    holds.hasFree ⟨(heapStart, ⟨heapSize, true⟩), List.mem_cons_self, rfl⟩
  obtain ⟨p, m', ran, nonnull⟩ := holds.kmalloc_wrapped free
    (show 2 ^ 64 - 47 ≤ 2 ^ 64 - 16 by decide)
    (by decide)
  have room := large.kmalloc p m' ran nonnull
  have wraps : need (2 ^ 64 - 16) = 48 := by decide
  have placed := holds.kmalloc_place (show 2 ^ 64 - 16 ≠ 0 by decide)
  have found : place 48 [⟨heapSize, true⟩] = some (0, [⟨48, false⟩, ⟨heapSize - 48, true⟩]) := by
    decide
  rw [wraps, found] at placed
  obtain ⟨m₁, ran₁, holds₁⟩ := placed
  rw [ran] at ran₁
  obtain ⟨rfl, rfl⟩ := Prod.mk.inj (Option.some.inj ran₁)
  have used : IsUsed heapStart [⟨48, false⟩, ⟨heapSize - 48, true⟩] (heapStart + 0 + headerSize) 48 :=
    ⟨heapStart, List.mem_cons_self, rfl⟩
  rw [holds₁.payload used] at room
  exact absurd room (by decide)

end Sizes

end Flyos
