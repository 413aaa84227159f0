import Flyos.Mm.HeapInv

/-!
# The kernel heap and its clients

`HeapState` is the heap memory with the pointers its clients hold; a
`HeapCall` is one client action: `kmalloc`, `kzalloc`, `kfree` of null or of a
held pointer, or a store into a held block.  `HeapInvariant s bs` is what the
heap promises in state `s`, read off the headers in memory with no reference to
layouts: `bs` is the block list, and the blocks tile the heap.

The promise is kept by every call but one: `kzalloc` of `2 ^ 64 - 47` bytes or
more.  There `ALIGN16` wraps, `kmalloc` hands out a block of 48 bytes, and the
clearing loop runs over the headers behind it and past the end of the heap.
`NoWrap` rules that call out and no other, and `heapRun_invariant` is the
promise for every run without it.
-/

namespace Flyos

open Heap

/-- The memory, the pointers handed out and not yet freed, and whether the
machine has stopped at a page fault. -/
structure HeapState where
  mem : ByteMemory
  outstanding : List Nat
  halted : Bool

/-- The state `heap_init` leaves. -/
def HeapState.init (m : ByteMemory) : HeapState := ⟨heapInit m, [], false⟩

/-- What a client of the heap does. -/
inductive HeapCall where
  | kmalloc (size : Nat)
  | kzalloc (size : Nat)
  | kfree (ptr : Nat)
  | store (ptr off : Nat) (v : UInt8)

/-- The bytes a client may use at a pointer: what its block has behind the header. -/
def payload (m : ByteMemory) (ptr : Nat) : Nat := size m (ptr - headerSize) - headerSize

/-- A pointer returned by the heap, null excepted, is held from then on. -/
def HeapState.returned (s : HeapState) (ptr : Nat) (m : ByteMemory) : HeapState :=
  { s with mem := m, outstanding := if ptr = 0 then s.outstanding else ptr :: s.outstanding }

/-- One client action. -/
def heapExec (s : HeapState) : HeapCall → Option HeapState
  | .kmalloc size => (kmalloc s.mem size).map fun r => s.returned r.1 r.2
  | .kzalloc size => (kzalloc s.mem size).map fun
      | .ret ptr m => s.returned ptr m
      | .fault m => { s with mem := m, halted := true }
  | .kfree ptr => (kfree s.mem ptr).map fun m =>
      { s with mem := m, outstanding := s.outstanding.erase ptr }
  | .store ptr off v => some { s with mem := s.mem.store (ptr + off) 1 v.toNat }

/-- What a client may do: sizes are 64-bit, only held pointers are freed, and
stores stay in the payload of a held block. -/
def Legal (s : HeapState) : HeapCall → Prop
  | .kmalloc size => size < 2 ^ 64
  | .kzalloc size => size < 2 ^ 64
  | .kfree ptr => ptr = 0 ∨ ptr ∈ s.outstanding
  | .store ptr off _ => ptr ∈ s.outstanding ∧ off < payload s.mem ptr

/-- A legal call that returns or faults, made while the machine runs. -/
def HeapStep (s : HeapState) (c : HeapCall) (t : HeapState) : Prop :=
  s.halted = false ∧ Legal s c ∧ heapExec s c = some t

/-- Some block of the list in memory is free. -/
def HasFree (m : ByteMemory) : Prop :=
  ∃ bs, LinkChain (next m) (· = 0) heapStart bs ∧ ∃ b ∈ bs, isFree m b ≠ 0

/-- The size arithmetic of `kzalloc` does not wrap, or there is no free block
the wrapped request could be given. -/
def NoWrap (s : HeapState) : HeapCall → Prop
  | .kzalloc size => size < 2 ^ 64 - 47 ∨ ¬ HasFree s.mem
  | _ => True

/-- What the heap promises in a state, `bs` being its block list. -/
structure HeapInvariant (s : HeapState) (bs : List Nat) : Prop where
  /-- The walk along `next` visits `bs` and ends. -/
  chain : LinkChain (next s.mem) (· = 0) heapStart bs
  sorted : bs.Pairwise (· < ·)
  /-- Each block ends where the next one begins, and `prev` undoes `next`. -/
  tiles : bs.IsChain fun b b' =>
    next s.mem b = b' ∧ b + size s.mem b = b' ∧ prev s.mem b' = b
  first : prev s.mem heapStart = 0
  last : ∀ b ∈ bs, next s.mem b = 0 → b + size s.mem b = heapEnd
  sizes : ∀ b ∈ bs, size s.mem b % 16 = 0 ∧ headerSize + 16 ≤ size s.mem b
  noFreePair : bs.IsChain fun b b' => ¬ (isFree s.mem b ≠ 0 ∧ isFree s.mem b' ≠ 0)
  /-- The blocks in use are those of the held pointers, each held once. -/
  used : ∀ p, p ∈ s.outstanding ↔ ∃ b ∈ bs, isFree s.mem b = 0 ∧ p = b + headerSize
  nodup : s.outstanding.Nodup
  apart : s.outstanding.Pairwise fun p q =>
    p + payload s.mem p ≤ q ∨ q + payload s.mem q ≤ p

/-- A call leaves the payloads of held blocks alone; a client's own store is not
a call into the heap. -/
def PayloadsKept (s : HeapState) (c : HeapCall) (t : HeapState) : Prop :=
  (∀ ptr off v, c ≠ .store ptr off v) →
    ∀ p ∈ s.outstanding, ∀ x, p ≤ x → x < p + payload s.mem p → t.mem x = s.mem x

/-! ## What a layout says about the block list in memory -/

/-- The header of a block of a layout. -/
theorem Heap.Rep.header {m : ByteMemory} {p a : Nat} {l : List Seg} (rep : Rep m p a l)
    {b : Nat × Seg} (mem : b ∈ blocks a l) :
    size m b.1 = b.2.size ∧ isFree m b.1 = (if b.2.free then 1 else 0) ∧
      next m b.1 = nextPtr (b.1 + b.2.size) := by
  induction l generalizing p a with
  | nil => simp at mem
  | cons s l ih =>
      obtain ⟨hsize, hfree, hnext, -, rest⟩ := rep
      rcases List.mem_cons.mp mem with rfl | mem
      · exact ⟨hsize, hfree, hnext⟩
      · exact ih rest mem

/-- The walk along `next` visits the blocks of the layout. -/
theorem Heap.Rep.linkChain {m : ByteMemory} {p a : Nat} {l : List Seg} (rep : Rep m p a l)
    (sized : Sized l) (full : a + extent l = heapEnd) (pos : a ≠ 0) :
    LinkChain (next m) (· = 0) (nextPtr a) ((blocks a l).map Prod.fst) := by
  induction l generalizing p a with
  | nil =>
      rw [show a = heapEnd from full, nextPtr_heapEnd]
      rfl
  | cons s l ih =>
      rw [nextPtr_of_cons sized full]
      obtain ⟨-, -, hnext, -, rest⟩ := rep
      refine ⟨rfl, pos, ?_⟩
      rw [hnext]
      exact ih rest sized.tail (by rw [← full, extent_cons]; omega) (by omega)

/-- Neighbouring blocks of a layout, by their headers. -/
theorem Heap.Rep.isChain {m : ByteMemory} {p a : Nat} {l : List Seg} (rep : Rep m p a l)
    (sized : Sized l) (full : a + extent l = heapEnd) :
    ((blocks a l).map Prod.fst).IsChain fun b b' =>
      next m b = b' ∧ b + size m b = b' ∧ prev m b' = b := by
  induction l generalizing p a with
  | nil => exact .nil
  | cons s l ih =>
      obtain ⟨hsize, -, hnext, -, rest⟩ := rep
      have total : a + s.size + extent l = heapEnd := by rw [← full, extent_cons]; omega
      have tail := ih rest sized.tail total
      cases l with
      | nil => exact .singleton _
      | cons t l =>
          refine .cons_cons ⟨?_, ?_, rest.2.2.2.1⟩ tail
          · rw [hnext, nextPtr_of_cons sized.tail total]
          · rw [hsize]

/-- Neighbouring blocks are free when their segments are. -/
theorem Heap.Rep.noFreePair {m : ByteMemory} {p a : Nat} {l : List Seg} (rep : Rep m p a l)
    (pairs : NoFreePair l) :
    ((blocks a l).map Prod.fst).IsChain fun b b' => ¬ (isFree m b ≠ 0 ∧ isFree m b' ≠ 0) := by
  induction l generalizing p a with
  | nil => exact .nil
  | cons s l ih =>
      obtain ⟨-, hfree, -, -, rest⟩ := rep
      cases l with
      | nil => exact .singleton _
      | cons t l =>
          have apart := List.isChain_cons_cons.mp pairs
          refine .cons_cons ?_ (ih rest apart.2)
          have tfree := rest.2.1
          intro both
          refine apart.1 ⟨?_, ?_⟩
          · by_contra used; simp [hfree, used] at both
          · by_contra used; simp [tfree, used] at both

/-! ## One call on a tidy layout -/

/-- The memory holds the layout `l`, and `l` is tidy. -/
structure Holds (m : ByteMemory) (l : List Seg) : Prop where
  rep : Rep m 0 heapStart l
  tidy : Tidy l

/-- There are fewer blocks than the walks allow for. -/
theorem length_lt_heapFuel {l : List Seg} (tidy : Tidy l) : l.length < heapFuel := by
  have total := tidy.full
  have each : ∀ {l : List Seg}, Sized l → 48 * l.length ≤ extent l := by
    intro l sized
    induction l with
    | nil => simp
    | cons s l ih =>
        have here : 48 ≤ s.size := sized.head.2
        have rest := ih sized.tail
        simp only [List.length_cons, extent_cons]
        omega
  have bound := each tidy.sized
  simp only [heapFuel, heapEnd, heapStart, heapSize, heapPages, pageSize] at total ⊢
  omega

/-- The size `kmalloc` looks for is a legal block size. -/
theorem need_sized (size : Nat) : need size % 16 = 0 ∧ headerSize + 16 ≤ need size := by
  unfold need align16
  simp only [headerSize]
  split <;> omega

/-- When the request does not wrap, the block has room for it behind the header. -/
theorem le_need {size : Nat} (fits : size < 2 ^ 64 - 47) : size + headerSize ≤ need size := by
  unfold need align16
  simp only [headerSize]
  split <;> omega

/-- **What `kmalloc` does.**  It returns null and changes nothing when no free
block is large enough; otherwise it returns a pointer that was not held, its
block is in use from then on, and only headers were written. -/
theorem kmalloc_spec {m : ByteMemory} {l : List Seg} (holds : Holds m l) (size : Nat) :
    kmalloc m size = some (0, m) ∨
      ∃ p m' l' k, kmalloc m size = some (p, m') ∧ Holds m' l' ∧
        (∃ b ∈ blocks heapStart l, b.2.free = true) ∧ need size ≤ k ∧
        (∀ q n, IsUsed heapStart l' q n ↔ (q = p ∧ n = k) ∨ IsUsed heapStart l q n) ∧
        (∀ n, ¬ IsUsed heapStart l p n) ∧ ∀ x, ¬ Headers heapStart l' x → m' x = m x := by
  by_cases zero : size = 0
  · exact .inl (by rw [kmalloc, if_pos zero])
  have total := holds.tidy.full
  have large := need_sized size
  have walk := kmallocLoop_rep (need size) holds.rep holds.tidy.sized total
    (by simp) large.2 (length_lt_heapFuel holds.tidy)
  have start : nextPtr heapStart = heapStart := nextPtr_of_lt (by
    simp only [heapEnd, heapStart, heapSize, heapPages, pageSize]; omega)
  rw [start] at walk
  cases found : place (need size) l with
  | none =>
      rw [found] at walk
      exact .inl (by rw [kmalloc, if_neg zero]; exact walk)
  | some r =>
      obtain ⟨o, l'⟩ := r
      rw [found] at walk
      obtain ⟨m', ran, rep', frame⟩ := walk
      obtain ⟨k, fits, used, fresh⟩ := isUsed_place (a := heapStart) found holds.tidy.sized
      refine .inr ⟨heapStart + o + headerSize, m', l', k, ?_,
        ⟨rep', holds.tidy.place found large.1 large.2⟩, ?_, fits, used, fresh, frame⟩
      · rw [kmalloc, if_neg zero]
        exact ran
      · obtain ⟨pre, t, post, rfl, free, -⟩ := place_some found
        exact ⟨(heapStart + extent pre, t), by simp [blocks_append], free⟩

/-- **What `kfree` does** to a held pointer: its block is free from then on, the
others are as before, and only headers were written. -/
theorem kfree_spec {m : ByteMemory} {l : List Seg} {p n : Nat} (holds : Holds m l)
    (held : IsUsed heapStart l p n) :
    ∃ m' l', kfree m p = some m' ∧ Holds m' l' ∧
      (∀ q k, IsUsed heapStart l' q k ↔ IsUsed heapStart l q k ∧ q ≠ p) ∧
      ∀ x, ¬ Headers heapStart l x → m' x = m x := by
  have sized := holds.tidy.sized
  have total := holds.tidy.full
  have range := held.range
  have large := held.large sized
  -- the guards of the C code: the pointer is in range and its block is in use
  have nonnull : p ≠ 0 := by simp only [heapStart] at range; omega
  have inside : ¬ (p < heapStart + headerSize ∨ heapEnd ≤ p) := by omega
  obtain ⟨pre, post, rfl, rfl⟩ := held.split
  have busy : ¬ isFree m (heapStart + extent pre) ≠ 0 := by
    have block : (heapStart + extent pre, (⟨n, false⟩ : Seg)) ∈
        blocks heapStart (pre ++ ⟨n, false⟩ :: post) := by simp [blocks_append]
    simpa using (holds.rep.header block).2.1
  have released := holds.rep.release sized
  have sized' : Sized (pre ++ ⟨n, true⟩ :: post) := by
    intro t ht
    simp only [List.mem_append, List.mem_cons] at ht
    rcases ht with ht | rfl | ht
    · exact sized t (by simp [ht])
    · exact sized ⟨n, false⟩ (by simp)
    · exact sized t (by simp [ht])
  have extent' : extent (pre ++ ⟨n, true⟩ :: post) = extent (pre ++ ⟨n, false⟩ :: post) := by
    simp [extent_append]
  have headers' : ∀ x, Headers heapStart (pre ++ ⟨n, true⟩ :: post) x →
      Headers heapStart (pre ++ ⟨n, false⟩ :: post) x := by
    rintro x ⟨b, hb, lo, hi⟩
    simp only [blocks_append, blocks_cons, List.mem_append, List.mem_cons] at hb
    rcases hb with hb | rfl | hb
    · exact ⟨b, by simp [blocks_append, hb], lo, hi⟩
    · exact ⟨(heapStart + extent pre, ⟨n, false⟩), by simp [blocks_append], lo, hi⟩
    · exact ⟨b, by simp [blocks_append, hb], lo, hi⟩
  obtain ⟨s, rest, shape⟩ : ∃ s rest, pre ++ ⟨n, true⟩ :: post = s :: rest := by
    cases pre with
    | nil => exact ⟨_, _, rfl⟩
    | cons s pre => exact ⟨s, _, rfl⟩
  have length : rest.length + 1 = (pre ++ (⟨n, false⟩ : Seg) :: post).length := by
    have := congrArg List.length shape
    simp only [List.length_append, List.length_cons] at this ⊢
    omega
  have enough := length_lt_heapFuel holds.tidy
  have shorter : rest.length < heapFuel := by omega
  rw [shape] at released sized' extent' headers'
  obtain ⟨m', ran, rep', frame⟩ := mergeAll_rep released sized' (by rw [extent', total])
    (by simp) shorter
  refine ⟨m', coalesce s rest, ?_, ⟨rep', sized_coalesce sized', ?_, noFreePair_coalesce s rest⟩,
    fun q k => ?_, fun x out => ?_⟩
  · rw [kfree, if_neg nonnull, if_neg inside]
    simp only [Nat.add_sub_cancel]
    rw [if_neg busy]
    exact ran
  · rw [extent_coalesce, ← extent_cons, extent', total]
  · rw [isUsed_coalesce, ← shape, isUsed_release sized]
  · rw [frame x fun h => out (headers' x h)]
    refine ByteMemory.store_of_notMem m 1 ?_
    by_contra within
    refine out ⟨(heapStart + extent pre, ⟨n, false⟩), by simp [blocks_append], ?_, ?_⟩
    · simp only; omega
    · simp only [headerSize]; omega

/-! ## The invariant -/

/-- The state of the heap, by the layout its memory holds. -/
structure HeapInv (s : HeapState) (l : List Seg) : Prop where
  holds : Holds s.mem l
  running : s.halted = false
  nodup : s.outstanding.Nodup
  used : ∀ p, p ∈ s.outstanding ↔ ∃ n, IsUsed heapStart l p n

/-- A layout is read only from its headers. -/
theorem Holds.congr {m m' : ByteMemory} {l : List Seg} (holds : Holds m l)
    (same : ∀ x, Headers heapStart l x → m x = m' x) : Holds m' l :=
  ⟨holds.rep.congr_headers same, holds.tidy⟩

/-- The payload of a used block, by the header in memory. -/
theorem Holds.payload {m : ByteMemory} {l : List Seg} {p n : Nat} (holds : Holds m l)
    (used : IsUsed heapStart l p n) : payload m p = n - headerSize := by
  obtain ⟨b, hb, rfl⟩ := used
  rw [Flyos.payload, Nat.add_sub_cancel, (holds.rep.header hb).1]

/-- The heap starts as one free block. -/
theorem heapInit_inv (m : ByteMemory) : HeapInv (HeapState.init m) [⟨heapSize, true⟩] := by
  refine ⟨⟨⟨?_, ?_, ?_, ?_, trivial⟩, ?_, by simp, .singleton _⟩, rfl, List.nodup_nil, ?_⟩
  · simp only [HeapState.init, heapInit, size, setSize, setIsFree, setNext, setPrev]
    simp (disch := simp) only [ByteMemory.load_store_of_disjoint]
    exact ByteMemory.load_store_same _ _ (by decide)
  · simp only [HeapState.init, heapInit, isFree, setSize, setIsFree, setNext, setPrev]
    simp (disch := simp) [ByteMemory.load_store_of_disjoint, ByteMemory.load_store_same]
  · simp only [HeapState.init, heapInit, next, setSize, setIsFree, setNext, setPrev]
    simp (disch := simp) only [ByteMemory.load_store_of_disjoint, ByteMemory.load_store_same]
    exact nextPtr_heapEnd.symm
  · exact ByteMemory.load_store_same _ _ (by simp)
  · intro s mem
    obtain rfl := List.mem_singleton.mp mem
    decide
  · simp [HeapState.init, IsUsed]

/-- What the invariant says of the headers in memory. -/
theorem HeapInv.invariant {s : HeapState} {l : List Seg} (inv : HeapInv s l) :
    HeapInvariant s ((blocks heapStart l).map Prod.fst) := by
  obtain ⟨⟨rep, tidy⟩, -, nodup, used⟩ := inv
  have sized := tidy.sized
  have total := tidy.full
  have start : nextPtr heapStart = heapStart := nextPtr_of_lt (by
    simp only [heapEnd, heapStart, heapSize, heapPages, pageSize]; omega)
  have chain := rep.linkChain sized total (by simp)
  rw [start] at chain
  obtain ⟨s₀, l₀, rfl⟩ : ∃ s₀ l₀, l = s₀ :: l₀ := by
    cases l with
    | nil =>
        simp only [extent_nil, heapEnd, heapSize, heapPages, pageSize] at total
        omega
    | cons s₀ l₀ => exact ⟨s₀, l₀, rfl⟩
  refine
    { chain, nodup, first := rep.2.2.2.1, tiles := rep.isChain sized total
      noFreePair := rep.noFreePair tidy.noFreePair, sorted := ?_, last := ?_, sizes := ?_
      used := ?_, apart := ?_ }
  · refine List.pairwise_map.mpr (List.Pairwise.imp_of_mem ?_ (blocks_pairwise _ _))
    intro b c hb _ ends
    have large := (sized _ (mem_of_mem_blocks hb)).2
    omega
  · rintro b mem ends
    obtain ⟨c, hc, rfl⟩ := List.mem_map.mp mem
    have range := blocks_range hc
    obtain ⟨hsize, -, hnext⟩ := rep.header hc
    rw [hsize]
    by_contra more
    rw [hnext, nextPtr, if_neg more] at ends
    simp only [heapStart] at range
    omega
  · rintro b mem
    obtain ⟨c, hc, rfl⟩ := List.mem_map.mp mem
    rw [(rep.header hc).1]
    exact sized _ (mem_of_mem_blocks hc)
  · intro p
    rw [used]
    constructor
    · rintro ⟨n, b, hb, rfl⟩
      exact ⟨b, List.mem_map.mpr ⟨_, hb, rfl⟩, (rep.header hb).2.1, rfl⟩
    · rintro ⟨b, mem, busy, rfl⟩
      obtain ⟨⟨a, seg⟩, hc, rfl⟩ := List.mem_map.mp mem
      have flag := (rep.header hc).2.1
      have unfree : seg.free = false := by
        by_contra free
        simp [busy, free] at flag
      exact ⟨seg.size, a, by rw [← unfree]; exact hc, rfl⟩
  · refine List.Pairwise.imp_of_mem ?_ nodup
    intro p q hp hq differ
    obtain ⟨n, hp⟩ := (used p).mp hp
    obtain ⟨k, hq⟩ := (used q).mp hq
    rw [Holds.payload ⟨rep, tidy⟩ hp, Holds.payload ⟨rep, tidy⟩ hq]
    exact hp.apart hq sized differ

/-- Null is never held. -/
theorem HeapInv.ne_zero {s : HeapState} {l : List Seg} (inv : HeapInv s l) {p : Nat}
    (held : p ∈ s.outstanding) : p ≠ 0 := by
  obtain ⟨n, used⟩ := (inv.used p).mp held
  have range := used.range
  simp only [heapStart] at range
  omega

/-- Payloads of held blocks are kept by whoever writes only headers of a layout in
which those blocks are still in use. -/
theorem HeapInv.frame {s : HeapState} {l l' : List Seg} {m : ByteMemory} (inv : HeapInv s l)
    (sized : Sized l') (kept : ∀ q n, IsUsed heapStart l q n → IsUsed heapStart l' q n)
    (written : ∀ x, ¬ Headers heapStart l' x → m x = s.mem x) {p x : Nat}
    (held : p ∈ s.outstanding) (lo : p ≤ x) (hi : x < p + payload s.mem p) :
    m x = s.mem x := by
  obtain ⟨n, used⟩ := (inv.used p).mp held
  rw [inv.holds.payload used] at hi
  exact written x ((kept p n used).not_header sized lo hi)

/-- A layout with a free segment is a block list in memory with a free block. -/
theorem Holds.hasFree {m : ByteMemory} {l : List Seg} (holds : Holds m l)
    (free : ∃ b ∈ blocks heapStart l, b.2.free = true) : HasFree m := by
  obtain ⟨b, hb, free⟩ := free
  have start : nextPtr heapStart = heapStart := nextPtr_of_lt (by
    simp only [heapEnd, heapStart, heapSize, heapPages, pageSize]; omega)
  have chain := holds.rep.linkChain holds.tidy.sized holds.tidy.full (by simp)
  rw [start] at chain
  refine ⟨_, chain, b.1, List.mem_map.mpr ⟨b, hb, rfl⟩, ?_⟩
  rw [(holds.rep.header hb).2.1, free]
  simp

/-! ## Steps and runs -/

/-- A successful `kmalloc`, whose caller may go on to write in the new payload. -/
theorem HeapInv.alloc {s : HeapState} {l : List Seg} (inv : HeapInv s l) (size : Nat) :
    kmalloc s.mem size = some (0, s.mem) ∨
      ∃ p m' k, kmalloc s.mem size = some (p, m') ∧ p ≠ 0 ∧ HasFree s.mem ∧ need size ≤ k ∧
        p + (k - headerSize) ≤ heapEnd ∧
        ∀ m'', (∀ x, x < p ∨ p + (k - headerSize) ≤ x → m'' x = m' x) →
          (∃ l', HeapInv (s.returned p m'') l') ∧
            ∀ q ∈ s.outstanding, ∀ x, q ≤ x → x < q + payload s.mem q → m'' x = s.mem x := by
  rcases kmalloc_spec inv.holds size with null | ⟨p, m', l', k, ran, holds', free, fits, used,
    fresh, written⟩
  · exact .inl null
  have mine : IsUsed heapStart l' p k := (used p k).mpr (.inl ⟨rfl, rfl⟩)
  have sized' := holds'.tidy.sized
  have total := holds'.tidy.full
  have range := mine.range
  have large := mine.large sized'
  have nonnull : p ≠ 0 := by simp only [heapStart] at range; omega
  refine .inr ⟨p, m', k, ran, nonnull, inv.holds.hasFree free, fits, by omega,
    fun m'' same => ⟨⟨l', ?_⟩, fun q held x lo hi => ?_⟩⟩
  · rw [HeapState.returned, if_neg nonnull]
    refine ⟨holds'.congr fun x header => (same x ?_).symm, inv.running, ?_, fun q => ?_⟩
    · by_contra inside
      exact mine.not_header sized' (by omega) (by omega) header
    · refine List.nodup_cons.mpr ⟨fun held => ?_, inv.nodup⟩
      obtain ⟨n, old⟩ := (inv.used p).mp held
      exact fresh n old
    · simp only [List.mem_cons, inv.used, used, exists_or, exists_eq_right]
  · obtain ⟨n, old⟩ := (inv.used q).mp held
    have kept := (used q n).mpr (.inr old)
    have other : q ≠ p := fun eq => fresh n (eq ▸ old)
    have size_q := inv.holds.payload old
    have apart := kept.apart mine sized' other
    rw [same x (by omega)]
    exact inv.frame sized' (fun q n h => (used q n).mpr (.inr h)) written held lo hi

/-- **One call.**  Unless it wraps, a legal call ends, the invariant holds after
it, and the payloads of held blocks are as they were. -/
theorem heapExec_inv {s : HeapState} {l : List Seg} (inv : HeapInv s l) (c : HeapCall)
    (legal : Legal s c) (noWrap : NoWrap s c) :
    ∃ t, heapExec s c = some t ∧ (∃ l', HeapInv t l') ∧ PayloadsKept s c t := by
  cases c with
  | kmalloc size =>
      rcases inv.alloc size with null | ⟨p, m', k, ran, -, -, -, -, result⟩
      · refine ⟨s.returned 0 s.mem, by simp [heapExec, null], ⟨l, ?_⟩, fun _ _ _ _ _ _ => rfl⟩
        simpa [HeapState.returned] using inv
      · obtain ⟨inv', kept⟩ := result m' fun _ _ => rfl
        exact ⟨_, by simp [heapExec, ran], inv', fun _ => kept⟩
  | kzalloc size =>
      rcases inv.alloc size with null | ⟨p, m', k, ran, nonnull, free, large, inside, result⟩
      · refine ⟨s.returned 0 s.mem, by simp [heapExec, kzalloc, null], ⟨l, ?_⟩,
          fun _ _ _ _ _ _ => rfl⟩
        simpa [HeapState.returned] using inv
      · have fits := le_need (noWrap.resolve_right fun none => none free)
        obtain ⟨inv', kept⟩ := result (m'.fill p size 0) fun x out =>
          ByteMemory.blit_of_notMem m' _ (by omega)
        refine ⟨_, ?_, inv', fun _ => kept⟩
        simp only [heapExec, kzalloc, ran, Option.map_some, if_neg nonnull]
        rw [if_pos (by omega)]
  | kfree ptr =>
      by_cases null : ptr = 0
      · subst null
        have unheld : 0 ∉ s.outstanding := fun held => inv.ne_zero held rfl
        refine ⟨s, ?_, ⟨l, inv⟩, fun _ _ _ _ _ _ => rfl⟩
        simp [heapExec, kfree, List.erase_of_not_mem unheld]
      · have held := legal.resolve_left null
        obtain ⟨n, used⟩ := (inv.used ptr).mp held
        obtain ⟨m', l', ran, holds', used', written⟩ := kfree_spec inv.holds used
        refine ⟨{ s with mem := m', outstanding := s.outstanding.erase ptr },
          by simp [heapExec, ran], ⟨l', holds', inv.running, inv.nodup.erase ptr, fun q => ?_⟩,
          fun _ q held x lo hi => inv.frame inv.holds.tidy.sized (fun _ _ h => h) written held
            lo hi⟩
        simp only [inv.nodup.mem_erase_iff, inv.used, used', exists_and_right]
        exact and_comm
  | store ptr off v =>
      obtain ⟨held, inside⟩ := legal
      obtain ⟨n, used⟩ := (inv.used ptr).mp held
      rw [inv.holds.payload used] at inside
      refine ⟨_, rfl, ⟨l, inv.holds.congr fun x header => ?_, inv.running, inv.nodup, inv.used⟩,
        fun none => absurd rfl (none ptr off v)⟩
      refine (ByteMemory.store_of_notMem s.mem _ ?_).symm
      by_contra within
      exact used.not_header inv.holds.tidy.sized (by omega) (by omega) header

/-- **The heap keeps its promise.**  In every run of legal calls from `heap_init` without a
wrapping `kzalloc`, the machine is running and the heap well formed in the state reached, and
there every legal call returns and touches no payload of a held block.  Memory is looked at
through a layout, a list of sizes that tiles the heap (`HeapInv`); the step lemma `heapExec_inv`
carries it through every call, and `NoWrap` is what `kzalloc` needs for it. -/
theorem heapRun_invariant {m : ByteMemory} {cs : List HeapCall} {s : HeapState}
    (run : Run (Guarded NoWrap HeapStep) (HeapState.init m) cs s) :
    s.halted = false ∧ (∃ bs, HeapInvariant s bs) ∧
      ∀ c, Legal s c → NoWrap s c → ∃ t, heapExec s c = some t ∧ PayloadsKept s c t := by
  have reached : ∃ l, HeapInv s l := by
    refine run.invariant (fun s => ∃ l, HeapInv s l) ?_ ⟨_, heapInit_inv m⟩
    rintro s c t ⟨l, inv⟩ ⟨noWrap, -, legal, ran⟩
    obtain ⟨t', ran', inv', -⟩ := heapExec_inv inv c legal noWrap
    rw [ran, Option.some.injEq] at ran'
    exact ran' ▸ inv'
  obtain ⟨l, inv⟩ := reached
  refine ⟨inv.running, ⟨_, inv.invariant⟩, fun c legal noWrap => ?_⟩
  obtain ⟨t, ran, -, kept⟩ := heapExec_inv inv c legal noWrap
  exact ⟨t, ran, kept⟩

/-- The promise after one call on a fresh heap. -/
theorem heapRun_invariant_kmalloc :
    ∃ s, heapExec (HeapState.init fun _ => 0) (.kmalloc 100) = some s ∧
      s.halted = false ∧ ∃ bs, HeapInvariant s bs := by
  have fits : 100 < 2 ^ 64 := by decide
  obtain ⟨-, -, returns⟩ :=
    heapRun_invariant (.nil (HeapState.init fun _ => 0) : Run (Guarded NoWrap HeapStep) _ [] _)
  obtain ⟨s, ran, -⟩ := returns (.kmalloc 100) fits trivial
  have one : Guarded NoWrap HeapStep (HeapState.init fun _ => 0) (.kmalloc 100) s :=
    ⟨trivial, rfl, fits, ran⟩
  have after := heapRun_invariant (.single one)
  exact ⟨s, ran, after.1, after.2.1⟩

/-- **The exception.**  On a fresh heap `kzalloc` of `2 ^ 64 - 16` bytes is given
a block of 48 bytes; clearing runs over the header of the block behind it, whose
size then reads zero, and stops at the end of the heap with a page fault. -/
theorem kzalloc_wraps :
    ∃ s, Run HeapStep (HeapState.init fun _ => 0) [.kzalloc (2 ^ 64 - 16)] s ∧
      s.halted = true ∧ ¬ ∃ bs, HeapInvariant s bs := by
  obtain ⟨holds, -⟩ := heapInit_inv fun _ => 0
  have walk := kmallocLoop_rep 48 holds.rep holds.tidy.sized holds.tidy.full (by simp)
    (by decide) (length_lt_heapFuel holds.tidy)
  have start : nextPtr heapStart = heapStart := nextPtr_of_lt (by
    simp only [heapEnd, heapStart, heapSize, heapPages, pageSize]; omega)
  have found : place 48 [⟨heapSize, true⟩] = some (0, [⟨48, false⟩, ⟨heapSize - 48, true⟩]) := by
    decide
  rw [start, found] at walk
  obtain ⟨m', ran, rep', -⟩ := walk
  let cleared := m'.fill (heapStart + 32) (heapEnd - (heapStart + 32)) 0
  have wraps : need (2 ^ 64 - 16) = 48 := by decide
  have step : HeapStep (HeapState.init fun _ => 0) (.kzalloc (2 ^ 64 - 16)) ⟨cleared, [], true⟩ := by
    refine ⟨rfl, (by decide : 2 ^ 64 - 16 < 2 ^ 64), ?_⟩
    have outcome : kmalloc (HeapState.init fun _ => 0).mem (2 ^ 64 - 16) =
        some (heapStart + 32, m') := by
      rw [kmalloc, if_neg (by decide), wraps]
      exact ran
    simp only [heapExec, kzalloc, outcome, Option.map_some]
    rfl
  refine ⟨_, .single step, rfl, ?_⟩
  rintro ⟨bs, inv⟩
  -- the walk still finds the second block, at an address the clearing has covered
  have link : next cleared heapStart = heapStart + 48 := by
    have before : next m' heapStart = heapStart + 48 := rep'.2.2.1
    rw [← before]
    exact ByteMemory.load_blit_of_disjoint m' _ (.inl (by omega))
  have second : heapStart + 48 ∈ bs := by
    cases bs with
    | nil => exact absurd inv.chain (by simp)
    | cons b bs =>
        obtain ⟨-, -, rest⟩ := inv.chain
        rw [link] at rest
        cases bs with
        | nil => exact absurd rest (by simp)
        | cons c bs => rw [rest.1]; simp
  have zero : size cleared (heapStart + 48) = 0 := ByteMemory.load_of_zero fun i hi => by
    refine ByteMemory.blit_of_mem m' _ (by omega) ?_
    simp only [heapEnd, heapStart, heapSize, heapPages, pageSize]
    omega
  have large := (inv.sizes _ second).2
  rw [zero] at large
  exact absurd large (by decide)

end Flyos
