import Flyos.Mm.HeapFit

/-!
# Freeing a pointer again

`kfree` reads `is_free` in the header before the pointer.  When the pointer was freed
before, its block may have been merged into a neighbour since, and the stale header may
lie inside another block.  `HarmlessFree` says that freeing it again changes neither the
block list nor a payload in use; that is so unless the stale word is zero and lies in a
payload in use (`Recognized`).
-/

namespace Flyos

open Heap

/-- The heap with the pointers that were freed so far. -/
structure HeapHistory where
  heap : HeapState
  freed : List Nat

/-- A pointer that was freed and has not been returned since. -/
def HeapHistory.Stale (s : HeapHistory) (ptr : Nat) : Prop :=
  ptr ∈ s.freed ∧ ptr ∉ s.heap.outstanding

/-- A legal call or one that frees a pointer again. -/
def HistoryStep (s : HeapHistory) (c : HeapCall) (t : HeapHistory) : Prop :=
  s.heap.halted = false ∧ (Legal s.heap c ∨ ∃ ptr, s.Stale ptr ∧ c = .kfree ptr) ∧
    heapExec s.heap c = some t.heap ∧
    t.freed = match c with
      | .kfree ptr => if ptr = 0 then s.freed else ptr :: s.freed
      | _ => s.freed

/-- `kfree` recognizes the pointer as freed, or the word it sets lies in no payload in use. -/
def Recognized (s : HeapState) (ptr : Nat) : Prop :=
  isFree s.mem (ptr - headerSize) ≠ 0 ∨
    ∀ q ∈ s.outstanding, ¬ (q ≤ ptr - headerSize + 8 ∧ ptr - headerSize + 8 < q + payload s.mem q)

/-- The condition: no call frees a pointer again that is not recognized. -/
def FreesRecognized (s : HeapHistory) : HeapCall → Prop
  | .kfree ptr => s.Stale ptr → Recognized s.heap ptr
  | _ => True

/-- **A harmless free**: it returns, the block list and its headers are as before, and so is every
byte of every payload in use. -/
def HarmlessFree (s : HeapState) (ptr : Nat) : Prop :=
  ∃ m', kfree s.mem ptr = some m' ∧
    (∃ bs, LinkChain (next s.mem) (· = 0) heapStart bs ∧ LinkChain (next m') (· = 0) heapStart bs ∧
      ∀ b ∈ bs, size m' b = size s.mem b ∧ isFree m' b = isFree s.mem b ∧
        next m' b = next s.mem b ∧ prev m' b = prev s.mem b) ∧
    ∀ q ∈ s.outstanding, ∀ x, q ≤ x → x < q + payload s.mem q → m' x = s.mem x

/-- Where a pointer that was returned lies: behind the first header, or at least a block later. -/
def Returnable (ptr : Nat) : Prop :=
  ptr % 16 = 0 ∧ ptr < heapEnd ∧ (ptr = heapStart + headerSize ∨ heapStart + 48 + headerSize ≤ ptr)

section Stale

variable {m : ByteMemory} {l : List Seg} {s : HeapState} {p n x ptr : Nat}

/-! ## Where stale headers lie -/

/-- Blocks lie at multiples of 16. -/
theorem blocks_aligned {a : Nat} (aligned : a % 16 = 0) (sized : Sized l) {b : Nat × Seg}
    (mem : b ∈ blocks a l) : b.1 % 16 = 0 := by
  induction l generalizing a with
  | nil => cases mem
  | cons s l ih =>
      rcases List.mem_cons.mp mem with rfl | mem
      · exact aligned
      · have head := sized.head.1
        exact ih (by omega) sized.tail mem

/-- A block other than the first lies at least a block behind it. -/
theorem blocks_first {a : Nat} (sized : Sized l) {b : Nat × Seg} (mem : b ∈ blocks a l) :
    b.1 = a ∨ a + 48 ≤ b.1 := by
  cases l with
  | nil => cases mem
  | cons s l =>
      rcases List.mem_cons.mp mem with rfl | mem
      · exact .inl rfl
      · have room : 48 ≤ s.size := sized.head.2
        have range := (blocks_range mem).1
        exact .inr (by omega)

/-- A pointer in use is one that can be returned. -/
theorem Heap.IsUsed.returnable (tidy : Tidy l) (used : IsUsed heapStart l p n) : Returnable p := by
  have large := used.large tidy.sized
  have full := tidy.full
  obtain ⟨b, mem, rfl⟩ := used
  have aligned := blocks_aligned (by decide) tidy.sized mem
  have range := blocks_range mem
  have first := blocks_first tidy.sized mem
  dsimp only at aligned range first
  refine ⟨by simp only [headerSize]; omega, by omega, ?_⟩
  rcases first with first | first
  · exact .inl (by rw [first])
  · exact .inr (by omega)

/-- A byte of the heap lies in a block. -/
theorem exists_block {a : Nat} (low : a ≤ x) (high : x < a + extent l) :
    ∃ b ∈ blocks a l, b.1 ≤ x ∧ x < b.1 + b.2.size := by
  induction l generalizing a with
  | nil =>
      rw [extent_nil] at high
      omega
  | cons s l ih =>
      rw [extent_cons] at high
      by_cases here : x < a + s.size
      · exact ⟨(a, s), List.mem_cons_self, low, here⟩
      · obtain ⟨b, mem, held⟩ := ih (a := a + s.size) (by omega) (by omega)
        exact ⟨b, List.mem_cons_of_mem _ mem, held⟩

/-- The block before a block of the layout. -/
theorem Heap.Rep.prev_ne {q a : Nat} (rep : Rep m q a l) (positive : a ≠ 0) {b : Nat × Seg}
    (mem : b ∈ blocks a l) (later : b.1 ≠ a) : prev m b.1 ≠ 0 := by
  induction l generalizing q a with
  | nil => cases mem
  | cons s l ih =>
      obtain ⟨-, -, -, -, rest⟩ := rep
      rcases List.mem_cons.mp mem with rfl | mem
      · exact absurd rfl later
      · by_cases first : b.1 = a + s.size
        · cases l with
          | nil => cases mem
          | cons t l =>
              rw [first, rest.2.2.2.1]
              exact positive
        · exact ih rest (by omega) mem first

/-! ## What freeing a pointer again does -/

/-- Coalescing a layout without free neighbours leaves it. -/
theorem coalesce_eq {t : Seg} (pairs : NoFreePair (t :: l)) : coalesce t l = t :: l := by
  induction l generalizing t with
  | nil => rfl
  | cons u l ih =>
      obtain ⟨apart, rest⟩ := List.isChain_cons_cons.mp pairs
      rw [coalesce, if_neg apart, ih rest]

/-- `merge_all` leaves the headers of a tidy layout as they are. -/
theorem Holds.mergeAll (holds : Holds m l) :
    ∃ m', mergeAll m heapFuel heapStart = some m' ∧ Holds m' l ∧
      ∀ x, ¬ Headers heapStart l x → m' x = m x := by
  obtain ⟨rep, tidy⟩ := id holds
  have enough := length_lt_heapFuel tidy
  cases l with
  | nil =>
      have full := tidy.full
      simp only [extent_nil, heapEnd, heapSize, heapPages, pageSize] at full
      omega
  | cons t l =>
      have shorter : l.length < heapFuel := Nat.lt_of_succ_lt enough
      obtain ⟨m', ran, rep', frame⟩ := mergeAll_rep rep tidy.sized tidy.full (by simp) shorter
      rw [coalesce_eq tidy.noFreePair] at rep'
      exact ⟨m', ran, ⟨rep', tidy⟩, frame⟩

/-- Two memories that hold the same layout have the same block list. -/
theorem Holds.same_list {m' : ByteMemory} (holds : Holds m l) (holds' : Holds m' l) :
    ∃ bs, LinkChain (next m) (· = 0) heapStart bs ∧ LinkChain (next m') (· = 0) heapStart bs ∧
      ∀ b ∈ bs, size m' b = size m b ∧ isFree m' b = isFree m b ∧ next m' b = next m b ∧
        prev m' b = prev m b := by
  refine ⟨_, holds.linkChain, holds'.linkChain, fun b mem => ?_⟩
  obtain ⟨c, block, rfl⟩ := List.mem_map.mp mem
  obtain ⟨sized, flag, link⟩ := holds.rep.header block
  obtain ⟨sized', flag', link'⟩ := holds'.rep.header block
  have back : ∀ {q a : Nat} {l : List Seg}, Rep m q a l → Rep m' q a l → c ∈ blocks a l →
      prev m' c.1 = prev m c.1 := by
    intro q a l rep rep' mem
    induction l generalizing q a with
    | nil => cases mem
    | cons t l ih =>
        rcases List.mem_cons.mp mem with rfl | mem
        · rw [rep'.2.2.2.1, rep.2.2.2.1]
        · exact ih rep.2.2.2.2 rep'.2.2.2.2 mem
  exact ⟨by rw [sized, sized'], by rw [flag, flag'], by rw [link, link'], back holds.rep holds'.rep block⟩

/-- **Freeing a pointer again.**  When `kfree` recognizes it, nothing happens; otherwise the word
that it sets lies in the payload of a block. -/
theorem HeapInv.again (inv : HeapInv s l) (place : Returnable ptr) (stale : ptr ∉ s.outstanding) :
    (isFree s.mem (ptr - headerSize) ≠ 0 ∧ kfree s.mem ptr = some s.mem) ∨
      ∃ m' b, isFree s.mem (ptr - headerSize) = 0 ∧ kfree s.mem ptr = some m' ∧
        Holds m' l ∧ b ∈ blocks heapStart l ∧
        b.1 + headerSize ≤ ptr - headerSize ∧ ptr - headerSize + 16 ≤ b.1 + b.2.size ∧
        ∀ x, ¬ Headers heapStart l x → m' x = setIsFree s.mem (ptr - headerSize) 1 x := by
  obtain ⟨aligned, high, first⟩ := place
  obtain ⟨rep, tidy⟩ := inv.holds
  have full := tidy.full
  have low : heapStart + headerSize ≤ ptr := by omega
  have nonnull : ptr ≠ 0 := by simp only [heapStart] at low; omega
  have inside : ¬ (ptr < heapStart + headerSize ∨ heapEnd ≤ ptr) := by omega
  have ran : kfree s.mem ptr = if isFree s.mem (ptr - headerSize) ≠ 0 then some s.mem
      else Flyos.mergeAll (setIsFree s.mem (ptr - headerSize) 1) heapFuel heapStart := by
    rw [kfree, if_neg nonnull, if_neg inside]
  by_cases flag : isFree s.mem (ptr - headerSize) ≠ 0
  · exact .inl ⟨flag, by rw [ran, if_pos flag]⟩
  have zero : isFree s.mem (ptr - headerSize) = 0 := not_not.mp flag
  rw [if_neg flag] at ran
  obtain ⟨b, mem, below, above⟩ := exists_block (l := l) (a := heapStart)
    (x := ptr - headerSize) (by omega) (by omega)
  have room := (tidy.sized b.2 (mem_of_mem_blocks mem)).1
  have start := blocks_aligned (by decide) tidy.sized mem
  -- the stale header is neither that of a block nor its links
  have notBlock : b.1 ≠ ptr - headerSize := by
    intro same
    have free : b.2.free = true := by
      by_contra busy
      refine stale ((inv.used ptr).mpr ⟨b.2.size, b.1, ?_, by omega⟩)
      have shape : b = (b.1, ⟨b.2.size, false⟩) := by
        obtain ⟨a, t, f⟩ := b
        simpa using busy
      rw [← shape]
      exact mem
    rw [← same] at zero
    exact (inv.holds.isFree_iff mem).mpr free zero
  have notLink : b.1 + 16 ≠ ptr - headerSize := by
    intro same
    have later : b.1 ≠ heapStart := by
      simp only [headerSize] at same first
      omega
    have back : isFree s.mem (ptr - headerSize) = prev s.mem b.1 := by
      rw [isFree, prev, ← same, Nat.add_assoc]
    rw [back] at zero
    exact rep.prev_ne (by simp) mem later zero
  have behind : b.1 + headerSize ≤ ptr - headerSize := by
    simp only [headerSize] at *
    omega
  have within : ptr - headerSize + 16 ≤ b.1 + b.2.size := by
    simp only [headerSize] at *
    omega
  have holds' : Holds (setIsFree s.mem (ptr - headerSize) 1) l := by
    refine inv.holds.congr fun x header => ?_
    refine (ByteMemory.store_of_notMem s.mem 1 ?_).symm
    by_contra overlap
    exact payload_not_header tidy.sized mem (x := x) (by omega) (by omega) header
  obtain ⟨m', merged, holds'', frame⟩ := holds'.mergeAll
  exact .inr ⟨m', b, zero, by rw [ran, merged], holds'', mem, behind, within, frame⟩

/-- **Freeing again is harmless** exactly when the pointer is recognized. -/
theorem HeapInv.harmless_iff (inv : HeapInv s l) (place : Returnable ptr)
    (stale : ptr ∉ s.outstanding) : HarmlessFree s ptr ↔ Recognized s ptr := by
  have sized := inv.holds.tidy.sized
  rcases inv.again place stale with ⟨flag, ran⟩ | ⟨m', b, zero, ran, holds', mem, behind, within, frame⟩
  · refine ⟨fun _ => .inl flag, fun _ => ⟨s.mem, ran, ?_, fun _ _ _ _ _ => rfl⟩⟩
    exact inv.holds.same_list inv.holds
  constructor
  · rintro ⟨m'', ran', -, kept⟩
    rw [ran] at ran'
    obtain rfl := Option.some.inj ran'
    refine .inr fun q held ⟨low, high⟩ => ?_
    have same := kept q held _ low high
    -- the byte was zero and is one now
    have written : m' (ptr - headerSize + 8) = 1 := by
      have outside : ¬ Headers heapStart l (ptr - headerSize + 8) :=
        payload_not_header sized mem (by omega) (by omega)
      rw [frame _ outside, setIsFree, ByteMemory.store,
        ByteMemory.blit_of_mem s.mem _ (Nat.le_refl _) (by omega), Nat.sub_self]
      rfl
    have before : s.mem (ptr - headerSize + 8) = 0 := by
      have first := ByteMemory.load_succ s.mem (ptr - headerSize + 8) 7
      rw [isFree] at zero
      rw [zero] at first
      exact UInt8.toNat_inj.mp (by rw [UInt8.toNat_zero]; omega)
    rw [written, before] at same
    cases same
  · intro recognized
    have clear := recognized.resolve_left (not_not_intro zero)
    refine ⟨m', ran, inv.holds.same_list holds', fun q held x low high => ?_⟩
    obtain ⟨n, used⟩ := (inv.used q).mp held
    have length := inv.holds.payload used
    have wide := used.large sized
    rw [frame x (used.not_header sized low (by omega))]
    refine ByteMemory.store_of_notMem s.mem 1 ?_
    by_contra overlap
    refine clear q held ?_
    -- the block of `q` is the one the word lies in
    obtain ⟨c, block, rfl⟩ := used
    rcases blocks_apart mem block with rfl | apart | apart
    · simp only [headerSize] at *
      omega
    · dsimp only at apart
      omega
    · dsimp only at apart
      omega

end Stale

/-! ## Runs -/

section Runs

variable {m : ByteMemory} {s t : HeapHistory} {c : HeapCall} {cs : List HeapCall} {ptr : Nat}

/-- What holds in every state. -/
def HistoryInv (s : HeapHistory) : Prop :=
  (∃ l, HeapInv s.heap l) ∧ ∀ p ∈ s.freed, Returnable p

/-- Every step under the condition keeps the invariant. -/
theorem HistoryInv.step (inv : HistoryInv s) (recognized : FreesRecognized s c)
    (step : HistoryStep s c t) (running : t.heap.halted = false) : HistoryInv t := by
  obtain ⟨⟨l, heap⟩, places⟩ := inv
  obtain ⟨on, allowed, ran, freed⟩ := step
  rcases allowed with legal | ⟨p, stale, rfl⟩
  · have noWrap : NoWrap s.heap c := heap.noWrap ⟨on, legal, ran⟩ running
    obtain ⟨u, ran', ⟨l', heap'⟩, -⟩ := heapExec_inv heap c legal noWrap
    rw [ran] at ran'
    obtain rfl := Option.some.inj ran'
    refine ⟨⟨l', heap'⟩, fun p mem => ?_⟩
    rw [freed] at mem
    cases c with
    | kfree q =>
        dsimp only at mem
        split at mem
        · exact places p mem
        · next nonnull =>
            rcases List.mem_cons.mp mem with rfl | mem
            · obtain ⟨n, used⟩ := (heap.used p).mp (legal.resolve_left nonnull)
              exact used.returnable heap.holds.tidy
            · exact places p mem
    | kmalloc size => exact places p mem
    | kzalloc size => exact places p mem
    | store q off v => exact places p mem
  · have place := places p stale.1
    have kept : ∀ q, q ∈ t.freed → Returnable q := by
      intro q mem
      rw [freed] at mem
      dsimp only at mem
      split at mem
      · exact places q mem
      · rcases List.mem_cons.mp mem with rfl | mem
        · exact place
        · exact places q mem
    refine ⟨?_, kept⟩
    have erased : s.heap.outstanding.erase p = s.heap.outstanding := List.erase_of_not_mem stale.2
    rcases heap.again place stale.2 with ⟨-, took⟩ | ⟨m', b, -, took, holds', -⟩
    · simp only [heapExec, took, Option.map_some, Option.some.injEq, erased] at ran
      exact ⟨l, ran ▸ heap⟩
    · simp only [heapExec, took, Option.map_some, Option.some.injEq, erased] at ran
      exact ⟨l, ran ▸ ⟨holds', heap.running, heap.nodup, heap.used⟩⟩

/-- **Every run under the condition keeps the invariant.** -/
theorem HistoryInv.run (inv : HistoryInv s) (run : Run (Guarded FreesRecognized HistoryStep) s cs t)
    (running : t.heap.halted = false) : HistoryInv t := by
  induction run with
  | nil s => exact inv
  | @cons s u t c cs step rest ih =>
      have on : u.heap.halted = false := by
        cases rest with
        | nil => exact running
        | cons next _ => exact next.2.1
      exact ih (inv.step step.1 step.2 on) running

/-- The heap after `heap_init`. -/
def HeapHistory.init (m : ByteMemory) : HeapHistory := ⟨HeapState.init m, []⟩

theorem HeapHistory.init_inv (m : ByteMemory) : HistoryInv (HeapHistory.init m) :=
  ⟨⟨_, heapInit_inv m⟩, fun p mem => by cases mem⟩

/-- **A double free is harmless**, in every state that calls under the condition lead to, exactly
when the stale header is recognized or lies in no payload in use.  A stale header lies where a
block once began; after merging it is inside a free block or a newer one.  What the free does
then depends only on the eight bytes of the magic and on whose payload they are in
(`harmless_iff`). -/
theorem doubleFree_run (run : Run (Guarded FreesRecognized HistoryStep) (HeapHistory.init m) cs s)
    (running : s.heap.halted = false) (stale : s.Stale ptr) :
    HarmlessFree s.heap ptr ↔ Recognized s.heap ptr := by
  obtain ⟨⟨l, heap⟩, places⟩ := (HeapHistory.init_inv m).run run running
  exact heap.harmless_iff (places ptr stale.1) stale.2

/-! ## A pointer freed twice -/

/-- `kmalloc` and `kzalloc` are steps. -/
theorem HistoryStep.alloc (on : s.heap.halted = false) (legal : Legal s.heap c) {h : HeapState}
    (ran : heapExec s.heap c = some h) (other : ∀ q, c ≠ .kfree q) : HistoryStep s c ⟨h, s.freed⟩ := by
  refine ⟨on, .inl legal, ran, ?_⟩
  cases c with
  | kfree q => exact absurd rfl (other q)
  | kmalloc size => rfl
  | kzalloc size => rfl
  | store q off v => rfl

/-- Freeing a held pointer is a step, and what is left is held. -/
theorem HeapInv.release {h : HeapState} {l : List Seg} (inv : HeapInv h l) (freed : List Nat)
    (held : ptr ∈ h.outstanding) :
    ∃ m' l', HistoryStep ⟨h, freed⟩ (.kfree ptr)
        ⟨{ h with mem := m', outstanding := h.outstanding.erase ptr }, ptr :: freed⟩ ∧
      HeapInv { h with mem := m', outstanding := h.outstanding.erase ptr } l' := by
  have nonnull := inv.ne_zero held
  obtain ⟨t, ran, ⟨l', inv'⟩, -⟩ := heapExec_inv inv (.kfree ptr) (.inr held) trivial
  obtain ⟨m', freed', rfl⟩ := Option.map_eq_some_iff.mp ran
  exact ⟨m', l', ⟨inv.running, .inl (.inr held), ran, (if_neg nonnull).symm⟩, inv'⟩

/-- Two blocks of 48 bytes at the start of the heap, and the run that allocates them. -/
theorem two_blocks :
    ∃ h, HeapInv h [⟨48, false⟩, ⟨48, false⟩, ⟨heapSize - 96, true⟩] ∧
      h.outstanding = [heapStart + 80, heapStart + 32] ∧
      Run HistoryStep (HeapHistory.init fun _ => 0) [.kmalloc 16, .kmalloc 16] ⟨h, []⟩ := by
  have start := heapInit_inv fun _ => 0
  have first := start.holds.kmalloc_place (show 16 ≠ 0 by decide)
  have placed : place (need 16) [⟨heapSize, true⟩] =
      some (0, [⟨48, false⟩, ⟨heapSize - 48, true⟩]) := by decide
  rw [placed] at first
  obtain ⟨m₁, ran₁, holds₁⟩ := first
  have second := holds₁.kmalloc_place (show 16 ≠ 0 by decide)
  have placed' : place (need 16) [⟨48, false⟩, ⟨heapSize - 48, true⟩] =
      some (48, [⟨48, false⟩, ⟨48, false⟩, ⟨heapSize - 96, true⟩]) := by decide
  rw [placed'] at second
  obtain ⟨m₂, ran₂, holds₂⟩ := second
  have nodup : [heapStart + 80, heapStart + 32].Nodup := by decide
  refine ⟨⟨m₂, [heapStart + 80, heapStart + 32], false⟩, ⟨holds₂, rfl, nodup, fun p => ?_⟩, rfl, ?_⟩
  · have none : ∀ {a n}, ¬ IsUsed a [] p n := by
      rintro a n ⟨b, mem, -⟩
      cases mem
    rw [List.mem_cons, List.mem_singleton]
    simp only [isUsed_cons, none, Seg.mk.injEq, Bool.true_eq_false, and_false, false_and, and_true,
      or_false, exists_or, exists_eq_left']
    exact or_comm
  · have one : HistoryStep (HeapHistory.init fun _ => 0) (.kmalloc 16)
        ⟨⟨m₁, [heapStart + 32], false⟩, []⟩ :=
      .alloc rfl (by show 16 < 2 ^ 64; decide)
        (by simp only [heapExec, HeapHistory.init, ran₁]; rfl) fun q => nofun
    have two : HistoryStep ⟨⟨m₁, [heapStart + 32], false⟩, []⟩ (.kmalloc 16)
        ⟨⟨m₂, [heapStart + 80, heapStart + 32], false⟩, []⟩ :=
      .alloc rfl (by show 16 < 2 ^ 64; decide)
        (by simp only [heapExec, ran₂]; rfl) fun q => nofun
    exact .cons one (.single two)

/-- Freeing the second block twice in a row is harmless. -/
theorem doubleFree_run_twice :
    ∃ s cs, Run (Guarded FreesRecognized HistoryStep) (HeapHistory.init fun _ => 0) cs s ∧
      s.Stale (heapStart + 80) ∧
      (HarmlessFree s.heap (heapStart + 80) ↔ Recognized s.heap (heapStart + 80)) := by
  obtain ⟨h, inv, outstanding, run⟩ := two_blocks
  have held : heapStart + 80 ∈ h.outstanding := by rw [outstanding]; exact List.mem_cons_self
  obtain ⟨m', l', step, inv'⟩ := inv.release [] held
  have guarded : ∀ {u v : HeapHistory} {c}, u.freed = [] → HistoryStep u c v →
      Guarded FreesRecognized HistoryStep u c v := by
    intro u v c none step
    refine ⟨?_, step⟩
    cases c with
    | kfree q =>
        intro stale
        have mem := stale.1
        rw [none] at mem
        cases mem
    | kmalloc size => trivial
    | kzalloc size => trivial
    | store q off v => trivial
  have whole : Run (Guarded FreesRecognized HistoryStep) (HeapHistory.init fun _ => 0)
      ([.kmalloc 16, .kmalloc 16] ++ [.kfree (heapStart + 80)]) _ :=
    Run.append (by
      cases run with
      | cons one rest =>
          have freed : _ = [] := one.2.2.2
          cases rest with
          | cons two rest =>
              cases rest with
              | nil => exact .cons (guarded rfl one) (.single (guarded freed two)))
      (.single (guarded rfl step))
  have stale : HeapHistory.Stale
      ⟨{ h with mem := m', outstanding := h.outstanding.erase (heapStart + 80) }, [heapStart + 80]⟩
      (heapStart + 80) := by
    have apart : heapStart + 80 ∉ [heapStart + 80, heapStart + 32].erase (heapStart + 80) := by decide
    refine ⟨List.mem_cons_self, ?_⟩
    rw [outstanding]
    exact apart
  exact ⟨_, _, whole, stale, doubleFree_run whole inv.running stale⟩

/-- **The exception.**  Two blocks are freed and merged, a `kzalloc` covers both, and freeing the
second one again sets a byte of the new payload. -/
theorem doubleFree_writes :
    ∃ s cs, Run HistoryStep (HeapHistory.init fun _ => 0) cs s ∧ s.heap.halted = false ∧
      s.Stale (heapStart + 80) ∧ ¬ HarmlessFree s.heap (heapStart + 80) := by
  obtain ⟨h, inv, outstanding, run⟩ := two_blocks
  have held : heapStart + 80 ∈ h.outstanding := by rw [outstanding]; exact List.mem_cons_self
  obtain ⟨m₁, l₁, step₁, inv₁⟩ := inv.release [] held
  have left : h.outstanding.erase (heapStart + 80) = [heapStart + 32] := by
    rw [outstanding]
    decide
  rw [left] at step₁ inv₁
  obtain ⟨m₂, l₂, step₂, inv₂⟩ := inv₁.release [heapStart + 80]
    (show heapStart + 32 ∈ [heapStart + 32] from List.mem_cons_self)
  have nothing : [heapStart + 32].erase (heapStart + 32) = [] := by decide
  dsimp only at step₂ inv₂
  rw [nothing] at step₂ inv₂
  -- everything is one free block again
  have single := inv₂.holds.eq_single fun p n used => by
    have mem := (inv₂.used p).mpr ⟨n, used⟩
    cases mem
  have holds := inv₂.holds
  rw [single] at holds
  have placed := holds.kmalloc_place (show 100 ≠ 0 by decide)
  have found : place (need 100) [⟨heapSize, true⟩] =
      some (0, [⟨144, false⟩, ⟨heapSize - 144, true⟩]) := by decide
  rw [found] at placed
  obtain ⟨m₃, took, holds₃⟩ := placed
  -- what `kzalloc` leaves
  let cleared := m₃.fill (heapStart + 32) 100 0
  have used : IsUsed heapStart [⟨144, false⟩, ⟨heapSize - 144, true⟩] (heapStart + 32) 144 :=
    ⟨heapStart, List.mem_cons_self, rfl⟩
  have ran : heapExec { h with mem := m₂, outstanding := [] } (.kzalloc 100) =
      some { h with mem := cleared, outstanding := [heapStart + 32] } := by
    have outcome : kzalloc m₂ 100 = some (.ret (heapStart + 32) cleared) := by
      rw [kzalloc, took]
      rfl
    simp only [heapExec, outcome]
    rfl
  have step₃ : HistoryStep ⟨{ h with mem := m₂, outstanding := [] },
        [heapStart + 32, heapStart + 80]⟩ (.kzalloc 100)
      ⟨{ h with mem := cleared, outstanding := [heapStart + 32] }, [heapStart + 32, heapStart + 80]⟩ :=
    .alloc inv.running (by show 100 < 2 ^ 64; decide) ran fun q no => by cases no
  have holds₄ : Holds cleared [⟨144, false⟩, ⟨heapSize - 144, true⟩] := by
    refine holds₃.congr fun x header => (ByteMemory.blit_of_notMem m₃ _ ?_).symm
    by_contra inside
    refine used.not_header holds₃.tidy.sized (by omega) ?_ header
    simp only [headerSize]
    omega
  have inv₄ : HeapInv { h with mem := cleared, outstanding := [heapStart + 32] }
      [⟨144, false⟩, ⟨heapSize - 144, true⟩] := by
    refine ⟨holds₄, inv.running, List.nodup_singleton _, fun p => ?_⟩
    have none : ∀ {a n}, ¬ IsUsed a [] p n := by
      rintro a n ⟨b, mem, -⟩
      cases mem
    rw [List.mem_singleton]
    simp only [isUsed_cons, none, Seg.mk.injEq, Bool.true_eq_false, and_false, false_and, and_true,
      or_false, exists_eq_left']
  have stale : HeapHistory.Stale ⟨{ h with mem := cleared, outstanding := [heapStart + 32] },
      [heapStart + 32, heapStart + 80]⟩ (heapStart + 80) := by
    have mem : heapStart + 80 ∈ [heapStart + 32, heapStart + 80] := by decide
    have apart : heapStart + 80 ∉ [heapStart + 32] := by decide
    exact ⟨mem, apart⟩
  refine ⟨_, _, (run.append (.cons step₁ (.cons step₂ (.single step₃)))), inv.running, stale, ?_⟩
  have place : Returnable (heapStart + 80) := by
    refine ⟨by decide, by decide, .inr (by decide)⟩
  -- the stale header was cleared, and lies in the new payload
  have zero : isFree cleared (heapStart + 48) = 0 := ByteMemory.load_of_zero fun i less =>
    ByteMemory.blit_of_mem m₃ _ (by omega) (by omega)
  have length : payload cleared (heapStart + 32) = 112 := holds₄.payload used
  intro harmless
  rcases (inv₄.harmless_iff place stale.2).mp harmless with flag | clear
  · exact flag zero
  · have low : heapStart + 32 ≤ heapStart + 80 - headerSize + 8 := by decide
    have high : heapStart + 80 - headerSize + 8 < heapStart + 32 + 112 := by decide
    rw [← length] at high
    exact clear (heapStart + 32) List.mem_cons_self ⟨low, high⟩

end Runs

end Flyos
