import Flyos.Mm.Heap

/-!
# The layout of the kernel heap

What the block headers say is a *layout*: a list of segments, each with its
size and whether it is free.  `Rep m p a l` ties the two together, `m` holding
the headers of the segments `l` from address `a` on and `p` being the block
before them.  Everything else about the block list — where blocks are, where
one ends and the next begins — is a function of the layout (`blocks`).

* `place` is what `kmalloc` does to a layout, `kmallocLoop_rep` that it does it;
* `coalesce` is what `merge_all` does, `mergeAll_rep` that it does it.

Both come with the set of bytes written, which is contained in the headers of
the layout (`Headers`), so that payloads of used blocks are never touched.
-/

namespace Flyos.Heap

/-- A block as the layout sees it. -/
structure Seg where
  size : Nat
  free : Bool
  deriving DecidableEq

/-- The bytes covered by a list of segments. -/
def extent : List Seg → Nat
  | [] => 0
  | s :: l => s.size + extent l

/-- The blocks of a layout starting at `a`, each with its address. -/
def blocks : Nat → List Seg → List (Nat × Seg)
  | _, [] => []
  | a, s :: l => (a, s) :: blocks (a + s.size) l

/-- Whether `x` lies in the header of a block of the layout at `a`. -/
def Headers (a : Nat) (l : List Seg) (x : Nat) : Prop :=
  ∃ b ∈ blocks a l, b.1 ≤ x ∧ x < b.1 + headerSize

/-- The link to address `a`: null at the end of the heap. -/
def nextPtr (a : Nat) : Nat := if a = heapEnd then 0 else a

/-- The headers of the segments `l`, laid out from `a` on behind block `p`. -/
def Rep (m : ByteMemory) : Nat → Nat → List Seg → Prop
  | _, _, [] => True
  | p, a, s :: l =>
      size m a = s.size ∧ isFree m a = (if s.free then 1 else 0) ∧
        next m a = nextPtr (a + s.size) ∧ prev m a = p ∧ Rep m a (a + s.size) l

/-- Every segment is a multiple of 16 and has room for its header and 16 bytes. -/
def Sized (l : List Seg) : Prop := ∀ s ∈ l, s.size % 16 = 0 ∧ headerSize + 16 ≤ s.size

@[simp] theorem extent_nil : extent [] = 0 := rfl

@[simp] theorem extent_cons (s : Seg) (l : List Seg) : extent (s :: l) = s.size + extent l := rfl

@[simp] theorem blocks_nil (a : Nat) : blocks a [] = [] := rfl

@[simp] theorem blocks_cons (a : Nat) (s : Seg) (l : List Seg) :
    blocks a (s :: l) = (a, s) :: blocks (a + s.size) l := rfl

theorem Sized.head {s : Seg} {l : List Seg} (h : Sized (s :: l)) :
    s.size % 16 = 0 ∧ headerSize + 16 ≤ s.size := h s (by simp)

theorem Sized.tail {s : Seg} {l : List Seg} (h : Sized (s :: l)) : Sized l :=
  fun t ht => h t (by simp [ht])

/-! ## Where blocks lie -/

/-- A block lies inside the bytes of its layout. -/
theorem blocks_range {a : Nat} {l : List Seg} {b : Nat × Seg} (mem : b ∈ blocks a l) :
    a ≤ b.1 ∧ b.1 + b.2.size ≤ a + extent l := by
  induction l generalizing a with
  | nil => simp at mem
  | cons s l ih =>
      rw [extent_cons]
      rcases List.mem_cons.mp mem with rfl | rest
      · exact ⟨le_rfl, by simp⟩
      · have := ih rest
        omega

/-- Earlier blocks end before later ones begin. -/
theorem blocks_pairwise (a : Nat) (l : List Seg) :
    (blocks a l).Pairwise fun b c => b.1 + b.2.size ≤ c.1 := by
  induction l generalizing a with
  | nil => simp
  | cons s l ih => exact List.pairwise_cons.mpr ⟨fun c hc => (blocks_range hc).1, ih _⟩

/-- Two blocks of a layout are the same or apart. -/
theorem blocks_apart {a : Nat} {l : List Seg} {b c : Nat × Seg} (hb : b ∈ blocks a l)
    (hc : c ∈ blocks a l) : b = c ∨ b.1 + b.2.size ≤ c.1 ∨ c.1 + c.2.size ≤ b.1 := by
  induction l generalizing a with
  | nil => simp at hb
  | cons s l ih =>
      rcases List.mem_cons.mp hb with rfl | hb
      · rcases List.mem_cons.mp hc with rfl | hc
        · exact .inl rfl
        · exact .inr (.inl (blocks_range hc).1)
      · rcases List.mem_cons.mp hc with rfl | hc
        · exact .inr (.inr (blocks_range hb).1)
        · exact ih hb hc

/-- A block's segment is a segment of the layout. -/
theorem mem_of_mem_blocks {a : Nat} {l : List Seg} {b : Nat × Seg} (mem : b ∈ blocks a l) :
    b.2 ∈ l := by
  induction l generalizing a with
  | nil => simp at mem
  | cons s l ih =>
      rcases List.mem_cons.mp mem with rfl | rest
      · simp
      · exact List.mem_cons_of_mem _ (ih rest)

/-- The payload of a block meets no header of the layout. -/
theorem payload_not_header {a x : Nat} {l : List Seg} (sized : Sized l) {b : Nat × Seg}
    (hb : b ∈ blocks a l) (lo : b.1 + headerSize ≤ x) (hi : x < b.1 + b.2.size) :
    ¬ Headers a l x := by
  rintro ⟨c, hc, clo, chi⟩
  have room := (sized _ (mem_of_mem_blocks hc)).2
  rcases blocks_apart hb hc with rfl | apart | apart <;> omega

/-- The headers of a tail of the layout are headers of the layout. -/
theorem Headers.tail {a x : Nat} {s : Seg} {l : List Seg} (h : Headers (a + s.size) l x) :
    Headers a (s :: l) x :=
  let ⟨b, hb, range⟩ := h
  ⟨b, List.mem_cons_of_mem _ hb, range⟩

/-- The first header of a layout. -/
theorem headers_head {a x : Nat} {s : Seg} {l : List Seg} (lo : a ≤ x)
    (hi : x < a + headerSize) : Headers a (s :: l) x :=
  ⟨(a, s), by simp, lo, hi⟩

/-- No header of a layout lies below it. -/
theorem Headers.le {a x : Nat} {l : List Seg} (h : Headers a l x) : a ≤ x :=
  let ⟨_, hb, lo, _⟩ := h
  (blocks_range hb).1.trans lo

/-! ## Reading a layout -/

/-- A header depends only on its 32 bytes. -/
theorem header_congr (m m' : ByteMemory) {a : Nat}
    (same : ∀ x, a ≤ x → x < a + headerSize → m x = m' x) :
    size m a = size m' a ∧ isFree m a = isFree m' a ∧ next m a = next m' a ∧
      prev m a = prev m' a := by
  refine ⟨?_, ?_, ?_, ?_⟩ <;>
    exact ByteMemory.load_congr fun x lo hi => same x (by omega) (by simp only [headerSize]; omega)

/-- A layout is read only from its headers. -/
theorem Rep.congr_headers {m m' : ByteMemory} {p a : Nat} {l : List Seg} (rep : Rep m p a l)
    (same : ∀ x, Headers a l x → m x = m' x) : Rep m' p a l := by
  induction l generalizing p a with
  | nil => trivial
  | cons s l ih =>
      obtain ⟨hsize, hfree, hnext, hprev, rest⟩ := rep
      obtain ⟨esize, efree, enext, eprev⟩ := header_congr m m'
        fun x lo hi => same x (headers_head lo hi)
      exact ⟨esize ▸ hsize, efree ▸ hfree, enext ▸ hnext, eprev ▸ hprev,
        ih rest fun x h => same x h.tail⟩

/-- In particular only from the bytes it covers. -/
theorem Rep.congr {m m' : ByteMemory} {p a : Nat} {l : List Seg} (rep : Rep m p a l)
    (sized : Sized l) (same : ∀ x, a ≤ x → x < a + extent l → m x = m' x) : Rep m' p a l := by
  refine rep.congr_headers fun x ⟨b, hb, lo, hi⟩ => ?_
  have room := (sized _ (mem_of_mem_blocks hb)).2
  have range := blocks_range hb
  exact same x (by omega) (by omega)

theorem nextPtr_of_lt {a : Nat} (h : a < heapEnd) : nextPtr a = a := if_neg (by omega)

@[simp] theorem nextPtr_heapEnd : nextPtr heapEnd = 0 := if_pos rfl

/-- The link to a nonempty rest of the heap is its address. -/
theorem nextPtr_of_cons {a : Nat} {s : Seg} {l : List Seg} (sized : Sized (s :: l))
    (full : a + extent (s :: l) = heapEnd) : nextPtr a = a := by
  have room := sized.head.2
  rw [extent_cons] at full
  exact nextPtr_of_lt (by omega)

/-- A layout behind another block: only the first `prev` changes. -/
theorem Rep.setPrev {m : ByteMemory} {p q a : Nat} {s : Seg} {l : List Seg}
    (rep : Rep m p a (s :: l)) (sized : Sized (s :: l)) (fits : q < 2 ^ 64) :
    Rep (setPrev m a q) q a (s :: l) := by
  obtain ⟨hsize, hfree, hnext, -, rest⟩ := rep
  have room : 48 ≤ s.size := sized.head.2
  refine ⟨?_, ?_, ?_, ByteMemory.load_store_same m _ fits, ?_⟩
  · rw [← hsize]; exact ByteMemory.load_store_of_disjoint m q (by omega)
  · rw [← hfree]; exact ByteMemory.load_store_of_disjoint m q (by omega)
  · rw [← hnext]; exact ByteMemory.load_store_of_disjoint m q (by omega)
  · exact rest.congr sized.tail fun x lo _ =>
      (ByteMemory.store_of_notMem m q (by omega)).symm

/-! ## `kmalloc` on layouts -/

/-- What `kmalloc` makes of the free segment it takes: the rest becomes a block
of its own when it has room for a header and 64 bytes. -/
def carve (need : Nat) (s : Seg) : List Seg :=
  if need + headerSize + 64 ≤ s.size then [⟨need, false⟩, ⟨s.size - need, true⟩]
  else [⟨s.size, false⟩]

/-- First fit: the offset of the segment taken, and the layout after. -/
def place (need : Nat) : List Seg → Option (Nat × List Seg)
  | [] => none
  | s :: l =>
      if s.free = true ∧ need ≤ s.size then some (0, carve need s ++ l)
      else (place need l).map fun r => (s.size + r.1, s :: r.2)

/-- The rest of a layout behind a new block: the `b->next->prev = nb` of the C code,
which is skipped when there is no next block. -/
theorem Rep.relink {m : ByteMemory} {p q a : Nat} {l : List Seg} (rep : Rep m p a l)
    (sized : Sized l) (full : a + extent l = heapEnd) (fits : q < 2 ^ 64) (pos : a ≠ 0) :
    let m' := if nextPtr a ≠ 0 then Heap.setPrev m (nextPtr a) q else m
    Rep m' q a l ∧ ∀ x, ¬ Headers a l x → m' x = m x := by
  cases l with
  | nil =>
      obtain rfl : a = heapEnd := full
      simp [Rep]
  | cons s l =>
      rw [nextPtr_of_cons sized full]
      simp only [if_pos pos]
      refine ⟨rep.setPrev sized fits, fun x out => ByteMemory.store_of_notMem m q ?_⟩
      by_contra within
      exact out (headers_head (by omega) (by simp only [headerSize]; omega))

/-- The split, on the headers. -/
theorem splitBlock_rep {m : ByteMemory} {p a need : Nat} {s : Seg} {l : List Seg}
    (rep : Rep m p a (s :: l)) (sized : Sized (s :: l))
    (full : a + extent (s :: l) = heapEnd) (large : headerSize + 16 ≤ need)
    (fits : need + headerSize + 64 ≤ s.size) :
    Rep (setIsFree (splitBlock m a need) a 0) p a
        (⟨need, false⟩ :: ⟨s.size - need, true⟩ :: l) ∧
      ∀ x, ¬ Headers a (⟨need, false⟩ :: ⟨s.size - need, true⟩ :: l) x →
        setIsFree (splitBlock m a need) a 0 x = m x := by
  obtain ⟨hsize, hfree, hnext, hprev, rest⟩ := rep
  simp only [extent_cons, headerSize, heapEnd, heapStart, heapSize, heapPages, pageSize]
    at full large fits
  -- the new header, written while `b` still has its old links
  let nb := a + need
  let m₄ := Heap.setPrev (setNext (setIsFree (setSize m nb (s.size - need)) nb 1) nb
    (nextPtr (a + s.size))) nb a
  let m₅ := if nextPtr (a + s.size) ≠ 0 then Heap.setPrev m₄ (nextPtr (a + s.size)) nb else m₄
  have link : nextPtr (a + s.size) < 2 ^ 64 := by
    unfold nextPtr; split <;> omega
  have old₄ : ∀ x, x < nb ∨ nb + 32 ≤ x → m₄ x = m x := by
    intro x out
    simp only [m₄, Heap.setPrev, setNext, setIsFree, setSize]
    simp (disch := omega) only [ByteMemory.store_of_notMem]
  have link₂ : next (setIsFree (setSize m nb (s.size - need)) nb 1) a = nextPtr (a + s.size) := by
    simp only [← hnext, next, setIsFree, setSize]
    simp (disch := omega) only [ByteMemory.load_store_of_disjoint]
  have link₄ : next m₄ a = nextPtr (a + s.size) := by
    simp only [m₄, ← hnext, next, Heap.setPrev, setNext, setIsFree, setSize]
    simp (disch := omega) only [ByteMemory.load_store_of_disjoint]
  have eval : splitBlock m a need = setSize (setNext m₅ a nb) a need := by
    simp only [splitBlock, hsize]
    rw [show a + need = nb from rfl, link₂]
    change setSize (setNext (if next m₄ a ≠ 0 then Heap.setPrev m₄ (next m₄ a) nb else m₄) a nb)
      a need = _
    rw [link₄]
  obtain ⟨rest₅, old₅⟩ : Rep m₅ nb (a + s.size) l ∧
      ∀ x, ¬ Headers (a + s.size) l x → m₅ x = m₄ x :=
    Rep.relink (rest.congr sized.tail fun x lo _ => (old₄ x (by omega)).symm) sized.tail
      (by simp only [heapEnd, heapStart, heapSize, heapPages, pageSize]; omega) (by omega)
      (by omega)
  have low₅ : ∀ x, x < a + s.size → m₅ x = m₄ x := fun x lo => old₅ x fun h => by
    have := h.le
    omega
  -- the fields of `b` written last
  have old₈ : ∀ x, x < a ∨ a + 24 ≤ x → setIsFree (splitBlock m a need) a 0 x = m₅ x := by
    intro x out
    simp only [eval, setNext, setIsFree, setSize]
    simp (disch := omega) only [ByteMemory.store_of_notMem]
  obtain ⟨f1, f2, f3, f4⟩ := header_congr (a := nb) (setIsFree (splitBlock m a need) a 0) m₄
    fun x lo hi => by
      simp only [headerSize] at hi
      rw [old₈ x (by omega), low₅ x (by omega)]
  refine ⟨⟨?_, ?_, ?_, ?_, ?_, ?_, ?_, ?_, ?_⟩, ?_⟩
  · simp only [eval, size, setNext, setIsFree, setSize]
    simp (disch := omega) only [ByteMemory.load_store_of_disjoint, ByteMemory.load_store_same]
  · simp only [eval, isFree, setIsFree]
    simp (disch := omega) [ByteMemory.load_store_same]
  · simp only [eval, next, setNext, setIsFree, setSize]
    simp (disch := omega) only [ByteMemory.load_store_of_disjoint, ByteMemory.load_store_same]
    exact (nextPtr_of_lt (by
      simp only [heapEnd, heapStart, heapSize, heapPages, pageSize]; omega)).symm
  · rw [← hprev]
    refine ByteMemory.load_congr fun x lo hi => ?_
    rw [old₈ x (by omega), low₅ x (by omega), old₄ x (by omega)]
  · rw [f1]
    simp only [m₄, size, Heap.setPrev, setNext, setIsFree, setSize]
    simp (disch := omega) only [ByteMemory.load_store_of_disjoint, ByteMemory.load_store_same]
  · rw [f2]
    simp only [m₄, isFree, Heap.setPrev, setNext, setIsFree, setSize]
    simp (disch := omega) [ByteMemory.load_store_of_disjoint, ByteMemory.load_store_same]
  · rw [f3]
    simp only [m₄, next, Heap.setPrev, setNext, setIsFree, setSize]
    simp (disch := omega) only [ByteMemory.load_store_of_disjoint, ByteMemory.load_store_same]
    rw [show a + need + (s.size - need) = a + s.size by omega]
  · rw [f4]
    exact ByteMemory.load_store_same _ _ (by omega)
  · rw [show a + need + (s.size - need) = a + s.size by omega]
    exact rest₅.congr sized.tail fun x lo _ => (old₈ x (by omega)).symm
  · intro x out
    have head : ¬ (a ≤ x ∧ x < a + 32) := fun h => out (headers_head h.1 h.2)
    have second : ¬ (nb ≤ x ∧ x < nb + 32) := fun h => out (headers_head h.1 h.2).tail
    have later : ¬ Headers (a + s.size) l x := fun h => out <| Headers.tail <| Headers.tail <| by
      rwa [show a + need + (s.size - need) = a + s.size by omega]
    rw [old₈ x (by omega), old₅ x later, old₄ x (by omega)]

/-- Taking a free segment, split or whole, on the headers. -/
theorem take_rep {m : ByteMemory} {p a need : Nat} {s : Seg} {l : List Seg}
    (rep : Rep m p a (s :: l)) (sized : Sized (s :: l))
    (full : a + extent (s :: l) = heapEnd) (large : headerSize + 16 ≤ need)
    (fits : need ≤ s.size) :
    let m' := setIsFree (if (need + headerSize + 64) % 2 ^ 64 ≤ size m a then splitBlock m a need
      else m) a 0
    Rep m' p a (carve need s ++ l) ∧ ∀ x, ¬ Headers a (carve need s ++ l) x → m' x = m x := by
  have bound : s.size ≤ heapEnd := by rw [extent_cons] at full; omega
  have nowrap : (need + headerSize + 64) % 2 ^ 64 = need + headerSize + 64 := by
    refine Nat.mod_eq_of_lt ?_
    simp only [headerSize, heapEnd, heapStart, heapSize, heapPages, pageSize] at bound ⊢
    omega
  rw [nowrap, rep.1]
  by_cases cut : need + headerSize + 64 ≤ s.size
  · rw [if_pos cut, carve, if_pos cut]
    exact splitBlock_rep rep sized full large cut
  · rw [if_neg cut, carve, if_neg cut]
    obtain ⟨hsize, -, hnext, hprev, rest⟩ := rep
    have room : 48 ≤ s.size := sized.head.2
    refine ⟨⟨?_, ByteMemory.load_store_same m _ (by omega), ?_, ?_, ?_⟩, fun x out => ?_⟩
    · rw [← hsize]; exact ByteMemory.load_store_of_disjoint m 0 (by omega)
    · rw [← hnext]; exact ByteMemory.load_store_of_disjoint m 0 (by omega)
    · rw [← hprev]; exact ByteMemory.load_store_of_disjoint m 0 (by omega)
    · exact rest.congr sized.tail fun x lo _ =>
        (ByteMemory.store_of_notMem m 0 (by omega)).symm
    · refine ByteMemory.store_of_notMem m 0 ?_
      by_contra within
      exact out (headers_head (by omega) (by simp only [headerSize]; omega))

/-- **`kmalloc` places.**  The loop over the headers of a layout finds what
`place` finds, leaves the headers of the layout `place` gives, and writes only
in them. -/
theorem kmallocLoop_rep {m : ByteMemory} {p a fuel : Nat} {l : List Seg} (need : Nat)
    (rep : Rep m p a l) (sized : Sized l) (full : a + extent l = heapEnd) (pos : a ≠ 0)
    (large : headerSize + 16 ≤ need) (enough : l.length < fuel) :
    match place need l with
    | none => kmallocLoop m need fuel (nextPtr a) = some (0, m)
    | some (o, l') => ∃ m', kmallocLoop m need fuel (nextPtr a) = some (a + o + headerSize, m') ∧
        Rep m' p a l' ∧ ∀ x, ¬ Headers a l' x → m' x = m x := by
  induction l generalizing p a fuel with
  | nil =>
      obtain ⟨n, rfl⟩ : ∃ n, fuel = n + 1 := ⟨fuel - 1, by omega⟩
      have last : nextPtr a = 0 := by
        rw [show a = heapEnd from full, nextPtr_heapEnd]
      simp only [place, last]
      exact if_pos rfl
  | cons s l ih =>
      obtain ⟨n, rfl⟩ : ∃ n, fuel = n + 1 := ⟨fuel - 1, by omega⟩
      rw [nextPtr_of_cons sized full, kmallocLoop, if_neg pos]
      have free : isFree m a ≠ 0 ↔ s.free = true := by
        rw [rep.2.1]; cases s.free <;> simp
      simp only [free, rep.1]
      by_cases take : s.free = true ∧ need ≤ s.size
      · have taken := take_rep rep sized full large take.2
        simp only [rep.1] at taken
        simp only [place, if_pos take, Nat.add_zero]
        exact ⟨_, rfl, taken⟩
      · have room : 48 ≤ s.size := sized.head.2
        obtain ⟨hsize, hfree, hnext, hprev, rest⟩ := rep
        have shorter : l.length < n := by simpa using enough
        have below := ih rest sized.tail (by rw [← full, extent_cons]; omega) (by omega) shorter
        simp only [place, if_neg take, hnext]
        cases found : place need l with
        | none => simpa only [found, Option.map_none] using below
        | some r =>
            obtain ⟨o, l'⟩ := r
            rw [found] at below
            obtain ⟨m', ran, rep', frame⟩ := below
            -- the headers up to here lie below everything written
            have low : ∀ x, x < a + s.size → m x = m' x := fun x lo =>
              (frame x fun h => absurd h.le (by omega)).symm
            obtain ⟨f1, f2, f3, f4⟩ := header_congr (a := a) m m' fun x lo hi =>
              low x (by simp only [headerSize] at hi; omega)
            refine ⟨m', ?_, ⟨f1 ▸ hsize, f2 ▸ hfree, f3 ▸ hnext, f4 ▸ hprev, rep'⟩,
              fun x out => frame x fun h => out h.tail⟩
            rw [ran, Nat.add_assoc a]

/-! ## `merge_all` on layouts -/

/-- What `merge_all` makes of a layout: runs of free segments become one. -/
def coalesce : Seg → List Seg → List Seg
  | s, [] => [s]
  | s, t :: l =>
      if s.free = true ∧ t.free = true then coalesce ⟨s.size + t.size, true⟩ l
      else s :: coalesce t l

/-- Merging the next block, on the headers. -/
theorem mergeNext_rep {m : ByteMemory} {p a : Nat} {s t : Seg} {l : List Seg}
    (rep : Rep m p a (s :: t :: l)) (sized : Sized (s :: t :: l))
    (full : a + extent (s :: t :: l) = heapEnd) :
    Rep (mergeNext m a) p a (⟨s.size + t.size, s.free⟩ :: l) ∧
      ∀ x, ¬ Headers a (s :: t :: l) x → mergeNext m a x = m x := by
  obtain ⟨hsize, hfree, hnext, hprev, tsize, tfree, tnext, tprev, rest⟩ := rep
  have sroom : 48 ≤ s.size := sized.head.2
  have troom : 48 ≤ t.size := sized.tail.head.2
  have here : nextPtr (a + s.size) = a + s.size :=
    nextPtr_of_cons sized.tail (by rw [← full, extent_cons s]; omega)
  simp only [extent_cons, heapEnd, heapStart, heapSize, heapPages, pageSize] at full
  have link : nextPtr (a + s.size + t.size) < 2 ^ 64 := by
    unfold nextPtr; split <;> omega
  let m₂ := setNext (setSize m a (s.size + t.size)) a (nextPtr (a + s.size + t.size))
  have old₂ : ∀ x, x < a ∨ a + 24 ≤ x → m₂ x = m x := by
    intro x out
    simp only [m₂, setNext, setSize]
    simp (disch := omega) only [ByteMemory.store_of_notMem]
  have link₁ : next (setSize m a (s.size + t.size)) a = a + s.size := by
    rw [← here, ← hnext]
    exact ByteMemory.load_store_of_disjoint m _ (by omega)
  have link₁' : next (setSize m a (s.size + t.size)) (a + s.size) =
      nextPtr (a + s.size + t.size) := by
    rw [← tnext]
    exact ByteMemory.load_store_of_disjoint m _ (by omega)
  have link₂ : next m₂ a = nextPtr (a + s.size + t.size) :=
    ByteMemory.load_store_same _ _ (by omega)
  have eval : mergeNext m a = if nextPtr (a + s.size + t.size) ≠ 0
      then Heap.setPrev m₂ (nextPtr (a + s.size + t.size)) a else m₂ := by
    simp only [mergeNext, hsize, hnext, here, tsize, link₁, link₁']
    change (if next m₂ a ≠ 0 then Heap.setPrev m₂ (next m₂ a) a else m₂) = _
    rw [link₂]
  obtain ⟨rest', old'⟩ : Rep (mergeNext m a) a (a + s.size + t.size) l ∧
      ∀ x, ¬ Headers (a + s.size + t.size) l x → mergeNext m a x = m₂ x := by
    rw [eval]
    exact Rep.relink (rest.congr sized.tail.tail fun x lo _ => (old₂ x (by omega)).symm)
      sized.tail.tail (by simp only [heapEnd, heapStart, heapSize, heapPages, pageSize]; omega)
      (by omega) (by omega)
  have low : ∀ x, x < a + s.size + t.size → mergeNext m a x = m₂ x := fun x lo =>
    old' x fun h => absurd h.le (by omega)
  obtain ⟨f1, f2, f3, f4⟩ := header_congr (a := a) (mergeNext m a) m₂
    fun x _ hi => low x (by simp only [headerSize] at hi; omega)
  refine ⟨⟨?_, ?_, ?_, ?_, ?_⟩, fun x out => ?_⟩
  · rw [f1]
    simp only [m₂, size, setNext, setSize]
    simp (disch := omega) only [ByteMemory.load_store_of_disjoint, ByteMemory.load_store_same]
  · rw [f2, ← hfree]
    simp only [m₂, isFree, setNext, setSize]
    simp (disch := omega) only [ByteMemory.load_store_of_disjoint]
  · rw [f3, link₂, Nat.add_assoc]
  · rw [f4, ← hprev]
    simp only [m₂, prev, setNext, setSize]
    simp (disch := omega) only [ByteMemory.load_store_of_disjoint]
  · rwa [← Nat.add_assoc]
  · have head : ¬ (a ≤ x ∧ x < a + 32) := fun h => out (headers_head h.1 h.2)
    rw [old' x fun h => out h.tail.tail, old₂ x (by omega)]

/-- **`merge_all` coalesces.**  It ends, leaves the headers of the coalesced
layout, and writes only in headers of the layout it found. -/
theorem mergeAll_rep {m : ByteMemory} {p a fuel : Nat} {s : Seg} {l : List Seg}
    (rep : Rep m p a (s :: l)) (sized : Sized (s :: l))
    (full : a + extent (s :: l) = heapEnd) (pos : a ≠ 0) (enough : l.length < fuel) :
    ∃ m', mergeAll m fuel a = some m' ∧ Rep m' p a (coalesce s l) ∧
      ∀ x, ¬ Headers a (s :: l) x → m' x = m x := by
  induction l generalizing m p a s fuel with
  | nil =>
      obtain ⟨n, rfl⟩ : ∃ n, fuel = n + 1 := ⟨fuel - 1, by omega⟩
      have last : next m a = 0 := by
        rw [rep.2.2.1, show a + s.size = heapEnd by simpa using full, nextPtr_heapEnd]
      exact ⟨m, by simp [mergeAll, last], rep, fun _ _ => rfl⟩
  | cons t l ih =>
      obtain ⟨n, rfl⟩ : ∃ n, fuel = n + 1 := ⟨fuel - 1, by omega⟩
      have room : 48 ≤ s.size := sized.head.2
      have here : next m a = a + s.size := by
        rw [rep.2.2.1]
        exact nextPtr_of_cons sized.tail (by rw [← full, extent_cons s]; omega)
      have sfree : isFree m a ≠ 0 ↔ s.free = true := by
        rw [rep.2.1]; cases s.free <;> simp
      have tfree : isFree m (a + s.size) ≠ 0 ↔ t.free = true := by
        rw [rep.2.2.2.2.2.1]; cases t.free <;> simp
      have more : ¬ (a = 0 ∨ a + s.size = 0) := by omega
      have shorter : l.length < n := by simpa using enough
      simp only [mergeAll, here, rep.1, sfree, tfree, if_neg more, and_true, coalesce]
      by_cases both : s.free = true ∧ t.free = true
      · simp only [if_pos both]
        have merged := mergeNext_rep rep sized full
        rw [both.1] at merged
        obtain ⟨m', ran, rep', frame⟩ := ih merged.1
          (fun u hu => by
            rcases List.mem_cons.mp hu with rfl | hu
            · have hs := sized.head
              have ht := sized.tail.head
              exact ⟨by simp only; omega, by simp only; omega⟩
            · exact sized u (by simp [hu]))
          (by rw [← full]; simp only [extent_cons]; omega) pos shorter
        refine ⟨m', ran, rep', fun x out => ?_⟩
        rw [frame x, merged.2 x out]
        -- a header after the merge was one before it
        rintro ⟨b, hb, range⟩
        rcases List.mem_cons.mp hb with rfl | hb
        · exact out ⟨(a, s), by simp, range⟩
        · exact out ⟨b, by simpa [Nat.add_assoc] using .inr (.inr hb), range⟩
      · simp only [if_neg both]
        obtain ⟨hsize, hfree, hnext, hprev, rest⟩ := rep
        obtain ⟨m', ran, rep', frame⟩ := ih rest sized.tail
          (by rw [← full, extent_cons s]; omega) (by omega) shorter
        have low : ∀ x, x < a + s.size → m x = m' x := fun x lo =>
          (frame x fun h => absurd h.le (by omega)).symm
        obtain ⟨f1, f2, f3, f4⟩ := header_congr (a := a) m m' fun x lo hi =>
          low x (by simp only [headerSize] at hi; omega)
        exact ⟨m', ran, ⟨f1 ▸ hsize, f2 ▸ hfree, f3 ▸ hnext, f4 ▸ hprev, rep'⟩,
          fun x out => frame x fun h => out h.tail⟩

end Flyos.Heap
