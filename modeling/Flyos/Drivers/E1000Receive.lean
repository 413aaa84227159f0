import Flyos.Drivers.E1000
import Mathlib.Data.List.Forall2

/-!
# The receive ring of the network card

The descriptors from `rx_cur` up to `RDH` hold the packets that were stored and not yet
returned; `RDT` is the descriptor behind `rx_cur`, so one descriptor stays unused and a
full ring is not taken for an empty one.  `RxInv` says so, with what a running
`e1000_recv` has seen of the first of these packets; every step of the driver and of the
card keeps it (`RxInv.step`).
-/

namespace Flyos

/-! ## The buffers -/

/-- Pages that do not meet. -/
def PagesApart (a b : Nat) : Prop := a + pageSize ≤ b ∨ b + pageSize ≤ a

theorem PagesApart.symm {a b : Nat} (apart : PagesApart a b) : PagesApart b a := Or.symm apart

/-- Different pages do not meet. -/
theorem pagesApart_of_ne {k l : Nat} (ne : k ≠ l) :
    PagesApart (k * pageSize) (l * pageSize) := by
  show k * 4096 + 4096 ≤ l * 4096 ∨ l * 4096 + 4096 ≤ k * 4096
  omega

/-- Every descriptor has a buffer page of its own. -/
structure E1000.Buffers (e : E1000) : Prop where
  rx : ∀ i < numRxDesc, ∀ j < numRxDesc, i ≠ j → PagesApart (e.rxRing i).addr (e.rxRing j).addr
  tx : ∀ i < numTxDesc, ∀ j < numTxDesc, i ≠ j → PagesApart (e.txRing i).addr (e.txRing j).addr
  rxTx : ∀ i < numRxDesc, ∀ j < numTxDesc, PagesApart (e.rxRing i).addr (e.txRing j).addr

/-- The buffers stay when the addresses in the descriptors do. -/
theorem E1000.Buffers.congr {e f : E1000} (apart : e.Buffers)
    (rx : ∀ i, (f.rxRing i).addr = (e.rxRing i).addr)
    (tx : ∀ i, (f.txRing i).addr = (e.txRing i).addr) : f.Buffers where
  rx i hi j hj ne := by rw [rx, rx]; exact apart.rx i hi j hj ne
  tx i hi j hj ne := by rw [tx, tx]; exact apart.tx i hi j hj ne
  rxTx i hi j hj := by rw [rx, tx]; exact apart.rxTx i hi j hj

/-- The pages of `allocPages` are different pages that were free before. -/
theorem allocPages_spec {n : Nat} {p q : Pmm} {pages : List Nat} (ok : p.Ok)
    (alloc : allocPages n p = some (pages, q)) :
    q.Ok ∧ pages.length = n ∧ pages.Pairwise PagesApart ∧
      (∀ j, bitmapTest p.bitmap j = true → bitmapTest q.bitmap j = true) ∧
      ∀ a ∈ pages, ∃ k, a = k * pageSize ∧ bitmapTest p.bitmap k = false ∧
        bitmapTest q.bitmap k = true := by
  induction n generalizing p q pages with
  | zero =>
      cases alloc
      exact ⟨ok, rfl, .nil, fun _ used => used, by simp⟩
  | succ n ih =>
      rw [allocPages] at alloc
      split at alloc
      case isTrue => cases alloc
      case isFalse nonzero =>
        obtain ⟨⟨rest, q'⟩, allocated, same⟩ := Option.map_eq_some_iff.mp alloc
        cases same
        obtain ⟨ok₁, -, kept₁, taken⟩ := pmmAllocPage_spec ok
        obtain ⟨k, at_, -, clear, used⟩ := taken nonzero
        obtain ⟨ok', length, pairwise, kept', fresh⟩ := ih ok₁ allocated
        refine ⟨ok', by rw [List.length_cons, length], List.pairwise_cons.mpr ⟨?_, pairwise⟩,
          fun j used => kept' j (kept₁ j used), ?_⟩
        · intro a mem
          obtain ⟨i, rfl, free, -⟩ := fresh a mem
          rw [at_]
          refine pagesApart_of_ne ?_
          rintro rfl
          rw [used] at free
          cases free
        · intro a mem
          rcases List.mem_cons.mp mem with rfl | mem
          · exact ⟨k, at_, clear, kept' k used⟩
          · obtain ⟨i, rfl, free, used'⟩ := fresh a mem
            refine ⟨i, rfl, ?_, used'⟩
            by_contra busy
            rw [kept₁ i (by simpa using busy)] at free
            cases free

/-- Pages of a list at different places do not meet. -/
theorem pagesApart_getD {pages : List Nat} (pairwise : pages.Pairwise PagesApart) {i j : Nat}
    (hi : i < pages.length) (hj : j < pages.length) (ne : i ≠ j) :
    PagesApart (pages.getD i 0) (pages.getD j 0) := by
  rw [List.getD_eq_getElem?_getD, List.getD_eq_getElem?_getD, List.getElem?_eq_getElem hi,
    List.getElem?_eq_getElem hj, Option.getD_some, Option.getD_some]
  rcases Nat.lt_or_gt_of_ne ne with before | behind
  · exact List.pairwise_iff_getElem.mp pairwise i j hi hj before
  · exact (List.pairwise_iff_getElem.mp pairwise j i hj hi behind).symm

/-- `e1000_init` gives every descriptor its own buffer. -/
theorem e1000Init_buffers {p q : Pmm} {mem : ByteMemory} {e : E1000} (ok : p.Ok)
    (init : e1000Init p mem = some (e, q)) : e.Buffers := by
  obtain ⟨⟨rings, p₁⟩, rings_, init⟩ := Option.bind_eq_some_iff.mp init
  obtain ⟨⟨rx, p₂⟩, rx_, init⟩ := Option.bind_eq_some_iff.mp init
  obtain ⟨⟨tx, p₃⟩, tx_, same⟩ := Option.map_eq_some_iff.mp init
  cases same
  obtain ⟨ok₁, -, -, -, -⟩ := allocPages_spec ok rings_
  obtain ⟨ok₂, rxLength, rxApart, kept, rxPages⟩ := allocPages_spec ok₁ rx_
  obtain ⟨-, txLength, txApart, -, txPages⟩ := allocPages_spec ok₂ tx_
  refine ⟨?_, ?_, ?_⟩
  · intro i hi j hj ne
    exact pagesApart_getD rxApart (by omega) (by omega) ne
  · intro i hi j hj ne
    exact pagesApart_getD txApart (by omega) (by omega) ne
  · intro i hi j hj
    show PagesApart (rx.getD i 0) (tx.getD j 0)
    have inRx : i < rx.length := by omega
    have inTx : j < tx.length := by omega
    rw [List.getD_eq_getElem?_getD, List.getD_eq_getElem?_getD, List.getElem?_eq_getElem inRx,
      List.getElem?_eq_getElem inTx, Option.getD_some, Option.getD_some]
    obtain ⟨k, at_, -, used⟩ := rxPages _ (List.getElem_mem inRx)
    obtain ⟨l, at', free, -⟩ := txPages _ (List.getElem_mem inTx)
    rw [at_, at']
    refine pagesApart_of_ne ?_
    rintro rfl
    rw [used] at free
    cases free

/-- Writing to one page does not change the bytes of another. -/
theorem bytes_apart {m : ByteMemory} {a b n d : Nat} {data : List UInt8}
    (apart : PagesApart a b) (read : n ≤ pageSize) (write : d + data.length ≤ pageSize) :
    (m.writeBytes (b + d) data).bytes a n = m.bytes a n := by
  refine ByteMemory.bytes_congr fun x low high => ByteMemory.blit_of_notMem m _ ?_
  rcases apart with before | behind <;> omega

/-! ## Every step stays inside the buffers -/

/-- A packet that is being sent fits its buffer. -/
def E1000Pc.Fits : E1000Pc → Prop
  | .sendCopy _ len _ => 0 < len ∧ len ≤ pageSize
  | .sendCmd _ len => 0 < len ∧ len ≤ pageSize
  | .sendStatus _ len => 0 < len ∧ len ≤ pageSize
  | .sendTail _ len => 0 < len ∧ len ≤ pageSize
  | _ => True

/-- The descriptors have their buffers, and the driver copies inside the one at `tx_cur`. -/
structure NicOk (s : Nic) : Prop where
  buffers : s.card.Buffers
  txCur : s.card.txCur < numTxDesc
  fits : s.pc.Fits

theorem E1000.setRx_addr (e : E1000) {i : Nat} {d : RxDesc} (same : d.addr = (e.rxRing i).addr)
    (j : Nat) : ((e.setRx i d).rxRing j).addr = (e.rxRing j).addr := by
  rcases eq_or_ne j i with rfl | other
  · rw [E1000.setRx_self, same]
  · rw [E1000.setRx_of_ne _ _ other]

theorem E1000.setTx_addr (e : E1000) {i : Nat} {d : TxDesc} (same : d.addr = (e.txRing i).addr)
    (j : Nat) : ((e.setTx i d).txRing j).addr = (e.txRing j).addr := by
  rcases eq_or_ne j i with rfl | other
  · rw [E1000.setTx_self, same]
  · rw [E1000.setTx_of_ne _ _ other]

/-- A packet that arrives leaves the addresses alone. -/
theorem E1000.receive_buffers {e : E1000} (apart : e.Buffers) (packet : List UInt8)
    (status : UInt8) : (e.receive packet status).Buffers := by
  rw [E1000.receive]
  split
  · exact apart
  · exact apart.congr (e.setRx_addr rfl) fun _ => rfl

/-- **Every step stays inside the buffers.** -/
theorem NicOk.step {s t : Nic} {e : NicEvent} (ok : NicOk s) (step : NicStep s e t) :
    NicOk t := by
  have buffers := ok.buffers
  have start := ok.txCur
  cases e with
  | recv max =>
      cases pc : s.pc <;> simp only [NicStep, Nic.next, pc, reduceCtorEq] at step
      cases step
      exact ⟨buffers, start, trivial⟩
  | send data len =>
      cases pc : s.pc <;> simp only [NicStep, Nic.next, pc, reduceCtorEq] at step
      split at step
      · cases step
        exact ⟨buffers, start, trivial⟩
      · split at step
        · cases step
          refine ⟨buffers, start, ?_⟩
          show 0 < len.toNat ∧ len.toNat ≤ 4096
          omega
        · cases step
  | arrive packet status =>
      simp only [NicStep, Nic.next] at step
      split at step
      · cases step
        refine ⟨E1000.receive_buffers buffers packet status, ?_, ok.fits⟩
        show (s.card.receive packet status).txCur < numTxDesc
        rw [E1000.receive]
        split <;> exact start
      · cases step
  | transmit =>
      simp only [NicStep, Nic.next] at step
      split at step
      · cases step
        exact ok
      · cases step
        exact ⟨buffers.congr (fun _ => rfl) (s.card.setTx_addr rfl), start, ok.fits⟩
  | driver =>
      have fits := ok.fits
      cases pc : s.pc <;> simp only [NicStep, Nic.next, Nic.drive, pc, reduceCtorEq] at step fits
      case recvHead max =>
        cases step
        refine ⟨buffers, start, ?_⟩
        simp only
        split <;> trivial
      case recvStatus max =>
        cases step
        refine ⟨buffers, start, ?_⟩
        simp only
        split <;> trivial
      case recvLength max =>
        cases step
        exact ⟨buffers, start, trivial⟩
      case recvCopy max len out =>
        split at step <;> cases step
        · exact ⟨buffers, start, trivial⟩
        · exact ⟨buffers.congr (s.card.setRx_addr rfl) fun _ => rfl, start, trivial⟩
      case recvTail max out =>
        cases step
        exact ⟨buffers.congr (fun _ => rfl) fun _ => rfl, start, trivial⟩
      case sendCopy data len i =>
        split at step <;> cases step
        · exact ⟨buffers.congr (fun _ => rfl) fun _ => rfl, start, fits⟩
        · exact ⟨buffers.congr (fun _ => rfl) (s.card.setTx_addr rfl), start, fits⟩
      case sendCmd data len =>
        cases step
        exact ⟨buffers.congr (fun _ => rfl) (s.card.setTx_addr rfl), start, fits⟩
      case sendStatus data len =>
        cases step
        exact ⟨buffers.congr (fun _ => rfl) (s.card.setTx_addr rfl), start, fits⟩
      case sendTail data len =>
        cases step
        exact ⟨buffers.congr (fun _ => rfl) fun _ => rfl, Nat.mod_lt _ (by decide), trivial⟩

/-! ## What is stored and not returned -/

/-- Receive descriptor `i` holds `packet`. -/
def E1000.RxSlot (e : E1000) (i : Nat) (packet : List UInt8) : Prop :=
  packet.length ≤ pageSize ∧ (e.rxRing i).length = packet.length ∧
    e.mem.bytes (e.rxRing i).addr packet.length = packet

/-- What a running `e1000_recv` has seen of the packets that wait. -/
def E1000Pc.Receiving (pending : List (List UInt8)) : E1000Pc → Prop
  | .recvStatus _ => pending ≠ []
  | .recvLength _ => pending ≠ []
  | .recvCopy max len out => ∃ packet rest, pending = packet :: rest ∧
      len = min max packet.length ∧ out.length ≤ len ∧ out = packet.take out.length
  | .recvTail max out => ∃ packet rest, pending = packet :: rest ∧ out = packet.take max
  | _ => True

/-- **The receiver**, with the packets that wait. -/
structure RxInv (s : Nic) (pending : List (List UInt8)) : Prop where
  stored : ∃ done, s.stored = done ++ pending ∧
    List.Forall₂ (fun packet call => call.2 = packet.take call.1) done s.returned
  short : pending.length < numRxDesc
  cur : s.card.rxCur < numRxDesc
  rdh : s.card.rdh = (s.card.rxCur + pending.length) % numRxDesc
  rdt : s.card.rdt = (s.card.rxCur + (numRxDesc - 1)) % numRxDesc
  slots : RingHolds numRxDesc s.card.rxCur s.card.RxSlot pending
  pc : s.pc.Receiving pending

variable {s t : Nic} {pending : List (List UInt8)}

/-- What leaves the receiver alone keeps its invariant. -/
theorem RxInv.congr (inv : RxInv s pending) (stored : t.stored = s.stored)
    (returned : t.returned = s.returned) (ring : t.card.rxRing = s.card.rxRing)
    (rdh : t.card.rdh = s.card.rdh) (rdt : t.card.rdt = s.card.rdt)
    (cur : t.card.rxCur = s.card.rxCur)
    (mem : ∀ i < numRxDesc, ∀ n ≤ pageSize,
      t.card.mem.bytes (s.card.rxRing i).addr n = s.card.mem.bytes (s.card.rxRing i).addr n)
    (pc : t.pc.Receiving pending) : RxInv t pending where
  stored := by rw [stored, returned]; exact inv.stored
  short := inv.short
  cur := by rw [cur]; exact inv.cur
  rdh := by rw [rdh, cur]; exact inv.rdh
  rdt := by rw [rdt, cur]; exact inv.rdt
  slots := by
    rw [cur]
    refine inv.slots.congr fun i _ packet slot => ⟨slot.1, by rw [ring]; exact slot.2.1, ?_⟩
    rw [ring, mem _ (Nat.mod_lt _ (by decide)) _ slot.1]
    exact slot.2.2
  pc := pc

/-- A step of the running call that only looks. -/
theorem RxInv.look (inv : RxInv s pending) {pc : E1000Pc} (seen : pc.Receiving pending) :
    RxInv { s with pc := pc } pending :=
  inv.congr rfl rfl rfl rfl rfl rfl (fun _ _ _ _ => rfl) seen

/-- `RDH` is `rx_cur` only when no packet waits. -/
theorem RxInv.rdh_eq_cur (inv : RxInv s pending) :
    s.card.rdh = s.card.rxCur ↔ pending = [] := by
  rw [inv.rdh, ring_eq_start inv.cur inv.short, List.length_eq_zero_iff]

/-- What was seen of the first packet stays when another one arrives. -/
theorem E1000Pc.Receiving.concat {pc : E1000Pc} (seen : pc.Receiving pending)
    (packet : List UInt8) : pc.Receiving (pending ++ [packet]) := by
  cases pc with
  | recvStatus max => simp [E1000Pc.Receiving]
  | recvLength max => simp [E1000Pc.Receiving]
  | recvCopy max len out =>
      obtain ⟨first, rest, rfl, seen⟩ := seen
      exact ⟨first, rest ++ [packet], rfl, seen⟩
  | recvTail max out =>
      obtain ⟨first, rest, rfl, seen⟩ := seen
      exact ⟨first, rest ++ [packet], rfl, seen⟩
  | _ => trivial

/-- A packet that was written to its buffer is there. -/
theorem E1000.receive_slot {e : E1000} (packet : List UInt8) (status : UInt8)
    (fits : packet.length ≤ pageSize) (room : e.rdh ≠ e.rdt) :
    (e.receive packet status).RxSlot e.rdh packet := by
  rw [E1000.receive, if_neg room]
  refine ⟨fits, ?_, ?_⟩
  · show ((e.setRx e.rdh _).rxRing e.rdh).length = packet.length
    rw [E1000.setRx_self]
  · show (e.mem.writeBytes _ packet).bytes ((e.setRx e.rdh _).rxRing e.rdh).addr packet.length =
      packet
    rw [E1000.setRx_self]
    exact ByteMemory.bytes_writeBytes ..

/-- The other descriptors keep what they hold. -/
theorem E1000.receive_other {e : E1000} (apart : e.Buffers) {packet other : List UInt8}
    {status : UInt8} (fits : packet.length ≤ pageSize) (room : e.rdh ≠ e.rdt)
    (inRing : e.rdh < numRxDesc) {i : Nat} (inside : i < numRxDesc) (ne : i ≠ e.rdh)
    (slot : e.RxSlot i other) : (e.receive packet status).RxSlot i other := by
  rw [E1000.receive, if_neg room]
  obtain ⟨short, length, bytes⟩ := slot
  refine ⟨short, ?_, ?_⟩
  · show ((e.setRx e.rdh _).rxRing i).length = other.length
    rw [E1000.setRx_of_ne _ _ ne, length]
  · show (e.mem.writeBytes _ packet).bytes ((e.setRx e.rdh _).rxRing i).addr other.length = other
    rw [E1000.setRx_of_ne _ _ ne]
    refine (bytes_apart (apart.rx i inside _ inRing ne) short (d := 0) ?_).trans bytes
    omega

/-- **A packet arrives**: it is stored behind those that wait, or dropped. -/
theorem RxInv.arrive (inv : RxInv s pending) (apart : s.card.Buffers) (packet : List UInt8)
    (status : UInt8) (fits : packet.length ≤ pageSize) (room : s.card.rdh ≠ s.card.rdt) :
    RxInv { s with card := s.card.receive packet status, stored := s.stored ++ [packet] }
      (pending ++ [packet]) := by
  have notFull : pending.length ≠ numRxDesc - 1 := by
    intro full
    rw [inv.rdh, inv.rdt, full] at room
    exact room rfl
  have short := inv.short
  have inRing : s.card.rdh < numRxDesc := by
    rw [inv.rdh]
    exact Nat.mod_lt _ (by decide)
  obtain ⟨done, stored, calls⟩ := inv.stored
  have cur : (s.card.receive packet status).rxCur = s.card.rxCur := by
    rw [E1000.receive, if_neg room]
    rfl
  refine ⟨⟨done, ?_, calls⟩, ?_, ?_, ?_, ?_, ?_, inv.pc.concat packet⟩
  · show s.stored ++ [packet] = done ++ (pending ++ [packet])
    rw [stored, List.append_assoc]
  · rw [List.length_append, List.length_singleton]
    omega
  · show (s.card.receive packet status).rxCur < numRxDesc
    rw [cur]
    exact inv.cur
  · show (s.card.receive packet status).rdh = _
    rw [cur, List.length_append, List.length_singleton, ← Nat.add_assoc, ← Nat.mod_add_mod,
      ← inv.rdh, E1000.receive, if_neg room]
  · show (s.card.receive packet status).rdt = _
    rw [cur, ← inv.rdt, E1000.receive, if_neg room]
    rfl
  · show RingHolds numRxDesc (s.card.receive packet status).rxCur _ _
    rw [cur]
    refine (inv.slots.congr fun i less other => ?_).concat ?_
    · refine E1000.receive_other apart fits room inRing (Nat.mod_lt _ (by decide)) ?_
      rw [inv.rdh]
      exact ring_ne less (by omega)
    · rw [← inv.rdh]
      exact E1000.receive_slot packet status fits room

/-- Clearing the status leaves what the descriptors hold. -/
theorem RxInv.clear (inv : RxInv s pending) {i : Nat} {pc : E1000Pc}
    (seen : pc.Receiving pending) :
    RxInv { s with card := s.card.setRx i { s.card.rxRing i with status := 0 }, pc := pc }
      pending where
  stored := inv.stored
  short := inv.short
  cur := inv.cur
  rdh := inv.rdh
  rdt := inv.rdt
  slots := by
    refine inv.slots.congr fun k _ packet slot => ⟨slot.1, ?_, ?_⟩
    · rcases eq_or_ne ((s.card.rxCur + k) % numRxDesc) i with rfl | other
      · rw [E1000.setRx_self]
        exact slot.2.1
      · rw [E1000.setRx_of_ne _ _ other]
        exact slot.2.1
    · show s.card.mem.bytes ((s.card.setRx i _).rxRing _).addr packet.length = packet
      rw [s.card.setRx_addr (i := i) (d := { s.card.rxRing i with status := 0 }) rfl]
      exact slot.2.2
  pc := seen

/-- The length read is that of the first packet, cut to what is asked for. -/
theorem RxInv.length (inv : RxInv s pending) {max : Nat} (some_ : pending ≠ []) :
    RxInv
      { s with
        pc := .recvCopy max
          (if max < (s.card.rxRing s.card.rxCur).length then max
            else (s.card.rxRing s.card.rxCur).length) [] } pending := by
  refine inv.look ?_
  obtain ⟨packet, rest, rfl⟩ := List.exists_cons_of_ne_nil some_
  obtain ⟨-, length, -⟩ := inv.slots.head
  rw [Nat.mod_eq_of_lt inv.cur] at length
  refine ⟨packet, rest, rfl, ?_, Nat.zero_le _, by simp⟩
  rw [length]
  split <;> omega

/-- One more byte of the first packet is copied. -/
theorem RxInv.copy (inv : RxInv s pending) {max len : Nat} {out : List UInt8}
    (seen : (E1000Pc.recvCopy max len out).Receiving pending) (more : out.length < len) :
    RxInv
      { s with
        pc := .recvCopy max len
          (out ++ [s.card.mem ((s.card.rxRing s.card.rxCur).addr + out.length)]) } pending := by
  obtain ⟨packet, rest, rfl, len_, bound, copied⟩ := seen
  obtain ⟨-, -, bytes⟩ := inv.slots.head
  rw [Nat.mod_eq_of_lt inv.cur] at bytes
  refine inv.look ⟨packet, rest, rfl, len_, ?_, ?_⟩
  · rw [List.length_append, List.length_singleton]
    omega
  · have inside : out.length < packet.length := by omega
    rw [List.length_append, List.length_singleton, List.take_add_one, ← copied,
      List.getElem?_eq_getElem inside, Option.toList_some, ByteMemory.eq_of_bytes bytes inside]

/-- All bytes asked for are copied. -/
theorem RxInv.copied (inv : RxInv s pending) {max len : Nat} {out : List UInt8}
    (seen : (E1000Pc.recvCopy max len out).Receiving pending) (done : ¬ out.length < len) :
    RxInv
      { s with
        card := s.card.setRx s.card.rxCur { s.card.rxRing s.card.rxCur with status := 0 }
        pc := .recvTail max out } pending := by
  obtain ⟨packet, rest, rfl, len_, bound, copied⟩ := seen
  refine inv.clear ⟨packet, rest, rfl, ?_⟩
  calc out = packet.take out.length := copied
    _ = packet.take (min max packet.length) := by
        rw [show out.length = min max packet.length by omega]
    _ = packet.take max := List.take_eq_take_min.symm

/-- **The first packet is returned**, and its descriptor is given back to the card. -/
theorem RxInv.finish (inv : RxInv s pending) {max : Nat} {out : List UInt8}
    (seen : (E1000Pc.recvTail max out).Receiving pending) :
    ∃ rest, RxInv
      { s with
        card := { s.card with rdt := s.card.rxCur, rxCur := (s.card.rxCur + 1) % numRxDesc }
        pc := .idle
        returned := s.returned ++ [(max, out)] } rest := by
  obtain ⟨packet, rest, rfl, rfl⟩ := seen
  obtain ⟨done, stored, calls⟩ := inv.stored
  have short := inv.short
  rw [List.length_cons] at short
  refine ⟨rest, ⟨done ++ [packet], ?_, ?_⟩, by omega, Nat.mod_lt _ (by decide), ?_, ?_, ?_,
    trivial⟩
  · rw [stored, List.append_assoc, List.singleton_append]
  · exact List.rel_append calls (.cons rfl .nil)
  · show s.card.rdh = ((s.card.rxCur + 1) % numRxDesc + rest.length) % numRxDesc
    rw [inv.rdh, List.length_cons, ring_succ]
  · show s.card.rxCur = ((s.card.rxCur + 1) % 16 + 15) % 16
    have cur : s.card.rxCur < 16 := inv.cur
    omega
  · exact inv.slots.tail

/-- **Every step of the driver and of the card keeps the receiver's invariant.** -/
theorem RxInv.step {e : NicEvent} (inv : RxInv s pending) (ok : NicOk s)
    (step : NicStep s e t) : ∃ pending, RxInv t pending := by
  have buffers := ok.buffers
  cases e with
  | recv max =>
      cases pc : s.pc <;> simp only [NicStep, Nic.next, pc, reduceCtorEq] at step
      cases step
      exact ⟨pending, inv.look trivial⟩
  | send data len =>
      cases pc : s.pc <;> simp only [NicStep, Nic.next, pc, reduceCtorEq] at step
      split at step
      · cases step
        exact ⟨pending, inv.congr rfl rfl rfl rfl rfl rfl (fun _ _ _ _ => rfl) trivial⟩
      · split at step
        · cases step
          exact ⟨pending, inv.look trivial⟩
        · cases step
  | arrive packet status =>
      simp only [NicStep, Nic.next] at step
      split at step
      case isFalse => cases step
      case isTrue fits =>
        cases step
        by_cases room : s.card.rdh = s.card.rdt
        · refine ⟨pending, ?_⟩
          rw [if_pos room, E1000.receive, if_pos room]
          exact inv
        · rw [if_neg room]
          exact ⟨pending ++ [packet], inv.arrive buffers packet status fits room⟩
  | transmit =>
      simp only [NicStep, Nic.next] at step
      split at step
      · cases step
        exact ⟨pending, inv⟩
      · cases step
        exact ⟨pending, inv.congr rfl rfl rfl rfl rfl rfl (fun _ _ _ _ => rfl) inv.pc⟩
  | driver =>
      have seen := inv.pc
      cases pc : s.pc <;> simp only [NicStep, Nic.next, Nic.drive, pc, reduceCtorEq] at step seen
      case recvHead max =>
        cases step
        refine ⟨pending, inv.look ?_⟩
        split
        · trivial
        · rename_i some_
          exact fun none => some_ (inv.rdh_eq_cur.mpr none)
      case recvStatus max =>
        cases step
        refine ⟨pending, inv.look ?_⟩
        split
        · trivial
        · exact seen
      case recvLength max =>
        cases step
        exact ⟨pending, inv.length seen⟩
      case recvCopy max len out =>
        split at step
        case isTrue more =>
          cases step
          exact ⟨pending, inv.copy seen more⟩
        case isFalse done =>
          cases step
          exact ⟨pending, inv.copied seen done⟩
      case recvTail max out =>
        cases step
        exact inv.finish seen
      case sendCopy data len i =>
        split at step
        case isTrue more =>
          cases step
          refine ⟨pending, inv.congr rfl rfl rfl rfl rfl rfl ?_ trivial⟩
          intro k inside n read
          have fits := ok.fits
          rw [pc] at fits
          refine bytes_apart (buffers.rxTx k inside _ ok.txCur) read ?_
          have bound := fits.2
          rw [List.length_singleton]
          omega
        case isFalse =>
          cases step
          exact ⟨pending, inv.congr rfl rfl rfl rfl rfl rfl (fun _ _ _ _ => rfl) trivial⟩
      case sendCmd data len =>
        cases step
        exact ⟨pending, inv.congr rfl rfl rfl rfl rfl rfl (fun _ _ _ _ => rfl) trivial⟩
      case sendStatus data len =>
        cases step
        exact ⟨pending, inv.congr rfl rfl rfl rfl rfl rfl (fun _ _ _ _ => rfl) trivial⟩
      case sendTail data len =>
        cases step
        exact ⟨pending, inv.congr rfl rfl rfl rfl rfl rfl (fun _ _ _ _ => rfl) trivial⟩

/-! ## From `e1000_init` on -/

/-- Where `e1000_init` leaves the rings. -/
theorem e1000Init_rings {p q : Pmm} {mem : ByteMemory} {e : E1000}
    (init : e1000Init p mem = some (e, q)) :
    e.rdh = 0 ∧ e.rdt = numRxDesc - 1 ∧ e.rxCur = 0 ∧ e.tdh = 0 ∧ e.tdt = 0 ∧ e.txCur = 0 := by
  obtain ⟨⟨_, _⟩, -, init⟩ := Option.bind_eq_some_iff.mp init
  obtain ⟨⟨_, _⟩, -, init⟩ := Option.bind_eq_some_iff.mp init
  obtain ⟨⟨_, _⟩, -, same⟩ := Option.map_eq_some_iff.mp init
  cases same
  exact ⟨rfl, rfl, rfl, rfl, rfl, rfl⟩

/-- The driver stands outside, and its buffers are apart. -/
theorem e1000Init_ok {p q : Pmm} {mem : ByteMemory} {e : E1000} (ok : p.Ok)
    (init : e1000Init p mem = some (e, q)) : NicOk (Nic.init e) := by
  obtain ⟨-, -, -, -, -, txCur⟩ := e1000Init_rings init
  refine ⟨e1000Init_buffers ok init, ?_, trivial⟩
  show e.txCur < numTxDesc
  rw [txCur]
  decide

/-- No packet waits. -/
theorem e1000Init_rxInv {p q : Pmm} {mem : ByteMemory} {e : E1000}
    (init : e1000Init p mem = some (e, q)) : RxInv (Nic.init e) [] := by
  obtain ⟨rdh, rdt, rxCur, -, -, -⟩ := e1000Init_rings init
  refine ⟨⟨[], rfl, .nil⟩, by decide, ?_, ?_, ?_, RingHolds.nil, trivial⟩
  · show e.rxCur < numRxDesc
    rw [rxCur]
    decide
  · show e.rdh = (e.rxCur + 0) % numRxDesc
    rw [rdh, rxCur]
    rfl
  · show e.rdt = (e.rxCur + (numRxDesc - 1)) % numRxDesc
    rw [rdt, rxCur]
    rfl

/-- **The receive ring delivers each packet once, in order.**  However the card and the driver
take turns after `e1000_init`, the packets returned are the first of those stored, each cut to
`max` bytes; the ones that were not returned yet still lie in the ring, from `rx_cur` on; and
`RDT` is one behind `rx_cur`.  The ring holds a window of packets (`RxInv`), which an arrival
extends at the head and a call that returns shortens at the tail; since every access of the
driver is a step of its own, the card may act between any two. -/
theorem rxRing_run {p q : Pmm} {mem : ByteMemory} {e : E1000} {events : List NicEvent} {s : Nic}
    (ok : p.Ok) (init : e1000Init p mem = some (e, q))
    (run : Run NicStep (Nic.init e) events s) :
    s.returned.length ≤ s.stored.length ∧
      (∀ (i max : Nat) (out : List UInt8), s.returned[i]? = some (max, out) →
        ∃ packet : List UInt8, s.stored[i]? = some packet ∧ out = packet.take max) ∧
      RingHolds numRxDesc s.card.rxCur s.card.RxSlot (s.stored.drop s.returned.length) ∧
      (s.stored.drop s.returned.length).length < numRxDesc ∧
      s.card.rdt = (s.card.rxCur + (numRxDesc - 1)) % numRxDesc := by
  obtain ⟨-, pending, inv⟩ := run.invariant (fun s => NicOk s ∧ ∃ pending, RxInv s pending)
    (fun inv step => ⟨inv.1.step step, inv.2.elim fun _ rx => rx.step inv.1 step⟩)
    ⟨e1000Init_ok ok init, [], e1000Init_rxInv init⟩
  obtain ⟨done, stored, calls⟩ := inv.stored
  have length := calls.length_eq
  have rest : s.stored.drop s.returned.length = pending := by
    rw [stored, ← length, List.drop_left]
  refine ⟨?_, ?_, ?_, ?_, inv.rdt⟩
  · rw [stored, List.length_append]
    omega
  · intro i max out call
    obtain ⟨inside, at_⟩ := List.getElem?_eq_some_iff.mp call
    have inDone : i < done.length := by omega
    refine ⟨done[i], ?_, ?_⟩
    · rw [stored, List.getElem?_append_left inDone, List.getElem?_eq_getElem inDone]
    · have cut := List.forall₂_iff_get.mp calls |>.2 i inDone inside
      simpa only [List.get_eq_getElem, at_] using cut
  · rw [rest]
    exact inv.slots
  · rw [rest]
    exact inv.short

/-- An allocator with sixty-three free pages. -/
def sixtyFourPages : Pmm :=
  { bitmap := fun _ => 0, totalPages := 64, usedPages := 0, searchHint := 1 }

/-- The card that was initialized with them. -/
def freshCard : E1000 × Pmm := (e1000Init sixtyFourPages fun _ => 0).get (by decide +kernel)

theorem freshCard_init : e1000Init sixtyFourPages (fun _ => 0) = some freshCard :=
  (Option.some_get _).symm

/-- A packet of two bytes is returned, cut to one. -/
theorem rxRing_run_one : ∃ s, Run NicStep (Nic.init freshCard.1)
      (.arrive [5, 6] 0 :: .recv 1 :: List.replicate 6 .driver) s ∧
    s.returned.length = 1 ∧
      ∀ (i max : Nat) (out : List UInt8), s.returned[i]? = some (max, out) →
        ∃ packet : List UInt8, s.stored[i]? = some packet ∧ out = packet.take max := by
  have ran : ((NicEvent.arrive [5, 6] 0 :: .recv 1 :: List.replicate 6 .driver).foldlM Nic.next
      (Nic.init freshCard.1)).any (fun s => s.returned.length == 1) := by decide +kernel
  obtain ⟨s, fold, length⟩ := (Option.any_eq_true _ _).mp ran
  have run := Run.ofFold fold
  exact ⟨s, run, by simpa using length,
    (rxRing_run ⟨by decide, by decide⟩ freshCard_init run).2.1⟩

end Flyos
