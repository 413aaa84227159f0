import Flyos.Drivers.E1000Receive

/-!
# The transmit ring of the network card

The descriptors from `TDH` up to `tx_cur` hold the packets that were accepted and not yet
sent.  `e1000_recv` leaves one descriptor unused; `e1000_send` does not look at `TDH` at
all, so with sixteen packets waiting `TDT` is `TDH` again and the card sees an empty ring.
`Nic.Room` is the step where this does not happen, and `TxInv` the invariant that such
steps keep.
-/

namespace Flyos

/-- The packets that `e1000_send` accepted. -/
def Nic.accepted (s : Nic) : List (List UInt8) :=
  s.calls.filterMap fun (data, len, ok) => if ok then some (data.take len.toNat) else none

/-- The step writes the tail. -/
def E1000Pc.queues : E1000Pc → NicEvent → Bool
  | .sendTail _ _, .driver => true
  | _, _ => false

/-- When the tail is written, the descriptor behind the new packet is not the one the card sends
next. -/
def Nic.Room (s : Nic) (e : NicEvent) : Prop :=
  s.pc.queues e = true → (s.card.txCur + 1) % numTxDesc ≠ s.card.tdh

instance (s : Nic) (e : NicEvent) : Decidable (s.Room e) :=
  inferInstanceAs (Decidable (_ → ¬ _ = _))

/-- Transmit descriptor `i` holds `packet`. -/
def E1000.TxSlot (e : E1000) (i : Nat) (packet : List UInt8) : Prop :=
  packet.length ≤ pageSize ∧ (e.txRing i).length = packet.length ∧
    e.mem.bytes (e.txRing i).addr packet.length = packet

/-- What a running `e1000_send` has done. -/
def Nic.Sending (s : Nic) : Prop :=
  match s.pc with
  | .sendCopy data len i => len ≤ data.length ∧ i ≤ len ∧
      s.card.mem.bytes (s.card.txRing s.card.txCur).addr i = data.take i
  | .sendCmd data len => s.card.TxSlot s.card.txCur (data.take len)
  | .sendStatus data len => s.card.TxSlot s.card.txCur (data.take len)
  | .sendTail data len => s.card.TxSlot s.card.txCur (data.take len)
  | _ => True

/-- **The transmitter**, with the packets that wait. -/
structure TxInv (s : Nic) (pending : List (List UInt8)) : Prop where
  accepted : s.accepted = s.sent ++ pending
  rejected : ∀ c ∈ s.calls, c.2.1 ≤ 0 ∨ 4096 < c.2.1 → c.2.2 = false
  short : pending.length < numTxDesc
  tdh : s.card.tdh < numTxDesc
  cur : s.card.txCur = (s.card.tdh + pending.length) % numTxDesc
  tdt : s.card.tdt = s.card.txCur
  slots : RingHolds numTxDesc s.card.tdh s.card.TxSlot pending
  pc : s.Sending

variable {s t : Nic} {pending : List (List UInt8)}

/-- What a send that is running has done stays when its descriptor does. -/
theorem Nic.Sending.congr (sending : s.Sending) (pc : t.pc = s.pc)
    (cur : t.card.txCur = s.card.txCur)
    (ring : t.card.txRing s.card.txCur = s.card.txRing s.card.txCur)
    (mem : ∀ n ≤ pageSize, t.card.mem.bytes (s.card.txRing s.card.txCur).addr n =
      s.card.mem.bytes (s.card.txRing s.card.txCur).addr n)
    (fits : s.pc.Fits) : t.Sending := by
  have slot : ∀ {packet}, s.card.TxSlot s.card.txCur packet →
      t.card.TxSlot t.card.txCur packet := by
    intro packet slot
    refine ⟨slot.1, ?_, ?_⟩
    · rw [cur, ring]
      exact slot.2.1
    · rw [cur, ring, mem _ slot.1]
      exact slot.2.2
  rw [Nic.Sending] at sending ⊢
  rw [pc]
  split at sending
  case h_1 data len i running =>
    obtain ⟨there, part, bytes⟩ := sending
    rw [running] at fits
    have short := fits.2
    refine ⟨there, part, ?_⟩
    rw [cur, ring, mem i (by omega), bytes]
  case h_2 => exact slot sending
  case h_3 => exact slot sending
  case h_4 => exact slot sending
  case h_5 => trivial

/-- What leaves the transmitter alone keeps its invariant. -/
theorem TxInv.congr (inv : TxInv s pending) (calls : t.calls = s.calls) (sent : t.sent = s.sent)
    (ring : t.card.txRing = s.card.txRing) (tdh : t.card.tdh = s.card.tdh)
    (tdt : t.card.tdt = s.card.tdt) (cur : t.card.txCur = s.card.txCur)
    (mem : ∀ i < numTxDesc, ∀ n ≤ pageSize,
      t.card.mem.bytes (s.card.txRing i).addr n = s.card.mem.bytes (s.card.txRing i).addr n)
    (pc : t.Sending) : TxInv t pending where
  accepted := by rw [Nic.accepted, calls, sent]; exact inv.accepted
  rejected := by rw [calls]; exact inv.rejected
  short := inv.short
  tdh := by rw [tdh]; exact inv.tdh
  cur := by rw [cur, tdh]; exact inv.cur
  tdt := by rw [tdt, cur]; exact inv.tdt
  slots := by
    rw [tdh]
    refine inv.slots.congr fun i _ packet slot => ⟨slot.1, by rw [ring]; exact slot.2.1, ?_⟩
    rw [ring, mem _ (Nat.mod_lt _ (by decide)) _ slot.1]
    exact slot.2.2
  pc := pc

/-- A receive buffer is written: the transmit buffers stay. -/
theorem E1000.receive_tx {e : E1000} (apart : e.Buffers) (inRing : e.rdh < numRxDesc)
    {packet : List UInt8} (status : UInt8) (fits : packet.length ≤ pageSize) :
    ∀ i < numTxDesc, ∀ n ≤ pageSize,
      (e.receive packet status).mem.bytes (e.txRing i).addr n =
        e.mem.bytes (e.txRing i).addr n := by
  intro i inside n read
  rw [E1000.receive]
  split
  · rfl
  · refine bytes_apart (d := 0) (apart.rxTx _ inRing i inside).symm read ?_
    omega

/-- The registers and the transmit ring are not the receiver's. -/
theorem E1000.receive_txRing (e : E1000) (packet : List UInt8) (status : UInt8) :
    (e.receive packet status).txRing = e.txRing ∧ (e.receive packet status).tdh = e.tdh ∧
      (e.receive packet status).tdt = e.tdt ∧ (e.receive packet status).txCur = e.txCur := by
  rw [E1000.receive]
  split <;> exact ⟨rfl, rfl, rfl, rfl⟩

/-- The tail is the head only when no packet waits. -/
theorem TxInv.tdh_eq_tdt (inv : TxInv s pending) : s.card.tdh = s.card.tdt ↔ pending = [] := by
  rw [inv.tdt, inv.cur, eq_comm, ring_eq_start inv.tdh inv.short, List.length_eq_zero_iff]

/-- The descriptor at `tx_cur` holds none of the packets that wait. -/
theorem TxInv.ne_cur (inv : TxInv s pending) {i : Nat} (less : i < pending.length) :
    (s.card.tdh + i) % numTxDesc ≠ s.card.txCur := by
  have short := inv.short
  rw [inv.cur]
  exact ring_ne less (by omega)

/-- A field of the descriptor at `tx_cur` is written. -/
theorem TxInv.setCur (inv : TxInv s pending) {d : TxDesc} {pc : E1000Pc}
    (sending : { s with card := s.card.setTx s.card.txCur d, pc := pc }.Sending) :
    TxInv { s with card := s.card.setTx s.card.txCur d, pc := pc } pending where
  accepted := inv.accepted
  rejected := inv.rejected
  short := inv.short
  tdh := inv.tdh
  cur := inv.cur
  tdt := inv.tdt
  slots := by
    refine inv.slots.congr fun i less packet slot => ?_
    have same := s.card.setTx_of_ne d (inv.ne_cur less)
    exact ⟨slot.1, (congrArg TxDesc.length same).trans slot.2.1,
      (congrArg (fun d => s.card.mem.bytes (TxDesc.addr d) packet.length) same).trans slot.2.2⟩
  pc := sending

/-- A descriptor whose length and address stay holds the same packet. -/
theorem E1000.TxSlot.setTx {e : E1000} {i : Nat} {packet : List UInt8} (slot : e.TxSlot i packet)
    {d : TxDesc} (addr : d.addr = (e.txRing i).addr) (length : d.length = (e.txRing i).length) :
    (e.setTx i d).TxSlot i packet := by
  refine ⟨slot.1, ?_, ?_⟩
  · rw [E1000.setTx_self, length]
    exact slot.2.1
  · rw [E1000.setTx_self, addr]
    exact slot.2.2

/-- One byte more is copied. -/
theorem TxInv.copy (inv : TxInv s pending) (ok : NicOk s) {data : List UInt8} {len i : Nat}
    (pc : s.pc = .sendCopy data len i) (more : i < len) :
    TxInv
      { s with
        card := { s.card with
          mem := s.card.mem.writeBytes ((s.card.txRing s.card.txCur).addr + i) [data.getD i 0] }
        pc := .sendCopy data len (i + 1) } pending := by
  have fits := ok.fits
  rw [pc] at fits
  have bound := fits.2
  have sending := inv.pc
  rw [Nic.Sending, pc] at sending
  obtain ⟨there, part, bytes⟩ := sending
  refine ⟨inv.accepted, inv.rejected, inv.short, inv.tdh, inv.cur, inv.tdt, ?_, there, more, ?_⟩
  · refine inv.slots.congr fun k less packet slot => ⟨slot.1, slot.2.1, ?_⟩
    refine (bytes_apart (ok.buffers.tx _ (Nat.mod_lt _ (by decide)) _ ok.txCur
      (inv.ne_cur less)) slot.1 ?_).trans slot.2.2
    rw [List.length_singleton]
    omega
  · show (s.card.mem.writeBytes _ _).bytes _ (i + 1) = data.take (i + 1)
    have inside : i < data.length := by omega
    rw [ByteMemory.bytes_writeBytes_next, bytes, List.take_add_one,
      List.getD_eq_getElem?_getD, List.getElem?_eq_getElem inside, Option.getD_some,
      Option.toList_some]

/-- All bytes are copied: the descriptor gets the length. -/
theorem TxInv.length (inv : TxInv s pending) (ok : NicOk s) {data : List UInt8} {len i : Nat}
    (pc : s.pc = .sendCopy data len i) (done : ¬ i < len) :
    TxInv
      { s with
        card := s.card.setTx s.card.txCur
          { s.card.txRing s.card.txCur with length := len % 2 ^ 16 }
        pc := .sendCmd data len } pending := by
  have fits := ok.fits
  rw [pc] at fits
  have bound : len ≤ 4096 := fits.2
  have sending := inv.pc
  rw [Nic.Sending, pc] at sending
  obtain ⟨there, part, bytes⟩ := sending
  obtain rfl : i = len := by omega
  have length : (data.take i).length = i := by
    rw [List.length_take]
    omega
  refine inv.setCur ⟨by rw [length]; exact bound, ?_, ?_⟩
  · show ((s.card.setTx s.card.txCur _).txRing s.card.txCur).length = (data.take i).length
    rw [E1000.setTx_self, length]
    exact Nat.mod_eq_of_lt (by omega)
  · show s.card.mem.bytes ((s.card.setTx s.card.txCur _).txRing s.card.txCur).addr
      (data.take i).length = data.take i
    rw [E1000.setTx_self, length]
    exact bytes

/-- **The tail is written**: the packet waits behind the others, if there is room. -/
theorem TxInv.tail (inv : TxInv s pending) {data : List UInt8} {len : Nat}
    (sending : s.card.TxSlot s.card.txCur (data.take len)) (bound : len ≤ 4096) (some_ : 0 < len)
    (room : (s.card.txCur + 1) % numTxDesc ≠ s.card.tdh) :
    TxInv
      { s with
        card := { s.card with
          txCur := (s.card.txCur + 1) % numTxDesc, tdt := (s.card.txCur + 1) % numTxDesc }
        pc := .idle
        calls := s.calls ++ [(data, (len : Int), true)] } (pending ++ [data.take len]) := by
  have short := inv.short
  have notFull : pending.length + 1 ≠ numTxDesc := by
    intro full
    refine room ?_
    rw [inv.cur, Nat.mod_add_mod, Nat.add_assoc, full, Nat.add_mod_right]
    exact Nat.mod_eq_of_lt inv.tdh
  refine ⟨?_, ?_, ?_, inv.tdh, ?_, rfl, ?_, trivial⟩
  · have accepted := inv.accepted
    rw [Nic.accepted] at accepted
    show List.filterMap _ (s.calls ++ [_]) = s.sent ++ (pending ++ [data.take len])
    rw [List.filterMap_append, accepted, ← List.append_assoc]
    rfl
  · intro c mem bad
    rcases List.mem_append.mp mem with earlier | last
    · exact inv.rejected c earlier bad
    · obtain rfl := List.mem_singleton.mp last
      simp only at bad
      omega
  · rw [List.length_append, List.length_singleton]
    omega
  · show (s.card.txCur + 1) % numTxDesc =
      (s.card.tdh + (pending ++ [data.take len]).length) % numTxDesc
    rw [inv.cur, Nat.mod_add_mod, List.length_append, List.length_singleton, Nat.add_assoc]
  · refine RingHolds.concat inv.slots ?_
    rw [← inv.cur]
    exact sending

/-- **The first packet is sent**, as it was accepted. -/
theorem TxInv.transmit (inv : TxInv s pending) (ok : NicOk s) (some_ : s.card.tdh ≠ s.card.tdt) :
    ∃ packet rest, pending = packet :: rest ∧ TxInv
      { s with card := s.card.transmitted, sent := s.sent ++ [s.card.outgoing] } rest := by
  obtain ⟨packet, rest, rfl⟩ :=
    List.exists_cons_of_ne_nil fun none => some_ (inv.tdh_eq_tdt.mpr none)
  refine ⟨packet, rest, rfl, ?_⟩
  have short := inv.short
  rw [List.length_cons] at short
  obtain ⟨fits, length, bytes⟩ := inv.slots.head
  rw [Nat.mod_eq_of_lt inv.tdh] at length bytes
  have outgoing : s.card.outgoing = packet := by
    rw [E1000.outgoing, length, bytes]
  refine ⟨?_, inv.rejected, by omega, Nat.mod_lt _ (by decide), ?_, inv.tdt, ?_, ?_⟩
  · show s.accepted = s.sent ++ [s.card.outgoing] ++ rest
    rw [inv.accepted, outgoing, List.append_assoc, List.singleton_append]
  · show s.card.txCur = ((s.card.tdh + 1) % numTxDesc + rest.length) % numTxDesc
    rw [inv.cur, List.length_cons, ring_succ]
  · refine inv.slots.tail.congr fun i less other slot => ?_
    have ne : ((s.card.tdh + 1) % numTxDesc + i) % numTxDesc ≠ s.card.tdh := by
      rw [ring_succ]
      refine fun same => ?_
      have zero := (ring_eq_start inv.tdh (by omega)).mp same
      omega
    have same : s.card.transmitted.txRing (((s.card.tdh + 1) % numTxDesc + i) % numTxDesc) =
        s.card.txRing (((s.card.tdh + 1) % numTxDesc + i) % numTxDesc) :=
      s.card.setTx_of_ne _ ne
    exact ⟨slot.1, (congrArg TxDesc.length same).trans slot.2.1,
      (congrArg (fun d => s.card.mem.bytes (TxDesc.addr d) other.length) same).trans slot.2.2⟩
  · refine inv.pc.congr rfl rfl ?_ (fun _ _ => rfl) ok.fits
    refine s.card.setTx_of_ne _ fun same => ?_
    rw [inv.cur, List.length_cons] at same
    have zero := (ring_eq_start inv.tdh (by omega)).mp same
    omega

/-- **A step with room keeps the transmitter's invariant.** -/
theorem TxInv.step {e : NicEvent} (inv : TxInv s pending) (ok : NicOk s) (rx : ∃ w, RxInv s w)
    (room : s.Room e) (step : NicStep s e t) : ∃ pending, TxInv t pending := by
  have buffers := ok.buffers
  cases e with
  | recv max =>
      cases pc : s.pc <;> simp only [NicStep, Nic.next, pc, reduceCtorEq] at step
      cases step
      exact ⟨pending, inv.congr rfl rfl rfl rfl rfl rfl (fun _ _ _ _ => rfl) trivial⟩
  | send data len =>
      cases pc : s.pc <;> simp only [NicStep, Nic.next, pc, reduceCtorEq] at step
      split at step
      · rename_i bad
        cases step
        refine ⟨pending, ?_, ?_, inv.short, inv.tdh, inv.cur, inv.tdt, inv.slots, trivial⟩
        · have accepted := inv.accepted
          rw [Nic.accepted] at accepted
          show List.filterMap _ (s.calls ++ [_]) = s.sent ++ pending
          rw [List.filterMap_append, accepted]
          exact List.append_nil _
        · intro c mem bad
          rcases List.mem_append.mp mem with earlier | last
          · exact inv.rejected c earlier bad
          · obtain rfl := List.mem_singleton.mp last
            rfl
      · split at step
        · cases step
          refine ⟨pending, inv.congr rfl rfl rfl rfl rfl rfl (fun _ _ _ _ => rfl) ?_⟩
          exact ⟨by omega, Nat.zero_le _, rfl⟩
        · cases step
  | arrive packet status =>
      simp only [NicStep, Nic.next] at step
      split at step
      case isFalse => cases step
      case isTrue fits =>
        cases step
        obtain ⟨waiting, rxInv⟩ := rx
        have inRing : s.card.rdh < numRxDesc := by
          rw [rxInv.rdh]
          exact Nat.mod_lt _ (by decide)
        obtain ⟨ring, tdh, tdt, cur⟩ := s.card.receive_txRing packet status
        have mem := E1000.receive_tx buffers inRing status fits
        refine ⟨pending, inv.congr rfl rfl ring tdh tdt cur mem ?_⟩
        refine inv.pc.congr rfl cur (congrFun ring _) (mem _ ok.txCur) ok.fits
  | transmit =>
      simp only [NicStep, Nic.next] at step
      split at step
      case isTrue =>
        cases step
        exact ⟨pending, inv⟩
      case isFalse some_ =>
        cases step
        obtain ⟨_, rest, -, inv'⟩ := inv.transmit ok some_
        exact ⟨rest, inv'⟩
  | driver =>
      have fits := ok.fits
      have sending := inv.pc
      cases pc : s.pc <;>
        simp only [NicStep, Nic.next, Nic.drive, Nic.Sending, pc, reduceCtorEq] at step fits sending
      case recvHead max =>
        cases step
        refine ⟨pending, inv.congr rfl rfl rfl rfl rfl rfl (fun _ _ _ _ => rfl) ?_⟩
        by_cases same : s.card.rdh = s.card.rxCur <;> simp [Nic.Sending, same]
      case recvStatus max =>
        cases step
        refine ⟨pending, inv.congr rfl rfl rfl rfl rfl rfl (fun _ _ _ _ => rfl) ?_⟩
        by_cases clear : (s.card.rxRing s.card.rxCur).status &&& 1 = 0 <;>
          simp [Nic.Sending, clear]
      case recvLength max =>
        cases step
        exact ⟨pending, inv.congr rfl rfl rfl rfl rfl rfl (fun _ _ _ _ => rfl) trivial⟩
      case recvCopy max len out =>
        split at step <;> cases step
        · exact ⟨pending, inv.congr rfl rfl rfl rfl rfl rfl (fun _ _ _ _ => rfl) trivial⟩
        · exact ⟨pending, inv.congr rfl rfl rfl rfl rfl rfl (fun _ _ _ _ => rfl) trivial⟩
      case recvTail max out =>
        cases step
        exact ⟨pending, inv.congr rfl rfl rfl rfl rfl rfl (fun _ _ _ _ => rfl) trivial⟩
      case sendCopy data len i =>
        split at step
        case isTrue more =>
          cases step
          exact ⟨pending, inv.copy ok pc more⟩
        case isFalse done =>
          cases step
          exact ⟨pending, inv.length ok pc done⟩
      case sendCmd data len =>
        cases step
        exact ⟨pending, inv.setCur (sending.setTx rfl rfl)⟩
      case sendStatus data len =>
        cases step
        exact ⟨pending, inv.setCur (sending.setTx rfl rfl)⟩
      case sendTail data len =>
        cases step
        exact ⟨_, inv.tail sending fits.2 fits.1 (room (by rw [pc]; rfl))⟩

/-! ## What the card sends -/

/-- Everything accepted and nothing else is sent, in order: what was sent so far comes first, and
the card can go on until it has nothing left to send, when it has sent all of it. -/
def Nic.Delivers (s : Nic) : Prop :=
  s.sent <+: s.accepted ∧
    ∃ n t, Run NicStep s (List.replicate n .transmit) t ∧ t.card.tdh = t.card.tdt ∧
      t.sent = s.accepted

/-- The card alone sends all that wait. -/
theorem TxInv.drains (inv : TxInv s pending) (ok : NicOk s) :
    ∃ t, Run NicStep s (List.replicate pending.length .transmit) t ∧ t.card.tdh = t.card.tdt ∧
      t.sent = s.accepted := by
  induction pending generalizing s with
  | nil =>
      refine ⟨s, .nil s, inv.tdh_eq_tdt.mpr rfl, ?_⟩
      rw [inv.accepted, List.append_nil]
  | cons packet rest ih =>
      have some_ : s.card.tdh ≠ s.card.tdt := fun same => by
        cases inv.tdh_eq_tdt.mp same
      obtain ⟨_, _, same, inv'⟩ := inv.transmit ok some_
      cases same
      have one : NicStep s .transmit
          { s with card := s.card.transmitted, sent := s.sent ++ [s.card.outgoing] } :=
        if_neg some_
      obtain ⟨t, run, done, sent⟩ := ih inv' (ok.step one)
      exact ⟨t, .cons one run, done, sent⟩

theorem TxInv.delivers (inv : TxInv s pending) (ok : NicOk s) : s.Delivers := by
  refine ⟨?_, pending.length, inv.drains ok⟩
  rw [inv.accepted]
  exact List.prefix_append _ _

/-- No packet waits after `e1000_init`. -/
theorem e1000Init_txInv {p q : Pmm} {mem : ByteMemory} {e : E1000}
    (init : e1000Init p mem = some (e, q)) : TxInv (Nic.init e) [] := by
  obtain ⟨-, -, -, tdh, tdt, txCur⟩ := e1000Init_rings init
  refine ⟨rfl, ?_, by decide, ?_, ?_, ?_, RingHolds.nil, trivial⟩
  · intro c mem
    cases mem
  · show e.tdh < numTxDesc
    rw [tdh]
    decide
  · show e.txCur = (e.tdh + 0) % numTxDesc
    rw [tdh, txCur]
    rfl
  · show e.tdt = e.txCur
    rw [tdt, txCur]

/-- **The transmit ring with room.**  In a run where every tail write leaves room, whatever the
card and the driver do in between: the packets accepted are sent, in order and with their bytes,
and a call whose length is out of range is refused.  The queue of descriptors between `TDH` and
`TDT` is a window of packets as on the receiving side (`TxInv`).  `Room` is about the tail before
the write; without it the driver overwrites a descriptor that the card has not sent, since it
never looks at the head. -/
theorem txRing_run {p q : Pmm} {mem : ByteMemory} {e : E1000} {events : List NicEvent} {s : Nic}
    (ok : p.Ok) (init : e1000Init p mem = some (e, q))
    (run : Run (Guarded Nic.Room NicStep) (Nic.init e) events s) :
    s.Delivers ∧ ∀ c ∈ s.calls, c.2.1 ≤ 0 ∨ 4096 < c.2.1 → c.2.2 = false := by
  obtain ⟨ok', -, pending, inv⟩ := run.invariant
    (fun s => NicOk s ∧ (∃ w, RxInv s w) ∧ ∃ w, TxInv s w)
    (fun inv step => ⟨inv.1.step step.2, inv.2.1.elim fun _ rx => rx.step inv.1 step.2,
      inv.2.2.elim fun _ tx => tx.step inv.1 inv.2.1 step.1 step.2⟩)
    ⟨e1000Init_ok ok init, ⟨[], e1000Init_rxInv init⟩, [], e1000Init_txInv init⟩
  exact ⟨inv.delivers ok', inv.rejected⟩

/-- A send of one byte, without a step of the card. -/
def sendOne : List NicEvent := .send [7] 1 :: List.replicate 5 .driver

/-- One packet is accepted, and can be sent. -/
theorem txRing_run_one : ∃ s, Run (Guarded Nic.Room NicStep) (Nic.init freshCard.1) sendOne s ∧
    s.accepted = [[7]] ∧ s.Delivers := by
  have ran : (sendOne.foldlM (fun (s : Nic) e => if s.Room e then s.next e else none)
      (Nic.init freshCard.1)).any (fun s => s.accepted == [[7]]) := by decide +kernel
  obtain ⟨s, fold, accepted⟩ := (Option.any_eq_true _ _).mp ran
  have run := Run.guardedOfFold fold
  exact ⟨s, run, by simpa using accepted,
    (txRing_run ⟨by decide, by decide⟩ freshCard_init run).1⟩

/-- A card with nothing to send does nothing. -/
theorem transmit_idle {n : Nat} (idle : s.card.tdh = s.card.tdt)
    (run : Run NicStep s (List.replicate n .transmit) t) : t = s := by
  induction n generalizing s with
  | zero =>
      cases run
      rfl
  | succ n ih =>
      cases run with
      | cons one rest =>
          rw [NicStep, Nic.next, if_pos idle] at one
          obtain rfl := Option.some.inj one
          exact ih idle rest

/-- Sixteen packets are accepted before the card takes the first: the ring looks empty, and none
of them is ever sent. -/
theorem txRing_full : ¬ ∀ {p q : Pmm} {mem : ByteMemory} {e : E1000} {events : List NicEvent}
    {s : Nic}, p.Ok → e1000Init p mem = some (e, q) → Run NicStep (Nic.init e) events s →
      s.Delivers := by
  intro all
  have ran : ((List.replicate 16 sendOne).flatten.foldlM Nic.next (Nic.init freshCard.1)).any
      (fun s => s.card.tdh == s.card.tdt && s.sent.isEmpty && s.accepted.length == 16) := by
    decide +kernel
  obtain ⟨s, fold, stuck⟩ := (Option.any_eq_true _ _).mp ran
  simp only [Bool.and_eq_true, beq_iff_eq, List.isEmpty_iff] at stuck
  obtain ⟨⟨idle, none⟩, length⟩ := stuck
  obtain ⟨-, n, t, run, -, sent⟩ :=
    all ⟨by decide, by decide⟩ freshCard_init (Run.ofFold fold)
  rw [transmit_idle idle run, none] at sent
  rw [← sent] at length
  cases length

end Flyos
