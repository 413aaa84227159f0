import Flyos.Lib.Ring
import Flyos.Lib.Runs
import Flyos.Mm.Pmm

/-!
# The network card

The descriptor rings of `kernel/drivers/e1000.c`, with the card as the other party.  The
card may act at any time, also while `e1000_send` or `e1000_recv` is running, so these are
taken apart: `E1000Pc` says where the running call stands, and every step of the driver
has one access to what it shares with the card (a register, a descriptor, a byte of a
buffer).

The card receives into the descriptor at `RDH` unless that is `RDT`, and sends the one at
`TDH` unless that is `TDT`.  The pages that hold the rings are modelled as tables; `mem` is
the memory with the packet buffers.
-/

namespace Flyos

/-- `NUM_RX_DESC`. -/
abbrev numRxDesc : Nat := 16

/-- `NUM_TX_DESC`. -/
abbrev numTxDesc : Nat := 16

/-- The fields of `rx_desc_t` that are used. -/
structure RxDesc where
  addr : Nat
  length : Nat
  status : UInt8

/-- The fields of `tx_desc_t` that are used. -/
structure TxDesc where
  addr : Nat
  length : Nat
  cmd : UInt8
  status : UInt8

/-- The rings, the buffers, the registers and `rx_cur` and `tx_cur`. -/
structure E1000 where
  mem : ByteMemory
  rxRing : Nat → RxDesc
  txRing : Nat → TxDesc
  rdh : Nat
  rdt : Nat
  tdh : Nat
  tdt : Nat
  rxCur : Nat
  txCur : Nat

/-- `n` pages for buffers, or nothing when one could not be allocated. -/
def allocPages : Nat → Pmm → Option (List Nat × Pmm)
  | 0, p => some ([], p)
  | n + 1, p =>
      let r := pmmAllocPage p
      if r.1 = 0 then none else (allocPages n r.2).map fun (pages, p) => (r.1 :: pages, p)

/-- `e1000_init`: nothing when it returned -1. -/
def e1000Init (p : Pmm) (mem : ByteMemory) : Option (E1000 × Pmm) :=
  (allocPages 2 p).bind fun (_, p) =>
    (allocPages numRxDesc p).bind fun (rxBuf, p) =>
      (allocPages numTxDesc p).map fun (txBuf, p) =>
        ({ mem
           rxRing := fun i => { addr := rxBuf.getD i 0, length := 0, status := 0 }
           txRing := fun i => { addr := txBuf.getD i 0, length := 0, cmd := 0, status := 0 }
           rdh := 0
           rdt := numRxDesc - 1
           tdh := 0
           tdt := 0
           rxCur := 0
           txCur := 0 }, p)

/-! ## Descriptors -/

namespace E1000

variable (e : E1000)

/-- The receive descriptor `i` replaced. -/
def setRx (i : Nat) (d : RxDesc) : E1000 := { e with rxRing := Function.update e.rxRing i d }

/-- The transmit descriptor `i` replaced. -/
def setTx (i : Nat) (d : TxDesc) : E1000 := { e with txRing := Function.update e.txRing i d }

theorem setRx_self (i : Nat) (d : RxDesc) : (e.setRx i d).rxRing i = d := Function.update_self ..

theorem setRx_of_ne {i j : Nat} (d : RxDesc) (other : j ≠ i) :
    (e.setRx i d).rxRing j = e.rxRing j := Function.update_of_ne other ..

theorem setTx_self (i : Nat) (d : TxDesc) : (e.setTx i d).txRing i = d := Function.update_self ..

theorem setTx_of_ne {i j : Nat} (d : TxDesc) (other : j ≠ i) :
    (e.setTx i d).txRing j = e.txRing j := Function.update_of_ne other ..

/-- The card receives a packet: into the descriptor at `RDH`, with DD set, if there is one. -/
def receive (packet : List UInt8) (status : UInt8) : E1000 :=
  if e.rdh = e.rdt then e
  else
    let d := e.rxRing e.rdh
    { e.setRx e.rdh { d with length := packet.length, status := status ||| 1 } with
      mem := e.mem.writeBytes d.addr packet
      rdh := (e.rdh + 1) % numRxDesc }

/-- The packet in the descriptor at `TDH`. -/
def outgoing : List UInt8 := e.mem.bytes (e.txRing e.tdh).addr (e.txRing e.tdh).length

/-- The card has sent the packet at `TDH`. -/
def transmitted : E1000 :=
  { e.setTx e.tdh { e.txRing e.tdh with status := (e.txRing e.tdh).status ||| 1 } with
    tdh := (e.tdh + 1) % numTxDesc }

end E1000

/-! ## The driver and the card -/

/-- Where the driver stands: outside, or before an access of `e1000_recv` (with `max`, and the
bytes copied so far) or of `e1000_send` (with its arguments, and the bytes copied so far). -/
inductive E1000Pc
  | idle
  | recvHead (max : Nat)
  | recvStatus (max : Nat)
  | recvLength (max : Nat)
  | recvCopy (max len : Nat) (out : List UInt8)
  | recvTail (max : Nat) (out : List UInt8)
  | sendCopy (data : List UInt8) (len i : Nat)
  | sendCmd (data : List UInt8) (len : Nat)
  | sendStatus (data : List UInt8) (len : Nat)
  | sendTail (data : List UInt8) (len : Nat)

/-- The driver with the card, and what happened so far: the packets the card stored and sent, the
calls of `e1000_recv` that returned a packet (`max` and the packet), and the calls of `e1000_send`
(the data, the length, and whether it returned 0). -/
structure Nic where
  card : E1000
  pc : E1000Pc
  stored : List (List UInt8)
  returned : List (Nat × List UInt8)
  sent : List (List UInt8)
  calls : List (List UInt8 × Int × Bool)

/-- What can happen: a call, a step of the running call, a packet that arrives, a packet that is
sent. -/
inductive NicEvent
  /-- `e1000_recv`; `max` is an `int` there, but a natural number here, since every caller passes
  the size of its buffer, `sizeof(rbuf)` or `sizeof(pkt)`. -/
  | recv (max : Nat)
  | send (data : List UInt8) (len : Int)
  | driver
  | arrive (packet : List UInt8) (status : UInt8)
  | transmit

/-- The next step of the running call. -/
def Nic.drive (s : Nic) : Option Nic :=
  let e := s.card
  match s.pc with
  | .idle => none
  | .recvHead max => some { s with pc := if e.rdh = e.rxCur then .idle else .recvStatus max }
  | .recvStatus max =>
      some { s with pc := if (e.rxRing e.rxCur).status &&& 1 = 0 then .idle else .recvLength max }
  | .recvLength max =>
      let len := (e.rxRing e.rxCur).length
      some { s with pc := .recvCopy max (if max < len then max else len) [] }
  | .recvCopy max len out =>
      if out.length < len then
        let byte := e.mem ((e.rxRing e.rxCur).addr + out.length)
        some { s with pc := .recvCopy max len (out ++ [byte]) }
      else
        some { s with
          card := e.setRx e.rxCur { e.rxRing e.rxCur with status := 0 }
          pc := .recvTail max out }
  | .recvTail max out =>
      some { s with
        card := { e with rdt := e.rxCur, rxCur := (e.rxCur + 1) % numRxDesc }
        pc := .idle
        returned := s.returned ++ [(max, out)] }
  | .sendCopy data len i =>
      if i < len then
        some { s with
          card := { e with mem := e.mem.writeBytes ((e.txRing e.txCur).addr + i) [data.getD i 0] }
          pc := .sendCopy data len (i + 1) }
      else
        some { s with
          card := e.setTx e.txCur { e.txRing e.txCur with length := len % 2 ^ 16 }
          pc := .sendCmd data len }
  | .sendCmd data len =>
      some { s with
        card := e.setTx e.txCur { e.txRing e.txCur with cmd := 0x0B }
        pc := .sendStatus data len }
  | .sendStatus data len =>
      some { s with
        card := e.setTx e.txCur { e.txRing e.txCur with status := 0 }
        pc := .sendTail data len }
  | .sendTail data len =>
      let txCur := (e.txCur + 1) % numTxDesc
      some { s with
        card := { e with txCur := txCur, tdt := txCur }
        pc := .idle
        calls := s.calls ++ [(data, (len : Int), true)] }

/-- What an event does, if it can happen: a call needs the driver to be outside, the data of a
send is there, and a packet fits the page of its buffer. -/
def Nic.next (s : Nic) : NicEvent → Option Nic
  | .recv max =>
      match s.pc with
      | .idle => some { s with pc := .recvHead max }
      | _ => none
  | .send data len =>
      match s.pc with
      | .idle =>
          if len ≤ 0 ∨ 4096 < len then some { s with calls := s.calls ++ [(data, len, false)] }
          else if len ≤ data.length then some { s with pc := .sendCopy data len.toNat 0 }
          else none
      | _ => none
  | .driver => s.drive
  | .arrive packet status =>
      if packet.length ≤ pageSize then
        some { s with
          card := s.card.receive packet status
          stored := if s.card.rdh = s.card.rdt then s.stored else s.stored ++ [packet] }
      else none
  | .transmit =>
      if s.card.tdh = s.card.tdt then some s
      else some { s with card := s.card.transmitted, sent := s.sent ++ [s.card.outgoing] }

/-- An event that happens. -/
def NicStep (s : Nic) (e : NicEvent) (t : Nic) : Prop := s.next e = some t

/-- The driver and the card after `e1000_init`. -/
def Nic.init (e : E1000) : Nic :=
  { card := e, pc := .idle, stored := [], returned := [], sent := [], calls := [] }

end Flyos
