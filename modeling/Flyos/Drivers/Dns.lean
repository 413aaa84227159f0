import Mathlib.Algebra.Group.Nat.Defs
import Mathlib.Data.List.Basic

/-!
# DNS messages

`dns_encode_name`, `e1000_dns_query` and `e1000_dns_parse_reply` of
`kernel/drivers/e1000.c`.  A string is the list of its characters, without the final 0; a
buffer is the list of its bytes.

Three things stop the C code without a result: an access outside of a buffer, a position that an
`int` cannot hold, and a loop that has no end.  Each is a `DnsTrap`; the loops over labels
count their rounds.
-/

namespace Flyos

/-- Why a call gives no result. -/
inductive DnsTrap
  | outside
  | overflow
  | rounds
  deriving DecidableEq

/-! ## The query -/

/-- `out[pos++] = b` in a buffer with room for `room` bytes, with `out` written. -/
def putByte (room : Nat) (out : List UInt8) (b : UInt8) : Except DnsTrap (List UInt8) :=
  if out.length < room then .ok (out ++ [b]) else .error .outside

/-- The loop that stores the bytes of `src`. -/
def putBytes (room : Nat) : List UInt8 → List UInt8 → Except DnsTrap (List UInt8)
  | out, [] => .ok out
  | out, b :: src => (putByte room out b).bind fun out => putBytes room out src

/-- `(int)(p - start)`. -/
def labelLength (label : List UInt8) : Int := Int.bmod label.length (2 ^ 32)

/-- The loop of `dns_encode_name` at `p`, with `out` written: the bytes, or nothing for -1. -/
def encodeLoop (room : Nat) : Nat → List UInt8 → List UInt8 →
    Except DnsTrap (Option (List UInt8))
  | 0, _, _ => .error .rounds
  | fuel + 1, p, out =>
      if p = [] then (putByte room out 0).map some
      else
        let label := p.takeWhile (· ≠ 0x2E)
        let len := labelLength label
        if 63 < len then .ok none
        else
          (putByte room out (UInt8.ofInt len)).bind fun out =>
            (putBytes room out (label.take len.toNat)).bind fun out =>
              encodeLoop room fuel ((p.dropWhile (· ≠ 0x2E)).drop 1) out

/-- `dns_encode_name` into a buffer with room for `room` bytes. -/
def dnsEncodeName (room : Nat) (name : List UInt8) : Except DnsTrap (Option (List UInt8)) :=
  encodeLoop room (name.length + 1) name []

/-- The header of a query. -/
def queryHeader : List UInt8 := [0xAB, 0xCD, 0x01, 0x00, 0x00, 0x01, 0, 0, 0, 0, 0, 0]

/-- `QTYPE` and `QCLASS` of a query. -/
def queryType : List UInt8 := [0x00, 0x01, 0x00, 0x01]

/-- `sizeof dns`. -/
abbrev queryRoom : Nat := 256

/-- `e1000_dns_query`: the message it sends, or nothing when it rejects the name. -/
def e1000DnsQuery (hostname : List UInt8) : Except DnsTrap (Option (List UInt8)) :=
  (dnsEncodeName (queryRoom - 12) hostname).bind fun
    | none => .ok none
    | some name => (putBytes queryRoom (queryHeader ++ name) queryType).map some

/-! ## The reply -/

/-- `dns[pos]`. -/
def dnsByte (dns : List UInt8) (pos : Nat) : Except DnsTrap UInt8 :=
  match dns[pos]? with
  | some b => .ok b
  | none => .error .outside

/-- `(dns[pos] << 8) | dns[pos + 1]`. -/
def dnsWord (dns : List UInt8) (pos : Nat) : Except DnsTrap Nat :=
  (dnsByte dns pos).bind fun high => (dnsByte dns (pos + 1)).map fun low =>
    high.toNat * 2 ^ 8 + low.toNat

/-- `pos + n`, an `int`. -/
def advance (pos n : Nat) : Except DnsTrap Nat :=
  if pos + n < 2 ^ 31 then .ok (pos + n) else .error .overflow

/-- `(b & 0xC0) == 0xC0`. -/
abbrev IsPointer (b : UInt8) : Prop := b &&& 0xC0 = 0xC0

/-- The loop over the labels of a name; in the question section it also ends behind a pointer. -/
def skipLabels (dns : List UInt8) (question : Bool) : Nat → Nat → Except DnsTrap Nat
  | 0, _ => .error .rounds
  | fuel + 1, pos =>
      if pos < dns.length then
        (dnsByte dns pos).bind fun b =>
          if b = 0 then .ok pos
          else if question ∧ IsPointer b then advance pos 2
          else (advance pos (1 + b.toNat)).bind (skipLabels dns question fuel)
      else .ok pos

/-- `if (pos < len && dns[pos] == 0) pos++;` -/
def skipZero (dns : List UInt8) (pos : Nat) : Except DnsTrap Nat :=
  if pos < dns.length then
    (dnsByte dns pos).bind fun b => if b = 0 then advance pos 1 else .ok pos
  else .ok pos

/-- The loop over the questions, with `n` to come. -/
def skipQuestions (dns : List UInt8) (fuel : Nat) : Nat → Nat → Except DnsTrap Nat
  | 0, pos => .ok pos
  | n + 1, pos =>
      (skipLabels dns true fuel pos).bind fun pos =>
        (skipZero dns pos).bind fun pos =>
          (advance pos 4).bind (skipQuestions dns fuel n)

/-- The name of an answer. -/
def skipName (dns : List UInt8) (fuel pos : Nat) : Except DnsTrap Nat :=
  (dnsByte dns pos).bind fun b =>
    if IsPointer b then advance pos 2
    else
      (skipLabels dns false fuel pos).bind fun pos =>
        if pos < dns.length then advance pos 1 else .ok pos

/-- The four bytes of `out_ip`. -/
def readAddress (dns : List UInt8) (pos : Nat) : Except DnsTrap (List UInt8) :=
  (dnsByte dns pos).bind fun a =>
    (dnsByte dns (pos + 1)).bind fun b =>
      (dnsByte dns (pos + 2)).bind fun c =>
        (dnsByte dns (pos + 3)).map fun d => [a, b, c, d]

/-- The loop over the answers, with `n` to come: the address, or nothing for -1. -/
def readAnswers (dns : List UInt8) (fuel : Nat) : Nat → Nat →
    Except DnsTrap (Option (List UInt8))
  | 0, _ => .ok none
  | n + 1, pos =>
      if pos < dns.length then
        (skipName dns fuel pos).bind fun pos =>
          (advance pos 10).bind fun next =>
            if dns.length < next then .ok none
            else
              (dnsWord dns pos).bind fun type =>
                (dnsWord dns (pos + 8)).bind fun rdlen =>
                  if type = 1 ∧ rdlen = 4 then (readAddress dns next).map some
                  else (advance next rdlen).bind (readAnswers dns fuel n)
      else .ok none

/-- `e1000_dns_parse_reply` of the whole buffer: the address, or nothing for -1. -/
def e1000DnsParseReply (fuel : Nat) (dns : List UInt8) : Except DnsTrap (Option (List UInt8)) :=
  if dns.length < 12 then .ok none
  else
    (dnsWord dns 0).bind fun id =>
      if id ≠ 0xABCD then .ok none
      else
        (dnsWord dns 2).bind fun flags =>
          (dnsWord dns 4).bind fun qdcount =>
            (dnsWord dns 6).bind fun ancount =>
              if flags &&& 0x8000 = 0 then .ok none
              else if flags &&& 0x000F ≠ 0 then .ok none
              else (skipQuestions dns fuel qdcount 12).bind (readAnswers dns fuel ancount)

end Flyos
