import Flyos.Lib.OnesComplement
import Mathlib.Algebra.Group.Nat.Defs

/-!
# Internet checksums

`ip_checksum`, `icmp_checksum` and `tcp_checksum` of `kernel/drivers/e1000.c`, and the
packet of `e1000_tcp_syn`.  The three add 16-bit words in a `uint32_t`; they differ in how
two bytes make a word, in the word of a last odd byte and in what the sum starts with, so
their loop is `addWords` with these as parameters.

For the lengths a packet can have the sum does not wrap (`addWords_eq`), and what remains is
arithmetic with end-around carry: words are compared modulo `2 ^ 16 - 1`.
-/

namespace Flyos

/-- `((uint16_t)p[0] << 8) | p[1]`. -/
def bigEndian (high low : UInt8) : Nat := high.toNat * 2 ^ 8 + low.toNat

/-- `*p`, a `uint16_t` on a little-endian machine. -/
def littleEndian (low high : UInt8) : Nat := low.toNat + high.toNat * 2 ^ 8

/-- The bytes added in pairs, and a last odd byte, to `sum`. -/
def addWords (word : UInt8 → UInt8 → Nat) (odd : UInt8 → Nat) : Nat → List UInt8 → Nat
  | sum, a :: b :: data => addWords word odd ((sum + word a b) % 2 ^ 32) data
  | sum, [a] => (sum + odd a) % 2 ^ 32
  | sum, [] => sum

/-- The loop over `sum >> 16`, and `(uint16_t)~sum`. -/
def finishSum (sum : Nat) : Nat := (2 ^ 32 - 1 - foldCarry (2 ^ 16) sum) % 2 ^ 16

/-- `icmp_checksum`. -/
def icmpChecksum (data : List UInt8) : Nat :=
  finishSum (addWords littleEndian (fun a => a.toNat) 0 data)

/-- `ip_checksum`. -/
def ipChecksum (data : List UInt8) : Nat :=
  finishSum (addWords bigEndian (fun a => a.toNat * 2 ^ 8) 0 data)

/-- The sum of the pseudo header. -/
def pseudoSum (src dst : UInt32) (tcpLen : Nat) : Nat :=
  src.toNat / 2 ^ 16 % 2 ^ 16 + src.toNat % 2 ^ 16 + dst.toNat / 2 ^ 16 % 2 ^ 16 +
    dst.toNat % 2 ^ 16 + 6 + tcpLen % 2 ^ 16

/-- `tcp_checksum`. -/
def tcpChecksum (src dst : UInt32) (tcp : List UInt8) : Nat :=
  finishSum (addWords bigEndian (fun a => a.toNat * 2 ^ 8) (pseudoSum src dst tcp.length) tcp)

/-- A 16-bit value stored at `k`, highest byte first. -/
def putBe16 (data : List UInt8) (k v : Nat) : List UInt8 :=
  (data.set k (UInt8.ofNat (v / 2 ^ 8))).set (k + 1) (UInt8.ofNat v)

/-- A 32-bit value as four bytes, highest first. -/
def beBytes32 (v : UInt32) : List UInt8 :=
  [UInt8.ofNat (v.toNat / 2 ^ 24), UInt8.ofNat (v.toNat / 2 ^ 16), UInt8.ofNat (v.toNat / 2 ^ 8),
    UInt8.ofNat v.toNat]

/-- A 16-bit value as two bytes, highest first. -/
def beBytes16 (v : Nat) : List UInt8 := [UInt8.ofNat (v / 2 ^ 8), UInt8.ofNat v]

/-- The pseudo header: the addresses, 0, the protocol and the length. -/
def pseudoHeader (src dst : UInt32) (tcpLen : Nat) : List UInt8 :=
  beBytes32 src ++ beBytes32 dst ++ [0, 6] ++ beBytes16 tcpLen

/-! ## The SYN packet -/

/-- The IP header of `e1000_tcp_syn`, before its checksum. -/
def synIpHeader (dst : UInt32) : List UInt8 :=
  [0x45, 0x00] ++ beBytes16 40 ++ [0x00, 0x03, 0x00, 0x00, 64, 0x06, 0, 0, 10, 0, 2, 15] ++
    beBytes32 dst

/-- The TCP header of `e1000_tcp_syn`, before its checksum. -/
def synTcpHeader (dstPort : Nat) : List UInt8 :=
  beBytes16 40000 ++ beBytes16 dstPort ++ beBytes32 0x12345678 ++
    [0, 0, 0, 0, 0x50, 0x02, 0x10, 0x00, 0, 0, 0, 0]

/-- `src_ip`. -/
def synSource : UInt32 := 0x0A00020F

/-- The packet that `e1000_tcp_syn` sends. -/
def e1000TcpSyn (gatewayMac mac : List UInt8) (dst : UInt32) (dstPort : Nat) : List UInt8 :=
  gatewayMac ++ mac ++ [0x08, 0x00] ++
    putBe16 (synIpHeader dst) 10 (ipChecksum (synIpHeader dst)) ++
    putBe16 (synTcpHeader dstPort) 16 (tcpChecksum synSource dst (synTcpHeader dstPort))

/-! ## The sum does not wrap -/

section Sums

variable {word : UInt8 → UInt8 → Nat} {odd : UInt8 → Nat} {data rest : List UInt8} {sum k : Nat}

/-- The sum of the words, without a bound. -/
def wordTotal (word : UInt8 → UInt8 → Nat) (odd : UInt8 → Nat) : List UInt8 → Nat
  | a :: b :: data => word a b + wordTotal word odd data
  | [a] => odd a
  | [] => 0

/-- Words of 16 bits. -/
structure Words16 (word : UInt8 → UInt8 → Nat) (odd : UInt8 → Nat) : Prop where
  pair : ∀ a b, word a b < 2 ^ 16
  last : ∀ a, odd a < 2 ^ 16

theorem words16_bigEndian : Words16 bigEndian fun a => a.toNat * 2 ^ 8 := by
  constructor
  · intro a b
    have high := a.toNat_lt
    have low := b.toNat_lt
    unfold bigEndian
    omega
  · intro a
    have high := a.toNat_lt
    omega

theorem words16_littleEndian : Words16 littleEndian fun a => a.toNat := by
  constructor
  · intro a b
    have low := a.toNat_lt
    have high := b.toNat_lt
    unfold littleEndian
    omega
  · intro a
    have low := a.toNat_lt
    omega

/-- **No carry out of 32 bits**, for lengths a packet can have. -/
theorem addWords_eq (words : Words16 word odd)
    (fits : sum + 2 ^ 16 * ((data.length + 1) / 2) < 2 ^ 32) :
    addWords word odd sum data = sum + wordTotal word odd data := by
  fun_induction wordTotal word odd data generalizing sum with
  | case1 a b data ih =>
      have small := words.pair a b
      rw [List.length_cons, List.length_cons] at fits
      rw [addWords, Nat.mod_eq_of_lt (by omega), ih (by omega), Nat.add_assoc]
  | case2 a =>
      have small := words.last a
      rw [List.length_singleton] at fits
      rw [addWords, Nat.mod_eq_of_lt (by omega)]
  | case3 => rw [addWords, Nat.add_zero]

/-- The words behind an even number of bytes. -/
theorem wordTotal_append (even : data.length % 2 = 0) :
    wordTotal word odd (data ++ rest) = wordTotal word odd data + wordTotal word odd rest := by
  fun_induction wordTotal word odd data with
  | case1 a b data ih =>
      rw [List.length_cons, List.length_cons] at even
      rw [List.cons_append, List.cons_append, wordTotal, ih (by omega), Nat.add_assoc]
  | case2 a => exact absurd even (by simp)
  | case3 => rw [List.nil_append, Nat.zero_add]

/-- A word stored in place of 0. -/
theorem wordTotal_set_set (zero : word 0 0 = 0) (high low : UInt8) (first : data[2 * k]? = some 0)
    (second : data[2 * k + 1]? = some 0) :
    wordTotal word odd ((data.set (2 * k) high).set (2 * k + 1) low) =
      wordTotal word odd data + word high low := by
  induction k generalizing data with
  | zero =>
      match data, first, second with
      | a :: b :: data, first, second =>
          obtain rfl := Option.some.inj first
          obtain rfl := Option.some.inj second
          show word high low + _ = word 0 0 + _ + _
          rw [zero, Nat.zero_add, Nat.add_comm]
  | succ k ih =>
      match data, first, second with
      | a :: b :: data, first, second =>
          have first' : data[2 * k]? = some 0 := first
          have second' : data[2 * k + 1]? = some 0 := second
          show word a b + wordTotal word odd ((data.set (2 * k) high).set (2 * k + 1) low) = _
          rw [ih first' second', ← Nat.add_assoc]
          rfl

end Sums

/-! ## Folding -/

/-- The complement of the folded sum. -/
theorem finishSum_eq (sum : Nat) : finishSum sum = 2 ^ 16 - 1 - foldCarry (2 ^ 16) sum := by
  have small : foldCarry (2 ^ 16) sum < 2 ^ 16 := foldCarry_lt (by decide)
  unfold finishSum
  omega

theorem finishSum_lt (sum : Nat) : finishSum sum < 2 ^ 16 := Nat.mod_lt _ (by decide)

/-- **A sum completed with its checksum gives 0.** -/
theorem finishSum_complete (sum : Nat) : finishSum (sum + finishSum sum) = 0 := by
  have folds := foldCarry_complement (b := 2 ^ 16) (s := sum) (by decide)
  rw [← finishSum_eq] at folds
  rw [finishSum_eq, folds, Nat.sub_self]

/-- `ip_checksum` without the wrapping. -/
theorem ipChecksum_eq {data : List UInt8} (short : data.length ≤ 65535) :
    ipChecksum data = finishSum (wordTotal bigEndian (fun a => a.toNat * 2 ^ 8) data) := by
  rw [ipChecksum, addWords_eq words16_bigEndian (by omega), Nat.zero_add]

/-- `tcp_checksum` without the wrapping. -/
theorem tcpChecksum_eq {tcp : List UInt8} (src dst : UInt32) (short : tcp.length ≤ 65523) :
    tcpChecksum src dst tcp = finishSum
      (pseudoSum src dst tcp.length + wordTotal bigEndian (fun a => a.toNat * 2 ^ 8) tcp) := by
  have small : pseudoSum src dst tcp.length < 6 * 2 ^ 16 := by
    unfold pseudoSum
    omega
  rw [tcpChecksum, addWords_eq words16_bigEndian (by omega)]

/-- The bytes of a word. -/
theorem bigEndian_bytes {v : Nat} (fits : v < 2 ^ 16) :
    bigEndian (UInt8.ofNat (v / 2 ^ 8)) (UInt8.ofNat v) = v := by
  simp only [bigEndian, UInt8.toNat_ofNat']
  omega

/-- A checksum stored in place of 0. -/
theorem wordTotal_putBe16 {data : List UInt8} {k v : Nat} (even : k % 2 = 0) (fits : v < 2 ^ 16)
    (first : data[k]? = some 0) (second : data[k + 1]? = some 0) :
    wordTotal bigEndian (fun a => a.toNat * 2 ^ 8) (putBe16 data k v) =
      wordTotal bigEndian (fun a => a.toNat * 2 ^ 8) data + v := by
  obtain ⟨k, rfl⟩ : ∃ j, k = 2 * j := ⟨k / 2, by omega⟩
  rw [putBe16, wordTotal_set_set rfl _ _ first second, bigEndian_bytes fits]

@[simp] theorem length_putBe16 (data : List UInt8) (k v : Nat) :
    (putBe16 data k v).length = data.length := by
  rw [putBe16, List.length_set, List.length_set]

/-- The words of the pseudo header are what `tcp_checksum` starts with. -/
theorem wordTotal_pseudoHeader (src dst : UInt32) (tcpLen : Nat) :
    wordTotal bigEndian (fun a => a.toNat * 2 ^ 8) (pseudoHeader src dst tcpLen) =
      pseudoSum src dst tcpLen := by
  have source := src.toNat_lt
  have target := dst.toNat_lt
  simp only [pseudoHeader, beBytes32, beBytes16, List.cons_append, List.nil_append, wordTotal,
    bigEndian, UInt8.toNat_ofNat', pseudoSum]
  rw [show (0 : UInt8).toNat = 0 from rfl, show (6 : UInt8).toNat = 6 from rfl]
  omega

/-- **`tcp_checksum` is `ip_checksum` behind the pseudo header.** -/
theorem tcpChecksum_eq_ipChecksum (src dst : UInt32) {tcp : List UInt8}
    (short : tcp.length ≤ 65523) :
    tcpChecksum src dst tcp = ipChecksum (pseudoHeader src dst tcp.length ++ tcp) := by
  have header : (pseudoHeader src dst tcp.length).length = 12 := rfl
  rw [tcpChecksum_eq src dst short, ipChecksum_eq (by rw [List.length_append, header]; omega),
    wordTotal_append (by rw [header]), wordTotal_pseudoHeader]

/-- **A message completed with its checksum verifies.** -/
theorem ipChecksum_complete {data : List UInt8} {k : Nat} (short : data.length ≤ 65535)
    (even : k % 2 = 0) (first : data[k]? = some 0) (second : data[k + 1]? = some 0) :
    ipChecksum (putBe16 data k (ipChecksum data)) = 0 := by
  rw [ipChecksum_eq (by rwa [length_putBe16]), ipChecksum_eq short,
    wordTotal_putBe16 even (finishSum_lt _) first second, finishSum_complete]

/-- **A segment completed with its checksum verifies.** -/
theorem tcpChecksum_complete (src dst : UInt32) {tcp : List UInt8} {k : Nat}
    (short : tcp.length ≤ 65523) (even : k % 2 = 0) (first : tcp[k]? = some 0)
    (second : tcp[k + 1]? = some 0) :
    tcpChecksum src dst (putBe16 tcp k (tcpChecksum src dst tcp)) = 0 := by
  rw [tcpChecksum_eq src dst (by rwa [length_putBe16]), tcpChecksum_eq src dst short,
    wordTotal_putBe16 even (finishSum_lt _) first second, length_putBe16, ← Nat.add_assoc,
    finishSum_complete]

/-- **Checksums verify and agree**: a message completed with `ip_checksum` gives 0, and
`tcp_checksum` is the `ip_checksum` of the pseudo header and the segment, so that a segment
completed with it gives 0 as well.  Both are sums of 16-bit words into which carries are folded
until none is left, so they are residues modulo 2^16 - 1; the lengths keep the 32-bit sum from
overflowing. -/
theorem checksums_verify :
    (∀ (data : List UInt8) (k : Nat), data.length ≤ 65535 → k % 2 = 0 → data[k]? = some 0 →
      data[k + 1]? = some 0 → ipChecksum (putBe16 data k (ipChecksum data)) = 0) ∧
    ∀ (src dst : UInt32) (tcp : List UInt8), tcp.length ≤ 65523 →
      tcpChecksum src dst tcp = ipChecksum (pseudoHeader src dst tcp.length ++ tcp) ∧
      ∀ k, k % 2 = 0 → tcp[k]? = some 0 → tcp[k + 1]? = some 0 →
        let segment := putBe16 tcp k (tcpChecksum src dst tcp)
        tcpChecksum src dst segment = 0 ∧
          ipChecksum (pseudoHeader src dst segment.length ++ segment) = 0 := by
  refine ⟨fun data k short even first second => ipChecksum_complete short even first second,
    fun src dst tcp short => ⟨tcpChecksum_eq_ipChecksum src dst short,
      fun k even first second => ?_⟩⟩
  have verifies := tcpChecksum_complete src dst short even first second
  refine ⟨verifies, ?_⟩
  rw [← tcpChecksum_eq_ipChecksum src dst (by rwa [length_putBe16]), verifies]

/-- A message of four bytes, and the segment of a SYN. -/
theorem checksums_verify_syn :
    ipChecksum (putBe16 [0x45, 0, 0, 0] 2 (ipChecksum [0x45, 0, 0, 0])) = 0 ∧
      tcpChecksum synSource synSource (synTcpHeader 80) =
        ipChecksum (pseudoHeader synSource synSource 20 ++ synTcpHeader 80) ∧
      tcpChecksum synSource synSource (putBe16 (synTcpHeader 80) 16
        (tcpChecksum synSource synSource (synTcpHeader 80))) = 0 :=
  ⟨checksums_verify.1 [0x45, 0, 0, 0] 2 (by decide) rfl rfl rfl,
    (checksums_verify.2 synSource synSource (synTcpHeader 80) (by decide)).1,
    ((checksums_verify.2 synSource synSource (synTcpHeader 80) (by decide)).2 16 rfl rfl rfl).1⟩

/-- The headers of `e1000_tcp_syn` verify. -/
theorem e1000TcpSyn_verifies (gatewayMac mac : List UInt8) (dst : UInt32) (dstPort : Nat) :
    ∃ ip tcp, e1000TcpSyn gatewayMac mac dst dstPort =
      gatewayMac ++ mac ++ [0x08, 0x00] ++ ip ++ tcp ∧
        ip.length = 20 ∧ tcp.length = 20 ∧ ipChecksum ip = 0 ∧ tcpChecksum synSource dst tcp = 0 :=
  ⟨_, _, rfl, rfl, rfl, ipChecksum_complete (Nat.le_of_ble_eq_true rfl) rfl rfl rfl,
    tcpChecksum_complete _ _ (Nat.le_of_ble_eq_true rfl) rfl rfl rfl⟩

/-! ## The two byte orders -/

/-- The two bytes of a 16-bit value swapped. -/
def swapBytes (v : Nat) : Nat := v % 2 ^ 8 * 2 ^ 8 + v / 2 ^ 8

/-- Swapping is multiplication by `2 ^ 8`, modulo `2 ^ 16 - 1`. -/
theorem wordTotal_swapped (data : List UInt8) :
    wordTotal littleEndian (fun a => a.toNat) data % (2 ^ 16 - 1) =
      2 ^ 8 * wordTotal bigEndian (fun a => a.toNat * 2 ^ 8) data % (2 ^ 16 - 1) := by
  induction data using wordTotal.induct with
  | case1 a b data ih =>
      simp only [wordTotal, littleEndian, bigEndian]
      omega
  | case2 a =>
      simp only [wordTotal]
      omega
  | case3 => rfl

/-- The sum is 0 only for zeros, in both orders. -/
theorem wordTotal_eq_zero_swapped (data : List UInt8) :
    wordTotal littleEndian (fun a => a.toNat) data = 0 ↔
      wordTotal bigEndian (fun a => a.toNat * 2 ^ 8) data = 0 := by
  induction data using wordTotal.induct with
  | case1 a b data ih =>
      simp only [wordTotal, littleEndian, bigEndian]
      omega
  | case2 a =>
      simp only [wordTotal]
      omega
  | case3 => rfl

/-- **`icmp_checksum` is `ip_checksum` with its bytes swapped.**  The two read the words in
opposite byte order; a sum of words modulo 2^16 - 1 is multiplied by 2^8 when the bytes of every
word are swapped, and that swaps the bytes of the result. -/
theorem icmpChecksum_eq_swapBytes {data : List UInt8} (short : data.length ≤ 65535) :
    icmpChecksum data = swapBytes (ipChecksum data) := by
  rw [ipChecksum_eq short, icmpChecksum, addWords_eq words16_littleEndian (by omega), Nat.zero_add,
    finishSum_eq, finishSum_eq]
  have residue := wordTotal_swapped data
  have zeros := wordTotal_eq_zero_swapped data
  generalize wordTotal littleEndian (fun a => a.toNat) data = little at *
  generalize wordTotal bigEndian (fun a => a.toNat * 2 ^ 8) data = big at *
  have digit : foldCarry (2 ^ 16) big < 2 ^ 16 := foldCarry_lt (by decide)
  have folded : foldCarry (2 ^ 16) big % (2 ^ 16 - 1) = big % (2 ^ 16 - 1) :=
    foldCarry_mod (by decide)
  have zero : foldCarry (2 ^ 16) big = 0 ↔ big = 0 := foldCarry_eq_zero_iff
  have swapped : foldCarry (2 ^ 16) little = swapBytes (foldCarry (2 ^ 16) big) := by
    refine foldCarry_unique (by decide) ?_ ?_ ?_
    · unfold swapBytes
      omega
    · unfold swapBytes
      omega
    · unfold swapBytes
      omega
  rw [swapped]
  unfold swapBytes
  omega

/-- The last byte of an odd length is in both. -/
theorem icmpChecksum_eq_swapBytes_three :
    ([1, 2, 3] : List UInt8).length ≤ 65535 ∧
      icmpChecksum [1, 2, 3] = swapBytes (ipChecksum [1, 2, 3]) :=
  ⟨by decide, icmpChecksum_eq_swapBytes (by decide)⟩

end Flyos
