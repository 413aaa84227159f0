import Mathlib.Data.Nat.Log
import Mathlib.Tactic.Ring

/-!
# Byte-addressed memory with little-endian words

A memory is a total function from addresses to bytes.  Everything a program
does to it is one primitive, `blit`: overwrite the `n` bytes at an address by
the first `n` bytes of a source.  Multi-byte words are read by `load` and
written by `store`, both little-endian and both of any width, so one pair of
lemmas serves 16-, 32- and 64-bit accesses alike:

* `load_store_same` — a word read where it was just written is the word;
* `load_congr` — a read depends only on the bytes it covers, from which every
  frame fact (`load_blit_of_disjoint`, `load_store_of_disjoint`) follows.

Addresses are natural numbers: a client whose addresses can wrap says so in
its own arithmetic.
-/

/-- A memory: one byte at every address. -/
abbrev ByteMemory := Nat → UInt8

namespace ByteMemory

/-! ## Blocks of bytes -/

/-- Overwrite the `n` bytes from `a` by the first `n` bytes of `src`. -/
def blit (m : ByteMemory) (a n : Nat) (src : Nat → UInt8) : ByteMemory :=
  fun x => if a ≤ x ∧ x < a + n then src (x - a) else m x

/-- The bytes of a memory seen from address `a` on. -/
def window (m : ByteMemory) (a : Nat) : ByteMemory := fun i => m (a + i)

/-- Set the `n` bytes from `a` to one value. -/
def fill (m : ByteMemory) (a n : Nat) (v : UInt8) : ByteMemory :=
  m.blit a n fun _ => v

theorem blit_apply (m : ByteMemory) (a n : Nat) (src : Nat → UInt8) (x : Nat) :
    m.blit a n src x = if a ≤ x ∧ x < a + n then src (x - a) else m x := rfl

/-- Inside the overwritten range a byte is the source's. -/
theorem blit_of_mem (m : ByteMemory) {a n x : Nat} (src : Nat → UInt8)
    (lo : a ≤ x) (hi : x < a + n) : m.blit a n src x = src (x - a) := by
  rw [blit_apply, if_pos ⟨lo, hi⟩]

/-- Outside the overwritten range nothing changes. -/
theorem blit_of_notMem (m : ByteMemory) {a n x : Nat} (src : Nat → UInt8)
    (out : x < a ∨ a + n ≤ x) : m.blit a n src x = m x := by
  rw [blit_apply, if_neg (by omega)]

@[simp] theorem window_apply (m : ByteMemory) (a i : Nat) : m.window a i = m (a + i) := rfl

/-! ## Little-endian words -/

/-- The little-endian value of the `k` bytes at `a`. -/
def load (m : ByteMemory) (a : Nat) : Nat → Nat
  | 0 => 0
  | k + 1 => (m a).toNat + 256 * load m (a + 1) k

/-- Byte `i` of the little-endian representation of `v`. -/
def byteOf (v i : Nat) : UInt8 := UInt8.ofNat (v / 256 ^ i)

/-- Write the `k` little-endian bytes of `v` at `a`. -/
def store (m : ByteMemory) (a k v : Nat) : ByteMemory :=
  m.blit a k (byteOf v)

theorem load_succ (m : ByteMemory) (a k : Nat) :
    m.load a (k + 1) = (m a).toNat + 256 * m.load (a + 1) k := rfl

/-- A read depends only on the bytes it covers. -/
theorem load_congr {m m' : ByteMemory} {a k : Nat}
    (same : ∀ x, a ≤ x → x < a + k → m x = m' x) : m.load a k = m'.load a k := by
  induction k generalizing a with
  | zero => rfl
  | succ k ih =>
      rw [load_succ, load_succ, same a (by omega) (by omega),
        ih fun x lo hi => same x (by omega) (by omega)]

/-- A `k`-byte word is below `256 ^ k`. -/
theorem load_lt (m : ByteMemory) (a k : Nat) : m.load a k < 256 ^ k := by
  induction k generalizing a with
  | zero => simp [load]
  | succ k ih =>
      have low : (m a).toNat < 256 := (m a).toNat_lt
      have high := ih (a + 1)
      rw [load_succ, pow_succ]
      omega

/-- Little-endian bytes: the tail of `v`'s bytes are the bytes of `v / 256`. -/
theorem byteOf_succ (v i : Nat) : byteOf v (i + 1) = byteOf (v / 256) i := by
  rw [byteOf, byteOf, Nat.div_div_eq_div_mul, pow_succ, Nat.mul_comm]

/-- The word whose bytes are those of `v` is `v`. -/
theorem load_of_bytes {m : ByteMemory} {a k v : Nat} (fits : v < 256 ^ k)
    (bytes : ∀ i, i < k → m (a + i) = byteOf v i) : m.load a k = v := by
  induction k generalizing a v with
  | zero => simp only [pow_zero] at fits; simp [load]; omega
  | succ k ih =>
      have head : m a = byteOf v 0 := by simpa using bytes 0 (by omega)
      have tail : m.load (a + 1) k = v / 256 := by
        refine ih ?_ fun i hi => ?_
        · rw [pow_succ] at fits
          exact Nat.div_lt_of_lt_mul (by omega)
        · rw [← byteOf_succ, ← bytes (i + 1) (by omega)]
          congr 1
          omega
      have low : (byteOf v 0).toNat = v % 256 := by simp [byteOf]
      rw [load_succ, head, tail, low]
      omega

/-- A word read where it was just written is the word. -/
theorem load_store_same (m : ByteMemory) (a : Nat) {k v : Nat} (fits : v < 256 ^ k) :
    (m.store a k v).load a k = v := by
  refine load_of_bytes fits fun i hi => ?_
  rw [store, blit_of_mem m _ (by omega) (by omega)]
  congr 1
  omega

/-- Overwriting a disjoint range leaves a word alone. -/
theorem load_blit_of_disjoint (m : ByteMemory) {a k b n : Nat} (src : Nat → UInt8)
    (apart : a + k ≤ b ∨ b + n ≤ a) : (m.blit b n src).load a k = m.load a k :=
  load_congr fun _ lo hi => blit_of_notMem m src (by omega)

/-- Writing a disjoint word leaves a word alone. -/
theorem load_store_of_disjoint (m : ByteMemory) {a k b n : Nat} (v : Nat)
    (apart : a + k ≤ b ∨ b + n ≤ a) : (m.store b n v).load a k = m.load a k :=
  load_blit_of_disjoint m _ apart

/-- Outside the written word nothing changes. -/
theorem store_of_notMem (m : ByteMemory) {a k x : Nat} (v : Nat)
    (out : x < a ∨ a + k ≤ x) : m.store a k v x = m x :=
  blit_of_notMem m _ out

/-- A word of zero bytes is zero. -/
theorem load_of_zero {m : ByteMemory} {a k : Nat}
    (zero : ∀ i, i < k → m (a + i) = 0) : m.load a k = 0 :=
  load_of_bytes (Nat.pow_pos (by omega)) fun i hi => by rw [zero i hi]; simp [byteOf]

/-! ## Lists of bytes -/

/-- The `n` bytes from `a` on. -/
def bytes (m : ByteMemory) (a n : Nat) : List UInt8 := (List.range n).map fun i => m (a + i)

/-- The bytes of `data` written from `a` on. -/
def writeBytes (m : ByteMemory) (a : Nat) (data : List UInt8) : ByteMemory :=
  m.blit a data.length fun i => data.getD i 0

@[simp] theorem length_bytes (m : ByteMemory) (a n : Nat) : (m.bytes a n).length = n := by
  simp [bytes]

/-- One byte more. -/
theorem bytes_succ (m : ByteMemory) (a n : Nat) :
    m.bytes a (n + 1) = m.bytes a n ++ [m (a + n)] := by
  rw [bytes, bytes, List.range_succ, List.map_append, List.map_singleton]

/-- The bytes read are the ones that are there. -/
theorem bytes_congr {m m' : ByteMemory} {a n : Nat} (same : ∀ x, a ≤ x → x < a + n → m' x = m x) :
    m'.bytes a n = m.bytes a n := by
  refine List.map_congr_left fun i mem => ?_
  have inside := List.mem_range.mp mem
  exact same (a + i) (by omega) (by omega)

/-- What was written is read back. -/
theorem bytes_writeBytes (m : ByteMemory) (a : Nat) (data : List UInt8) :
    (m.writeBytes a data).bytes a data.length = data := by
  apply List.ext_getElem (by simp)
  intro i low high
  simp only [bytes, List.getElem_map, List.getElem_range, writeBytes]
  rw [blit_of_mem m _ (by omega) (by omega), Nat.add_sub_cancel_left,
    List.getD_eq_getElem?_getD, List.getElem?_eq_getElem high, Option.getD_some]

/-- One more byte is written behind the others. -/
theorem bytes_writeBytes_next (m : ByteMemory) (a i : Nat) (b : UInt8) :
    (m.writeBytes (a + i) [b]).bytes a (i + 1) = m.bytes a i ++ [b] := by
  have before : (m.writeBytes (a + i) [b]).bytes a i = m.bytes a i :=
    bytes_congr fun x _ high => blit_of_notMem m _ (.inl high)
  have last : m.writeBytes (a + i) [b] (a + i) = b := by
    rw [writeBytes, blit_of_mem m _ le_rfl (by simp), Nat.sub_self]
    rfl
  rw [bytes_succ, before, last]

/-- One of the bytes that are there. -/
theorem eq_of_bytes {m : ByteMemory} {a i : Nat} {data : List UInt8}
    (there : m.bytes a data.length = data) (inside : i < data.length) :
    m (a + i) = data[i] := by
  have same := List.getElem_of_eq there.symm inside
  simpa only [bytes, List.getElem_map, List.getElem_range] using same.symm

end ByteMemory
