import Flyos.Lib.ByteMemory
import Flyos.Lib.LinkChain
import Flyos.Lib.Runs

/-!
# The kernel heap

`kernel/mm/heap.c`: 512 pages at `HEAP_START`, cut into blocks that carry a
32-byte header (`size`, `is_free`, `next`, `prev`) inside the managed memory
itself.  Blocks form a doubly linked list from the static `head`, which is the
first block for ever after `heap_init`.

The functions below are the C functions over a byte memory.  Loops over the
block list take a bound on the number of iterations, `heapFuel`; `none` means
that the loop was still running when it was exhausted.  `is_free` is read as C
reads it: zero or not.

Arithmetic that can wrap is taken modulo `2 ^ 64`: the rounding of the request
in `kmalloc` and the threshold of the split.
-/

namespace Flyos

/-- `PAGE_SIZE`. -/
abbrev pageSize : Nat := 4096

/-- `HEAP_START`. -/
abbrev heapStart : Nat := 0xFFFF800000000000

/-- `HEAP_PAGES`. -/
abbrev heapPages : Nat := 512

/-- `HEAP_SIZE`. -/
abbrev heapSize : Nat := heapPages * pageSize

/-- The first address past the heap. -/
abbrev heapEnd : Nat := heapStart + heapSize

/-- `HEADER_SIZE`, the size of `block_t`. -/
abbrev headerSize : Nat := 32

namespace Heap

/-! ## Header fields -/

/-- `b->size`. -/
def size (m : ByteMemory) (b : Nat) : Nat := m.load b 8

/-- `b->is_free`. -/
def isFree (m : ByteMemory) (b : Nat) : Nat := m.load (b + 8) 8

/-- `b->next`. -/
def next (m : ByteMemory) (b : Nat) : Nat := m.load (b + 16) 8

/-- `b->prev`. -/
def prev (m : ByteMemory) (b : Nat) : Nat := m.load (b + 24) 8

/-- `b->size = v`. -/
def setSize (m : ByteMemory) (b v : Nat) : ByteMemory := m.store b 8 v

/-- `b->is_free = v`. -/
def setIsFree (m : ByteMemory) (b v : Nat) : ByteMemory := m.store (b + 8) 8 v

/-- `b->next = v`. -/
def setNext (m : ByteMemory) (b v : Nat) : ByteMemory := m.store (b + 16) 8 v

/-- `b->prev = v`. -/
def setPrev (m : ByteMemory) (b v : Nat) : ByteMemory := m.store (b + 24) 8 v

end Heap

open Heap

/-- A bound on the iterations of a walk over the block list. -/
def heapFuel : Nat := heapSize

/-- `heap_init`, with the 512 pages mapped: one free block over everything. -/
def heapInit (m : ByteMemory) : ByteMemory :=
  setPrev (setNext (setIsFree (setSize m heapStart heapSize) heapStart 1) heapStart 0) heapStart 0

/-- `ALIGN16`, in 64-bit arithmetic. -/
def align16 (x : Nat) : Nat := (x + 15) % 2 ^ 64 / 16 * 16

/-- The block size `kmalloc` looks for. -/
def need (size : Nat) : Nat :=
  let need := align16 ((size + headerSize) % 2 ^ 64)
  if need < headerSize + 16 then headerSize + 16 else need

/-- The split in `kmalloc`: cut block `b` after `need` bytes. -/
def splitBlock (m : ByteMemory) (b need : Nat) : ByteMemory :=
  let nb := b + need
  let m := setSize m nb (size m b - need)
  let m := setIsFree m nb 1
  let m := setNext m nb (next m b)
  let m := setPrev m nb b
  let m := if next m b ≠ 0 then setPrev m (next m b) nb else m
  let m := setNext m b nb
  setSize m b need

/-- The loop of `kmalloc`, standing at block `b`. -/
def kmallocLoop (m : ByteMemory) (need : Nat) : Nat → Nat → Option (Nat × ByteMemory)
  | 0, _ => none
  | fuel + 1, b =>
      if b = 0 then some (0, m)
      else if isFree m b ≠ 0 ∧ need ≤ size m b then
        let m := if (need + headerSize + 64) % 2 ^ 64 ≤ size m b then splitBlock m b need else m
        some (b + headerSize, setIsFree m b 0)
      else kmallocLoop m need fuel (next m b)

/-- `kmalloc`: the pointer (0 for null) and the memory it leaves. -/
def kmalloc (m : ByteMemory) (size : Nat) : Option (Nat × ByteMemory) :=
  if size = 0 then some (0, m) else kmallocLoop m (need size) heapFuel heapStart

/-- Merge the block after `b` into `b`. -/
def mergeNext (m : ByteMemory) (b : Nat) : ByteMemory :=
  let m := setSize m b (size m b + size m (next m b))
  let m := setNext m b (next m (next m b))
  if next m b ≠ 0 then setPrev m (next m b) b else m

/-- `merge_all`, standing at block `b`. -/
def mergeAll (m : ByteMemory) : Nat → Nat → Option ByteMemory
  | 0, _ => none
  | fuel + 1, b =>
      if b = 0 ∨ next m b = 0 then some m
      else if isFree m b ≠ 0 ∧ isFree m (next m b) ≠ 0 ∧ b + size m b = next m b then
        mergeAll (mergeNext m b) fuel b
      else mergeAll m fuel (next m b)

/-- `kfree`. -/
def kfree (m : ByteMemory) (ptr : Nat) : Option ByteMemory :=
  if ptr = 0 then some m
  else if ptr < heapStart + headerSize ∨ heapEnd ≤ ptr then some m
  else
    let b := ptr - headerSize
    if isFree m b ≠ 0 then some m
    else mergeAll (setIsFree m b 1) heapFuel heapStart

/-- How a call that stores through a pointer ends: it returns, or it touches
an address past the mapped pages and the page-fault handler halts the machine
with the memory as it is. -/
inductive Outcome where
  | ret (ptr : Nat) (m : ByteMemory)
  | fault (m : ByteMemory)

/-- `kzalloc`: `kmalloc`, then the loop `q[i] = 0`.  The bytes are cleared in
ascending order, so a request that runs over the end of the mapped heap clears
everything up to it and then faults. -/
def kzalloc (m : ByteMemory) (size : Nat) : Option Outcome :=
  (kmalloc m size).map fun (p, m) =>
    if p = 0 then .ret 0 m
    else if p + size ≤ heapEnd then .ret p (m.fill p size 0)
    else .fault (m.fill p (heapEnd - p) 0)

end Flyos
