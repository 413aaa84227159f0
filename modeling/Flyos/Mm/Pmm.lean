import Flyos.Mm.Heap
import Mathlib.Logic.Function.Basic

/-!
# The physical page allocator

`kernel/mm/pmm.c`: one bit for every 4 KiB page of physical memory, set when
the page is in use, and a hint where to search first.  The allocator answers
with a physical address, and with 0 when no page is free — also when the free
page it found is page 0, which `pmm_init` marks used.
-/

namespace Flyos

/-- `MAX_PAGES`. -/
abbrev maxPages : Nat := 4 * 1024 * 1024 * 1024 / pageSize

/-- The static variables of `pmm.c`. -/
structure Pmm where
  bitmap : Nat → BitVec 8
  totalPages : Nat
  usedPages : Nat
  searchHint : Nat

/-- `bitmap_set`. -/
def bitmapSet (bitmap : Nat → BitVec 8) (page : Nat) : Nat → BitVec 8 :=
  Function.update bitmap (page >>> 3) (bitmap (page >>> 3) ||| (1#8 <<< (page &&& 7)))

/-- `bitmap_test`. -/
def bitmapTest (bitmap : Nat → BitVec 8) (page : Nat) : Bool :=
  bitmap (page >>> 3) &&& (1#8 <<< (page &&& 7)) != 0#8

/-- The first of the `n` pages from `i` on whose bit is clear. -/
def findClear (bitmap : Nat → BitVec 8) (i : Nat) : Nat → Option Nat
  | 0 => none
  | n + 1 => if bitmapTest bitmap i = false then some i else findClear bitmap (i + 1) n

/-- What `pmm_alloc_page` does with the page it found. -/
def Pmm.take (p : Pmm) (i : Nat) : Nat × Pmm :=
  (i * pageSize,
    { p with bitmap := bitmapSet p.bitmap i, usedPages := p.usedPages + 1, searchHint := i + 1 })

/-- `pmm_alloc_page`: search from the hint to the end, then from 0 to the hint. -/
def pmmAllocPage (p : Pmm) : Nat × Pmm :=
  match findClear p.bitmap p.searchHint (p.totalPages - p.searchHint) with
  | some i => p.take i
  | none =>
      match findClear p.bitmap 0 p.searchHint with
      | some i => p.take i
      | none => (0, p)

/-- What `pmm_init` establishes about the variables. -/
structure Pmm.Ok (p : Pmm) : Prop where
  total : p.totalPages ≤ maxPages
  hint : p.searchHint ≤ p.totalPages

/-- Testing a bit is reading it. -/
theorem bitmapTest_eq (bitmap : Nat → BitVec 8) (page : Nat) :
    bitmapTest bitmap page = (bitmap (page / 8)).getLsbD (page % 8) := by
  have bit : page % 8 < 8 := Nat.mod_lt _ (by decide)
  have low : page &&& 7 = page % 8 := Nat.and_two_pow_sub_one_eq_mod page 3
  rw [bitmapTest, low, Nat.shiftRight_eq_div_pow, ← BitVec.twoPow_eq, BitVec.and_twoPow]
  cases (bitmap (page / 2 ^ 3)).getLsbD (page % 8) with
  | false => simp
  | true =>
      have nonzero : BitVec.twoPow 8 (page % 8) ≠ 0#8 := fun zero => by
        have := congrArg (fun x => x.getLsbD (page % 8)) zero
        simp [bit] at this
      simpa using nonzero

/-- Setting a bit changes that page only. -/
theorem bitmapTest_set (bitmap : Nat → BitVec 8) (p q : Nat) :
    bitmapTest (bitmapSet bitmap p) q = (decide (q = p) || bitmapTest bitmap q) := by
  have bit : q % 8 < 8 := Nat.mod_lt _ (by decide)
  have bit' : p % 8 < 8 := Nat.mod_lt _ (by decide)
  have low : p &&& 7 = p % 8 := Nat.and_two_pow_sub_one_eq_mod p 3
  rw [bitmapTest_eq, bitmapTest_eq, bitmapSet, low, Nat.shiftRight_eq_div_pow]
  by_cases byte : q / 8 = p / 8
  · have same : q % 8 = p % 8 ↔ q = p := by omega
    rw [byte, Function.update_self, BitVec.getLsbD_or, ← BitVec.twoPow_eq,
      BitVec.getLsbD_twoPow, Bool.or_comm]
    simp [bit, bit', ← same, eq_comm]
  · have differ : q ≠ p := fun eq => byte (by rw [eq])
    rw [Function.update_of_ne byte]
    simp [differ]

/-- The search finds a clear page of its range. -/
theorem findClear_some {bitmap : Nat → BitVec 8} {i n j : Nat}
    (h : findClear bitmap i n = some j) :
    i ≤ j ∧ j < i + n ∧ bitmapTest bitmap j = false := by
  induction n generalizing i with
  | zero => simp [findClear] at h
  | succ n ih =>
      rw [findClear] at h
      split at h
      case isTrue clear =>
        obtain rfl := Option.some.inj h
        exact ⟨le_rfl, by omega, clear⟩
      case isFalse =>
        obtain ⟨lo, hi, clear⟩ := ih h
        exact ⟨by omega, by omega, clear⟩

/-- **What `pmm_alloc_page` does.**  Pages in use stay in use, and a page it
answers with, was free, is in range and is in use from then on. -/
theorem pmmAllocPage_spec {p : Pmm} (ok : p.Ok) :
    (pmmAllocPage p).2.Ok ∧ (pmmAllocPage p).2.totalPages = p.totalPages ∧
      (∀ j, bitmapTest p.bitmap j = true → bitmapTest (pmmAllocPage p).2.bitmap j = true) ∧
      ((pmmAllocPage p).1 ≠ 0 → ∃ i, (pmmAllocPage p).1 = i * pageSize ∧ i < p.totalPages ∧
        bitmapTest p.bitmap i = false ∧ bitmapTest (pmmAllocPage p).2.bitmap i = true) := by
  have taken : ∀ i, i < p.totalPages → bitmapTest p.bitmap i = false →
      (p.take i).2.Ok ∧ (p.take i).2.totalPages = p.totalPages ∧
      (∀ j, bitmapTest p.bitmap j = true → bitmapTest (p.take i).2.bitmap j = true) ∧
      ((p.take i).1 ≠ 0 → ∃ k, (p.take i).1 = k * pageSize ∧ k < p.totalPages ∧
        bitmapTest p.bitmap k = false ∧ bitmapTest (p.take i).2.bitmap k = true) := by
    intro i inside clear
    refine ⟨⟨ok.total, inside⟩, rfl, fun j used => ?_, fun _ => ⟨i, rfl, inside, clear, ?_⟩⟩
    · simp [Pmm.take, bitmapTest_set, used]
    · simp [Pmm.take, bitmapTest_set]
  have hint := ok.hint
  unfold pmmAllocPage
  split
  case h_1 i found =>
    obtain ⟨-, hi, clear⟩ := findClear_some found
    exact taken i (by omega) clear
  case h_2 =>
    split
    case h_1 i found =>
      obtain ⟨-, hi, clear⟩ := findClear_some found
      exact taken i (by omega) clear
    case h_2 => exact ⟨ok, rfl, fun _ used => used, fun none => absurd rfl none⟩

end Flyos
