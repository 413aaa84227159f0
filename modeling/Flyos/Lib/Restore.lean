import Flyos.Lib.ByteMemory

/-!
# Words stored into a family of cells

`storeAll addr k value cells m` stores a word of `k` bytes into each cell of a list that has
an address.  Only the bytes of these cells change (`storeAll_of_notMem`), and when the words
are those that some memory has there, the bytes are that memory's afterwards
(`storeAll_restores`); so what was written over the cells is undone, also where cells overlap.
-/

namespace ByteMemory

variable {ι : Type*} {addr : ι → Option Nat} {k : Nat} {value : ι → Nat} {cells : List ι}
  {m m' : ByteMemory} {x : Nat}

/-- The bytes of a word are those it was loaded from. -/
theorem byteOf_load (m : ByteMemory) {a k i : Nat} (inside : i < k) :
    byteOf (m.load a k) i = m (a + i) := by
  induction k generalizing a i with
  | zero => exact absurd inside (Nat.not_lt_zero i)
  | succ k ih =>
      have low := (m a).toNat_lt
      cases i with
      | zero =>
          show byteOf (m.load a (k + 1)) 0 = m a
          apply UInt8.toNat_inj.mp
          rw [byteOf, pow_zero, Nat.div_one, load_succ, UInt8.toNat_ofNat']
          omega
      | succ i =>
          have tail : m.load a (k + 1) / 256 = m.load (a + 1) k := by
            rw [load_succ]
            omega
          rw [byteOf_succ, tail, ih (Nat.lt_of_succ_lt_succ inside), Nat.add_assoc, Nat.add_comm 1]

/-- Byte `x` lies in no cell. -/
def OutsideCells (addr : ι → Option Nat) (k : Nat) (cells : List ι) (x : Nat) : Prop :=
  ∀ c ∈ cells, ∀ a, addr c = some a → x < a ∨ a + k ≤ x

/-- A word stored into each cell that has an address. -/
@[irreducible] def storeAll (addr : ι → Option Nat) (k : Nat) (value : ι → Nat) (cells : List ι)
    (m : ByteMemory) : ByteMemory :=
  cells.foldl (fun m c => match addr c with
    | none => m
    | some a => m.store a k (value c)) m

/-- Outside of the cells nothing changes. -/
theorem storeAll_of_notMem (outside : OutsideCells addr k cells x) :
    storeAll addr k value cells m x = m x := by
  unfold storeAll
  induction cells generalizing m with
  | nil => rfl
  | cons c cells ih =>
      rw [List.foldl_cons, ih fun d mem => outside d (List.mem_cons_of_mem c mem)]
      cases place : addr c with
      | none => rfl
      | some a => exact store_of_notMem m _ (outside c List.mem_cons_self a place)

/-- **Storing what was there restores it.** -/
theorem storeAll_restores (saved : ∀ c ∈ cells, ∀ a, addr c = some a → value c = m.load a k)
    (agree : ∀ x, OutsideCells addr k cells x → m' x = m x) :
    storeAll addr k value cells m' = m := by
  funext x
  unfold storeAll
  induction cells generalizing m' with
  | nil => exact agree x fun _ none => by cases none
  | cons c cells ih =>
      rw [List.foldl_cons]
      refine ih (fun d mem => saved d (List.mem_cons_of_mem c mem)) fun y outside => ?_
      cases place : addr c with
      | none =>
          refine agree y fun d mem a at_ => ?_
          rcases List.mem_cons.mp mem with rfl | mem
          · cases place.symm.trans at_
          · exact outside d mem a at_
      | some a =>
          by_cases there : a ≤ y ∧ y < a + k
          · dsimp only
            rw [saved c List.mem_cons_self a place, store, blit_of_mem m' _ there.1 there.2,
              byteOf_load m (by omega), Nat.add_sub_cancel' there.1]
          · dsimp only
            rw [store_of_notMem m' _ (by omega)]
            refine agree y fun d mem b at_ => ?_
            rcases List.mem_cons.mp mem with rfl | mem
            · obtain rfl := Option.some.inj (place.symm.trans at_)
              omega
            · exact outside d mem b at_

end ByteMemory
