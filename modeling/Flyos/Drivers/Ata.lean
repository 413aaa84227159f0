import Mathlib.Algebra.Group.Nat.Defs
import Mathlib.Logic.Function.Basic
import Mathlib.Data.List.TakeDrop

/-!
# The ATA disk

`ata_read_sectors` and `ata_write_sectors` of `kernel/drivers/ata.c`, over a drive that
stores sectors.  A transfer waits for the drive before the command, before every
sector, and after a write for the flush; a wait ends well or with an error or a
timeout, and `fault` says which waits fail.  A write that fails has stored the sectors
before.

`touched` is a ghost: the sectors transferred so far, the last one first.
-/

namespace Flyos

/-- `ATA_SECTOR_SIZE`. -/
abbrev ataSectorSize : Nat := 512

/-- The contents of a sector. -/
def Sector : Type := { b : List UInt8 // b.length = ataSectorSize }

/-- A sector written from a buffer. -/
def Sector.ofList (b : List UInt8) : Sector :=
  ⟨(b ++ List.replicate ataSectorSize 0).take ataSectorSize, by simp⟩

/-- A buffer of the size of a sector is what the sector holds. -/
theorem Sector.ofList_val {b : List UInt8} (sized : b.length = ataSectorSize) :
    (Sector.ofList b).1 = b := by
  exact List.take_left' sized

/-- The drive, and what `ata_init` found out about it. -/
structure Ata where
  sectors : Nat → Sector
  diskSectors : Nat
  fault : Nat → Bool
  waits : Nat
  touched : List Nat

namespace Ata

variable (d : Ata)

/-- `wait_not_busy` or `wait_drq`: whether it ended well. -/
def wait : Bool × Ata := (!d.fault d.waits, { d with waits := d.waits + 1 })

/-- The drive delivers a sector. -/
def readSector (lba : Nat) : List UInt8 × Ata :=
  ((d.sectors lba).1, { d with touched := lba :: d.touched })

/-- The drive stores a sector. -/
def writeSector (lba : Nat) (b : List UInt8) : Ata :=
  { d with sectors := Function.update d.sectors lba (.ofList b), touched := lba :: d.touched }

/-- The loop of `ata_read_sectors`, with what it has read. -/
def readLoop (d : Ata) (lba : Nat) : Nat → List UInt8 → Option (List UInt8) × Ata
  | 0, acc => (some acc, d)
  | n + 1, acc =>
      let w := d.wait
      if w.1 = false then (none, w.2)
      else
        let r := w.2.readSector lba
        readLoop r.2 (lba + 1) n (acc ++ r.1)

/-- The loop of `ata_write_sectors`. -/
def writeLoop (d : Ata) (lba : Nat) : Nat → List UInt8 → Bool × Ata
  | 0, _ => (true, d)
  | n + 1, buf =>
      let w := d.wait
      if w.1 = false then (false, w.2)
      else writeLoop (w.2.writeSector lba (buf.take ataSectorSize)) (lba + 1) n
        (buf.drop ataSectorSize)

/-- The drive answers every wait from now on. -/
def Healthy : Prop := d.diskSectors ≠ 0 ∧ ∀ n, d.waits ≤ n → d.fault n = false

end Ata

/-- `ata_read_sectors`: the bytes read, or nothing for -1.  The command takes 28 bits of
the sector number. -/
def ataReadSectors (d : Ata) (lba count : Nat) : Option (List UInt8) × Ata :=
  if d.diskSectors = 0 then (none, d)
  else
    let w := d.wait
    if w.1 = false then (none, w.2) else w.2.readLoop (lba % 2 ^ 28) count []

/-- `ata_write_sectors` of `count` sectors in `buf`: whether it succeeded. -/
def ataWriteSectors (d : Ata) (lba count : Nat) (buf : List UInt8) : Bool × Ata :=
  if d.diskSectors = 0 then (false, d)
  else
    let w := d.wait
    if w.1 = false then (false, w.2)
    else
      let r := w.2.writeLoop (lba % 2 ^ 28) count buf
      -- flush
      if r.1 = false then r else r.2.wait

/-! ## What is transferred -/

namespace Ata

variable {d : Ata}

/-- The bytes of `n` sectors from `lba`. -/
def bytesFrom (sectors : Nat → Sector) (lba : Nat) : Nat → List UInt8
  | 0 => []
  | n + 1 => (sectors lba).1 ++ bytesFrom sectors (lba + 1) n

theorem length_bytesFrom (sectors : Nat → Sector) (lba n : Nat) :
    (bytesFrom sectors lba n).length = n * ataSectorSize := by
  induction n generalizing lba with
  | zero => simp [bytesFrom]
  | succ n ih =>
      have sized := (sectors lba).2
      rw [bytesFrom, List.length_append, ih, sized, Nat.succ_mul, Nat.add_comm]

/-- Stretches of sectors follow each other. -/
theorem bytesFrom_add (sectors : Nat → Sector) (lba m n : Nat) :
    bytesFrom sectors lba (m + n) = bytesFrom sectors lba m ++ bytesFrom sectors (lba + m) n := by
  induction m generalizing lba with
  | zero => simp [bytesFrom]
  | succ m ih =>
      rw [show m + 1 + n = m + n + 1 by omega, bytesFrom, bytesFrom, ih (lba + 1),
        List.append_assoc, show lba + 1 + m = lba + (m + 1) by omega]

/-- Only the sectors of a stretch matter to it. -/
theorem bytesFrom_congr {sectors sectors' : Nat → Sector} {lba n : Nat}
    (same : ∀ k, lba ≤ k → k < lba + n → sectors' k = sectors k) :
    bytesFrom sectors' lba n = bytesFrom sectors lba n := by
  induction n generalizing lba with
  | zero => rfl
  | succ n ih =>
      rw [bytesFrom, bytesFrom, same lba (by omega) (by omega),
        ih fun k low high => same k (by omega) (by omega)]

/-- A drive as it was, but for the waits and the ghost. -/
structure Same (d d' : Ata) : Prop where
  sectors : d'.sectors = d.sectors
  diskSectors : d'.diskSectors = d.diskSectors
  fault : d'.fault = d.fault
  waits : d.waits ≤ d'.waits

/-- A drive that answers every wait, whatever became of its sectors. -/
theorem Healthy.mono {d d' : Ata} (ok : d.Healthy) (disk : d'.diskSectors = d.diskSectors)
    (fault : d'.fault = d.fault) (later : d.waits ≤ d'.waits) : d'.Healthy := by
  refine ⟨by rw [disk]; exact ok.1, fun n after => ?_⟩
  rw [fault]
  exact ok.2 n (Nat.le_trans later after)

theorem Same.healthy {d d' : Ata} (same : Same d d') (ok : d.Healthy) : d'.Healthy :=
  ok.mono same.diskSectors same.fault same.waits

/-- A healthy drive answers a wait. -/
theorem Healthy.wait (ok : d.Healthy) : d.wait.1 = true ∧ Same d d.wait.2 :=
  ⟨by rw [Ata.wait, ok.2 d.waits (Nat.le_refl _)]; rfl, rfl, rfl, rfl, Nat.le_succ _⟩

/-- A healthy drive delivers every sector asked for. -/
theorem Healthy.readLoop (ok : d.Healthy) (lba n : Nat) (acc : List UInt8) :
    ∃ d', d.readLoop lba n acc = (some (acc ++ bytesFrom d.sectors lba n), d') ∧ Same d d' := by
  induction n generalizing d lba acc with
  | zero => exact ⟨d, by simp [Ata.readLoop, bytesFrom], rfl, rfl, rfl, Nat.le_refl _⟩
  | succ n ih =>
      obtain ⟨answered, same⟩ := ok.wait
      have ready : (d.wait.2.readSector lba).2.Healthy := same.healthy ok
      obtain ⟨d', ran, same'⟩ := ih ready (lba + 1) (acc ++ (d.sectors lba).1)
      refine ⟨d', ?_, same'.sectors, same'.diskSectors, same'.fault,
        Nat.le_trans same.waits same'.waits⟩
      rw [Ata.readLoop, if_neg (by rw [answered]; simp), bytesFrom, ← List.append_assoc]
      exact ran

/-- A healthy drive stores every sector. -/
theorem Healthy.writeLoop (ok : d.Healthy) (lba n : Nat) (buf : List UInt8) :
    ∃ d', d.writeLoop lba n buf = (true, d') ∧ d'.Healthy := by
  induction n generalizing d lba buf with
  | zero => exact ⟨d, rfl, ok⟩
  | succ n ih =>
      obtain ⟨answered, same⟩ := ok.wait
      have ready : (d.wait.2.writeSector lba (buf.take ataSectorSize)).Healthy :=
        ok.mono rfl rfl (Nat.le_succ _)
      obtain ⟨d', ran, ok'⟩ := ih ready (lba + 1) (buf.drop ataSectorSize)
      refine ⟨d', ?_, ok'⟩
      rw [Ata.writeLoop, if_neg (by rw [answered]; simp)]
      exact ran

/-- The first `k` sectors of a buffer are stored from `lba` on, and nothing elsewhere. -/
structure Stored (d : Ata) (lba k : Nat) (buf : List UInt8) (d' : Ata) : Prop where
  bytes : bytesFrom d'.sectors lba k = buf.take (k * ataSectorSize)
  others : ∀ j, j < lba ∨ lba + k ≤ j → d'.sectors j = d.sectors j

/-- Nothing is stored. -/
theorem Stored.zero {d d' : Ata} (same : d'.sectors = d.sectors) (lba : Nat) (buf : List UInt8) :
    Stored d lba 0 buf d' :=
  ⟨by rw [Nat.zero_mul, List.take_zero]; rfl, fun j _ => by rw [same]⟩

/-- Stretches are stored one behind the other. -/
theorem Stored.append {d d₁ d₂ : Ata} {lba c k : Nat} {buf : List UInt8}
    (first : Stored d lba c buf d₁)
    (second : Stored d₁ (lba + c) k (buf.drop (c * ataSectorSize)) d₂) :
    Stored d lba (c + k) buf d₂ := by
  have front : bytesFrom d₂.sectors lba c = bytesFrom d₁.sectors lba c :=
    bytesFrom_congr fun j _ high => second.others j (.inl high)
  refine ⟨?_, fun j out => ?_⟩
  · rw [bytesFrom_add, front, first.bytes, second.bytes, Nat.add_mul, List.take_add]
  · rw [second.others j (by omega), first.others j (by omega)]

/-- One sector is stored. -/
theorem stored_writeSector (d : Ata) (lba : Nat) (buf : List UInt8)
    (enough : ataSectorSize ≤ buf.length) :
    Stored d lba 1 buf (d.wait.2.writeSector lba (buf.take ataSectorSize)) := by
  have first : (d.wait.2.writeSector lba (buf.take ataSectorSize)).sectors lba =
      .ofList (buf.take ataSectorSize) := Function.update_self ..
  refine ⟨?_, fun j out => Function.update_of_ne (by omega) ..⟩
  rw [bytesFrom, bytesFrom, first, Sector.ofList_val (by rw [List.length_take]; omega),
    List.append_nil, Nat.one_mul]

/-- **However the loop ends**, it has stored some of the sectors, and all if it succeeds. -/
theorem writeLoop_stored {lba n : Nat} {buf : List UInt8} {b : Bool} {d' : Ata}
    (ran : d.writeLoop lba n buf = (b, d')) (sized : buf.length = n * ataSectorSize) :
    d'.diskSectors = d.diskSectors ∧
      ∃ k ≤ n, Stored d lba k buf d' ∧ (b = true → k = n) := by
  induction n generalizing d lba buf with
  | zero =>
      rw [writeLoop, Prod.mk.injEq] at ran
      obtain ⟨-, rfl⟩ := ran
      exact ⟨rfl, 0, Nat.le_refl _, .zero (by rfl) lba buf, fun _ => rfl⟩
  | succ n ih =>
      rw [writeLoop] at ran
      by_cases failed : d.wait.1 = false
      · rw [if_pos failed, Prod.mk.injEq] at ran
        obtain ⟨rfl, rfl⟩ := ran
        exact ⟨rfl, 0, Nat.zero_le _, .zero (by rfl) lba buf, fun success => by cases success⟩
      rw [if_neg failed] at ran
      rw [Nat.succ_mul] at sized
      obtain ⟨disk, k, le, stored, all⟩ := ih ran (by rw [List.length_drop]; omega)
      have first := stored_writeSector d lba buf (by omega)
      refine ⟨disk, 1 + k, by omega, first.append ?_, fun success => ?_⟩
      · rwa [Nat.one_mul]
      · rw [all success, Nat.add_comm]

/-- The loop stops at the first wait that fails. -/
theorem writeLoop_stops (lba : Nat) {n k : Nat} {buf : List UInt8} (sized : buf.length = n * ataSectorSize)
    (less : k < n) (answered : ∀ i < k, d.fault (d.waits + i) = false)
    (failed : d.fault (d.waits + k) = true) :
    ∃ d', d.writeLoop lba n buf = (false, d') ∧ Stored d lba k buf d' := by
  induction k generalizing d lba n buf with
  | zero =>
      obtain ⟨m, rfl⟩ : ∃ m, n = m + 1 := ⟨n - 1, by omega⟩
      refine ⟨d.wait.2, ?_, .zero (by rfl) lba buf⟩
      rw [writeLoop]
      exact if_pos (by simpa [wait] using failed)
  | succ k ih =>
      obtain ⟨m, rfl⟩ : ∃ m, n = m + 1 := ⟨n - 1, by omega⟩
      rw [Nat.succ_mul] at sized
      have ready : d.wait.1 = true := by simpa [wait] using answered 0 (by omega)
      have shift : ∀ i, d.waits + 1 + i = d.waits + (i + 1) := fun i => by omega
      obtain ⟨d', ran, stored⟩ := ih (d := d.wait.2.writeSector lba (buf.take ataSectorSize))
        (lba + 1) (show (buf.drop ataSectorSize).length = m * ataSectorSize by
          rw [List.length_drop]
          omega) (by omega)
        (fun i less => by
          show d.fault (d.waits + 1 + i) = false
          rw [shift]
          exact answered (i + 1) (by omega))
        (by
          show d.fault (d.waits + 1 + k) = true
          rw [shift]
          exact failed)
      have first := stored_writeSector d lba buf (by omega)
      refine ⟨d', ?_, ?_⟩
      · rw [writeLoop]
        exact (if_neg (by rw [ready]; simp)).trans ran
      · rw [Nat.add_comm]
        refine first.append ?_
        rwa [Nat.one_mul]

end Ata

/-- A healthy drive delivers what it holds. -/
theorem ataReadSectors_healthy {d : Ata} (ok : d.Healthy) (lba count : Nat)
    (small : lba < 2 ^ 28) :
    ∃ d', ataReadSectors d lba count = (some (Ata.bytesFrom d.sectors lba count), d') ∧
      Ata.Same d d' := by
  obtain ⟨answered, same⟩ := ok.wait
  obtain ⟨d', ran, same'⟩ := (same.healthy ok).readLoop lba count []
  refine ⟨d', ?_, same'.sectors.trans same.sectors, same'.diskSectors.trans same.diskSectors,
    same'.fault.trans same.fault, Nat.le_trans same.waits same'.waits⟩
  rw [ataReadSectors, if_neg ok.1]
  dsimp only
  rw [if_neg (by rw [answered]; simp), Nat.mod_eq_of_lt small, ran, List.nil_append, same.sectors]

/-- A loop that read all its sectors has as many bytes more. -/
theorem Ata.readLoop_length {d d' : Ata} {lba n : Nat} {acc b : List UInt8}
    (ran : d.readLoop lba n acc = (some b, d')) : b.length = acc.length + n * ataSectorSize := by
  induction n generalizing d lba acc with
  | zero =>
      obtain rfl := Option.some.inj (Prod.mk.inj ran).1
      omega
  | succ n ih =>
      rw [readLoop] at ran
      by_cases failed : d.wait.1 = false
      · rw [if_pos failed] at ran
        cases ran
      rw [if_neg failed] at ran
      have length := ih ran
      have sized := (d.wait.2.sectors lba).2
      rw [List.length_append, readSector, sized] at length
      rw [length, Nat.succ_mul]
      omega

/-- A read that succeeds delivers all that was asked for. -/
theorem ataReadSectors_length {d d' : Ata} {lba count : Nat} {b : List UInt8}
    (ran : ataReadSectors d lba count = (some b, d')) : b.length = count * ataSectorSize := by
  unfold ataReadSectors at ran
  by_cases none : d.diskSectors = 0
  · rw [if_pos none] at ran
    cases ran
  rw [if_neg none] at ran
  dsimp only at ran
  by_cases failed : d.wait.1 = false
  · rw [if_pos failed] at ran
    cases ran
  rw [if_neg failed] at ran
  rw [Ata.readLoop_length ran, List.length_nil, Nat.zero_add]

/-- **However a write ends**, it has stored some of the sectors, and all if it succeeds. -/
theorem ataWriteSectors_stored {d d' : Ata} {lba count : Nat} {buf : List UInt8} {b : Bool}
    (ran : ataWriteSectors d lba count buf = (b, d')) (small : lba < 2 ^ 28)
    (sized : buf.length = count * ataSectorSize) :
    d'.diskSectors = d.diskSectors ∧
      ∃ k ≤ count, Ata.Stored d lba k buf d' ∧ (b = true → k = count ∧ d.diskSectors ≠ 0) := by
  unfold ataWriteSectors at ran
  by_cases none : d.diskSectors = 0
  · rw [if_pos none, Prod.mk.injEq] at ran
    obtain ⟨rfl, rfl⟩ := ran
    exact ⟨rfl, 0, Nat.zero_le _, .zero (by rfl) lba buf, fun success => by cases success⟩
  rw [if_neg none, Nat.mod_eq_of_lt small] at ran
  dsimp only at ran
  by_cases failed : d.wait.1 = false
  · rw [if_pos failed, Prod.mk.injEq] at ran
    obtain ⟨rfl, rfl⟩ := ran
    exact ⟨rfl, 0, Nat.zero_le _, .zero (by rfl) lba buf, fun success => by cases success⟩
  rw [if_neg failed] at ran
  obtain ⟨c, u, looped⟩ : ∃ c u, d.wait.2.writeLoop lba count buf = (c, u) := ⟨_, _, rfl⟩
  obtain ⟨disk, k, le, stored, all⟩ := Ata.writeLoop_stored looped sized
  rw [looped] at ran
  cases c with
  | false =>
      rw [if_pos rfl, Prod.mk.injEq] at ran
      obtain ⟨rfl, rfl⟩ := ran
      exact ⟨disk, k, le, ⟨stored.bytes, stored.others⟩, fun success => by cases success⟩
  | true =>
      rw [if_neg (by simp)] at ran
      obtain rfl : u.wait.2 = d' := congrArg Prod.snd ran
      exact ⟨disk, k, le, ⟨stored.bytes, stored.others⟩, fun _ => ⟨all rfl, none⟩⟩

/-- A write stops at the first wait that fails. -/
theorem ataWriteSectors_stops {d : Ata} {lba count k : Nat} {buf : List UInt8}
    (disk : d.diskSectors ≠ 0) (small : lba < 2 ^ 28) (sized : buf.length = count * ataSectorSize)
    (less : k < count) (answered : ∀ i ≤ k, d.fault (d.waits + i) = false)
    (failed : d.fault (d.waits + (k + 1)) = true) :
    ∃ d', ataWriteSectors d lba count buf = (false, d') ∧ Ata.Stored d lba k buf d' := by
  have ready : d.wait.1 = true := by simpa [Ata.wait] using answered 0 (by omega)
  have shift : ∀ i, d.waits + 1 + i = d.waits + (i + 1) := fun i => by omega
  obtain ⟨d', ran, stored⟩ := Ata.writeLoop_stops (d := d.wait.2) lba sized less
    (fun i le => by
      show d.fault (d.waits + 1 + i) = false
      rw [shift]
      exact answered (i + 1) (by omega))
    (by
      show d.fault (d.waits + 1 + k) = true
      rw [shift]
      exact failed)
  refine ⟨d', ?_, ⟨stored.bytes, stored.others⟩⟩
  rw [ataWriteSectors, if_neg disk, Nat.mod_eq_of_lt small]
  dsimp only
  rw [if_neg (by rw [ready]; simp), ran, if_pos rfl]

/-- A healthy drive stores what it is given, and stays healthy. -/
theorem ataWriteSectors_healthy {d : Ata} (ok : d.Healthy) (lba count : Nat) (buf : List UInt8) :
    ∃ d', ataWriteSectors d lba count buf = (true, d') ∧ d'.Healthy := by
  obtain ⟨answered, same⟩ := ok.wait
  obtain ⟨u, ran, ok'⟩ := (same.healthy ok).writeLoop (lba % 2 ^ 28) count buf
  obtain ⟨answered', same'⟩ := ok'.wait
  refine ⟨u.wait.2, ?_, same'.healthy ok'⟩
  rw [ataWriteSectors, if_neg ok.1]
  dsimp only
  rw [if_neg (by rw [answered]; simp), ran, if_neg (by simp), ← answered']

/-! ## One sector -/

/-- A healthy drive delivers one sector. -/
theorem ataReadSectors_one {d : Ata} (ok : d.Healthy) {lba : Nat} (small : lba < 2 ^ 28) :
    ataReadSectors d lba 1 = (some (d.sectors lba).1,
      { d with waits := d.waits + 2, touched := lba :: d.touched }) := by
  have first := ok.2 d.waits (Nat.le_refl _)
  have second := ok.2 (d.waits + 1) (Nat.le_succ _)
  rw [ataReadSectors, Nat.mod_eq_of_lt small]
  simp [ok.1, Ata.wait, Ata.readLoop, Ata.readSector, first, second]

/-- A healthy drive stores one sector. -/
theorem ataWriteSectors_one {d : Ata} (ok : d.Healthy) {lba : Nat} (small : lba < 2 ^ 28)
    {buf : List UInt8} (sized : buf.length = ataSectorSize) :
    ataWriteSectors d lba 1 buf = (true,
      { d with sectors := Function.update d.sectors lba (.ofList buf), waits := d.waits + 3,
               touched := lba :: d.touched }) := by
  have first := ok.2 d.waits (Nat.le_refl _)
  have second := ok.2 (d.waits + 1) (Nat.le_succ _)
  have third := ok.2 (d.waits + 2) (by omega)
  rw [ataWriteSectors, Nat.mod_eq_of_lt small]
  simp [ok.1, Ata.wait, Ata.writeLoop, Ata.writeSector, first, second, third, ← sized]

end Flyos
