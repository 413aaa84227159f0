import Flyos.Fs.Fat16Read
import Flyos.Lib.Runs

/-!
# The divisors of the FAT16 code

`fat16_init` copies the bytes of a sector and the sectors of a cluster from the boot sector, and
every function divides by the first or by their product.  `neverDivides_iff` says which boot
sectors never lead to a division by zero, whatever else is on the disk, whichever transfers fail
and whatever is called: those in which neither is zero.
-/

namespace Flyos

/-- The calls of the volume, with what is passed to them. -/
inductive VolumeCall
  | list (max : Int)
  | read (name : List UInt8) (max : Int)
  | write (name data : List UInt8) (size : Int)
  | delete (name : List UInt8)
  | size (name : List UInt8)

/-- What a call leaves of the drive. -/
def volumeCall (g : Fat16) (kmalloc : Nat → Bool) (fuel : Nat) (d : Ata) :
    VolumeCall → Except Fat16Trap Ata
  | .list max => (fat16ListRoot g kmalloc d max).map Prod.snd
  | .read name max => (fat16ReadFile g kmalloc fuel d name max).map Prod.snd
  | .write name data size => (fat16WriteFile g fuel d name data size).map Prod.snd
  | .delete name => (fat16DeleteFile g fuel d name).map Prod.snd
  | .size name => (fat16FileSize g kmalloc d name).map Prod.snd

/-- A step: a call that ends, with any outcome of the `kmalloc` in it. -/
def VolumeStep (g : Fat16) (d : Ata) (call : VolumeCall) (d' : Ata) : Prop :=
  ∃ kmalloc fuel, volumeCall g kmalloc fuel d call = .ok d'

/-- **A boot sector never leads to a division by zero**: not in `fat16_init`, and not in any call
after any others, on any disk that begins with it. -/
def NeverDivides (boot : Sector) : Prop :=
  ∀ d partLba, d.sectors (partLba % 2 ^ 28) = boot →
    fat16Init .initial d partLba ≠ .error .divide ∧
    ∀ g u calls d', fat16Init .initial d partLba = .ok (g, u) → Run (VolumeStep g) u calls d' →
      ∀ kmalloc fuel call, volumeCall g kmalloc fuel d' call ≠ .error .divide

/-- A computation without a division by zero. -/
abbrev NoDivide {α : Type} (x : Except Fat16Trap α) : Prop := x ≠ .error .divide

variable {α β : Type} {x : Except Fat16Trap α} {g : Fat16} {d d' : Ata} {c n fuel : Nat}

theorem noDivide_ok (a : α) : NoDivide (.ok a) := by
  rintro ⟨⟩

theorem NoDivide.map (safe : NoDivide x) (f : α → β) : NoDivide (x.map f) := by
  cases x with
  | error trap => exact fun eq => safe (congrArg Except.error (Except.error.inj eq))
  | ok a => exact noDivide_ok _

theorem NoDivide.bind (safe : NoDivide x) {f : α → Except Fat16Trap β}
    (next : ∀ a, NoDivide (f a)) : NoDivide (x.bind f) := by
  cases x with
  | error trap => exact fun eq => safe (congrArg Except.error (Except.error.inj eq))
  | ok a => exact next a

/-! ## The functions -/

/-- The volume has what the functions divide by. -/
structure HasDivisors (g : Fat16) : Prop where
  bytes : g.bytesPerSector ≠ 0
  sectors : g.sectorsPerCluster ≠ 0

theorem noDivide_rootSectors (bytes : g.bytesPerSector ≠ 0) : NoDivide g.rootSectors := by
  rw [Fat16.rootSectors, if_neg bytes]
  exact noDivide_ok _

theorem noDivide_numClusters (divisors : HasDivisors g) (size : Nat) :
    NoDivide (numClusters g size) := by
  rw [numClusters, if_neg (Nat.mul_ne_zero divisors.sectors divisors.bytes)]
  exact noDivide_ok _

theorem noDivide_freeChain (g : Fat16) (fuel : Nat) (d : Ata) (c : Nat) :
    NoDivide (freeChain g fuel d c) := by
  induction fuel generalizing d c with
  | zero => rintro ⟨⟩
  | succ fuel ih =>
      rw [freeChain]
      split
      · exact ih _ _
      · exact noDivide_ok _

theorem noDivide_readChain (g : Fat16) (size fuel : Nat) (d : Ata) (c : Nat) (acc : List UInt8) :
    NoDivide (readChain g size fuel d c acc) := by
  induction fuel generalizing d c acc with
  | zero => rintro ⟨⟩
  | succ fuel ih =>
      rw [readChain]
      split
      · dsimp only
        split
        · exact noDivide_ok _
        · exact ih _ _ _
      · exact noDivide_ok _

theorem noDivide_writeChain (g : Fat16) (fuel : Nat) (d : Ata) (c : Nat) (src : List UInt8) :
    NoDivide (writeChain g fuel d c src) := by
  induction fuel generalizing d c src with
  | zero => rintro ⟨⟩
  | succ fuel ih =>
      rw [writeChain]
      split
      · dsimp only
        split
        · exact noDivide_ok _
        · exact ih _ _ _
      · exact noDivide_ok _

theorem noDivide_allocChain (g : Fat16) (fuel n : Nat) (d : Ata) (first prev : Nat) :
    NoDivide (allocChain g fuel n d first prev) := by
  induction n generalizing d first prev with
  | zero => rintro ⟨⟩
  | succ n ih =>
      rw [allocChain]
      split
      · split
        · exact (noDivide_freeChain g fuel _ first).map _
        · exact noDivide_ok _
      · split
        · exact ih _ _ _
        · exact ih _ _ _

theorem noDivide_fat16DeleteFile (bytes : g.bytesPerSector ≠ 0) (fuel : Nat) (d : Ata)
    (name : List UInt8) : NoDivide (fat16DeleteFile g fuel d name) := by
  refine (noDivide_rootSectors bytes).bind fun n => ?_
  split
  · exact (noDivide_freeChain g fuel _ _).map _
  · exact noDivide_ok _

theorem noDivide_fat16WriteFile (divisors : HasDivisors g) (fuel : Nat) (d : Ata)
    (name data : List UInt8) (size : Int) : NoDivide (fat16WriteFile g fuel d name data size) := by
  rw [fat16WriteFile]
  split
  · exact noDivide_ok _
  refine (noDivide_fat16DeleteFile divisors.bytes fuel d name).bind fun deleted => ?_
  refine (noDivide_numClusters divisors _).bind fun n => ?_
  refine (noDivide_allocChain g fuel n deleted.2 0 0).bind fun taken => ?_
  split
  · exact noDivide_ok _
  · refine (noDivide_writeChain g fuel _ _ _).bind fun written => ?_
    split
    · exact noDivide_ok _
    · exact (noDivide_rootSectors divisors.bytes).map _

theorem noDivide_fat16ReadFile (bytes : g.bytesPerSector ≠ 0) (kmalloc : Nat → Bool) (fuel : Nat)
    (d : Ata) (name : List UInt8) (max : Int) :
    NoDivide (fat16ReadFile g kmalloc fuel d name max) := by
  refine ((noDivide_rootSectors bytes).map _).bind fun found => ?_
  obtain ⟨e, u⟩ := found
  cases e with
  | none => exact noDivide_ok _
  | some e =>
      show NoDivide (if readSize max e = 0 ∨ direntCluster e < 2 then .ok ((0, []), u) else
        (readChain g (readSize max e) fuel u (direntCluster e) []).map _)
      split
      · exact noDivide_ok _
      · exact (noDivide_readChain g _ fuel u _ []).map _

/-- **No call divides by zero** where the divisors are there. -/
theorem noDivide_volumeCall (divisors : HasDivisors g) (kmalloc : Nat → Bool) (fuel : Nat) (d : Ata)
    (call : VolumeCall) : NoDivide (volumeCall g kmalloc fuel d call) := by
  cases call with
  | list max => exact ((noDivide_rootSectors divisors.bytes).map _).map _
  | read name max => exact (noDivide_fat16ReadFile divisors.bytes kmalloc fuel d name max).map _
  | write name data size => exact (noDivide_fat16WriteFile divisors fuel d name data size).map _
  | delete name => exact (noDivide_fat16DeleteFile divisors.bytes fuel d name).map _
  | size name => exact (((noDivide_rootSectors divisors.bytes).map _).map _).map _

/-! ## The boot sector -/

/-- A sector that is read is the one of the drive. -/
theorem readSector_some {lba : Nat} {buf : List UInt8} (read : readSector g d lba = (some buf, d')) :
    buf = (d.sectors ((g.partLba + lba) % 2 ^ 28)).1 := by
  rw [readSector, ataReadSectors] at read
  by_cases none : d.diskSectors = 0
  · rw [if_pos none] at read
    cases read
  rw [if_neg none] at read
  dsimp only at read
  by_cases failed : d.wait.1 = false
  · rw [if_pos failed] at read
    cases read
  rw [if_neg failed, Ata.readLoop] at read
  dsimp only at read
  by_cases failed' : d.wait.2.wait.1 = false
  · rw [if_pos failed'] at read
    cases read
  · rw [if_neg failed', Ata.readLoop] at read
    exact (Option.some.inj (Prod.mk.inj read).1).symm

/-- What `fat16_init` leaves: the fields it started with, or those of the boot sector. -/
theorem fat16Init_cases (d : Ata) (partLba : Nat) :
    (∃ u, fat16Init .initial d partLba = .ok ({ Fat16.initial with partLba }, u)) ∨
      fat16Init .initial d partLba =
        ((Fat16.ofBootSector partLba (d.sectors (partLba % 2 ^ 28)).1).rootSectors.map fun n =>
          ({ Fat16.ofBootSector partLba (d.sectors (partLba % 2 ^ 28)).1 with
              dataStartLba := (Fat16.ofBootSector partLba (d.sectors (partLba % 2 ^ 28)).1).rootStartLba + n },
            (readSector { Fat16.initial with partLba } d 0).2)) := by
  rw [fat16Init]
  dsimp only
  cases read : readSector { Fat16.initial with partLba } d 0 with
  | mk sector u =>
  cases sector with
  | none => exact .inl ⟨u, rfl⟩
  | some boot =>
      obtain rfl := readSector_some read
      exact .inr rfl

/-- What it leaves divides by nothing that is zero, if the boot sector has the divisors. -/
theorem fat16Init_divisors {partLba : Nat} {u : Ata}
    (bytes : word (d.sectors (partLba % 2 ^ 28)).1 11 ≠ 0)
    (sectors : (d.sectors (partLba % 2 ^ 28)).1.getD 13 0 ≠ 0)
    (init : fat16Init .initial d partLba = .ok (g, u)) : HasDivisors g := by
  rcases fat16Init_cases d partLba with ⟨u', kept⟩ | copied
  · rw [kept] at init
    cases init
    exact ⟨Nat.succ_ne_zero 511, Nat.one_ne_zero⟩
  · rw [copied, Fat16.rootSectors] at init
    split at init
    · cases init
    · cases init
      exact ⟨bytes, fun zero => sectors (UInt8.toNat_inj.mp zero)⟩

/-! ## A drive that fails -/

/-- A drive with the boot sector everywhere that answers for one transfer only. -/
def failingAfter (boot : Sector) : Ata where
  sectors _ := boot
  diskSectors := 1
  fault n := decide (2 ≤ n)
  waits := 0
  touched := []

/-- The one transfer. -/
theorem failingAfter_reads (boot : Sector) : ∃ u,
    readSector { Fat16.initial with partLba := 0 } (failingAfter boot) 0 = (some boot.1, u) ∧
      ∀ g lba, readSector g u lba = (none, u.wait.2) :=
  ⟨_, rfl, fun _ _ => rfl⟩

/-- A blank number of bytes in a sector is divided by at once. -/
theorem fat16Init_divides {boot : Sector} (bytes : word boot.1 11 = 0) :
    fat16Init .initial (failingAfter boot) 0 = .error .divide := by
  obtain ⟨u, reads, -⟩ := failingAfter_reads boot
  rw [fat16Init]
  dsimp only
  rw [reads]
  dsimp only
  rw [Fat16.rootSectors, if_pos (show (Fat16.ofBootSector 0 boot.1).bytesPerSector = 0 from bytes)]
  rfl

/-- A blank number of sectors in a cluster is divided by in the next write. -/
theorem fat16Write_divides {boot : Sector} (bytes : word boot.1 11 ≠ 0)
    (sectors : boot.1.getD 13 0 = 0) : ∃ g u,
    fat16Init .initial (failingAfter boot) 0 = .ok (g, u) ∧
      fat16WriteFile g 1 u [] [] 0 = .error .divide := by
  obtain ⟨u, reads, fails⟩ := failingAfter_reads boot
  have bytes' : (Fat16.ofBootSector 0 boot.1).bytesPerSector ≠ 0 := bytes
  refine ⟨{ Fat16.ofBootSector 0 boot.1 with
    dataStartLba := (Fat16.ofBootSector 0 boot.1).rootStartLba + (Fat16.ofBootSector 0 boot.1).rootCount },
    u, ?_, ?_⟩
  · rw [fat16Init]
    dsimp only
    rw [reads]
    dsimp only
    rw [Fat16.rootSectors, if_neg bytes']
    rfl
  generalize volume : ({ Fat16.ofBootSector 0 boot.1 with
    dataStartLba := (Fat16.ofBootSector 0 boot.1).rootStartLba +
      (Fat16.ofBootSector 0 boot.1).rootCount } : Fat16) = g
  have some_ : g.bytesPerSector ≠ 0 := volume ▸ bytes'
  have none : g.sectorsPerCluster = 0 := by
    rw [← volume]
    exact congrArg UInt8.toNat sectors
  -- the root directory cannot be read, so nothing is deleted
  have deleted : ∃ u', fat16DeleteFile g 1 u [] = .ok (false, u') := by
    rw [fat16DeleteFile, Fat16.rootSectors, if_neg some_]
    dsimp only [Except.bind]
    generalize (g.rootEntries * 32 + g.bytesPerSector - 1) / g.bytesPerSector = n
    cases n with
    | zero => exact ⟨u, rfl⟩
    | succ n =>
        rw [scanRoot, fails]
        exact ⟨_, rfl⟩
  obtain ⟨u', deleted⟩ := deleted
  rw [fat16WriteFile, if_neg (by decide)]
  dsimp only
  rw [deleted, numClusters, none, Nat.zero_mul, if_pos rfl]
  rfl

/-- **Which boot sectors never lead to a division by zero**: those that have bytes in a sector
and sectors in a cluster.  `fat16_init` checks none of the fields that it copies.  Sectors of no
bytes divide by zero in the size of the root directory, clusters of no sectors in the first
write; with both nonzero no call of any run divides by zero. -/
theorem neverDivides_iff (boot : Sector) :
    NeverDivides boot ↔ word boot.1 11 ≠ 0 ∧ boot.1.getD 13 0 ≠ 0 := by
  constructor
  · intro never
    have bytes : word boot.1 11 ≠ 0 := fun bytes =>
      (never (failingAfter boot) 0 rfl).1 (fat16Init_divides bytes)
    refine ⟨bytes, fun sectors => ?_⟩
    obtain ⟨g, u, init, divides⟩ := fat16Write_divides bytes sectors
    refine (never (failingAfter boot) 0 rfl).2 g u [] u init (.nil u) (fun _ => true) 1
      (.write [] [] 0) ?_
    rw [volumeCall, divides]
    rfl
  · rintro ⟨bytes, sectors⟩ d partLba rfl
    refine ⟨?_, fun g u calls d' init _ kmalloc fuel call =>
      noDivide_volumeCall (fat16Init_divisors bytes sectors init) kmalloc fuel d' call⟩
    rcases fat16Init_cases d partLba with ⟨u, kept⟩ | copied
    · rw [kept]
      exact noDivide_ok _
    · rw [copied]
      exact (noDivide_rootSectors bytes).map _

/-- **A blank disk makes `fat16_init` divide by zero.** -/
theorem blank_divides : ¬ NeverDivides (.ofList []) := fun never =>
  (never (failingAfter (.ofList [])) 0 rfl).1 (fat16Init_divides (by decide +kernel))

end Flyos
