import Flyos.Fs.Fat16Disk

/-!
# Reading into the caller's buffer

`fat16_read_file` stores what a chain holds until it has as many bytes as the directory entry
and the caller's `max` allow.  The size, the chain and the sectors of a cluster come from the
disk.  `readHonest_iff` says when the read ends and stays within `max` bytes: a negative `max`
passes for a large one, and where a cluster has no sectors only the end of the chain ends
the loop.
-/

namespace Flyos

/-- **An honest read**: it ends, stores at most `max` bytes, and returns how many, or a negative
result. -/
def ReadHonest (g : Fat16) (kmalloc : Nat → Bool) (d : Ata) (name : List UInt8) (max : Int) : Prop :=
  ∃ r out d' rounds,
    (∀ fuel, rounds < fuel → fat16ReadFile g kmalloc fuel d name max = .ok ((r, out), d')) ∧
    out.length ≤ max.toNat ∧ (0 ≤ r → r = out.length)

/-- The first sector of a cluster cannot be read. -/
def FirstFails (g : Fat16) (d : Ata) (cluster : Nat) : Prop :=
  (readSector g d (g.dataStartLba + (cluster - 2) * g.sectorsPerCluster)).1 = none

/-- `fat_next`, again and again, leads to the end of the chain. -/
def ChainLeaves (g : Fat16) (d : Ata) (cluster : Nat) : Prop :=
  ∃ n, ¬ InChain ((fun p : Nat × Ata => fatNext g p.2 p.1)^[n] (cluster, d)).1

/-- The condition, for the entry that was found: there is nothing to read, or `max` is positive,
or the first sector cannot be read; where a cluster has no sectors, the chain has an end. -/
def ReadFits (g : Fat16) (max : Int) (e : List UInt8) (d : Ata) : Prop :=
  max = 0 ∨ direntSize e = 0 ∨ ¬ InChain (direntCluster e) ∨
    if g.sectorsPerCluster = 0 then ChainLeaves g d (direntCluster e)
    else 0 < max ∨ FirstFails g d (direntCluster e)

variable {g : Fat16} {d d' : Ata} {size n lba c fuel : Nat} {acc out : List UInt8} {b : Bool}

/-! ## One cluster -/

/-- The bytes of a cluster are added behind what is there, up to the size. -/
theorem readCluster_bounds (ran : readCluster g size n lba d acc = (b, out, d')) :
    acc.length ≤ out.length ∧ (acc.length ≤ size → out.length ≤ size) := by
  induction n generalizing lba d acc with
  | zero =>
      cases ran
      exact ⟨Nat.le_refl _, id⟩
  | succ n ih =>
      rw [readCluster] at ran
      by_cases full : size ≤ acc.length
      · rw [if_pos full] at ran
        cases ran
        exact ⟨Nat.le_refl _, id⟩
      rw [if_neg full] at ran
      cases read : readSector g d lba with
      | mk sector u =>
      rw [read] at ran
      cases sector with
      | none =>
          cases ran
          exact ⟨Nat.le_refl _, id⟩
      | some buf =>
          obtain ⟨grows, bounded⟩ := ih ran
          have taken : (buf.take (size - acc.length)).length ≤ size - acc.length :=
            List.length_take_le ..
          rw [List.length_append] at grows bounded
          exact ⟨by omega, fun le => bounded (by omega)⟩

/-- A cluster with a sector either fails at the first one, or adds bytes. -/
theorem readCluster_cases (ran : readCluster g size (n + 1) lba d acc = (b, out, d'))
    (less : acc.length < size) :
    ((readSector g d lba).1 = none ∧ b = false ∧ out = acc) ∨
      ((readSector g d lba).1 ≠ none ∧ acc.length < out.length) := by
  rw [readCluster, if_neg (Nat.not_le_of_lt less)] at ran
  cases read : readSector g d lba with
  | mk sector u =>
  rw [read] at ran
  cases sector with
  | none =>
      cases ran
      exact .inl ⟨rfl, rfl, rfl⟩
  | some buf =>
      have sized : buf.length = 512 := (ataReadSectors_length read).trans (Nat.one_mul _)
      have grows := (readCluster_bounds ran).1
      rw [List.length_append, List.length_take, sized] at grows
      exact .inr ⟨by simp, by omega⟩

/-! ## A chain -/

/-- What is stored stays. -/
theorem readChain_grows (ran : readChain g size fuel d c acc = .ok (b, out, d')) :
    acc.length ≤ out.length := by
  induction fuel generalizing d c acc with
  | zero => cases ran
  | succ fuel ih =>
      rw [readChain] at ran
      by_cases inside : InChain c ∧ acc.length < size
      · rw [if_pos inside] at ran
        dsimp only at ran
        cases stored : readCluster g size g.sectorsPerCluster
            (g.dataStartLba + (c - 2) * g.sectorsPerCluster) d acc with
        | mk whole r =>
        obtain ⟨out', u⟩ := r
        have grows := (readCluster_bounds stored).1
        rw [stored] at ran
        cases whole with
        | false =>
            cases ran
            exact grows
        | true => exact Nat.le_trans grows (ih ran)
      · rw [if_neg inside] at ran
        cases ran
        exact Nat.le_refl _

/-- **Where a cluster has sectors the loop ends**, at the latest when the size is reached: every
round adds a byte. -/
theorem readChain_ends (sectors : g.sectorsPerCluster ≠ 0) (d : Ata) (c : Nat)
    (le : acc.length ≤ size) :
    ∃ b out d', (∀ fuel, size - acc.length < fuel → readChain g size fuel d c acc = .ok (b, out, d')) ∧
      out.length ≤ size := by
  generalize room : size - acc.length = k
  induction k using Nat.strong_induction_on generalizing d c acc with
  | _ k ih =>
      by_cases inside : InChain c ∧ acc.length < size
      · cases stored : readCluster g size g.sectorsPerCluster
            (g.dataStartLba + (c - 2) * g.sectorsPerCluster) d acc with
        | mk whole r =>
        obtain ⟨out', u⟩ := r
        have bounded := (readCluster_bounds stored).2 le
        have round : ∀ fuel, readChain g size (fuel + 1) d c acc =
            if whole then readChain g size fuel (fatNext g u c).2 (fatNext g u c).1 out'
            else .ok (false, out', u) := by
          intro fuel
          rw [readChain, if_pos inside]
          dsimp only
          rw [stored]
          cases whole <;> rfl
        cases whole with
        | false =>
            refine ⟨false, out', u, fun fuel enough => ?_, bounded⟩
            obtain ⟨fuel, rfl⟩ := Nat.exists_eq_succ_of_ne_zero (Nat.ne_of_gt (Nat.zero_lt_of_lt enough))
            exact round fuel
        | true =>
            obtain ⟨m, positive⟩ := Nat.exists_eq_succ_of_ne_zero sectors
            rw [positive] at stored
            have more : acc.length < out'.length := by
              rcases readCluster_cases stored inside.2 with ⟨-, fails, -⟩ | ⟨-, more⟩
              · cases fails
              · exact more
            obtain ⟨b, out, d', ran, fits⟩ := ih (size - out'.length) (by omega)
              (fatNext g u c).2 (fatNext g u c).1 bounded rfl
            refine ⟨b, out, d', fun fuel enough => ?_, fits⟩
            obtain ⟨fuel, rfl⟩ := Nat.exists_eq_succ_of_ne_zero (Nat.ne_of_gt (Nat.zero_lt_of_lt enough))
            rw [round fuel]
            exact ran fuel (by omega)
      · refine ⟨true, acc, d, fun fuel enough => ?_, le⟩
        obtain ⟨fuel, rfl⟩ := Nat.exists_eq_succ_of_ne_zero (Nat.ne_of_gt (Nat.zero_lt_of_lt enough))
        rw [readChain, if_neg inside]

/-- Where a cluster has no sectors a round only looks up the next cluster. -/
theorem readChain_noSectors (none : g.sectorsPerCluster = 0) (some_ : 0 < size) :
    readChain g size (fuel + 1) d c [] =
      if InChain c then readChain g size fuel (fatNext g d c).2 (fatNext g d c).1 []
      else .ok (true, [], d) := by
  rw [readChain, none]
  by_cases inside : InChain c
  · rw [if_pos ⟨inside, some_⟩, if_pos inside]
    rfl
  · rw [if_neg fun both => inside both.1, if_neg inside]

/-- There the loop ends with the chain, with nothing stored. -/
theorem readChain_leaves (none : g.sectorsPerCluster = 0) (some_ : 0 < size)
    (leaves : ¬ InChain ((fun p : Nat × Ata => fatNext g p.2 p.1)^[n] (c, d)).1) :
    ∃ d', ∀ fuel, n < fuel → readChain g size fuel d c [] = .ok (true, [], d') := by
  induction n generalizing d c with
  | zero =>
      refine ⟨d, fun fuel enough => ?_⟩
      obtain ⟨fuel, rfl⟩ := Nat.exists_eq_succ_of_ne_zero (Nat.ne_of_gt enough)
      rw [readChain_noSectors none some_, if_neg (show ¬ InChain c from leaves)]
  | succ n ih =>
      obtain ⟨d', ran⟩ := ih (d := (fatNext g d c).2) (c := (fatNext g d c).1) leaves
      by_cases inside : InChain c
      · refine ⟨d', fun fuel enough => ?_⟩
        obtain ⟨fuel, rfl⟩ :=
          Nat.exists_eq_succ_of_ne_zero (Nat.ne_of_gt (Nat.zero_lt_of_lt enough))
        rw [readChain_noSectors none some_, if_pos inside]
        exact ran fuel (Nat.lt_of_succ_lt_succ enough)
      · refine ⟨d, fun fuel enough => ?_⟩
        obtain ⟨fuel, rfl⟩ :=
          Nat.exists_eq_succ_of_ne_zero (Nat.ne_of_gt (Nat.zero_lt_of_lt enough))
        rw [readChain_noSectors none some_, if_neg inside]

/-- And it ends only there. -/
theorem chainLeaves_of_readChain (none : g.sectorsPerCluster = 0) (some_ : 0 < size)
    (ran : readChain g size fuel d c [] = .ok (b, out, d')) : ChainLeaves g d c := by
  induction fuel generalizing d c with
  | zero => cases ran
  | succ fuel ih =>
      rw [readChain_noSectors none some_] at ran
      by_cases inside : InChain c
      · rw [if_pos inside] at ran
        obtain ⟨n, leaves⟩ := ih ran
        exact ⟨n + 1, leaves⟩
      · exact ⟨0, inside⟩

/-- Where a cluster has sectors, nothing is stored exactly when the first one cannot be read. -/
theorem readChain_nil_iff (sectors : g.sectorsPerCluster ≠ 0) (some_ : 0 < size) (inside : InChain c)
    (ran : readChain g size (fuel + 1) d c [] = .ok (b, out, d')) : out = [] ↔ FirstFails g d c := by
  rw [readChain, if_pos ⟨inside, some_⟩] at ran
  dsimp only at ran
  cases stored : readCluster g size g.sectorsPerCluster
      (g.dataStartLba + (c - 2) * g.sectorsPerCluster) d [] with
  | mk whole r =>
  obtain ⟨first, u⟩ := r
  rw [stored] at ran
  obtain ⟨m, eq⟩ := Nat.exists_eq_succ_of_ne_zero sectors
  rw [eq] at stored
  have either := readCluster_cases stored some_
  rw [← eq] at either
  rcases either with ⟨fails, rfl, rfl⟩ | ⟨reads, more⟩
  · cases ran
    exact iff_of_true rfl fails
  · refine iff_of_false (fun empty => ?_) reads
    have grows : first.length ≤ out.length := by
      cases whole with
      | false =>
          cases ran
          exact Nat.le_refl _
      | true => exact readChain_grows ran
    rw [empty] at grows
    exact absurd more (Nat.not_lt.mpr grows)

/-! ## A call -/

variable {kmalloc : Nat → Bool} {name e : List UInt8} {max : Int}

/-- What `fat16_init` accepts has bytes in a sector. -/
theorem fat16Init_bytes {old : Ata} {partLba : Nat}
    (accepted : fat16Init .initial old partLba = .ok (g, d)) : g.bytesPerSector ≠ 0 := by
  unfold fat16Init at accepted
  dsimp only at accepted
  split at accepted
  · cases accepted
    exact Nat.succ_ne_zero 511
  · rw [Fat16.rootSectors] at accepted
    split at accepted
    · cases accepted
    · next bytes =>
        cases accepted
        exact bytes

/-- The lookup has a result where a sector has bytes. -/
theorem findRootEntry_ok (bytes : g.bytesPerSector ≠ 0) (kmalloc : Nat → Bool) (d : Ata)
    (name : List UInt8) : ∃ found d', findRootEntry g kmalloc d name = .ok (found, d') := by
  rw [findRootEntry, Fat16.rootSectors, if_neg bytes]
  exact ⟨_, _, rfl⟩

/-- The number of bytes to read: `size`, after the comparison with `(uint32_t)max`. -/
def readSize (max : Int) (e : List UInt8) : Nat :=
  if (max % 2 ^ 32).toNat < direntSize e then (max % 2 ^ 32).toNat else direntSize e

/-- What a read makes of the entry that was found. -/
theorem fat16ReadFile_found (found : findRootEntry g kmalloc d name = .ok (some e, d')) (max : Int)
    (fuel : Nat) :
    fat16ReadFile g kmalloc fuel d name max =
      if readSize max e = 0 ∨ direntCluster e < 2 then .ok ((0, []), d')
      else (readChain g (readSize max e) fuel d' (direntCluster e) []).map fun r =>
        ((if r.1 then Int.bmod r.2.1.length (2 ^ 32) else -1, r.2.1), r.2.2) := by
  rw [fat16ReadFile, found]
  rfl

theorem direntSize_lt (e : List UInt8) : direntSize e < 2 ^ 32 := by
  have low := word_lt e 28
  have high := word_lt e 30
  rw [direntSize]
  omega

/-- There is nothing to read where nothing is wanted, or the file is empty. -/
theorem readSize_eq_zero_iff (range : -2 ^ 31 ≤ max ∧ max < 2 ^ 31) :
    readSize max e = 0 ↔ max = 0 ∨ direntSize e = 0 := by
  rw [readSize]
  split <;> omega

/-- A positive `max` bounds what is read. -/
theorem readSize_le (positive : 0 < max) (range : max < 2 ^ 31) : readSize max e ≤ max.toNat := by
  rw [readSize]
  split <;> omega

/-- With a cluster to start from, and no sectors in one: the read is honest when it ends. -/
theorem readHonest_noSectors (found : findRootEntry g kmalloc d name = .ok (some e, d'))
    (wanted : ¬ (readSize max e = 0 ∨ direntCluster e < 2)) (none : g.sectorsPerCluster = 0) :
    ReadHonest g kmalloc d name max ↔ ChainLeaves g d' (direntCluster e) := by
  have call := fat16ReadFile_found found max
  simp only [if_neg wanted] at call
  have positive : 0 < readSize max e := Nat.pos_of_ne_zero (not_or.mp wanted).1
  constructor
  · rintro ⟨r, out, u, rounds, ran, -⟩
    have once := ran (rounds + 1) (Nat.lt_succ_self _)
    rw [call] at once
    cases chain : readChain g (readSize max e) (rounds + 1) d' (direntCluster e) [] with
    | error trap =>
        rw [chain] at once
        cases once
    | ok r => exact chainLeaves_of_readChain none positive chain
  · rintro ⟨n, leaves⟩
    obtain ⟨u, ran⟩ := readChain_leaves none positive leaves
    refine ⟨0, [], u, n, fun fuel enough => ?_, Nat.zero_le _, fun _ => rfl⟩
    rw [call, ran fuel enough]
    simp [Except.map]

/-- With sectors in a cluster: when `max` is positive, or nothing can be stored. -/
theorem readHonest_sectors (range : -2 ^ 31 ≤ max ∧ max < 2 ^ 31)
    (found : findRootEntry g kmalloc d name = .ok (some e, d'))
    (wanted : ¬ (readSize max e = 0 ∨ direntCluster e < 2)) (sectors : g.sectorsPerCluster ≠ 0) :
    ReadHonest g kmalloc d name max ↔
      ¬ InChain (direntCluster e) ∨ 0 < max ∨ FirstFails g d' (direntCluster e) := by
  obtain ⟨b, out, u, ran, fits⟩ := readChain_ends sectors d' (direntCluster e)
    (show ([] : List UInt8).length ≤ readSize max e from Nat.zero_le _)
  have result : ∀ fuel, readSize max e < fuel → fat16ReadFile g kmalloc fuel d name max =
      .ok ((if b then Int.bmod out.length (2 ^ 32) else -1, out), u) := by
    intro fuel enough
    rw [fat16ReadFile_found found, if_neg wanted, ran fuel enough]
    rfl
  have small := direntSize_lt e
  have honest_iff : ReadHonest g kmalloc d name max ↔ out.length ≤ max.toNat := by
    constructor
    · rintro ⟨r, out', u', rounds, ran', le, -⟩
      have same := (ran' (rounds + readSize max e + 1) (by omega)).symm.trans
        (result (rounds + readSize max e + 1) (by omega))
      cases same
      exact le
    · intro le
      refine ⟨_, out, u, readSize max e, result, le, fun notNegative => ?_⟩
      cases b with
      | false =>
          rw [if_neg Bool.false_ne_true] at notNegative
          omega
      | true =>
          rw [if_pos rfl]
          exact Int.bmod_eq_of_le (by omega) (by omega)
  rw [honest_iff]
  by_cases up : 0 < max
  · have le := readSize_le (e := e) up range.2
    exact iff_of_true (by omega) (.inr (.inl up))
  -- where `max` is negative there is room for nothing
  have no_room : max.toNat = 0 := by omega
  rw [no_room, Nat.le_zero, List.length_eq_zero_iff, or_iff_right up]
  have once := ran (readSize max e + 1) (Nat.lt_succ_self _)
  by_cases inside : InChain (direntCluster e)
  · rw [or_iff_right (not_not_intro inside)]
    exact readChain_nil_iff sectors (Nat.pos_of_ne_zero (not_or.mp wanted).1) inside once
  · rw [readChain, if_neg fun both => inside both.1] at once
    cases once
    exact iff_of_true rfl (.inl inside)

/-- **When the read of an entry is honest.** -/
theorem readFound_iff (range : -2 ^ 31 ≤ max ∧ max < 2 ^ 31)
    (found : findRootEntry g kmalloc d name = .ok (some e, d')) :
    ReadHonest g kmalloc d name max ↔ ReadFits g max e d' := by
  have zero := readSize_eq_zero_iff (e := e) range
  by_cases nothing : readSize max e = 0 ∨ direntCluster e < 2
  · refine iff_of_true ⟨0, [], d', 0, fun fuel _ => by
      rw [fat16ReadFile_found found, if_pos nothing], Nat.zero_le _, fun _ => rfl⟩ ?_
    rcases nothing with empty | small
    · exact (zero.mp empty).imp_right .inl
    · exact .inr (.inr (.inl fun inside => by omega))
  obtain ⟨some_, full⟩ := not_or.mp (zero.not.mp (not_or.mp nothing).1)
  rw [ReadFits, or_iff_right some_, or_iff_right full]
  by_cases none : g.sectorsPerCluster = 0
  · rw [if_pos none, readHonest_noSectors found nothing none,
      or_iff_right_of_imp fun out => ⟨0, out⟩]
  · rw [if_neg none, readHonest_sectors range found nothing none]

/-- **When a read stays within the caller's buffer**: in whatever state the drive is, exactly
when nothing is found or what is found fits.  `max` is compared as an unsigned number, so a
negative one cuts nothing off, and bytes are written unless there is nothing to read or the first
sector fails.  `ReadFits` is about the entry and the drive before the loop. -/
theorem readHonest_iff {old : Ata} {partLba : Nat} (accepted : fat16Init .initial old partLba = .ok (g, d'))
    (kmalloc : Nat → Bool) (d : Ata) (name : List UInt8) (range : -2 ^ 31 ≤ max ∧ max < 2 ^ 31) :
    ReadHonest g kmalloc d name max ↔
      ∀ e u, findRootEntry g kmalloc d name = .ok (some e, u) → ReadFits g max e u := by
  obtain ⟨found, u, ran⟩ := findRootEntry_ok (fat16Init_bytes accepted) kmalloc d name
  cases found with
  | none =>
      refine iff_of_true ⟨-1, [], u, 0, fun fuel _ => by rw [fat16ReadFile, ran]; rfl,
        Nat.zero_le _, fun notNegative => absurd notNegative (by decide)⟩ fun e u' hit => ?_
      rw [ran] at hit
      cases hit
  | some e =>
      rw [readFound_iff range ran]
      constructor
      · intro fits e' u' hit
        rw [ran] at hit
        cases hit
        exact fits
      · exact fun fits => fits e u ran

/-! ## A volume with one file -/

/-- A volume with a root directory of one sector, and the file `A` of three bytes in it. -/
def oneFileDisk : Ata where
  sectors l := .ofList (
    if l = 0 then List.replicate 11 0 ++ [0, 2, 1, 1, 0, 1, 16, 0, 0, 0, 0, 1, 0]
    else if l = 2 then [65] ++ List.replicate 10 0x20 ++ 0x20 :: List.replicate 14 0 ++ [2, 0, 3, 0]
    else if l = 3 then [1, 2, 3]
    else [])
  diskSectors := 8
  fault _ := false
  waits := 0
  touched := []

/-- What `fat16_init` makes of its boot sector. -/
def oneFileFat : Fat16 where
  partLba := 0
  bytesPerSector := 512
  sectorsPerCluster := 1
  reservedSectors := 1
  numFats := 1
  rootEntries := 16
  fatSize := 1
  fatStartLba := 1
  rootStartLba := 2
  dataStartLba := 3

theorem oneFile_accepted : ∃ d', fat16Init .initial oneFileDisk 0 = .ok (oneFileFat, d') := by
  have fields : (fat16Init .initial oneFileDisk 0).map Prod.fst = .ok oneFileFat := by
    decide +kernel
  cases init : fat16Init .initial oneFileDisk 0 with
  | error trap =>
      rw [init] at fields
      cases fields
  | ok r =>
      rw [init] at fields
      exact ⟨r.2, congrArg Except.ok (Prod.ext (Except.ok.inj fields) rfl)⟩

/-- Two bytes of it are read. -/
theorem readHonest_two : ReadHonest oneFileFat (fun _ => true) oneFileDisk [65] 2 :=
  oneFile_accepted.elim fun _ accepted =>
    (readHonest_iff accepted (fun _ => true) oneFileDisk [65] (by decide)).mpr fun _ _ _ =>
      .inr (.inr (.inr (by rw [if_neg (by decide)]; exact .inl (by decide))))

/-- **With a `max` of -1 the whole file is stored.** -/
theorem readHonest_negative : (∃ d', fat16Init .initial oneFileDisk 0 = .ok (oneFileFat, d')) ∧
    ¬ ReadHonest oneFileFat (fun _ => true) oneFileDisk [65] (-1) := by
  refine ⟨oneFile_accepted, ?_⟩
  have hit : ((findRootEntry oneFileFat (fun _ => true) oneFileDisk [65]).toOption.any fun r =>
      r.1.any fun e => decide (direntSize e ≠ 0 ∧ InChain (direntCluster e) ∧
        (readSector oneFileFat r.2 (3 + (direntCluster e - 2) * 1)).1 ≠ none)) = true := by
    decide +kernel
  cases found : findRootEntry oneFileFat (fun _ => true) oneFileDisk [65] with
  | error trap =>
      rw [found] at hit
      cases hit
  | ok r =>
      obtain ⟨o, u⟩ := r
      rw [found] at hit
      obtain ⟨_, ⟨⟩, some_⟩ := (Option.any_eq_true _ (some (o, u))).mp hit
      obtain ⟨e, rfl, checked⟩ := (Option.any_eq_true _ o).mp some_
      obtain ⟨full, inside, reads⟩ := of_decide_eq_true checked
      rw [readFound_iff (by decide) found, ReadFits, if_neg (by decide)]
      rintro (none | empty | out | up | fails)
      · cases none
      · exact full empty
      · exact out inside
      · exact absurd up (by decide)
      · exact reads fails

end Flyos
