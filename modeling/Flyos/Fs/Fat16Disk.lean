import Flyos.Fs.Fat16
import Flyos.Lib.FirstHit
import Flyos.Lib.Visits

/-!
# What the FAT16 code does to the sectors

Specifications over the sectors of a drive that answers: what `fat_get` and `fat_set`
read and write (`fatWord`, `fatStore`), which entry a scan of the root directory stops at
(`slotAt`), and that `free_chain` ends whatever the table holds.

The drive is watched while it runs (`Watched`): the sectors transferred are allowed ones,
and what differs from the sectors at the start was transferred.
-/

namespace Flyos

/-! ## Words -/

section Words

variable {buf : List UInt8} {off off' v : Nat}

@[simp] theorem length_setWord : (setWord buf off v).length = buf.length := by
  simp [setWord]

/-- A word that was stored is read back. -/
theorem word_setWord_self (fits : off + 1 < buf.length) (small : v < 2 ^ 16) :
    word (setWord buf off v) off = v := by
  have low : (setWord buf off v).getD off 0 = UInt8.ofNat v := by
    rw [setWord, List.getD_eq_getElem?_getD, List.getElem?_set_ne (by omega),
      List.getElem?_set_self (by omega)]
    rfl
  have high : (setWord buf off v).getD (off + 1) 0 = UInt8.ofNat (v / 2 ^ 8) := by
    rw [setWord, List.getD_eq_getElem?_getD, List.getElem?_set_self (by simpa using fits)]
    rfl
  rw [word, low, high, UInt8.toNat_ofNat', UInt8.toNat_ofNat']
  omega

/-- The words beside it stay. -/
theorem word_setWord_other (apart : off' + 1 < off ∨ off + 1 < off') :
    word (setWord buf off v) off' = word buf off' := by
  have same : ∀ k, k ≠ off → k ≠ off + 1 → (setWord buf off v).getD k 0 = buf.getD k 0 := by
    intro k first second
    rw [setWord, List.getD_eq_getElem?_getD, List.getElem?_set_ne (Ne.symm second),
      List.getElem?_set_ne (Ne.symm first), List.getD_eq_getElem?_getD]
  rw [word, word, same off' (by omega) (by omega), same (off' + 1) (by omega) (by omega)]

/-- Storing a word twice is storing it once. -/
theorem setWord_setWord : setWord (setWord buf off v) off v = setWord buf off v := by
  apply List.ext_getElem?
  intro k
  simp only [setWord, List.getElem?_set, List.length_set]
  split <;> split <;> simp_all

/-- A word fits in two bytes. -/
theorem word_lt (buf : List UInt8) (off : Nat) : word buf off < 2 ^ 16 := by
  have low := (buf.getD off 0).toNat_lt
  have high := (buf.getD (off + 1) 0).toNat_lt
  rw [word]
  omega

/-- Storing zero where a word is zero changes nothing. -/
theorem setWord_zero (zero : word buf off = 0) : setWord buf off 0 = buf := by
  have bytes : (buf.getD off 0).toNat = 0 ∧ (buf.getD (off + 1) 0).toNat = 0 := by
    rw [word] at zero
    omega
  have low : buf.getD off 0 = 0 := UInt8.toNat_inj.mp bytes.1
  have high : buf.getD (off + 1) 0 = 0 := UInt8.toNat_inj.mp bytes.2
  have keep : ∀ {b : List UInt8} {k : Nat}, b.getD k 0 = 0 → b.set k 0 = b := by
    intro b k here
    rw [List.getD_eq_getElem?_getD] at here
    apply List.ext_getElem?
    intro j
    rw [List.getElem?_set]
    split
    · next eq =>
        subst eq
        split
        · next inside => rw [List.getElem?_eq_getElem inside] at here ⊢; rw [← here]; rfl
        · next outside => rw [List.getElem?_eq_none (by omega)]
    · rfl
  show (buf.set off 0).set (off + 1) 0 = buf
  rw [keep low, keep high]

end Words

/-- A sector in which a word was stored. -/
theorem ofList_setWord (s : Sector) (off v : Nat) :
    (Sector.ofList (setWord s.1 off v)).1 = setWord s.1 off v :=
  Sector.ofList_val (by rw [length_setWord, s.2])

/-! ## The volume -/

/-- The value of `root_sectors`. -/
def Fat16.rootCount (g : Fat16) : Nat :=
  (g.rootEntries * 32 + g.bytesPerSector - 1) / g.bytesPerSector

/-- **A mounted volume**: what `fat16_init` leaves of a boot sector that has FATs and a sector
size, where the 28 bits of the drive's sector numbers reach. -/
structure Fat16.Mounted (g : Fat16) : Prop where
  sectorBytes : 0 < g.bytesPerSector ∧ g.bytesPerSector < 2 ^ 16
  numFats : 0 < g.numFats ∧ g.numFats < 2 ^ 8
  clusterSectors : g.sectorsPerCluster < 2 ^ 8
  rootEntries : g.rootEntries < 2 ^ 16
  fatSize : g.fatSize < 2 ^ 16
  fatStart : g.fatStartLba < 2 ^ 16
  rootStart : g.rootStartLba = g.fatStartLba + g.numFats * g.fatSize
  dataStart : g.dataStartLba = g.rootStartLba + g.rootCount
  reachable : g.partLba + 2 ^ 26 ≤ 2 ^ 28

/-- The sector of copy `f` of the table that holds the entry of cluster `c`. -/
def copyLba (g : Fat16) (c f : Nat) : Nat :=
  g.partLba + (g.fatStartLba + c * 2 / 512 + f * g.fatSize)

/-- The entry of cluster `c` in copy `f` of the table. -/
def fatWord (g : Fat16) (m : Nat → Sector) (f c : Nat) : Nat :=
  word (m (copyLba g c f)).1 (c * 2 % 512)

/-- The sectors with the entry of cluster `c` set in every copy. -/
def fatStore (g : Fat16) (m : Nat → Sector) (c v : Nat) : Nat → Sector := fun l =>
  if ∃ f < g.numFats, l = copyLba g c f then .ofList (setWord (m l).1 (c * 2 % 512) v) else m l

/-- The sector of the root directory with entry `i`. -/
def slotLba (g : Fat16) (i : Nat) : Nat := g.partLba + (g.rootStartLba + i / 16)

/-- Entry `i` of the root directory. -/
def slotAt (g : Fat16) (m : Nat → Sector) (i : Nat) : List UInt8 :=
  dirent (m (slotLba g i)).1 (i % 16)

namespace Fat16.Mounted

variable {g : Fat16}

theorem rootSectors (ok : g.Mounted) : g.rootSectors = .ok g.rootCount :=
  if_neg (Nat.ne_of_gt ok.sectorBytes.1)

/-- The copies of the table are short enough to be addressed. -/
theorem tables_le (ok : g.Mounted) : g.numFats * g.fatSize ≤ 255 * 65535 :=
  Nat.mul_le_mul (Nat.le_of_lt_succ ok.numFats.2) (Nat.le_of_lt_succ ok.fatSize)

theorem copy_le (ok : g.Mounted) {f : Nat} (copy : f < g.numFats) :
    f * g.fatSize ≤ 255 * 65535 :=
  Nat.le_trans (Nat.mul_le_mul_right _ (Nat.le_of_lt copy)) ok.tables_le

theorem rootCount_le (ok : g.Mounted) : g.rootCount < 2 ^ 22 := by
  have entries := ok.rootEntries
  have bytes := ok.sectorBytes
  have le : g.rootCount ≤ g.rootEntries * 32 + g.bytesPerSector - 1 := Nat.div_le_self ..
  omega

theorem fat_small (ok : g.Mounted) {c f : Nat} (cluster : c < 2 ^ 16) (copy : f < g.numFats) :
    g.fatStartLba + c * 2 / 512 + f * g.fatSize < 2 ^ 26 := by
  have start := ok.fatStart
  have le := ok.copy_le copy
  omega

theorem root_small (ok : g.Mounted) {s : Nat} (sector : s < g.rootCount) :
    g.rootStartLba + s < 2 ^ 26 := by
  have start := ok.fatStart
  have tables := ok.tables_le
  have count := ok.rootCount_le
  have eq := ok.rootStart
  omega

theorem data_small (ok : g.Mounted) {c s : Nat} (cluster : c < 2 ^ 16)
    (sector : s < g.sectorsPerCluster) :
    g.dataStartLba + (c - 2) * g.sectorsPerCluster + s < 2 ^ 26 := by
  have start := ok.fatStart
  have tables := ok.tables_le
  have count := ok.rootCount_le
  have eq := ok.rootStart
  have eq' := ok.dataStart
  have spc := ok.clusterSectors
  have le : (c - 2) * g.sectorsPerCluster ≤ 65535 * 255 :=
    Nat.mul_le_mul (by omega) (Nat.le_of_lt_succ spc)
  omega

end Fat16.Mounted

/-! ## The table in the sectors -/

section Table

variable {g : Fat16} {m : Nat → Sector} {c c' f v : Nat}

theorem fatStore_copy (copy : f < g.numFats) :
    fatStore g m c v (copyLba g c f) =
      .ofList (setWord (m (copyLba g c f)).1 (c * 2 % 512) v) :=
  if_pos ⟨f, copy, rfl⟩

theorem fatStore_other {l : Nat} (other : ∀ f < g.numFats, l ≠ copyLba g c f) :
    fatStore g m c v l = m l :=
  if_neg fun ⟨f, copy, eq⟩ => other f copy eq

/-- An entry that was set is read back. -/
theorem fatWord_fatStore_self (copy : f < g.numFats) (small : v < 2 ^ 16) :
    fatWord g (fatStore g m c v) f c = v := by
  have sized : (m (copyLba g c f)).1.length = 512 := (m (copyLba g c f)).2
  rw [fatWord, fatStore_copy copy, ofList_setWord]
  exact word_setWord_self (by rw [sized]; omega) small

/-- An entry that was cleared leaves the others as they were, or clears them too: where a copy
of one is another, as with numbers past the end of the table. -/
theorem fatWord_fatStore_zero (g : Fat16) (m : Nat → Sector) (c c' f : Nat) :
    fatWord g (fatStore g m c 0) f c' = fatWord g m f c' ∨ fatWord g (fatStore g m c 0) f c' = 0 := by
  have sized : (m (copyLba g c' f)).1.length = 512 := (m (copyLba g c' f)).2
  rw [fatWord, fatStore]
  split
  · rw [ofList_setWord]
    by_cases same : c' * 2 % 512 = c * 2 % 512
    · rw [same]
      exact .inr (word_setWord_self (by rw [sized]; omega) (by decide))
    · exact .inl (word_setWord_other (by omega))
  · exact .inl rfl

/-- The entries of clusters of the table are apart, in all copies. -/
theorem fatWord_fatStore_other (other : c' ≠ c) (inside : c < 256 * g.fatSize)
    (inside' : c' < 256 * g.fatSize) :
    fatWord g (fatStore g m c v) f c' = fatWord g m f c' := by
  rw [fatWord, fatStore]
  split
  · next held =>
      obtain ⟨f', -, eq⟩ := held
      rw [ofList_setWord]
      -- one sector of the same copy: the words are apart in it
      have row : c' * 2 / 512 = c * 2 / 512 := by
        have mod := congrArg (· % g.fatSize) (show c' * 2 / 512 + f * g.fatSize =
          c * 2 / 512 + f' * g.fatSize by rw [copyLba, copyLba] at eq; omega)
        rwa [Nat.add_mul_mod_self_right, Nat.add_mul_mod_self_right, Nat.mod_eq_of_lt (by omega),
          Nat.mod_eq_of_lt (by omega)] at mod
      exact word_setWord_other (by omega)
  · rfl

end Table

/-! ## The drive under watch -/

/-- A drive that answers, has transferred allowed sectors only, and has transferred every sector
that differs from `base`. -/
structure Watched (allowed : Nat → Prop) (base : Nat → Sector) (d : Ata) : Prop where
  healthy : d.Healthy
  touched : ∀ l ∈ d.touched, allowed l
  changed : ∀ l, d.sectors l ≠ base l → l ∈ d.touched

/-- A drive that answers is watched from now on, everything being allowed. -/
theorem Ata.Healthy.watched {d : Ata} (ok : d.Healthy) : Watched (fun _ => True) d.sectors d :=
  ⟨ok, fun _ _ => trivial, fun _ differs => absurd rfl differs⟩

section Drive

variable {g : Fat16} {allowed : Nat → Prop} {base : Nat → Sector} {d : Ata}

/-- `read_sector` delivers the sector. -/
theorem readSector_spec (ok : g.Mounted) (watched : Watched allowed base d) {lba : Nat}
    (small : lba < 2 ^ 26) (here : allowed (g.partLba + lba)) :
    ∃ d', readSector g d lba = (some (d.sectors (g.partLba + lba)).1, d') ∧
      Watched allowed base d' ∧ d'.sectors = d.sectors := by
  have reach := ok.reachable
  refine ⟨_, ataReadSectors_one watched.healthy (by omega), ?_, rfl⟩
  refine ⟨watched.healthy.mono rfl rfl (by dsimp only; omega), ?_, ?_⟩
  · intro l mem
    rcases List.mem_cons.mp mem with rfl | mem
    · exact here
    · exact watched.touched l mem
  · intro l differs
    exact List.mem_cons_of_mem _ (watched.changed l differs)

/-- `write_sector` stores the sector. -/
theorem writeSector_spec (ok : g.Mounted) (watched : Watched allowed base d) {lba : Nat}
    (small : lba < 2 ^ 26) (here : allowed (g.partLba + lba)) (buf : List UInt8)
    (sized : buf.length = ataSectorSize) :
    ∃ d', writeSector g d lba buf = (true, d') ∧ Watched allowed base d' ∧
      d'.sectors = Function.update d.sectors (g.partLba + lba) (.ofList buf) := by
  have reach := ok.reachable
  refine ⟨_, ataWriteSectors_one watched.healthy (by omega) sized, ?_, rfl⟩
  refine ⟨watched.healthy.mono rfl rfl (by dsimp only; omega), ?_, ?_⟩
  · intro l mem
    rcases List.mem_cons.mp mem with rfl | mem
    · exact here
    · exact watched.touched l mem
  · intro l differs
    dsimp only at differs ⊢
    by_cases written : l = g.partLba + lba
    · rw [written]
      exact List.mem_cons_self
    · rw [Function.update_of_ne written] at differs
      exact List.mem_cons_of_mem _ (watched.changed l differs)

/-- `fat_get` returns the entry in the first copy. -/
theorem fatGet_spec (ok : g.Mounted) (watched : Watched allowed base d) {c : Nat}
    (cluster : c < 2 ^ 16) (here : allowed (copyLba g c 0)) :
    ∃ d', fatGet g d c = (fatWord g d.sectors 0 c, d') ∧ Watched allowed base d' ∧
      d'.sectors = d.sectors := by
  have small := ok.fat_small cluster ok.numFats.1
  rw [Nat.zero_mul, Nat.add_zero] at small
  have at0 : copyLba g c 0 = g.partLba + (g.fatStartLba + c * 2 / 512) := by
    rw [copyLba, Nat.zero_mul, Nat.add_zero]
  rw [at0] at here
  obtain ⟨d', ran, watched', same⟩ := readSector_spec ok watched small here
  refine ⟨d', ?_, watched', same⟩
  rw [fatGet, ran, fatWord, at0]

/-- The copies from `f` on are set. -/
theorem fatSetLoop_spec (ok : g.Mounted) (watched : Watched allowed base d) {c v n f : Nat}
    (cluster : c < 2 ^ 16) (copies : f + n = g.numFats)
    (here : ∀ f < g.numFats, allowed (copyLba g c f)) :
    ∃ d', fatSetLoop g (g.fatStartLba + c * 2 / 512) (c * 2 % 512) v n f d = (true, d') ∧
      Watched allowed base d' ∧
      (∀ l, (∃ k, f ≤ k ∧ k < g.numFats ∧ l = copyLba g c k) →
        d'.sectors l = .ofList (setWord (d.sectors l).1 (c * 2 % 512) v)) ∧
      (∀ l, (∀ k, f ≤ k → k < g.numFats → l ≠ copyLba g c k) → d'.sectors l = d.sectors l) := by
  induction n generalizing f d with
  | zero =>
      refine ⟨d, rfl, watched, ?_, fun l _ => rfl⟩
      rintro l ⟨k, low, high, -⟩
      omega
  | succ n ih =>
      have copy : f < g.numFats := by omega
      have small := ok.fat_small cluster copy
      obtain ⟨u, read, watchedU, sameU⟩ := readSector_spec ok watched small (here f copy)
      obtain ⟨w, wrote, watchedW, stored⟩ := writeSector_spec ok watchedU small (here f copy)
        (setWord (d.sectors (copyLba g c f)).1 (c * 2 % 512) v) (by rw [length_setWord, (d.sectors _).2])
      obtain ⟨d', ran, watched', set, others⟩ := ih watchedW (f := f + 1) (by omega)
      refine ⟨d', ?_, watched', ?_, ?_⟩
      · rw [fatSetLoop, read]
        dsimp only
        rw [copyLba] at wrote
        rw [wrote]
        exact ran
      · rintro l ⟨k, low, high, eq⟩
        by_cases again : ∃ k, f + 1 ≤ k ∧ k < g.numFats ∧ l = copyLba g c k
        · rw [set l again, stored, sameU]
          by_cases here : l = copyLba g c f
          · rw [here, ← copyLba, Function.update_self, ofList_setWord, setWord_setWord]
          · rw [← copyLba, Function.update_of_ne here]
        · have first : l = copyLba g c f := by
            by_cases later : k = f
            · rw [eq, later]
            · exact absurd ⟨k, by omega, high, eq⟩ again
          rw [others l fun k low high eq => again ⟨k, low, high, eq⟩, stored, first, ← copyLba,
            Function.update_self]
      · intro l apart
        rw [others l fun k low high => apart k (by omega) high, stored, sameU, ← copyLba,
          Function.update_of_ne (apart f (Nat.le_refl f) copy)]

/-- `fat_set` sets the entry in every copy. -/
theorem fatSet_spec (ok : g.Mounted) (watched : Watched allowed base d) {c v : Nat}
    (cluster : c < 2 ^ 16) (here : ∀ f < g.numFats, allowed (copyLba g c f)) :
    ∃ d', fatSet g d c v = (true, d') ∧ Watched allowed base d' ∧
      d'.sectors = fatStore g d.sectors c v := by
  obtain ⟨d', ran, watched', set, others⟩ :=
    fatSetLoop_spec ok watched (v := v) cluster (Nat.zero_add _) here
  refine ⟨d', ran, watched', ?_⟩
  funext l
  rw [fatStore]
  split
  · next held =>
      obtain ⟨f, copy, eq⟩ := held
      exact set l ⟨f, Nat.zero_le f, copy, eq⟩
  · next out => exact others l fun k _ copy eq => out ⟨k, copy, eq⟩

/-! ## Freeing a chain -/

/-- The clusters `free_chain` visits from `c`. -/
abbrev ChainVisits (g : Fat16) (m : Nat → Sector) (c : Nat) (l : List Nat) : Prop :=
  Visits (fun m c => fatWord g m 0 c) (fun m c => fatStore g m c 0) (fun c => ¬ InChain c) m c l

/-- The sectors with the entries of `l` cleared one after the other. -/
def zeroed (g : Fat16) (m : Nat → Sector) (l : List Nat) : Nat → Sector :=
  l.foldl (fun m c => fatStore g m c 0) m

/-- **`free_chain` ends on every table**: it visits at most 2^16 clusters. -/
theorem exists_chainVisits (ok : g.Mounted) (m : Nat → Sector) (c : Nat) :
    ∃ l, ChainVisits g m c l ∧ l.length ≤ 2 ^ 16 := by
  obtain ⟨l, visits, short⟩ := exists_visits (fun m c => fatWord g m 0 c)
    (fun m c => fatStore g m c 0) (fun c => ¬ InChain c) 0 (Finset.Ico 2 0xFFF8)
    (fun a live => Finset.mem_Ico.mpr (Decidable.not_not.mp live)) (by decide)
    (fun m c => fatWord_fatStore_self ok.numFats.1 (by decide))
    (fun m c x => fatWord_fatStore_zero g m c x 0) m c
  refine ⟨l, visits, Nat.le_trans short ?_⟩
  have card := Finset.card_filter_le (Finset.Ico 2 0xFFF8) (fun x => fatWord g m 0 x ≠ 0)
  rw [Nat.card_Ico] at card
  omega

/-- `free_chain` clears the clusters it visits. -/
theorem freeChain_spec (ok : g.Mounted) (watched : Watched allowed base d) {c fuel : Nat}
    {l : List Nat} (visits : ChainVisits g d.sectors c l) (enough : l.length < fuel)
    (here : ∀ x ∈ l, ∀ f < g.numFats, allowed (copyLba g x f)) :
    ∃ d', freeChain g fuel d c = .ok d' ∧ Watched allowed base d' ∧
      d'.sectors = zeroed g d.sectors l := by
  induction l generalizing c fuel d with
  | nil =>
      obtain ⟨fuel, rfl⟩ := Nat.exists_eq_succ_of_ne_zero (Nat.ne_of_gt enough)
      exact ⟨d, by rw [freeChain, if_neg visits], watched, rfl⟩
  | cons x l ih =>
      obtain ⟨fuel, rfl⟩ := Nat.exists_eq_succ_of_ne_zero (Nat.ne_of_gt (Nat.zero_lt_of_lt enough))
      obtain ⟨rfl, live, rest⟩ := visits
      have inChain : InChain x := Decidable.not_not.mp live
      have cluster : x < 2 ^ 16 := by omega
      have copies := here x List.mem_cons_self
      obtain ⟨u, got, watchedU, sameU⟩ := fatGet_spec ok watched cluster (copies 0 ok.numFats.1)
      obtain ⟨w, set, watchedW, stored⟩ := fatSet_spec ok watchedU (v := 0) cluster copies
      rw [sameU] at stored
      obtain ⟨d', ran, watched', cleared⟩ := ih watchedW (by rw [stored]; exact rest)
        (Nat.lt_of_succ_lt_succ enough) fun y mem => here y (List.mem_cons_of_mem x mem)
      refine ⟨d', ?_, watched', by rw [cleared, stored]; rfl⟩
      rw [freeChain, if_pos inChain, got]
      dsimp only
      rw [set]
      exact ran

/-! ## Scanning the root directory -/

/-- A sector is scanned entry by entry. -/
theorem visitSector_eq {α : Type} (visit : List UInt8 → Option α) (buf : List UInt8) (n k : Nat) :
    visitSector visit buf n k = firstHit (fun k => visit (dirent buf k)) n k := by
  induction n generalizing k with
  | zero => rfl
  | succ n ih =>
      rw [visitSector, firstHit, ih]
      cases visit (dirent buf k) <;> rfl

/-- How a scan ends that stops at entry `i`. -/
def Scan.ofHit {α : Type} (g : Fat16) (m : Nat → Sector) : Option (Nat × α) → Scan α
  | none => .ended
  | some (i, a) => .hit (i / 16) (i % 16) (m (slotLba g i)).1 a

/-- A scan stops at the first entry its visitor stops at. -/
theorem scanRoot_spec {α : Type} (ok : g.Mounted) (watched : Watched allowed base d)
    (visit : List UInt8 → Option α) {n s : Nat} (sectors : s + n = g.rootCount)
    (here : ∀ s < g.rootCount, allowed (g.partLba + (g.rootStartLba + s))) :
    ∃ d', scanRoot g visit n s d =
        (.ofHit g d.sectors (firstHit (fun i => visit (slotAt g d.sectors i)) (16 * n) (16 * s)),
          d') ∧
      Watched allowed base d' ∧ d'.sectors = d.sectors := by
  induction n generalizing s d with
  | zero => exact ⟨d, rfl, watched, rfl⟩
  | succ n ih =>
      have sector : s < g.rootCount := by omega
      obtain ⟨u, read, watchedU, sameU⟩ :=
        readSector_spec ok watched (ok.root_small sector) (here s sector)
      -- the 16 entries of sector `s`
      have lba : ∀ k < 16, slotLba g (16 * s + k) = g.partLba + (g.rootStartLba + s) := by
        intro k small
        rw [slotLba, show (16 * s + k) / 16 = s by omega]
      have entries : firstHit (fun i => visit (slotAt g d.sectors i)) 16 (16 * s) =
          (visitSector visit (d.sectors (g.partLba + (g.rootStartLba + s))).1 16 0).map
            fun r => (16 * s + r.1, r.2) := by
        have shifted := firstHit_shift (f := fun i => visit (slotAt g d.sectors i)) (16 * s) 16 0
        rw [Nat.add_zero] at shifted
        rw [shifted, visitSector_eq]
        congr 1
        refine firstHit_congr fun k _ small => ?_
        rw [slotAt, lba k (by omega), show (16 * s + k) % 16 = k by omega]
      rw [show 16 * (n + 1) = 16 + 16 * n by omega, firstHit_add, entries]
      cases found : visitSector visit (d.sectors (g.partLba + (g.rootStartLba + s))).1 16 0 with
      | some r =>
          obtain ⟨k, a⟩ := r
          have small : k < 16 := by
            rw [visitSector_eq] at found
            have range := (firstHit_eq_some_iff.mp found).2.1
            omega
          refine ⟨u, ?_, watchedU, sameU⟩
          rw [scanRoot, read]
          dsimp only
          rw [found]
          simp only [Option.map_some, Option.some_or, Scan.ofHit]
          rw [lba k small, show (16 * s + k) / 16 = s by omega, show (16 * s + k) % 16 = k by omega]
      | none =>
          obtain ⟨d', ran, watched', same⟩ := ih watchedU (s := s + 1) (by omega)
          refine ⟨d', ?_, watched', same.trans sameU⟩
          rw [scanRoot, read]
          dsimp only
          rw [found]
          simp only [Option.map_none, Option.none_or]
          rw [ran, sameU, show 16 * (s + 1) = 16 * s + 16 by omega]

end Drive

end Flyos
