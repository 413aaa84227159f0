import Flyos.Fs.Fat16Disk
import Flyos.Fs.Fat16Slots

/-!
# The entry a name denotes

`find_root_entry` and `fat16_delete_file` scan the same entries with two loops.  The
lookup passes over deleted and long-name entries, the deletion stops at them too.  The
two agree (`DeletesFound`) exactly when the first entry of the name is live, or is a
deleted one whose recorded clusters are free in every copy of the table (`SameEntry`).
-/

namespace Flyos

section Entries

variable {g : Fat16} {allowed : Nat → Prop} {base : Nat → Sector} {d : Ata}

/-- The number of slots of the root directory. -/
def Fat16.slots (g : Fat16) : Nat := 16 * g.rootCount

/-- The slot whose entry a lookup of the name returns. -/
def foundSlot (g : Fat16) (m : Nat → Sector) (name : List UInt8) : Option Nat :=
  findSlot (slotAt g m) g.slots (findName name)

/-- The slot that a deletion of the name takes. -/
def takenSlot (g : Fat16) (m : Nat → Sector) (name : List UInt8) : Option Nat :=
  deleteSlot (slotAt g m) g.slots (parse83 name)

/-- The sectors with the clusters of `l` freed and slot `i` marked as deleted, the directory
sector being written as it was read. -/
def deletedSectors (g : Fat16) (m : Nat → Sector) (i : Nat) (l : List Nat) : Nat → Sector :=
  Function.update (zeroed g m l) (slotLba g i)
    (.ofList ((m (slotLba g i)).1.set (32 * (i % 16)) 0xE5))

/-- `find_root_entry` returns the entry of the slot. -/
theorem findRootEntry_spec (ok : g.Mounted) (watched : Watched allowed base d) (name : List UInt8)
    (kmalloc : Nat → Bool) (memory : ∀ n, kmalloc n = true)
    (here : ∀ s < g.rootCount, allowed (g.partLba + (g.rootStartLba + s))) :
    ∃ d', findRootEntry g kmalloc d name =
        .ok ((foundSlot g d.sectors name).map (slotAt g d.sectors), d') ∧
      Watched allowed base d' ∧ d'.sectors = d.sectors := by
  obtain ⟨d', ran, watched', same⟩ :=
    scanRoot_spec ok watched (findVisit (findName name)) (Nat.zero_add _) here
  refine ⟨d', ?_, watched', same⟩
  rw [findRootEntry, ok.rootSectors, Except.map, memory 512, ran, foundSlot, findSlot, Fat16.slots,
    Nat.mul_zero]
  cases found : firstHit (fun i => findVisit (findName name) (slotAt g d.sectors i))
      (16 * g.rootCount) 0 with
  | none => rfl
  | some r =>
      obtain ⟨i, r⟩ := r
      cases r with
      | none => rfl
      | some e =>
          obtain ⟨-, -, stopped, -⟩ := firstHit_eq_some_iff.mp found
          obtain ⟨-, no⟩ | ⟨-, -, eq⟩ := findVisit_eq_some.mp stopped
          · cases no
          · simp [Scan.ofHit, memory 32, Option.some.inj eq]

/-- Without an entry to delete nothing is changed. -/
theorem fat16DeleteFile_none (ok : g.Mounted) (watched : Watched allowed base d)
    {name : List UInt8} (fuel : Nat) (passed : takenSlot g d.sectors name = none)
    (here : ∀ s < g.rootCount, allowed (g.partLba + (g.rootStartLba + s))) :
    ∃ d', fat16DeleteFile g fuel d name = .ok (false, d') ∧ Watched allowed base d' ∧
      d'.sectors = d.sectors := by
  obtain ⟨d', ran, watched', same⟩ :=
    scanRoot_spec ok watched (deleteVisit (parse83 name)) (Nat.zero_add _) here
  refine ⟨d', ?_, watched', same⟩
  rw [fat16DeleteFile, ok.rootSectors, Except.bind, ran, Nat.mul_zero]
  rw [takenSlot, deleteSlot, Fat16.slots] at passed
  cases found : firstHit (fun i => deleteVisit (parse83 name) (slotAt g d.sectors i))
      (16 * g.rootCount) 0 with
  | none => rfl
  | some r =>
      obtain ⟨i, r⟩ := r
      cases r with
      | false => rfl
      | true =>
          rw [found] at passed
          cases passed

/-- The entry taken is marked and its chain freed. -/
theorem fat16DeleteFile_some (ok : g.Mounted) (watched : Watched allowed base d)
    {name : List UInt8} {fuel i : Nat} {l : List Nat}
    (taken : takenSlot g d.sectors name = some i)
    (visits : ChainVisits g d.sectors (direntCluster (slotAt g d.sectors i)) l)
    (enough : l.length < fuel)
    (here : ∀ s < g.rootCount, allowed (g.partLba + (g.rootStartLba + s)))
    (copies : ∀ x ∈ l, ∀ f < g.numFats, allowed (copyLba g x f)) :
    ∃ d', fat16DeleteFile g fuel d name = .ok (true, d') ∧ Watched allowed base d' ∧
      d'.sectors = deletedSectors g d.sectors i l := by
  obtain ⟨u, ran, watchedU, sameU⟩ :=
    scanRoot_spec ok watched (deleteVisit (parse83 name)) (Nat.zero_add _) here
  have hit : firstHit (fun i => deleteVisit (parse83 name) (slotAt g d.sectors i))
      (16 * g.rootCount) 0 = some (i, true) := by
    rw [takenSlot, deleteSlot, Fat16.slots] at taken
    cases found : firstHit (fun i => deleteVisit (parse83 name) (slotAt g d.sectors i))
        (16 * g.rootCount) 0 with
    | none =>
        rw [found] at taken
        cases taken
    | some r =>
        obtain ⟨j, r⟩ := r
        rw [found] at taken
        cases r with
        | false => cases taken
        | true => rw [Option.some.inj taken]
  have inside : i < 16 * g.rootCount := by
    have range := (firstHit_eq_some_iff.mp hit).2.1
    omega
  obtain ⟨w, freed, watchedW, cleared⟩ :=
    freeChain_spec ok watchedU (by rw [sameU]; exact visits) enough copies
  obtain ⟨d', wrote, watched', stored⟩ := writeSector_spec ok watchedW
    (ok.root_small (s := i / 16) (by omega)) (here (i / 16) (by omega))
    ((d.sectors (slotLba g i)).1.set (32 * (i % 16)) 0xE5) (by rw [List.length_set, (d.sectors _).2])
  refine ⟨d', ?_, watched', ?_⟩
  · rw [fat16DeleteFile, ok.rootSectors, Except.bind, ran, Nat.mul_zero, hit]
    dsimp only [Scan.ofHit]
    rw [← slotAt, freed, Except.map, wrote]
  · rw [stored, cleared, sameU]
    rfl

end Entries

/-! ## Agreement -/

section Agreement

variable (g : Fat16) (fuel : Nat) (d : Ata) (name : List UInt8)

/-- **Deletion does what the lookup says**: when `find_root_entry` finds nothing no sector changes,
and when it finds an entry that entry's chain is freed and that entry marked, nothing else. -/
def DeletesFound : Prop :=
  ∃ found u result d', findRootEntry g (fun _ => true) d name = .ok (found, u) ∧
    fat16DeleteFile g fuel d name = .ok (result, d') ∧
    match found with
    | none => d'.sectors = d.sectors
    | some e => ∃ i l, foundSlot g d.sectors name = some i ∧ slotAt g d.sectors i = e ∧
        ChainVisits g d.sectors (direntCluster e) l ∧
        d'.sectors = deletedSectors g d.sectors i l

/-- The clusters that freeing the chain at `c` goes through. -/
def chainFrom (m : Nat → Sector) (c : Nat) : List Nat :=
  visitList (fun m c => fatWord g m 0 c) (fun m c => fatStore g m c 0) (fun c => ¬ InChain c)
    (2 ^ 16 + 1) m c

/-- The first entry that carries the name before the end mark, if there is one, is live; or it is
marked as deleted and every cluster it leads to is free in every copy of the table (but for
copies that would lie in the sector of the entry itself, which is written back). -/
def SameEntry (m : Nat → Sector) : Prop :=
  match takenSlot g m name with
  | none => True
  | some i => LiveEntry (slotAt g m i) ∨ (direntFirst (slotAt g m i) = 0xE5 ∧
      ∀ x ∈ chainFrom g m (direntCluster (slotAt g m i)), ∀ f < g.numFats,
        copyLba g x f ≠ slotLba g i → fatWord g m f x = 0)

variable {g fuel d name} {m : Nat → Sector} {l : List Nat}

theorem chainVisits_chainFrom (ok : g.Mounted) (m : Nat → Sector) (c : Nat) :
    ChainVisits g m c (chainFrom g m c) ∧ (chainFrom g m c).length ≤ 2 ^ 16 := by
  obtain ⟨l, visits, short⟩ := exists_chainVisits ok m c
  rw [chainFrom, visits.visitList_eq (Nat.lt_succ_of_le short)]
  exact ⟨visits, short⟩

/-- A sector in which only free entries are cleared stays as it is. -/
theorem zeroed_eq {L : Nat} (free : ∀ x ∈ l, ∀ f < g.numFats, copyLba g x f = L →
    fatWord g m f x = 0) : zeroed g m l L = m L := by
  induction l generalizing m with
  | nil => rfl
  | cons x l ih =>
      have first : fatStore g m x 0 L = m L := by
        rw [fatStore]
        split
        · next held =>
            obtain ⟨f, copy, eq⟩ := held
            have zero := free x List.mem_cons_self f copy eq.symm
            rw [fatWord, ← eq] at zero
            rw [setWord_zero zero]
            exact Subtype.ext (Sector.ofList_val (m L).2)
        · rfl
      rw [zeroed, List.foldl_cons, ← zeroed, ih, first]
      intro y mem f copy eq
      rw [fatWord, eq, first, ← eq]
      exact free y (List.mem_cons_of_mem x mem) f copy eq

/-- A free entry stays free. -/
theorem fatWord_zeroed_of_zero {f x : Nat} (zero : fatWord g m f x = 0) :
    fatWord g (zeroed g m l) f x = 0 := by
  induction l generalizing m with
  | nil => exact zero
  | cons y l ih =>
      refine ih ?_
      rcases fatWord_fatStore_zero g m y x f with same | gone
      · rw [same, zero]
      · exact gone

/-- The entries visited are free afterwards. -/
theorem fatWord_zeroed {f x : Nat} (mem : x ∈ l) (copy : f < g.numFats) :
    fatWord g (zeroed g m l) f x = 0 := by
  induction l generalizing m with
  | nil => cases mem
  | cons y l ih =>
      rcases List.mem_cons.mp mem with rfl | later
      · have gone : fatWord g (fatStore g m x 0) f x = 0 := fatWord_fatStore_self copy (by decide)
        exact fatWord_zeroed_of_zero (m := fatStore g m x 0) gone
      · exact ih later

/-- Freeing clears bytes, it sets none. -/
theorem getD_zeroed (L k : Nat) :
    (zeroed g m l L).1.getD k 0 = (m L).1.getD k 0 ∨ (zeroed g m l L).1.getD k 0 = 0 := by
  induction l generalizing m with
  | nil => exact .inl rfl
  | cons x l ih =>
      have first : (fatStore g m x 0 L).1.getD k 0 = (m L).1.getD k 0 ∨
          (fatStore g m x 0 L).1.getD k 0 = 0 := by
        rw [fatStore]
        split
        · rw [ofList_setWord, setWord]
          simp only [List.getD_eq_getElem?_getD, List.getElem?_set, List.length_set]
          split
          · split <;> simp
          · split
            · split <;> simp
            · exact .inl rfl
        · exact .inl rfl
      rcases ih (m := fatStore g m x 0) with same | gone
      · rw [zeroed, List.foldl_cons, ← zeroed, same]
        exact first
      · exact .inr gone

/-- The first byte of the entry in slot `i`, as a byte of its sector. -/
theorem direntFirst_slotAt (i : Nat) :
    direntFirst (slotAt g m i) = (m (slotLba g i)).1.getD (32 * (i % 16)) 0 := by
  rw [direntFirst, slotAt, dirent, List.getD_eq_getElem?_getD, List.getElem?_take_of_lt (by decide),
    List.getElem?_drop, List.getD_eq_getElem?_getD, Nat.add_zero]

/-- The marked entry starts with the mark. -/
theorem getD_deletedSectors_self (i : Nat) :
    (deletedSectors g m i l (slotLba g i)).1.getD (32 * (i % 16)) 0 = 0xE5 := by
  have sized : (m (slotLba g i)).1.length = 512 := (m _).2
  rw [deletedSectors, Function.update_self, Sector.ofList_val (by rw [List.length_set]; exact sized),
    List.getD_eq_getElem?_getD, List.getElem?_set_self (by rw [sized]; omega)]
  rfl

/-- No other entry gets the mark. -/
theorem getD_deletedSectors_other {i j : Nat} (other : i ≠ j)
    (unmarked : direntFirst (slotAt g m i) ≠ 0xE5) :
    (deletedSectors g m j l (slotLba g i)).1.getD (32 * (i % 16)) 0 ≠ 0xE5 := by
  have sized : (m (slotLba g j)).1.length = 512 := (m _).2
  rw [direntFirst_slotAt] at unmarked
  by_cases row : slotLba g i = slotLba g j
  · have apart : j % 16 ≠ i % 16 := by
      rw [slotLba, slotLba] at row
      omega
    rw [row] at unmarked ⊢
    rw [deletedSectors, Function.update_self,
      Sector.ofList_val (by rw [List.length_set]; exact sized), List.getD_eq_getElem?_getD,
      List.getElem?_set_ne (by omega), ← List.getD_eq_getElem?_getD]
    exact unmarked
  · rw [deletedSectors, Function.update_of_ne row]
    rcases getD_zeroed (g := g) (m := m) (l := l) (slotLba g i) (32 * (i % 16)) with same | gone
    · rw [same]
      exact unmarked
    · rw [gone]
      decide

/-- Marking a deleted entry again writes its sector as it was. -/
theorem deletedSectors_marked {i : Nat} (marked : direntFirst (slotAt g m i) = 0xE5) :
    deletedSectors g m i l = m ↔
      ∀ x ∈ l, ∀ f < g.numFats, copyLba g x f ≠ slotLba g i → fatWord g m f x = 0 := by
  have sized : (m (slotLba g i)).1.length = 512 := (m _).2
  have again : (Sector.ofList ((m (slotLba g i)).1.set (32 * (i % 16)) 0xE5)) = m (slotLba g i) := by
    have inside : 32 * (i % 16) < (m (slotLba g i)).1.length := by omega
    rw [direntFirst_slotAt, List.getD_eq_getElem _ _ inside] at marked
    rw [← marked, List.set_getElem_self]
    exact Subtype.ext (Sector.ofList_val (m _).2)
  constructor
  · intro same x mem f copy apart
    have word := fatWord_zeroed (g := g) (m := m) mem copy
    rw [fatWord] at word ⊢
    have sector := congrFun same (copyLba g x f)
    rw [deletedSectors, Function.update_of_ne apart] at sector
    rwa [sector] at word
  · intro free
    funext L
    rw [deletedSectors]
    by_cases own : L = slotLba g i
    · rw [own, Function.update_self, again]
    · rw [Function.update_of_ne own]
      exact zeroed_eq fun x mem f copy eq => free x mem f copy (by rw [eq]; exact own)

/-- What both calls do, from the slots they stop at. -/
theorem deletesFound_iff (ok : g.Mounted) (healthy : d.Healthy) (enough : 2 ^ 16 < fuel) :
    DeletesFound g fuel d name ↔
      match foundSlot g d.sectors name, takenSlot g d.sectors name with
      | none, none => True
      | none, some i => deletedSectors g d.sectors i
          (chainFrom g d.sectors (direntCluster (slotAt g d.sectors i))) = d.sectors
      | some _, none => False
      | some j, some i =>
          deletedSectors g d.sectors i
              (chainFrom g d.sectors (direntCluster (slotAt g d.sectors i))) =
            deletedSectors g d.sectors j
              (chainFrom g d.sectors (direntCluster (slotAt g d.sectors j))) := by
  obtain ⟨u, looked, -, -⟩ := findRootEntry_spec ok healthy.watched name
    (fun _ => true) (fun _ => rfl) fun _ _ => trivial
  cases taken : takenSlot g d.sectors name with
  | none =>
      obtain ⟨d', ran, -, same⟩ :=
        fat16DeleteFile_none ok healthy.watched fuel taken fun _ _ => trivial
      have missed : foundSlot g d.sectors name = none := findSlot_eq_none taken
      rw [missed] at looked ⊢
      exact ⟨fun _ => trivial, fun _ => ⟨none, u, false, d', looked, ran, same⟩⟩
  | some i =>
      obtain ⟨visits, short⟩ := chainVisits_chainFrom ok d.sectors
        (direntCluster (slotAt g d.sectors i))
      obtain ⟨d', ran, -, deleted⟩ := fat16DeleteFile_some ok healthy.watched taken visits
        (Nat.lt_of_le_of_lt short enough) (fun _ _ => trivial) fun _ _ _ _ => trivial
      cases found : foundSlot g d.sectors name with
      | none =>
          rw [found] at looked
          constructor
          · rintro ⟨found', u', result, w, looked', ran', same⟩
            rw [looked] at looked'
            rw [ran] at ran'
            obtain ⟨rfl, -⟩ := Prod.mk.inj (Except.ok.inj looked')
            obtain ⟨-, rfl⟩ := Prod.mk.inj (Except.ok.inj ran')
            exact deleted.symm.trans same
          · intro same
            exact ⟨none, u, true, d', looked, ran, deleted.trans same⟩
      | some j =>
          rw [found] at looked
          constructor
          · rintro ⟨found', u', result, w, looked', ran', same⟩
            rw [looked] at looked'
            rw [ran] at ran'
            obtain ⟨rfl, -⟩ := Prod.mk.inj (Except.ok.inj looked')
            obtain ⟨-, rfl⟩ := Prod.mk.inj (Except.ok.inj ran')
            obtain ⟨j', l, at', -, visits', eq⟩ := same
            obtain rfl : j = j' := Option.some.inj (found.symm.trans at')
            rw [visits'.unique (chainVisits_chainFrom ok d.sectors _).1] at eq
            exact deleted.symm.trans eq
          · intro same
            exact ⟨_, u, true, d', looked, ran, j, _, found, rfl,
              (chainVisits_chainFrom ok d.sectors _).1, deleted.trans same⟩

/-- **Deleting and reading agree on the entry** exactly when the first entry of the name is live
or a deleted one that leads to free clusters only.  The two searches differ in the entries they
pass over: deleting takes the first with the eleven bytes, reading the first live one.  Both are
searches of the list of slots, and the proof compares what they hit. -/
theorem delete_like_find (ok : g.Mounted) (healthy : d.Healthy) (enough : 2 ^ 16 < fuel) :
    DeletesFound g fuel d name ↔ SameEntry g name d.sectors := by
  rw [deletesFound_iff ok healthy enough, SameEntry]
  cases taken : takenSlot g d.sectors name with
  | none =>
      have missed : foundSlot g d.sectors name = none := findSlot_eq_none taken
      simp [missed]
  | some i =>
      by_cases live : LiveEntry (slotAt g d.sectors i)
      · have found : foundSlot g d.sectors name = some i := findSlot_of_deleteSlot taken live
        simp [found, live]
      obtain ⟨-, more, named, -⟩ := deleteSlot_eq_some_iff.mp taken
      by_cases marked : direntFirst (slotAt g d.sectors i) = 0xE5
      · have missed : foundSlot g d.sectors name = none := by
          refine findSlot_deleted ?_
          rw [direntFirst_eq, named] at marked
          exact marked
        simp only [missed, deletedSectors_marked marked, live, false_or, marked, true_and]
      · -- a long-name entry: the mark shows in its own slot
        simp only [live, marked, false_and, or_self, iff_false]
        have mark := getD_deletedSectors_self (g := g) (m := d.sectors)
          (l := chainFrom g d.sectors (direntCluster (slotAt g d.sectors i))) i
        cases found : foundSlot g d.sectors name with
        | none =>
            dsimp only
            intro same
            rw [same, ← direntFirst_slotAt] at mark
            exact marked mark
        | some j =>
            dsimp only
            intro same
            have other : i ≠ j := by
              rintro rfl
              exact live (findSlot_eq_some_iff.mp found).2.1
            rw [same] at mark
            exact getD_deletedSectors_other other marked mark

end Agreement

/-! ## A volume with a deleted file -/

/-- A volume with one FAT sector and one directory sector. -/
def smallFat : Fat16 where
  partLba := 0
  bytesPerSector := 512
  sectorsPerCluster := 1
  reservedSectors := 1
  numFats := 1
  rootEntries := 16
  fatSize := 1
  fatStartLba := 1
  rootStartLba := 2
  dataStartLba := 3

/-- The string `\xE5LD.TXT`: the name of the deleted file, as it stands in the directory. -/
def oldName : List UInt8 := [0xE5, 0x4C, 0x44, 0x2E, 0x54, 0x58, 0x54]

/-- The string `new.txt`. -/
def newName : List UInt8 := [0x6E, 0x65, 0x77, 0x2E, 0x74, 0x78, 0x74]

/-- A healthy drive with that volume: its FAT sector and its directory sector. -/
def smallDisk (fat root : List UInt8) : Ata where
  sectors l := if l = 1 then .ofList fat else if l = 2 then .ofList root else .ofList []
  diskSectors := 32768
  fault _ := false
  waits := 0
  touched := []

/-- `OLD.TXT` had cluster 2 and was deleted; `NEW.TXT` has the cluster now. -/
def reusedDisk : Ata :=
  smallDisk [0xF8, 0xFF, 0xFF, 0xFF, 0xFF, 0xFF]
    (newDirent (parse83 oldName) 2 5 ++ newDirent (parse83 newName) 2 5)

theorem smallFat_mounted : smallFat.Mounted := by
  refine ⟨?_, ?_, ?_, ?_, ?_, ?_, ?_, ?_, ?_⟩ <;> decide

theorem smallDisk_healthy (fat root : List UInt8) : (smallDisk fat root).Healthy :=
  ⟨Nat.succ_ne_zero _, fun _ _ => rfl⟩

theorem reusedDisk_healthy : reusedDisk.Healthy := smallDisk_healthy _ _

/-- The file that is there is deleted as it is found. -/
theorem delete_like_find_new : DeletesFound smallFat (2 ^ 16 + 1) reusedDisk newName := by
  refine (delete_like_find smallFat_mounted reusedDisk_healthy (Nat.lt_succ_self _)).mpr ?_
  have taken : takenSlot smallFat reusedDisk.sectors newName = some 1 := by decide +kernel
  rw [SameEntry, taken]
  exact .inl (by decide +kernel)

/-- **The exception.**  Deleting the name of the deleted entry frees the cluster of the other
file, although a lookup of that name finds nothing. -/
theorem delete_frees_other : ¬ DeletesFound smallFat (2 ^ 16 + 1) reusedDisk oldName := by
  have taken : takenSlot smallFat reusedDisk.sectors oldName = some 0 := by decide +kernel
  have missed : foundSlot smallFat reusedDisk.sectors oldName = none := by decide +kernel
  rw [deletesFound_iff smallFat_mounted reusedDisk_healthy (Nat.lt_succ_self _), taken, missed]
  dsimp only
  have marked : direntFirst (slotAt smallFat reusedDisk.sectors 0) = 0xE5 := by decide +kernel
  have cluster : direntCluster (slotAt smallFat reusedDisk.sectors 0) = 2 := by decide +kernel
  rw [deletedSectors_marked marked, cluster]
  intro free
  have mem : 2 ∈ chainFrom smallFat reusedDisk.sectors 2 :=
    (chainVisits_chainFrom smallFat_mounted _ 2).1.head_mem (by decide)
  have used : fatWord smallFat reusedDisk.sectors 0 2 ≠ 0 := by decide +kernel
  exact used (free 2 mem 0 (by decide) (by decide))

end Flyos
