import Flyos.Fs.Fat16Inside
import Flyos.Fs.Fat16Calls

/-!
# Whether the volume is left

Sequences of calls on a sound volume, on a drive that may fail at any transfer.  `fat_inside`
says that none leaves the volume as long as every write finds room in it (`WriteRoom`).  A write
that does not takes a cluster behind the volume: on the disk of the Makefile that is the area of
`persist.c` (`fat_leaves`).
-/

namespace Flyos

/-- The copies of the table are identical. -/
def SameCopies (g : Fat16) (m : Nat → Sector) : Prop :=
  ∀ f < g.numFats, ∀ c < g.entries, fatWord g m f c = fatWord g m 0 c

/-- **A write of `n` clusters finds room**: there is room before the previous version is deleted;
or the drive answers, and there is room once it is deleted, or the write fails because fewer than
`n` clusters are free then. -/
def WriteRoom (g : Fat16) (total : Nat) (d : Ata) (name : List UInt8) (n : Nat) : Prop :=
  (Vol.ofSectors g d.sectors).Room g total n ∨
    d.Healthy ∧ SameCopies g d.sectors ∧
      (((Vol.ofSectors g d.sectors).delete g (parse83 name)).Room g total n ∨
        (((Vol.ofSectors g d.sectors).delete g (parse83 name)).freeList g).length < n)

/-- A call finds room, if it is a write. -/
def CallRoom (g : Fat16) (total : Nat) (d : Ata) : VolumeCall → Prop
  | .write name _ size => 0 ≤ size → WriteRoom g total d name (g.clustersFor size.toNat)
  | _ => True

/-- A step: a call, with any outcome of the `kmalloc` in it. -/
def RoundStep (g : Fat16) (fuel : Nat) (d : Ata) (call : VolumeCall) (d' : Ata) : Prop :=
  ∃ kmalloc, volumeCall g kmalloc fuel d call = .ok d'

/-- **The calls stay inside the volume**: every sector read or written lies below sector `total`
of it. -/
def StaysInside (g : Fat16) (total fuel : Nat) (d : Ata) : Prop :=
  ∀ calls d', Run (RoundStep g fuel) d calls d' → ∀ l ∈ d'.touched, VolumeSector g total l

/-- What the boot sector declares: the 16 bits of `total_sectors_16`, or the 32 bits of
`total_sectors_32` if they are 0. -/
def declaredSectors (boot : List UInt8) : Nat :=
  if word boot 19 = 0 then word boot 32 + 2 ^ 16 * word boot 34 else word boot 19

section Calls

variable {g : Fat16} {total : Nat} {allowed : Nat → Prop} {base : Nat → Sector} {d d' : Ata}
  {V : Vol} {fuel : Nat} {name data : List UInt8} {calls : List VolumeCall}

/-- A drive shows in the first copy what it shows in all. -/
theorem FatHolds.first (ok : g.Mounted) (holds : FatHolds g allowed base d V) :
    FirstHolds g allowed base d V := by
  refine ⟨holds.watched.confined, fun c low inside => ?_, holds.shows.slots⟩
  rw [holds.shows.table 0 ok.numFats.1 c inside, if_neg (by omega)]

/-- Sectors with identical copies of the table show a volume. -/
theorem SameCopies.shows {m : Nat → Sector} (copies : SameCopies g m) :
    FatShows g m (Vol.ofSectors g m) := by
  refine ⟨fun f copy c inside => ?_, fun i _ => rfl, fun j => rfl⟩
  split
  · rfl
  · exact copies f copy c inside

/-- Any sectors show a volume in the first copy. -/
theorem firstShows_ofSectors (g : Fat16) (m : Nat → Sector) :
    FirstShows g m (Vol.ofSectors g m) :=
  ⟨fun _ _ _ => rfl, fun _ _ => rfl⟩

/-- Where too few clusters are free, the ones taken are given back. -/
theorem allocChain_few (ok : g.Mounted) (tables : TablesAllowed g allowed)
    (holds : FatHolds g allowed base d V) (enough : 2 ^ 16 < fuel) {n : Nat}
    (few : (V.freeList g).length < n) :
    ∃ d', allocChain g fuel n d 0 0 = .ok (none, d') ∧ FatHolds g allowed base d' V := by
  have short := Vol.length_freeList (V := V) (g := g)
  exact (ok.allocChain tables [] (V.freeList g) rfl holds n fuel (by omega)).2 few

/-- The data after the first write of a name. -/
theorem Vol.write_data {want : List UInt8} {i : Nat} (passed : V.target g want = none)
    (enough : g.clustersFor data.length ≤ (V.freeList g).length)
    (slot : writeSlot V.slot g.slots = some i) :
    (V.write g want data).2.data =
      storeBlocks 512 0 V.data (chainSectors g (V.chainFor g data)) data := by
  rw [Vol.write_of_none passed, Vol.create, if_neg (Nat.not_lt.mpr enough), slot]
  rfl

/-- **`fat16_write_file` stays inside**, where it finds room. -/
theorem fat16WriteFile_faulty (ok : g.Mounted) (spc : 0 < g.sectorsPerCluster)
    (tables : TablesAllowed g allowed) (volume : ∀ l, VolumeSector g total l → allowed l)
    (confined : Confined allowed base d) (sound : (Vol.ofSectors g d.sectors).Sound g total)
    (enough : 2 ^ 16 < fuel) {size : Int}
    (room : 0 ≤ size → WriteRoom g total d name (g.clustersFor size.toNat)) :
    ∃ b d' W, fat16WriteFile g fuel d name data size = .ok (b, d') ∧
      FirstHolds g allowed base d' W ∧ W.Sound g total := by
  have holds : FirstHolds g allowed base d (Vol.ofSectors g d.sectors) :=
    ⟨confined, firstShows_ofSectors g d.sectors⟩
  by_cases negative : size < 0
  · exact ⟨_, d, _, if_pos negative, holds, sound⟩
  rw [fat16WriteFile, if_neg negative]
  dsimp only
  rcases room (Int.not_lt.mp negative) with before | ⟨healthy, copies, after⟩
  · obtain ⟨b, u, W, deleted, holdsU, soundU, roomU⟩ :=
      fat16DeleteFile_faulty ok tables holds sound enough name
    rw [deleted, Except.bind, ok.numClusters spc]
    exact writeRest_faulty ok tables volume holdsU soundU enough (roomU _ before)
      (length_parse83 name) _ _
  have fat : FatHolds g allowed base d (Vol.ofSectors g d.sectors) :=
    ⟨confined.watched healthy, copies.shows⟩
  obtain ⟨u, deleted, holdsU⟩ : ∃ u, fat16DeleteFile g fuel d name =
      .ok (((Vol.ofSectors g d.sectors).target g (parse83 name)).isSome, u) ∧
        FatHolds g allowed base u ((Vol.ofSectors g d.sectors).delete g (parse83 name)) := by
    refine ok.deleteFile tables fat enough fun i taken x mem => ?_
    obtain ⟨slot, more, -, -⟩ := deleteSlot_eq_some_iff.mp taken
    obtain ⟨l, chain, inside⟩ := sound i slot more
    rw [Vol.walk_eq chain] at mem
    exact (inside x mem).table
  have soundU := sound.delete (parse83 name)
  rw [deleted, Except.bind, ok.numClusters spc]
  rcases after with enoughRoom | few
  · exact writeRest_faulty ok tables volume (holdsU.first ok) soundU enough enoughRoom
      (length_parse83 name) _ _
  · obtain ⟨d', ran, holds'⟩ := allocChain_few ok tables holdsU enough few
    refine ⟨false, d', _, ?_, holds'.first ok, soundU⟩
    show (allocChain g fuel _ u 0 0).bind _ = _
    rw [ran]
    rfl

/-- **Every call stays inside**, where it finds room, and returns. -/
theorem volumeCall_faulty (ok : g.Mounted) (spc : 0 < g.sectorsPerCluster)
    (fits : g.dataStartLba ≤ total) (confined : Confined (VolumeSector g total) base d)
    (sound : (Vol.ofSectors g d.sectors).Sound g total) (enough : 2 ^ 16 < fuel)
    (kmalloc : Nat → Bool) {call : VolumeCall} (room : CallRoom g total d call) :
    ∃ d', volumeCall g kmalloc fuel d call = .ok d' ∧ Confined (VolumeSector g total) base d' ∧
      (Vol.ofSectors g d'.sectors).Sound g total := by
  have volume : ∀ l, VolumeSector g total l → VolumeSector g total l := fun _ inside => inside
  have tables := tablesAllowed fits volume
  have holds : FirstHolds g (VolumeSector g total) base d (Vol.ofSectors g d.sectors) :=
    ⟨confined, firstShows_ofSectors g d.sectors⟩
  cases call with
  | list max =>
      obtain ⟨r, d', ran, holds'⟩ := fat16ListRoot_faulty ok tables holds kmalloc max
      exact ⟨d', by rw [volumeCall, ran, Except.map], holds'.confined, holds'.shows.sound sound⟩
  | read name max =>
      obtain ⟨r, d', ran, holds'⟩ :=
        fat16ReadFile_faulty ok tables volume holds sound enough kmalloc name max
      exact ⟨d', by rw [volumeCall, ran, Except.map], holds'.confined, holds'.shows.sound sound⟩
  | write name data size =>
      obtain ⟨b, d', W, ran, holds', sound'⟩ : ∃ b d' W,
          fat16WriteFile g fuel d name data size = .ok (b, d') ∧
            FirstHolds g (VolumeSector g total) base d' W ∧ W.Sound g total :=
        fat16WriteFile_faulty ok spc tables volume confined sound enough room
      exact ⟨d', by rw [volumeCall, ran, Except.map], holds'.confined, holds'.shows.sound sound'⟩
  | delete name =>
      obtain ⟨b, d', W, ran, holds', sound', -⟩ :=
        fat16DeleteFile_faulty ok tables holds sound enough name
      exact ⟨d', by rw [volumeCall, ran, Except.map], holds'.confined, holds'.shows.sound sound'⟩
  | size name =>
      obtain ⟨r, d', ran, holds', -⟩ := findRootEntry_faulty ok tables holds kmalloc name
      exact ⟨d', by rw [volumeCall, fat16FileSize, ran, Except.map, Except.map], holds'.confined,
        holds'.shows.sound sound⟩

/-- **The volume is not left**: in every sequence of calls on a sound volume in which every write
finds room, whichever transfers fail, only sectors of the volume are read or written, the others
stay, and every further call that finds room returns.  A run is confined if every access so far
was inside and the volume is still sound; one lemma about the five calls, failing transfers
included (`volumeCall_faulty`), keeps both, and room is asked for on the table before the call.
-/
theorem fat_inside (ok : g.Mounted) (spc : 0 < g.sectorsPerCluster) (fits : g.dataStartLba ≤ total)
    (sound : (Vol.ofSectors g d.sectors).Sound g total) (counted : d.touched = [])
    (enough : 2 ^ 16 < fuel) (run : Run (Guarded (CallRoom g total) (RoundStep g fuel)) d calls d') :
    (∀ l ∈ d'.touched, VolumeSector g total l) ∧
    (∀ l, ¬ VolumeSector g total l → d'.sectors l = d.sectors l) ∧
    ∀ kmalloc call, CallRoom g total d' call → ∃ u, volumeCall g kmalloc fuel d' call = .ok u := by
  have start : Confined (VolumeSector g total) d.sectors d := by
    refine ⟨fun l mem => ?_, fun _ differs => absurd rfl differs⟩
    rw [counted] at mem
    cases mem
  obtain ⟨confined, sound'⟩ := run.invariant
    (fun u => Confined (VolumeSector g total) d.sectors u ∧
      (Vol.ofSectors g u.sectors).Sound g total)
    (fun ⟨confined, sound⟩ ⟨room, kmalloc, ran⟩ => by
      obtain ⟨u, ran', after⟩ :=
        volumeCall_faulty ok spc fits confined sound enough kmalloc room
      obtain rfl := Except.ok.inj (ran'.symm.trans ran)
      exact after) ⟨start, sound⟩
  refine ⟨confined.touched, fun l outside => ?_, fun kmalloc call room => ?_⟩
  · by_contra differs
    exact outside (confined.touched l (confined.changed l differs))
  · obtain ⟨u, ran, -⟩ := volumeCall_faulty ok spc fits confined sound' enough kmalloc room
    exact ⟨u, ran⟩

end Calls

/-! ## A write that finds room -/

/-- Three bytes are written to a volume of 254 clusters. -/
theorem fat_inside_small : ∃ d',
    Run (Guarded (CallRoom smallFat 257) (RoundStep smallFat (2 ^ 16 + 1))) emptyDisk
      [.write newName [1, 2, 3] 3] d' ∧ ∀ l ∈ d'.touched, VolumeSector smallFat 257 l := by
  have room : CallRoom smallFat 257 emptyDisk (.write newName [1, 2, 3] 3) := by
    refine fun _ => .inl fun c mem => ?_
    obtain ⟨low, high, -⟩ := Vol.mem_freeList.mp (List.mem_of_mem_take mem)
    have below : c < 256 := Nat.lt_of_lt_of_le high (by decide)
    exact ⟨⟨low, by omega⟩, below, show 3 + (c - 2) * 1 + 1 ≤ 257 by omega⟩
  have sound : (Vol.ofSectors smallFat emptyDisk.sectors).Sound smallFat 257 := by
    intro i inside used
    change direntFirst (slotAt smallFat emptyDisk.sectors i) ≠ 0 at used
    rw [emptyDisk_fresh.root i inside] at used
    exact absurd rfl used
  have start : Confined (VolumeSector smallFat 257) emptyDisk.sectors emptyDisk :=
    ⟨fun _ mem => absurd mem List.not_mem_nil, fun _ differs => absurd rfl differs⟩
  obtain ⟨d', ran, -⟩ := volumeCall_faulty smallFat_mounted (by decide) (by decide) start sound
    (Nat.lt_succ_self (2 ^ 16)) (fun _ => true) room
  have run : Run (Guarded (CallRoom smallFat 257) (RoundStep smallFat (2 ^ 16 + 1))) emptyDisk
      [.write newName [1, 2, 3] 3] d' := .single ⟨room, fun _ => true, ran⟩
  exact ⟨d', run, (fat_inside smallFat_mounted (by decide) (by decide) sound rfl
    (Nat.lt_succ_self _) run).1⟩

/-! ## The disk of the Makefile -/

/-- The volume that `mkfs.fat` makes of 16 MiB: 8167 clusters, and 8190 entries for clusters. -/
def makefileFat : Fat16 where
  partLba := 0
  bytesPerSector := 512
  sectorsPerCluster := 4
  reservedSectors := 4
  numFats := 2
  rootEntries := 512
  fatSize := 32
  fatStartLba := 4
  rootStartLba := 68
  dataStartLba := 100

/-- The entry of a cluster when one file has all the clusters of the volume, 2 to 8168. -/
def fullEntry (c : Nat) : Nat :=
  if c < 2 ∨ c = 8168 then 0xFFFF else if c < 8168 then c + 1 else 0

/-- Sector `s` of the table then. -/
def fullSector (s : Nat) : Sector :=
  ⟨List.ofFn fun k : Fin 512 =>
    UInt8.ofNat (fullEntry (256 * s + k / 2) / 2 ^ (8 * (k.1 % 2))), List.length_ofFn⟩

/-- The string `big`. -/
def bigName : List UInt8 := [0x62, 0x69, 0x67]

/-- A drive with that volume, which the file `big` fills. -/
def fullDisk : Ata where
  sectors l :=
    if 4 ≤ l ∧ l < 68 then fullSector ((l - 4) % 32)
    else if l = 0 then
      .ofList (List.replicate 11 0 ++ [0, 2, 4, 4, 0, 2, 0, 2, 0, 0x80, 0xF8, 32, 0])
    else if l = 68 then .ofList (newDirent (parse83 bigName) 2 (8167 * 2048))
    else .ofList []
  diskSectors := 65536
  fault _ := false
  waits := 0
  touched := []

theorem makefileFat_mounted : makefileFat.Mounted := by
  refine ⟨?_, ?_, ?_, ?_, ?_, ?_, ?_, ?_, ?_⟩ <;> decide

theorem fullDisk_healthy : fullDisk.Healthy := ⟨Nat.succ_ne_zero _, fun _ _ => rfl⟩

theorem fullEntry_lt (c : Nat) : fullEntry c < 2 ^ 16 := by
  rw [fullEntry]
  split
  · decide
  · split <;> omega

/-- A word of the table. -/
theorem word_fullSector {s k : Nat} (small : k < 256) :
    word (fullSector s).1 (2 * k) = fullEntry (256 * s + k) := by
  have byte : ∀ j (inside : j < 512), (fullSector s).1.getD j 0 =
      UInt8.ofNat (fullEntry (256 * s + j / 2) / 2 ^ (8 * (j % 2))) := by
    intro j inside
    rw [List.getD_eq_getElem?_getD, fullSector, List.getElem?_ofFn, dif_pos inside]
    rfl
  have bound := fullEntry_lt (256 * s + k)
  rw [word, byte _ (by omega), byte _ (by omega), show 2 * k / 2 = k by omega,
    show (2 * k + 1) / 2 = k by omega, show 2 * k % 2 = 0 by omega, show (2 * k + 1) % 2 = 1 by omega,
    UInt8.toNat_ofNat', UInt8.toNat_ofNat']
  omega

/-- What both copies of the table show. -/
theorem fatWord_fullDisk {f c : Nat} (copy : f < 2) (inside : c < 8192) :
    fatWord makefileFat fullDisk.sectors f c = fullEntry c := by
  have lba : copyLba makefileFat c f = 4 + c / 256 + f * 32 := by
    show 0 + (4 + c * 2 / 512 + f * 32) = _
    omega
  have sector : fullDisk.sectors (4 + c / 256 + f * 32) = fullSector (c / 256) := by
    show (if 4 ≤ 4 + c / 256 + f * 32 ∧ 4 + c / 256 + f * 32 < 68 then _ else _) = _
    rw [if_pos (by omega)]
    congr 1
    omega
  rw [fatWord, lba, sector, show c * 2 % 512 = 2 * (c % 256) by omega,
    word_fullSector (Nat.mod_lt _ (by decide))]
  congr 1
  omega

theorem fullDisk_copies : SameCopies makefileFat fullDisk.sectors := by
  intro f copy c inside
  rw [fatWord_fullDisk copy inside, fatWord_fullDisk (by decide) inside]

/-- The chain of the file. -/
theorem fullDisk_chain {c : Nat} (low : 2 ≤ c) (high : c ≤ 8168) :
    LinkChain (Vol.ofSectors makefileFat fullDisk.sectors).fat (fun c => ¬ InChain c) c
      (List.range' c (8169 - c)) := by
  have entry : (Vol.ofSectors makefileFat fullDisk.sectors).fat c = fullEntry c :=
    fatWord_fullDisk (by decide) (by omega)
  induction left : 8168 - c generalizing c with
  | zero =>
      obtain rfl : c = 8168 := by omega
      refine ⟨rfl, not_not_intro ⟨low, by decide⟩, ?_⟩
      rw [entry]
      exact (by decide : ¬ InChain (fullEntry 8168))
  | succ n ih =>
      have next : fullEntry c = c + 1 := by
        rw [fullEntry, if_neg (by omega), if_pos (by omega)]
      rw [show 8169 - c = 8169 - (c + 1) + 1 by omega, List.range'_succ]
      refine ⟨rfl, not_not_intro ⟨low, by omega⟩, ?_⟩
      rw [entry, next]
      exact ih (by omega) (by omega) (fatWord_fullDisk (by decide) (by omega)) (by omega)

/-- The volume is sound. -/
theorem fullDisk_sound : (Vol.ofSectors makefileFat fullDisk.sectors).Sound makefileFat 32768 := by
  intro i inside used
  by_cases first : i = 0
  · subst first
    have cluster : direntCluster ((Vol.ofSectors makefileFat fullDisk.sectors).slot 0) = 2 := by
      decide +kernel
    rw [cluster]
    refine ⟨_, fullDisk_chain (Nat.le_refl 2) (by decide), fun x mem => ?_⟩
    rw [List.mem_range'_1] at mem
    exact ⟨⟨mem.1, by omega⟩, show x < 8192 by omega, show 100 + (x - 2) * 4 + 4 ≤ 32768 by omega⟩
  · -- the other slots are zero
    have inside' : i < 512 := inside
    refine absurd ?_ used
    have root : slotLba makefileFat i = 68 + i / 16 := Nat.zero_add _
    show direntFirst (slotAt makefileFat fullDisk.sectors i) = 0
    rw [direntFirst_slotAt, root]
    have sector : ∃ b : List UInt8, fullDisk.sectors (68 + i / 16) = .ofList b ∧
        b.length ≤ 32 * (i % 16) := by
      show ∃ b, (if 4 ≤ 68 + i / 16 ∧ 68 + i / 16 < 68 then _ else _) = Sector.ofList b ∧ _
      rw [if_neg (by omega), if_neg (by omega)]
      by_cases row : 68 + i / 16 = 68
      · exact ⟨_, if_pos row, by rw [length_newDirent (length_parse83 bigName)]; omega⟩
      · exact ⟨[], if_neg row, Nat.zero_le _⟩
    obtain ⟨b, eq, short⟩ := sector
    rw [eq, getD_ofList short]

/-- The first free entry is that of a cluster that the volume does not have. -/
theorem fullDisk_free : ∃ rest,
    (Vol.ofSectors makefileFat fullDisk.sectors).freeList makefileFat = 8169 :: rest := by
  have entry : ∀ c < 8192, (Vol.ofSectors makefileFat fullDisk.sectors).fat c = fullEntry c :=
    fun c inside => fatWord_fullDisk (by decide) inside
  refine ⟨_, Vol.freeList_cons (v := 0xFFFF) (by decide) (by decide) ?_ (fun k low less => ?_)
    (by decide)⟩
  · rw [entry 8169 (by decide)]
    decide
  · rw [entry k (by omega), fullEntry]
    split
    · decide
    · rw [if_pos (by omega)]
      omega

/-- **The defect.**  On the disk of the Makefile, with the volume full, a file of one byte goes to
sector 32768, the first one of the area of `persist.c`. -/
theorem fat_leaves :
    (fat16Init .initial fullDisk 0).map Prod.fst = .ok makefileFat ∧
      declaredSectors (fullDisk.sectors 0).1 = 32768 ∧
      (Vol.ofSectors makefileFat fullDisk.sectors).Sound makefileFat 32768 ∧
      (∃ d', RoundStep makefileFat (2 ^ 16 + 1) fullDisk (.write newName [1] 1) d' ∧
        32768 ∈ d'.touched) ∧
      ¬ StaysInside makefileFat 32768 (2 ^ 16 + 1) fullDisk := by
  obtain ⟨rest, free⟩ := fullDisk_free
  have passed : (Vol.ofSectors makefileFat fullDisk.sectors).target makefileFat (parse83 newName) =
      none := by
    decide +kernel
  have slot : writeSlot (Vol.ofSectors makefileFat fullDisk.sectors).slot makefileFat.slots =
      some 1 := by
    decide +kernel
  obtain ⟨d', ran, holds⟩ := makefileFat_mounted.writeFile (by decide) (fun _ _ _ => trivial)
    (d := fullDisk) ⟨fullDisk_healthy.watched, fullDisk_copies.shows⟩ (Nat.lt_succ_self (2 ^ 16))
    (fun i taken => nomatch passed.symm.trans taken) [1] (fun _ _ _ => trivial)
  have clusters : (Vol.ofSectors makefileFat fullDisk.sectors).chainFor makefileFat [1] = [8169] := by
    rw [Vol.chainFor, free]
    rfl
  have step : RoundStep makefileFat (2 ^ 16 + 1) fullDisk (.write newName [1] 1) d' :=
    ⟨fun _ => true, by rw [volumeCall]; exact congrArg (Except.map Prod.snd) ran⟩
  have sectors : chainSectors makefileFat [8169] = 32668 :: List.range' 32669 3 := by decide
  have written : ((Vol.ofSectors makefileFat fullDisk.sectors).write makefileFat (parse83 newName)
      [1]).2.data 32668 = padTo 512 0 [1] := by
    rw [Vol.write_data passed (by rw [free]; exact Nat.succ_le_succ (Nat.zero_le _)) slot, clusters,
      sectors, storeBlocks_cons (by decide), storeBlocks_of_notMem (by decide), Function.update_self]
  have touched : 32768 ∈ d'.touched := by
    refine holds.watched.changed 32768 fun same => ?_
    have shown := holds.shows.data 32668
    rw [written, show makefileFat.partLba + (makefileFat.dataStartLba + 32668) = 32768 from rfl,
      same] at shown
    exact absurd (congrArg (fun b => b.getD 0 0) shown) (by decide +kernel)
  refine ⟨by decide +kernel, by decide +kernel, fullDisk_sound, ⟨d', step, touched⟩, fun stays => ?_⟩
  have inside := stays _ _ (.single step) 32768 touched
  exact absurd inside.2 (by decide)

end Flyos
