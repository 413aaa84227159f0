import Flyos.Fs.Fat16Overrun
import Flyos.Fs.PersistSpec

/-!
# The two areas of the disk

The disk of the Makefile has a FAT16 volume in front and the area of `persist.c` behind it, from
`PERSIST_START_LBA` on.  On a drive that answers, `persist_save` writes only behind that sector,
and all of the image or nothing (`persistSave_disk`), and the calls of `fat16.c` write only into
the volume, while they find room there (`FatInv.call`).  `persist_load` and `fat16_read_file` write
nowhere (`persistLoad_same`, `fat16ReadFile_same`).  What the volume holds depends on its own
sectors only (`FatInv.elsewhere`).
-/

namespace Flyos

variable {H : Type*} {A : Allocator H} {s t : Ramfs H} {kids : Nat → List Nat}
  {depth : Nat → Nat} {d d' : Ata} {f : Forest}

/-! ## The image area -/

/-- Unchanged twice. -/
theorem Ata.Same.trans {u : Ata} (same : Ata.Same d d') (same' : Ata.Same d' u) : Ata.Same d u :=
  ⟨same'.sectors.trans same.sectors, same'.diskSectors.trans same.diskSectors,
    same'.fault.trans same.fault, Nat.le_trans same.waits same'.waits⟩

/-- Nothing has happened. -/
theorem Ata.Same.refl (d : Ata) : Ata.Same d d := ⟨rfl, rfl, rfl, Nat.le_refl _⟩

/-- Waiting changes nothing of a drive. -/
theorem Ata.wait_same (d : Ata) : Ata.Same d d.wait.2 := ⟨rfl, rfl, rfl, Nat.le_succ _⟩

/-- Reading changes nothing of a drive. -/
theorem Ata.readLoop_same (d : Ata) (lba n : Nat) (acc : List UInt8) :
    Ata.Same d (d.readLoop lba n acc).2 := by
  induction n generalizing d lba acc with
  | zero => exact .refl _
  | succ n ih =>
      rw [Ata.readLoop]
      by_cases failed : d.wait.1 = false
      · rw [if_pos failed]
        exact d.wait_same
      · rw [if_neg failed]
        have read : Ata.Same d (d.wait.2.readSector lba).2 := ⟨rfl, rfl, rfl, Nat.le_succ _⟩
        exact read.trans (ih _ _ _)

/-- **`ata_read_sectors` writes nowhere**, whatever fails. -/
theorem ataReadSectors_same (d : Ata) (lba count : Nat) :
    Ata.Same d (ataReadSectors d lba count).2 := by
  rw [ataReadSectors]
  by_cases none : d.diskSectors = 0
  · rw [if_pos none]
    exact .refl _
  rw [if_neg none]
  dsimp only
  by_cases failed : d.wait.1 = false
  · rw [if_pos failed]
    exact d.wait_same
  · rw [if_neg failed]
    exact d.wait_same.trans (Ata.readLoop_same ..)

/-- The loop of `persist_load` writes nowhere. -/
theorem loadLoop_same {fuel lba remain p : Nat} {blob : List UInt8} {r : Option (List UInt8)}
    (ran : loadLoop fuel d lba remain p blob = some (r, d')) : Ata.Same d d' := by
  induction fuel generalizing d lba remain p blob with
  | zero => cases ran
  | succ fuel ih =>
      rw [loadLoop] at ran
      by_cases last : remain = 0
      · rw [if_pos last] at ran
        cases ran
        exact .refl _
      rw [if_neg last] at ran
      dsimp only at ran
      have same := ataReadSectors_same d lba (if 128 < remain then 128 else remain)
      generalize ataReadSectors d lba (if 128 < remain then 128 else remain) = read at ran same
      obtain ⟨o, u⟩ := read
      cases o with
      | none =>
          cases ran
          exact same
      | some data =>
          obtain ⟨blob', -, rest⟩ := Option.bind_eq_some_iff.mp ran
          exact same.trans (ih rest)

/-- `kfree` does not touch the disk. -/
theorem freeReturn_disk {a : Nat} {r r' : Int} {u : Ata}
    (ran : freeReturn A s a r d = some (r', t, u)) : u = d := by
  obtain ⟨v, -, same⟩ := Option.map_eq_some_iff.mp ran
  cases same
  rfl

/-- **`persist_load` writes nowhere.** -/
theorem persistLoad_same {r : Int} (ran : persistLoad A s d = some (r, t, d')) :
    Ata.Same d d' := by
  unfold persistLoad at ran
  dsimp only at ran
  by_cases null : (s.kmalloc A blobMax).1 = 0
  · rw [if_pos null] at ran
    cases ran
    exact .refl _
  rw [if_neg null] at ran
  have same := ataReadSectors_same d persistStartLba 1
  generalize ataReadSectors d persistStartLba 1 = read at ran same
  obtain ⟨o, u⟩ := read
  cases o with
  | none => exact freeReturn_disk ran ▸ same
  | some data =>
      obtain ⟨blob, -, ran⟩ := Option.bind_eq_some_iff.mp ran
      by_cases other : blob.take 8 ≠ magic
      · rw [if_pos other] at ran
        exact freeReturn_disk ran ▸ same
      rw [if_neg other] at ran
      obtain ⟨⟨o, v⟩, loaded, ran⟩ := Option.bind_eq_some_iff.mp ran
      have same' := same.trans (loadLoop_same loaded)
      cases o with
      | none => exact freeReturn_disk ran ▸ same'
      | some blob' =>
          obtain ⟨input, -, ran⟩ := Option.bind_eq_some_iff.mp ran
          obtain ⟨w, -, ran⟩ := Option.bind_eq_some_iff.mp ran
          exact freeReturn_disk ran ▸ same'

/-- **From a disk without an image** `persist_load` loads nothing. -/
theorem persistLoad_blank (inv : RamfsInv A s kids depth) (ok : d.Healthy)
    (blank : (d.sectors persistStartLba).1.take 8 ≠ magic) :
    ∃ r t d', persistLoad A s d = some (r, t, d') ∧ RamfsInv A t kids depth ∧ Looks s t ∧
      (t.oom = false → r = 0) := by
  unfold persistLoad
  obtain ⟨a, u, got⟩ : ∃ a u, s.kmalloc A blobMax = (a, u) := ⟨_, _, rfl⟩
  have junk := A.junk_length s.heap blobMax
  rw [got]
  dsimp only
  by_cases null : a = 0
  · obtain ⟨files, inv', oom, -⟩ := kmalloc_keeps inv blobMax
    rw [got] at files inv' oom
    refine ⟨-1, u, d, if_pos null, inv', ⟨files.nodes, fun x => ?_, files.root, files.cwd⟩,
      fun calm => ?_⟩
    · rw [fileBytes, fileBytes, files.nodes, files.bufs]
    · change u.oom = (s.oom || a == 0) at oom
      rw [calm, null] at oom
      simp at oom
  rw [if_neg null]
  obtain ⟨inv₁, spare, looks, -⟩ := kmalloc_block inv got null (A.junk s.heap blobMax)
  obtain ⟨d₁, first, -⟩ := ataReadSectors_healthy ok persistStartLba 1 (by decide)
  have sized : (Ata.bytesFrom d.sectors persistStartLba 1).length = ataSectorSize := by
    rw [Ata.length_bytesFrom, Nat.one_mul]
  have fits : 0 + (Ata.bytesFrom d.sectors persistStartLba 1).length
      ≤ (A.junk s.heap blobMax).length := by
    rw [junk, sized]
    decide
  rw [first]
  dsimp only
  rw [splice_eq fits, Option.bind_some, overlay_zero]
  have front : (Ata.bytesFrom d.sectors persistStartLba 1 ++ (A.junk s.heap blobMax).drop
      (Ata.bytesFrom d.sectors persistStartLba 1).length).take 8 =
        (d.sectors persistStartLba).1.take 8 := by
    rw [List.take_append_of_le_length (by rw [sized]; decide), Ata.bytesFrom, Ata.bytesFrom,
      List.append_nil]
  rw [if_pos (by rw [front]; exact blank)]
  obtain ⟨inv₂, spare', looks'⟩ := spare.setBuf inv₁ (Ata.bytesFrom d.sectors persistStartLba 1 ++
    (A.junk s.heap blobMax).drop (Ata.bytesFrom d.sectors persistStartLba 1).length)
  obtain ⟨t, ran, inv₃, looks'', -⟩ := spare'.freed inv₂ 0 d₁
  exact ⟨0, t, d₁, ran, inv₃, (looks.trans looks').trans looks'', fun _ => rfl⟩

/-- The loop of `persist_save` leaves a drive that answers. -/
theorem saveLoop_healthy {fuel lba remain p : Nat} {blob : List UInt8} {b : Bool} (ok : d.Healthy)
    (ran : saveLoop fuel d lba remain p blob = some (b, d')) : d'.Healthy := by
  induction fuel generalizing d lba remain p with
  | zero => cases ran
  | succ fuel ih =>
      rw [saveLoop] at ran
      by_cases last : remain = 0
      · rw [if_pos last] at ran
        cases ran
        exact ok
      rw [if_neg last] at ran
      obtain ⟨data, -, ran⟩ := Option.bind_eq_some_iff.mp ran
      obtain ⟨u, wrote, ok'⟩ :=
        ataWriteSectors_healthy ok lba (if 128 < remain then 128 else remain) data
      rw [wrote] at ran
      exact ih ok' ran

/-- **What `persist_save` does to a drive that answers**: nothing in front of the image area, and
behind it all of the image or nothing at all. -/
theorem persistSave_disk (inv : RamfsInv A s kids depth) {n : Node}
    (at_root : s.nodes s.root = some n) {l : List Nat} (shows : Shows s n.children f l)
    (well : f.WellNamed) (ok : d.Healthy) :
    ∃ r t d', persistSave A s d = some (r, t, d') ∧ RamfsInv A t kids depth ∧ Looks s t ∧
      d'.Healthy ∧ (∀ l < persistStartLba, d'.sectors l = d.sectors l) ∧
      ((r = 0 ∧ HoldsImage d' f) ∨ (r = -1 ∧ d' = d)) := by
  rcases persistSave_cases inv at_root shows well d with ⟨t, ran, inv', looks, -⟩ |
    ⟨tail, length, saves⟩
  · exact ⟨-1, t, d, ran, inv', looks, ok, fun _ _ => rfl, .inr ⟨rfl, rfl⟩⟩
  obtain ⟨b, u, saved, ⟨k, le, stored, all⟩, succeeds⟩ := saveImage_spec d length
  obtain ⟨t, ran, inv', looks⟩ := saves _ saved
  obtain rfl := succeeds ok
  obtain rfl := all rfl
  have fits : (image f).length ≤ blobMax := by
    rw [← length, List.length_append]
    exact Nat.le_add_right ..
  exact ⟨0, t, u, ran, inv', looks, saveLoop_healthy ok saved,
    fun l front => stored.others l (.inl front), .inl ⟨rfl, .of_stored fits stored⟩⟩

/-! ## The volume -/

/-- The drive with the record of its transfers cleared. -/
def Ata.untouched (d : Ata) : Ata := { d with touched := [] }

/-- A call on the volume that changes it. -/
def FatCall.volume : FatCall → VolumeCall
  | .write name data size => .write name data size
  | .delete name => .delete name

section Volume

variable {g : Fat16} {total fuel : Nat} {files : FileMap} {V : Vol} {chain : Nat → List Nat}
  (ok : g.Mounted) (fits : g.dataStartLba ≤ total)
include ok fits

/-- The table and the root directory lie in the volume. -/
theorem Fat16.Mounted.tables_inside {m m' : Nat → Sector}
    (same : ∀ l, VolumeSector g total l → m' l = m l) :
    (∀ f < g.numFats, ∀ c < g.entries, fatWord g m' f c = fatWord g m f c) ∧
      ∀ i < g.slots, slotAt g m' i = slotAt g m i := by
  have start := ok.dataStart
  refine ⟨fun f copy c inside => ?_, fun i inside => ?_⟩
  · have region := ok.copy_region inside copy
    rw [fatWord, fatWord, same _ ⟨by omega, by omega⟩]
  · have region := ok.slot_region inside
    have root := ok.rootStart
    rw [slotAt, slotAt, same _ ⟨by omega, by omega⟩]

omit ok fits in
/-- The chain of a file lies in a sound volume. -/
theorem Vol.Files.inside (order : V.Files g chain) (sound : V.Sound g total) {i : Nat}
    (live : V.Live g i) : ∀ c ∈ chain i, InsideVolume g total c := by
  obtain ⟨l, link, inside⟩ := sound i live.1 live.2.1
  rw [(order.chains i live).link.unique link]
  exact inside

/-- **What a volume holds depends on its sectors only.** -/
theorem FatInv.elsewhere (inv : FatInv g d files)
    (sound : (Vol.ofSectors g d.sectors).Sound g total) (healthy : d'.Healthy)
    (same : ∀ l, VolumeSector g total l → d'.sectors l = d.sectors l) :
    FatInv g d' files ∧ (Vol.ofSectors g d'.sectors).Sound g total := by
  obtain ⟨base, V, chain, holds, order, contents, media⟩ := inv
  obtain ⟨table, slots⟩ := ok.tables_inside fits same
  have soundV : V.Sound g total := by
    refine sound.congr (fun c low inside => ?_) fun i inside => (holds.shows.slots i inside).symm
    have first := holds.shows.table 0 ok.numFats.1 c inside
    rw [if_neg (by omega)] at first
    exact first.symm
  let W : Vol := { V with data := fun j => (d'.sectors (g.partLba + (g.dataStartLba + j))).1 }
  have blocks : ∀ i, V.Live g i → ∀ k ∈ chainSectors g (chain i), W.data k = V.data k := by
    intro i live k mem
    obtain ⟨c, held, sector⟩ := List.mem_flatMap.mp mem
    obtain ⟨-, -, inside⟩ := order.inside soundV live c held
    rw [clusterSectors, List.mem_range'_1] at sector
    have here : VolumeSector g total (g.partLba + (g.dataStartLba + k)) := ⟨by omega, by omega⟩
    rw [← holds.shows.data k, ← same _ here]
  refine ⟨⟨d'.sectors, W, chain, ⟨healthy.watched, fun f copy c inside => ?_, fun i inside => ?_,
    fun j => rfl⟩, ⟨order.ended, order.kinds, fun i live => ?_, order.apart, order.names⟩,
    ⟨fun i live => ?_, contents.named⟩, media⟩, ?_⟩
  · rw [table f copy c inside]
    exact holds.shows.table f copy c inside
  · rw [slots i inside]
    exact holds.shows.slots i inside
  · have held := order.chains i live
    exact ⟨held.link, held.empty, held.used, held.length⟩
  · obtain ⟨data, named, length, stored⟩ := contents.stored i live
    refine ⟨data, named, length, ?_⟩
    rw [loadBlocks_congr (blocks i live)]
    exact stored
  · exact sound.congr (fun c _ inside => table 0 ok.numFats.1 c inside) slots

/-- **A call on the volume** that finds room returns, the volume has the files after it, and the
rest of the disk is as it was. -/
theorem FatInv.call (bytes : g.bytesPerSector = 512) (spc : 0 < g.sectorsPerCluster)
    (enough : 2 ^ 16 < fuel) (inv : FatInv g d files)
    (sound : (Vol.ofSectors g d.sectors).Sound g total) (healthy : d.Healthy) {call : FatCall}
    (valid : call.Valid) (room : CallRoom g total d.untouched call.volume) :
    ∃ done d', fatCall g fuel d.untouched call = .ok (done, d') ∧
      FatInv g d' (files.after (call, done)) ∧ (Vol.ofSectors g d'.sectors).Sound g total ∧
      ∀ l, ¬ VolumeSector g total l → d'.sectors l = d.sectors l := by
  have start : FatInv g d.untouched files :=
    (inv.elsewhere ok fits sound (show d.untouched.Healthy from healthy) fun _ _ => rfl).1
  have confined : Confined (VolumeSector g total) d.sectors d.untouched :=
    ⟨fun l mem => absurd mem List.not_mem_nil, fun l differs => absurd rfl differs⟩
  obtain ⟨done, u, ran, inv'⟩ := start.returns ok bytes spc enough valid
  obtain ⟨u', ran', confined', sound'⟩ :=
    volumeCall_faulty ok spc fits confined sound enough (fun _ => true) room
  obtain rfl : u = u' := by
    cases call with
    | write name data size =>
        rw [FatCall.volume, volumeCall, show fat16WriteFile g fuel d.untouched name data size = _
          from ran] at ran'
        exact Except.ok.inj ran'
    | delete name =>
        rw [FatCall.volume, volumeCall, show fat16DeleteFile g fuel d.untouched name = _
          from ran] at ran'
        exact Except.ok.inj ran'
  refine ⟨done, u, ran, inv', sound', fun l outside => ?_⟩
  by_contra differs
  exact outside (confined'.touched l (confined'.changed l differs))

end Volume

/-! ## Reading the volume -/

section Reading

variable {g : Fat16}

/-- Scanning the root directory writes nowhere. -/
theorem scanRoot_same {α : Type} (visit : List UInt8 → Option α) (n k : Nat) :
    Ata.Same d (scanRoot g visit n k d).2 := by
  induction n generalizing d k with
  | zero => exact .refl _
  | succ n ih =>
      rw [scanRoot]
      have same := ataReadSectors_same d (g.partLba + (g.rootStartLba + k)) 1
      rw [← readSector] at same
      generalize readSector g d (g.rootStartLba + k) = read at same
      obtain ⟨o, u⟩ := read
      cases o with
      | none => exact same
      | some buf =>
          dsimp only
          cases visitSector visit buf 16 0 with
          | none => exact same.trans (ih _)
          | some hit => exact same

/-- Nor does reading the sectors of a cluster. -/
theorem readCluster_same (size n lba : Nat) (acc : List UInt8) :
    Ata.Same d (readCluster g size n lba d acc).2.2 := by
  induction n generalizing d lba acc with
  | zero => exact .refl _
  | succ n ih =>
      rw [readCluster]
      by_cases full : size ≤ acc.length
      · rw [if_pos full]
        exact .refl _
      rw [if_neg full]
      have same := ataReadSectors_same d (g.partLba + lba) 1
      rw [← readSector] at same
      generalize readSector g d lba = read at same
      obtain ⟨o, u⟩ := read
      cases o with
      | none => exact same
      | some buf => exact same.trans (ih _ _)

/-- Nor does following a chain. -/
theorem readChain_same {size fuel cluster : Nat} {acc : List UInt8} {r : Bool × List UInt8 × Ata}
    (ran : readChain g size fuel d cluster acc = .ok r) : Ata.Same d r.2.2 := by
  induction fuel generalizing d cluster acc with
  | zero => cases ran
  | succ fuel ih =>
      rw [readChain] at ran
      by_cases more : InChain cluster ∧ acc.length < size
      · rw [if_pos more] at ran
        dsimp only at ran
        have same := readCluster_same (g := g) (d := d) size g.sectorsPerCluster
          (g.dataStartLba + (cluster - 2) * g.sectorsPerCluster) acc
        generalize readCluster g size g.sectorsPerCluster
          (g.dataStartLba + (cluster - 2) * g.sectorsPerCluster) d acc = read at ran same
        obtain ⟨b, acc', u⟩ := read
        cases b with
        | false =>
            cases ran
            exact same
        | true =>
            have next : Ata.Same u (fatNext g u cluster).2 := by
              rw [fatNext, fatGet]
              have same := ataReadSectors_same u (g.partLba + (g.fatStartLba + cluster * 2 / 512)) 1
              rw [← readSector] at same
              generalize readSector g u (g.fatStartLba + cluster * 2 / 512) = entry at same
              obtain ⟨o, v⟩ := entry
              cases o with
              | none => exact same
              | some buf => exact same
            exact same.trans (next.trans (ih ran))
      · rw [if_neg more] at ran
        cases ran
        exact .refl _

/-- Nor does looking for a name. -/
theorem findRootEntry_same {kmalloc : Nat → Bool} {name : List UInt8} {o : Option (List UInt8)}
    (looked : findRootEntry g kmalloc d name = .ok (o, d')) : Ata.Same d d' := by
  rw [findRootEntry] at looked
  cases count : g.rootSectors with
  | error trap =>
      rw [count] at looked
      cases looked
  | ok n =>
      rw [count, Except.map, Except.ok.injEq] at looked
      by_cases noMemory : kmalloc 512 = false
      · rw [if_pos noMemory] at looked
        cases looked
        exact .refl _
      rw [if_neg noMemory] at looked
      have same := scanRoot_same (g := g) (d := d) (findVisit (findName name)) n 0
      generalize scanRoot g (findVisit (findName name)) n 0 d = scan at looked same
      obtain ⟨found, u⟩ := scan
      have here : u = d' := by
        cases found with
        | failed => exact congrArg Prod.snd looked
        | ended => exact congrArg Prod.snd looked
        | hit s k buf e => cases e <;> exact congrArg Prod.snd looked
      exact here ▸ same

/-- **`fat16_read_file` writes nowhere**, whatever fails. -/
theorem fat16ReadFile_same {kmalloc : Nat → Bool} {fuel : Nat} {name : List UInt8} {max : Int}
    {r : Int × List UInt8} (ran : fat16ReadFile g kmalloc fuel d name max = .ok (r, d')) :
    Ata.Same d d' := by
  rw [fat16ReadFile] at ran
  cases looked : findRootEntry g kmalloc d name with
  | error trap =>
      rw [looked] at ran
      cases ran
  | ok found =>
      obtain ⟨o, u⟩ := found
      have same := findRootEntry_same looked
      rw [looked, Except.bind] at ran
      cases o with
      | none =>
          cases ran
          exact same
      | some e =>
          dsimp only at ran
          generalize (if (max % 2 ^ 32).toNat < direntSize e then (max % 2 ^ 32).toNat
            else direntSize e) = size at ran
          by_cases empty : size = 0 ∨ direntCluster e < 2
          · rw [if_pos empty] at ran
            cases ran
            exact same
          rw [if_neg empty] at ran
          cases chain : readChain g size fuel u (direntCluster e) [] with
          | error trap =>
              rw [chain] at ran
              cases ran
          | ok end_ =>
              rw [chain, Except.map] at ran
              cases ran
              exact same.trans (readChain_same chain)

end Reading

end Flyos
