import Flyos.Fs.Fat16Contents
import Flyos.Fs.Fat16Fail
import Flyos.Lib.Runs

/-!
# Sequences of calls on a formatted volume

From a freshly formatted volume any sequence of `fat16_write_file` and `fat16_delete_file`
is run; each call may succeed or fail.  `FatInv` holds all along: the drive shows a volume
with the files of a map.  So the tables stay in order (`fat_chains`), and the volume is
the map that the calls describe (`volume_is_map`).
-/

namespace Flyos

/-! ## The calls -/

/-- The calls that change the volume. -/
inductive FatCall
  | write (name data : List UInt8) (size : Int)
  | delete (name : List UInt8)

/-- The name that is passed. -/
def FatCall.name : FatCall → List UInt8
  | .write name _ _ => name
  | .delete name => name

/-- What may be passed: an ASCII name, and an `int` with a buffer of at least that size. -/
def FatCall.Valid : FatCall → Prop
  | .write name data size => AsciiName name ∧ size ≤ data.length ∧ size < 2 ^ 31
  | .delete name => AsciiName name

/-- The call, and whether it returned 0. -/
def fatCall (g : Fat16) (fuel : Nat) (d : Ata) : FatCall → Except Fat16Trap (Bool × Ata)
  | .write name data size => fat16WriteFile g fuel d name data size
  | .delete name => fat16DeleteFile g fuel d name

/-- A step: a valid call, with whether it returned 0. -/
def FatStep (g : Fat16) (fuel : Nat) (d : Ata) (i : FatCall × Bool) (d' : Ata) : Prop :=
  i.1.Valid ∧ fatCall g fuel d i.1 = .ok (i.2, d')

/-- The files after a call.  A write that succeeds puts its data under the name; a write that
fails took the previous version out first, unless it refused the size. -/
def FileMap.after (files : FileMap) : FatCall × Bool → FileMap
  | (.write name data size, done) =>
      if size < 0 then files
      else Function.update files (parse83 name) (if done then some (data.take size.toNat) else none)
  | (.delete name, _) => Function.update files (parse83 name) none

/-- The files after a sequence of calls on an empty volume. -/
def filesAfter (calls : List (FatCall × Bool)) : FileMap := calls.foldl FileMap.after fun _ => none

/-! ## Formatted volumes -/

/-- **A freshly formatted volume**: the copies of the table are identical and free from cluster 2
on, and the root directory is all zero. -/
structure FreshVolume (g : Fat16) (m : Nat → Sector) : Prop where
  copies : ∀ f < g.numFats, ∀ c < g.entries, fatWord g m f c = fatWord g m 0 c
  table : ∀ c, 2 ≤ c → c < g.entries → fatWord g m 0 c = 0
  root : ∀ i < g.slots, slotAt g m i = List.replicate 32 0

/-- **The chain of a root entry**: following the first copy of the table visits as many clusters
as the size needs, all distinct and in range, and ends in an end mark. -/
structure FileChain (g : Fat16) (m : Nat → Sector) (e : List UInt8) (cs : List Nat) : Prop where
  follows : if direntSize e = 0 then direntCluster e = 0
    else LinkChain (fatWord g m 0) (fun c => 0xFFF8 ≤ c) (direntCluster e) cs
  length : cs.length =
    (direntSize e + (512 * g.sectorsPerCluster - 1)) / (512 * g.sectorsPerCluster)
  distinct : cs.Nodup
  range : ∀ c ∈ cs, 2 ≤ c ∧ c < min (256 * g.fatSize) 0xFFF0

/-- **The tables are in order**: identical copies, a chain for every live entry, the chains
disjoint, and no name twice. -/
structure FatChains (g : Fat16) (m : Nat → Sector) : Prop where
  copies : ∀ f < g.numFats, ∀ c < g.entries, fatWord g m f c = fatWord g m 0 c
  chains : ∃ chain : Nat → List Nat,
    (∀ i < g.slots, LiveEntry (slotAt g m i) → FileChain g m (slotAt g m i) (chain i)) ∧
    ∀ i j, i < g.slots → j < g.slots → LiveEntry (slotAt g m i) → LiveEntry (slotAt g m j) →
      i ≠ j → List.Disjoint (chain i) (chain j)
  names : ∀ i j, i < g.slots → j < g.slots → LiveEntry (slotAt g m i) → LiveEntry (slotAt g m j) →
    direntRaw (slotAt g m i) = direntRaw (slotAt g m j) → i = j

/-- The drive shows a volume with the files of a map, and identical copies of the table. -/
def FatInv (g : Fat16) (d : Ata) (files : FileMap) : Prop :=
  ∃ base V chain, FatHolds g (fun _ => True) base d V ∧ V.Files g chain ∧ V.Contents g chain files ∧
    ∀ f < g.numFats, ∀ c, c < 2 → c < g.entries → V.media f c = V.media 0 c

/-- What `fat16_init` leaves of a boot sector with FATs and a sector size is a mounted volume. -/
theorem fat16Init_mounted {g g' : Fat16} {d d' : Ata} {lba : Nat} (healthy : d.Healthy)
    (reachable : lba + 2 ^ 26 ≤ 2 ^ 28) (ran : fat16Init g d lba = .ok (g', d'))
    (fats : 0 < g'.numFats) : g'.Mounted ∧ d'.Healthy ∧ d'.sectors = d.sectors := by
  have read : readSector { g with partLba := lba } d 0 = (some (d.sectors lba).1, _) :=
    ataReadSectors_one healthy (by show lba + 0 < 2 ^ 28; omega)
  rw [fat16Init] at ran
  dsimp only at ran
  rw [read] at ran
  dsimp only at ran
  rw [Fat16.rootSectors] at ran
  by_cases bytes : (Fat16.ofBootSector lba (d.sectors lba).1).bytesPerSector = 0
  · rw [if_pos bytes] at ran
    cases ran
  · rw [if_neg bytes] at ran
    obtain ⟨rfl, rfl⟩ := Prod.mk.inj (Except.ok.inj ran)
    have byte : ∀ k, ((d.sectors lba).1.getD k 0).toNat < 2 ^ 8 := fun k => UInt8.toNat_lt _
    have known := word_lt (d.sectors lba).1
    refine ⟨⟨⟨Nat.pos_of_ne_zero bytes, known 11⟩, ⟨fats, byte 16⟩, byte 13, known 17, known 22,
      known 14, rfl, rfl, reachable⟩, ?_, rfl⟩
    exact healthy.mono rfl rfl (by dsimp only; omega)

section Calls

variable {g : Fat16} {d d' : Ata} {V : Vol} {files : FileMap} {fuel : Nat} {call : FatCall}
  {calls : List (FatCall × Bool)} {name data want : List UInt8}

/-! ## One call -/

/-- A write looks at `size` bytes of its buffer only. -/
theorem fat16WriteFile_take {size : Int} (positive : 0 ≤ size) (fits : size ≤ data.length) :
    fat16WriteFile g fuel d name data size =
      fat16WriteFile g fuel d name (data.take size.toNat) (data.take size.toNat).length := by
  have length : (data.take size.toNat).length = size.toNat := List.length_take_of_le (by omega)
  have same : ((size.toNat : Nat) : Int) = size := Int.toNat_of_nonneg positive
  have cut : (data.take size.toNat).take size.toNat = data.take size.toNat := by
    rw [List.take_take, Nat.min_self]
  rw [length, same, fat16WriteFile, fat16WriteFile]
  dsimp only
  rw [cut]

/-- Deleting and writing leave the entries in front of the table. -/
theorem Vol.delete_media : (V.delete g want).media = V.media := by
  rw [Vol.delete]
  cases V.target g want <;> rfl

theorem Vol.write_media : (V.write g want data).2.media = V.media := by
  have deleted : (V.delete g want).media = V.media := Vol.delete_media
  rw [Vol.write, Vol.create]
  split
  · exact deleted
  · cases writeSlot (V.delete g want).slot g.slots <;> exact deleted

/-- **Every valid call returns, and the volume has the files after it.** -/
theorem FatInv.returns (ok : g.Mounted) (bytes : g.bytesPerSector = 512)
    (spc : 0 < g.sectorsPerCluster) (enough : 2 ^ 16 < fuel) (inv : FatInv g d files)
    (valid : call.Valid) :
    ∃ done d', fatCall g fuel d call = .ok (done, d') ∧ FatInv g d' (files.after (call, done)) := by
  obtain ⟨base, V, chain, holds, order, contents, media⟩ := inv
  have more : ∀ name, direntFirst (parse83 name) ≠ 0 := direntFirst_parse83_ne
  cases call with
  | delete name =>
      have ascii := AsciiName.direntFirst_ne valid
      obtain ⟨d', ran, holds'⟩ := ok.deleteFile (fun _ _ _ => trivial) holds enough
        (order.target_inside ascii)
      refine ⟨_, d', ran, base, _, chain, holds', order.delete ascii, contents.delete order ascii, ?_⟩
      rw [Vol.delete_media]
      exact media
  | write name data size =>
      obtain ⟨asciiName, fits, small⟩ := valid
      by_cases negative : size < 0
      · refine ⟨false, d, if_pos negative, ?_⟩
        rw [FileMap.after, if_pos negative]
        exact ⟨base, V, chain, holds, order, contents, media⟩
      · have ascii := asciiName.direntFirst_ne
        have sized := length_parse83 name
        have short : (data.take size.toNat).length < 2 ^ 32 := by
          rw [List.length_take]
          omega
        obtain ⟨d', ran, holds'⟩ := ok.writeFile spc (fun _ _ _ => trivial) holds enough
          (order.target_inside ascii) (data.take size.toNat) (fun _ _ _ => trivial)
        refine ⟨_, d', (fat16WriteFile_take (Int.not_lt.mp negative) fits).trans ran, base, _, _, holds',
          order.write sized (more name) ascii short, ?_, ?_⟩
        · rw [FileMap.after, if_neg negative]
          exact contents.write order bytes spc sized (more name) ascii short
        · rw [Vol.write_media]
          exact media

/-- A step leads to the volume with the files after the call. -/
theorem FatInv.step (ok : g.Mounted) (bytes : g.bytesPerSector = 512)
    (spc : 0 < g.sectorsPerCluster) (enough : 2 ^ 16 < fuel) (inv : FatInv g d files)
    {i : FatCall × Bool} (step : FatStep g fuel d i d') : FatInv g d' (files.after i) := by
  obtain ⟨valid, ran⟩ := step
  obtain ⟨done, u, ran', inv'⟩ := inv.returns ok bytes spc enough valid
  rw [ran] at ran'
  obtain ⟨result, rfl⟩ := Prod.mk.inj (Except.ok.inj ran')
  have same : i = (i.1, done) := by rw [← result]
  rw [same]
  exact inv'

/-- **A run leads to the volume with the files after its calls.** -/
theorem FatInv.run (ok : g.Mounted) (bytes : g.bytesPerSector = 512)
    (spc : 0 < g.sectorsPerCluster) (enough : 2 ^ 16 < fuel) (inv : FatInv g d files)
    (run : Run (FatStep g fuel) d calls d') : FatInv g d' (calls.foldl FileMap.after files) := by
  induction run generalizing files with
  | nil d => exact inv
  | cons step _ ih => exact ih (inv.step ok bytes spc enough step)

/-- A drive with a freshly formatted volume shows it. -/
theorem FreshVolume.holds (healthy : d.Healthy) (fresh : FreshVolume g d.sectors) :
    FatHolds g (fun _ => True) d.sectors d (Vol.ofSectors g d.sectors) := by
  refine ⟨healthy.watched, fun f copy c inside => ?_, fun i _ => rfl, fun j => rfl⟩
  split
  · rfl
  · exact fresh.copies f copy c inside

/-- A freshly formatted volume has no files. -/
theorem FreshVolume.inv (healthy : d.Healthy) (fresh : FreshVolume g d.sectors) :
    FatInv g d fun _ => none := by
  have first : ∀ i < g.slots, direntFirst ((Vol.ofSectors g d.sectors).slot i) = 0 := by
    intro i inside
    show direntFirst (slotAt g d.sectors i) = 0
    rw [fresh.root i inside]
    rfl
  have dead : ∀ i, ¬ (Vol.ofSectors g d.sectors).Live g i :=
    fun i live => live.2.1 (first i live.1)
  refine ⟨_, _, fun _ => [], fresh.holds healthy, ?_, ?_,
    fun f copy c _ inside => fresh.copies f copy c inside⟩
  · exact ⟨fun i j _ inside _ => first j inside, fun i inside => .inl (first i inside),
      fun i live => absurd live (dead i), fun i _ live => absurd live (dead i),
      fun i _ live => absurd live (dead i)⟩
  · exact ⟨fun i live => absurd live (dead i), fun _ some => absurd rfl some⟩

/-! ## The tables -/

/-- What the sectors show of the chain of an entry. -/
theorem Vol.ChainOf.fileChain (ok : g.Mounted) (bytes : g.bytesPerSector = 512)
    (spc : 0 < g.sectorsPerCluster) {m : Nat → Sector} (shows : FatShows g m V) {e : List UInt8}
    {cs : List Nat} (held : V.ChainOf g e cs) : FileChain g m e cs := by
  have unit : g.sectorsPerCluster * g.bytesPerSector = 512 * g.sectorsPerCluster := by
    rw [bytes, Nat.mul_comm]
  have length : cs.length =
      (direntSize e + (512 * g.sectorsPerCluster - 1)) / (512 * g.sectorsPerCluster) := by
    rw [held.length, Fat16.clustersFor, unit]
    congr 1
    omega
  refine ⟨?_, length, held.link.nodup, fun c mem => ⟨held.low c mem, (held.used c mem).1⟩⟩
  split
  · next zero =>
      refine held.empty (List.length_eq_zero_iff.mp ?_)
      rw [length, zero, Nat.zero_add]
      exact Nat.div_eq_of_lt (by omega)
  · next some =>
      have live : ∀ c ∈ cs, InChain c := fun c mem => Decidable.not_not.mp (held.link.not_stop mem)
      have chain : LinkChain V.fat (fun c => 0xFFF8 ≤ c) (direntCluster e) cs := by
        refine held.link.change_stop (fun c mem ends => ?_) (fun stop => ?_) fun c mem stop => ?_
        · have low := live c mem
          omega
        · -- there is a cluster
          have positive : 0 < cs.length := by
            rw [length]
            exact Nat.div_pos (by omega) (by omega)
          cases cs with
          | nil => exact absurd positive (Nat.lt_irrefl 0)
          | cons c cs => exact absurd stop held.link.2.1
        · have used := (held.used c mem).2
          omega
      refine chain.congr fun c mem => ?_
      have low := (live c mem).1
      rw [shows.table 0 ok.numFats.1 c (held.inside mem), if_neg (by omega)]

/-- **The tables stay in order**: after every sequence of calls on a freshly formatted volume,
whether they succeed or fail, the copies of the table are identical, every live root entry has
its own chain and no two have the same name; and every further call returns.  All of it is read
off the abstract volume that every call keeps (`FreshVolume.inv` and its `run`), one that fails
included; a further call returns since every chain that it follows is finite. -/
theorem fat_chains (ok : g.Mounted) (bytes : g.bytesPerSector = 512)
    (spc : 0 < g.sectorsPerCluster) (healthy : d.Healthy) (fresh : FreshVolume g d.sectors)
    (enough : 2 ^ 16 < fuel) (run : Run (FatStep g fuel) d calls d') :
    FatChains g d'.sectors ∧ ∀ call : FatCall, call.Valid → ∃ r, fatCall g fuel d' call = .ok r := by
  have inv := (fresh.inv healthy).run ok bytes spc enough run
  refine ⟨?_, fun call valid => ?_⟩
  · obtain ⟨base, V, chain, holds, order, -, media⟩ := inv
    have slot := holds.shows.slots
    have there : ∀ i < g.slots, LiveEntry (slotAt g d'.sectors i) → V.Live g i := by
      intro i inside live
      rw [slot i inside] at live
      exact ⟨inside, live⟩
    refine ⟨fun f copy c inside => ?_, ⟨chain, fun i inside live => ?_, ?_⟩, ?_⟩
    · rw [holds.shows.table f copy c inside, holds.shows.table 0 ok.numFats.1 c inside]
      split
      · next low => exact media f copy c low inside
      · rfl
    · rw [slot i inside]
      exact (order.chains i (there i inside live)).fileChain ok bytes spc holds.shows
    · intro i j inside inside' live live'
      exact order.apart i j (there i inside live) (there j inside' live')
    · intro i j inside inside' live live' named
      rw [slot i inside, slot j inside'] at named
      exact order.names i j (there i inside live) (there j inside' live') named
  · obtain ⟨done, u, ran, -⟩ := inv.returns ok bytes spc enough valid
    exact ⟨_, ran⟩

/-! ## The map -/

/-- A read gives what the map has. -/
theorem FatInv.fileReads (ok : g.Mounted) (bytes : g.bytesPerSector = 512)
    (spc : 0 < g.sectorsPerCluster) (enough : 2 ^ 16 < fuel) (inv : FatInv g d files)
    (name : List UInt8) {max : Nat} (small : max < 2 ^ 31) {kmalloc : Nat → Bool}
    (memory : ∀ n, kmalloc n = true) :
    ∃ d', fat16ReadFile g kmalloc fuel d name max =
      .ok (readResult (files (parse83 name)) max, d') := by
  obtain ⟨base, V, chain, holds, order, contents, -⟩ := inv
  have read : V.readFile g fuel (findName name) max =
      .ok (readResult (files (findName name)) max) :=
    contents.readFile order (by omega) spc enough small
  obtain ⟨Good, good, start⟩ : ∃ Good : Nat → Prop,
      (∀ x, Good x → x < g.entries ∧ (InChain (V.fat x) → Good (V.fat x)) ∧
        ∀ k ∈ clusterSectors g x, True) ∧
      ∀ i, V.found g (findName name) = some i → InChain (direntCluster (V.slot i)) →
        Good (direntCluster (V.slot i)) := by
    cases found : V.found g (findName name) with
    | none => exact ⟨fun _ => False, fun _ no => no.elim, fun i no => nomatch no⟩
    | some i =>
        have file := order.chains i (order.found_iff.mp found).1
        refine ⟨fun x => x ∈ chain i, fun x mem => ⟨file.inside mem, fun goes => ?_, fun _ _ => trivial⟩,
          fun j eq goes => ?_⟩
        · exact file.link.next_mem mem (not_not_intro goes)
        · obtain rfl := Option.some.inj eq
          have link := file.link
          cases held : chain i with
          | nil =>
              rw [held] at link
              exact absurd goes link
          | cons c cs =>
              rw [held] at link
              rw [link.1]
              exact List.mem_cons_self
  have outcome : (∃ r d', V.readFile g fuel (findName name) max = .ok r ∧ _) ∨ _ :=
    ok.readFile (fun _ _ _ => trivial) holds memory max Good good start
  rcases outcome with ⟨r, d', result, ran, -⟩ | ⟨result, -⟩
  · rw [read] at result
    obtain rfl := Except.ok.inj result
    exact ⟨d', ran⟩
  · rw [read] at result
    cases result

/-- **The volume is a map.**  After every sequence of calls on a freshly formatted volume a read
gives the data of the last write to a name with the same 11 bytes, unless it was deleted since;
and a call on other 11 bytes changes nothing of it.  The run keeps an abstract volume, in which
every live entry has a chain of its own (`FreshVolume.inv` and its `run`); a read walks that
chain, and a call on another name does not touch it. -/
theorem volume_is_map (ok : g.Mounted) (bytes : g.bytesPerSector = 512)
    (spc : 0 < g.sectorsPerCluster) (healthy : d.Healthy) (fresh : FreshVolume g d.sectors)
    (enough : 2 ^ 16 < fuel) (run : Run (FatStep g fuel) d calls d') {kmalloc : Nat → Bool}
    (memory : ∀ n, kmalloc n = true) (name : List UInt8) {max : Nat} (small : max < 2 ^ 31) :
    (∃ u, fat16ReadFile g kmalloc fuel d' name max =
      .ok (readResult (filesAfter calls (parse83 name)) max, u)) ∧
    ∀ i d₂, FatStep g fuel d' i d₂ → parse83 i.1.name ≠ parse83 name →
      ∃ u, fat16ReadFile g kmalloc fuel d₂ name max =
        .ok (readResult (filesAfter calls (parse83 name)) max, u) := by
  have inv := (fresh.inv healthy).run ok bytes spc enough run
  refine ⟨inv.fileReads ok bytes spc enough name small memory, fun i d₂ step other => ?_⟩
  obtain ⟨u, ran⟩ := (inv.step ok bytes spc enough step).fileReads ok bytes spc enough name small memory
  have same : FileMap.after (filesAfter calls) i (parse83 name) = filesAfter calls (parse83 name) := by
    obtain ⟨call, done⟩ := i
    cases call with
    | delete other => exact Function.update_of_ne (Ne.symm ‹_›) ..
    | write other data size =>
        rw [FileMap.after]
        split
        · rfl
        · exact Function.update_of_ne (Ne.symm ‹_›) ..
  refine ⟨u, ?_⟩
  rw [ran]
  exact congrArg (fun file => Except.ok (readResult file max, u)) same

end Calls

/-! ## A file written and read -/

/-- A freshly formatted volume of 254 clusters. -/
def emptyDisk : Ata := smallDisk [0xF8, 0xFF, 0xFF, 0xFF] []

theorem emptyDisk_healthy : emptyDisk.Healthy := smallDisk_healthy _ _

/-- A sector written from a short buffer ends in zeros. -/
theorem getD_ofList {b : List UInt8} {k : Nat} (later : b.length ≤ k) :
    (Sector.ofList b).1.getD k 0 = 0 := by
  show ((b ++ List.replicate ataSectorSize 0).take ataSectorSize).getD k 0 = 0
  rw [List.getD_eq_getElem?_getD]
  by_cases inside : k < ataSectorSize
  · rw [List.getElem?_take_of_lt inside, List.getElem?_append_right later, List.getElem?_replicate]
    split <;> rfl
  · rw [List.getElem?_take_eq_none (by omega)]
    rfl

theorem emptyDisk_fresh : FreshVolume smallFat emptyDisk.sectors := by
  refine ⟨fun f copy c _ => ?_, fun c low inside => ?_, fun i inside => ?_⟩
  · rw [show f = 0 from Nat.lt_one_iff.mp copy]
  · have inside' : c < 256 := inside
    have table : copyLba smallFat c 0 = 1 := by
      show 0 + (1 + c * 2 / 512 + 0 * 1) = 1
      omega
    rw [fatWord, table]
    show word (Sector.ofList [0xF8, 0xFF, 0xFF, 0xFF]).1 (c * 2 % 512) = 0
    rw [word, getD_ofList (by simp; omega), getD_ofList (by simp; omega)]
    rfl
  · have inside' : i < 16 := inside
    have root : slotLba smallFat i = 2 := by
      show 0 + (2 + i / 16) = 2
      omega
    rw [slotAt, root]
    show (((List.replicate 512 (0 : UInt8)).take 512).drop (32 * (i % 16))).take 32 = _
    rw [List.take_replicate, List.drop_replicate, List.take_replicate]
    congr 1
    omega

/-- The call that writes three bytes to `new.txt`. -/
def smallWrite : FatCall := .write newName [1, 2, 3] 3

theorem smallWrite_valid : smallWrite.Valid := by
  have ascii : newName.all (· < 0x80) = true := rfl
  exact ⟨fun c mem => of_decide_eq_true (List.all_eq_true.mp ascii c mem), by decide, by decide⟩

/-- The write succeeds. -/
theorem smallWrite_step :
    ∃ d, Run (FatStep smallFat (2 ^ 16 + 1)) emptyDisk [(smallWrite, true)] d := by
  have passed : (Vol.ofSectors smallFat emptyDisk.sectors).target smallFat (parse83 newName) = none := by
    decide +kernel
  obtain ⟨d, ran, -⟩ := smallFat_mounted.writeFile (by decide) (fun _ _ _ => trivial)
    (emptyDisk_fresh.holds emptyDisk_healthy) (Nat.lt_succ_self (2 ^ 16))
    (fun i taken => nomatch passed.symm.trans taken) [1, 2, 3] (fun _ _ _ => trivial)
  have free : 2 ∈ (Vol.ofSectors smallFat emptyDisk.sectors).freeList smallFat :=
    Vol.mem_freeList.mpr ⟨Nat.le_refl 2, by decide, emptyDisk_fresh.table 2 (by decide) (by decide)⟩
  have slot : writeSlot (Vol.ofSectors smallFat emptyDisk.sectors).slot smallFat.slots = some 0 := by
    decide +kernel
  have done : ((Vol.ofSectors smallFat emptyDisk.sectors).write smallFat (parse83 newName)
      [1, 2, 3]).1 = true := by
    rw [Vol.write_of_none passed, Vol.create, slot, if_neg]
    have some := List.length_pos_of_mem free
    have one : smallFat.clustersFor [(1 : UInt8), 2, 3].length = 1 := by decide
    omega
  rw [done] at ran
  exact ⟨d, .single ⟨smallWrite_valid, ran⟩⟩

/-- The tables after the write. -/
theorem fat_chains_small : ∃ d, Run (FatStep smallFat (2 ^ 16 + 1)) emptyDisk [(smallWrite, true)] d ∧
    FatChains smallFat d.sectors := by
  obtain ⟨d, run⟩ := smallWrite_step
  exact ⟨d, run, (fat_chains smallFat_mounted rfl (by decide) emptyDisk_healthy emptyDisk_fresh
    (Nat.lt_succ_self _) run).1⟩

/-- The three bytes are read back. -/
theorem volume_is_map_small :
    ∃ d u, Run (FatStep smallFat (2 ^ 16 + 1)) emptyDisk [(smallWrite, true)] d ∧
      fat16ReadFile smallFat (fun _ => true) (2 ^ 16 + 1) d newName (100 : Nat) =
        .ok ((3, [1, 2, 3]), u) := by
  obtain ⟨d, run⟩ := smallWrite_step
  obtain ⟨u, read⟩ := (volume_is_map smallFat_mounted rfl (by decide) emptyDisk_healthy
    emptyDisk_fresh (Nat.lt_succ_self _) run (fun _ => rfl) newName (show 100 < 2 ^ 31 by decide)).1
  exact ⟨d, u, run, read⟩

end Flyos
