import Flyos.Fs.Fat16Files

/-!
# What the files of a volume hold

A volume is a map from names to bytes (`FileMap`).  `Vol.Contents` says that the blocks
of the chains hold the files of a map; a deletion takes a file out of the map, a write
puts one in, a write that fails takes it out, and a read gives what the map has.
-/

namespace Flyos

/-- The files by the 11 bytes of their names. -/
abbrev FileMap := List UInt8 → Option (List UInt8)

/-- **What the files hold**: the chain of a live entry has the bytes of the file, and every file
has an entry. -/
structure Vol.Contents (V : Vol) (g : Fat16) (chain : Nat → List Nat) (files : FileMap) : Prop where
  stored : ∀ i, V.Live g i → ∃ data, files (direntRaw (V.slot i)) = some data ∧
    data.length = direntSize (V.slot i) ∧
    (loadBlocks V.data (chainSectors g (chain i))).take data.length = data
  named : ∀ want, files want ≠ none → ∃ i, V.Live g i ∧ direntRaw (V.slot i) = want

/-- What reading a file gives: the length and the bytes, or -1. -/
def readResult (file : Option (List UInt8)) (max : Nat) : Int × List UInt8 :=
  match file with
  | none => (-1, [])
  | some data => ((min data.length max : Nat), data.take max)

/-! ## Sectors of clusters -/

section Sectors

variable {g : Fat16} {cs cs' : List Nat}

/-- A sector belongs to one cluster. -/
theorem clusterSectors_disjoint {c c' : Nat} (low : 2 ≤ c) (low' : 2 ≤ c') (differ : c ≠ c') :
    List.Disjoint (clusterSectors g c) (clusterSectors g c') := by
  intro k mem mem'
  rw [clusterSectors, List.mem_range'_1] at mem mem'
  rcases Nat.lt_or_gt_of_ne differ with less | less
  · have le := Nat.mul_le_mul_right g.sectorsPerCluster (show c - 2 + 1 ≤ c' - 2 by omega)
    rw [Nat.succ_mul] at le
    omega
  · have le := Nat.mul_le_mul_right g.sectorsPerCluster (show c' - 2 + 1 ≤ c - 2 by omega)
    rw [Nat.succ_mul] at le
    omega

theorem nodup_chainSectors (nodup : cs.Nodup) (low : ∀ c ∈ cs, 2 ≤ c) : (chainSectors g cs).Nodup := by
  rw [chainSectors, List.nodup_flatMap]
  refine ⟨fun c _ => List.nodup_range' 1, ?_⟩
  refine nodup.imp_of_mem fun {c c'} mem mem' differ => ?_
  exact clusterSectors_disjoint (low c mem) (low c' mem') differ

theorem chainSectors_disjoint (low : ∀ c ∈ cs, 2 ≤ c) (low' : ∀ c ∈ cs', 2 ≤ c)
    (apart : List.Disjoint cs cs') : List.Disjoint (chainSectors g cs) (chainSectors g cs') := by
  intro k mem mem'
  obtain ⟨c, held, sector⟩ := List.mem_flatMap.mp mem
  obtain ⟨c', held', sector'⟩ := List.mem_flatMap.mp mem'
  have differ : c ≠ c' := fun same => apart held (same ▸ held')
  exact clusterSectors_disjoint (low c held) (low' c' held') differ sector sector'

theorem length_chainSectors : (chainSectors g cs).length = cs.length * g.sectorsPerCluster := by
  induction cs with
  | nil => rw [chainSectors, List.flatMap_nil, List.length_nil, Nat.zero_mul]
  | cons c cs ih =>
      rw [chainSectors, List.flatMap_cons, List.length_append, ← chainSectors, ih, clusterSectors,
        List.length_range', List.length_cons, Nat.succ_mul, Nat.add_comm]

/-- The clusters for a size hold that many bytes. -/
theorem Fat16.le_clustersFor (g : Fat16) (spc : 0 < g.sectorsPerCluster) (bytes : 0 < g.bytesPerSector)
    (size : Nat) : size ≤ g.clustersFor size * (g.sectorsPerCluster * g.bytesPerSector) := by
  have unit := Nat.mul_pos spc bytes
  have division := Nat.div_add_mod (size + g.sectorsPerCluster * g.bytesPerSector - 1)
    (g.sectorsPerCluster * g.bytesPerSector)
  have rest := Nat.mod_lt (size + g.sectorsPerCluster * g.bytesPerSector - 1) unit
  rw [Fat16.clustersFor, Nat.mul_comm]
  omega

end Sectors

section Contents

variable {g : Fat16} {V : Vol} {chain : Nat → List Nat} {files : FileMap}
  {want data e : List UInt8} {i : Nat} {cs : List Nat}

/-- The clusters of a chain are numbered from 2. -/
theorem Vol.ChainOf.low (held : V.ChainOf g e cs) : ∀ c ∈ cs, 2 ≤ c :=
  fun _ mem => (Decidable.not_not.mp (held.link.not_stop mem)).1

theorem Vol.chainFor_nodup (V : Vol) (g : Fat16) (data : List UInt8) : (V.chainFor g data).Nodup :=
  (V.nodup_freeList g).sublist (List.take_sublist ..)

namespace Vol.Contents

/-- **A deletion takes the file out.** -/
theorem delete (held : V.Contents g chain files) (ok : V.Files g chain)
    (ascii : direntFirst want ≠ 0xE5) :
    (V.delete g want).Contents g chain (Function.update files want none) := by
  have blocks : (V.delete g want).data = V.data := by
    rw [Vol.delete]
    cases V.target g want <;> rfl
  refine ⟨fun i live => ?_, fun other some => ?_⟩
  · obtain ⟨live', differs⟩ := (ok.live_delete ascii).mp live
    rw [ok.slot_delete ascii live, Function.update_of_ne differs, blocks]
    exact held.stored i live'
  · by_cases same : other = want
    · rw [same, Function.update_self] at some
      exact absurd rfl some
    · rw [Function.update_of_ne same] at some
      obtain ⟨i, live, named⟩ := held.named other some
      have live' : (V.delete g want).Live g i :=
        (ok.live_delete ascii).mpr ⟨live, fun eq => same (named.symm.trans eq)⟩
      exact ⟨i, live', by rw [ok.slot_delete ascii live', named]⟩

/-- Filling newly taken clusters changes no file. -/
theorem fill (held : V.Contents g chain files) (ok : V.Files g chain) (data : List UInt8) :
    (V.fill g data).Contents g chain files := by
  refine ⟨fun i live => ?_, held.named⟩
  obtain ⟨bytes, there, size, content⟩ := held.stored i live
  refine ⟨bytes, there, size, ?_⟩
  have file := ok.chains i live
  have apart : List.Disjoint (chainSectors g (chain i)) (chainSectors g (V.chainFor g data)) :=
    chainSectors_disjoint file.low (fun c mem => (Vol.chainFor_free mem).1)
      (file.disjoint_free fun c mem => (Vol.chainFor_free mem).2.2)
  have same : loadBlocks (V.fill g data).data (chainSectors g (chain i)) =
      loadBlocks V.data (chainSectors g (chain i)) :=
    loadBlocks_congr fun k mem => storeBlocks_of_notMem (apart mem)
  rw [same, content]

/-- The clusters that were filled hold the data. -/
theorem fill_new (bytes : g.bytesPerSector = 512) (spc : 0 < g.sectorsPerCluster)
    (enough : g.clustersFor data.length ≤ (V.freeList g).length) :
    (loadBlocks (V.fill g data).data (chainSectors g (V.chainFor g data))).take data.length =
      data := by
  have length : (V.chainFor g data).length = g.clustersFor data.length :=
    List.length_take_of_le enough
  have fits := g.le_clustersFor spc (by omega) data.length
  refine take_loadBlocks_storeBlocks ?_ ?_
  · exact nodup_chainSectors (V.chainFor_nodup g data) fun c mem => (Vol.chainFor_free mem).1
  · rw [length_chainSectors, length]
    rw [bytes, ← Nat.mul_assoc] at fits
    omega

/-- **An unused slot filled with the entry of a file puts it in.** -/
theorem setSlot (held : V.Contents g chain files) (slot : writeSlot V.slot g.slots = some i)
    (live : LiveEntry e) (size : data.length = direntSize e)
    (content : (loadBlocks V.data (chainSectors g cs)).take data.length = data)
    (fresh : ∀ j, V.Live g j → direntRaw (V.slot j) ≠ direntRaw e) :
    (V.setSlot i e).Contents g (Function.update chain i cs)
      (Function.update files (direntRaw e) (some data)) := by
  obtain ⟨inside, free, -⟩ := writeSlot_eq_some_iff.mp slot
  have other : ∀ {j}, V.Live g j → j ≠ i := by
    rintro j live rfl
    exact free.elim live.2.1 live.2.2.1
  refine ⟨fun j live' => ?_, fun name some => ?_⟩
  · rcases (Vol.Files.live_setSlot inside live).mp live' with rfl | old
    · rw [Vol.setSlot_self, Function.update_self, Function.update_self]
      exact ⟨data, rfl, size, content⟩
    · rw [Vol.setSlot_of_ne (other old), Function.update_of_ne (fresh j old),
        Function.update_of_ne (other old)]
      exact held.stored j old
  · by_cases same : name = direntRaw e
    · refine ⟨i, (Vol.Files.live_setSlot inside live).mpr (.inl rfl), ?_⟩
      rw [Vol.setSlot_self, same]
    · rw [Function.update_of_ne same] at some
      obtain ⟨j, old, named⟩ := held.named name some
      refine ⟨j, (Vol.Files.live_setSlot inside live).mpr (.inr old), ?_⟩
      rw [Vol.setSlot_of_ne (other old), named]

/-- **A creation puts the file in**, if it succeeds. -/
theorem create (held : V.Contents g chain files) (ok : V.Files g chain)
    (bytes : g.bytesPerSector = 512) (spc : 0 < g.sectorsPerCluster) (sized : want.length = 11)
    (more : direntFirst want ≠ 0) (ascii : direntFirst want ≠ 0xE5) (small : data.length < 2 ^ 32)
    (fresh : ∀ j, V.Live g j → direntRaw (V.slot j) ≠ want) :
    (V.create g want data).2.Contents g (V.chainsAfter g chain data)
      (if (V.create g want data).1 then Function.update files want (some data) else files) := by
  rw [Vol.create, Vol.chainsAfter]
  by_cases few : (V.freeList g).length < g.clustersFor data.length
  · rw [if_pos few, if_pos few, if_neg Bool.false_ne_true]
    exact held
  rw [if_neg few, if_neg few]
  cases slot : writeSlot V.slot g.slots with
  | none =>
      rw [if_neg Bool.false_ne_true]
      exact held.fill ok data
  | some i =>
      have filled := (held.fill ok data).setSlot
        (e := newDirent want ((V.chainFor g data).head?.getD 0) data.length) slot
        (liveEntry_newDirent sized more ascii _ _) (direntSize_newDirent sized small).symm
        (fill_new bytes spc (Nat.le_of_not_lt few))
      rw [direntRaw_newDirent sized] at filled
      rw [if_pos rfl]
      exact filled fresh

/-- **A write puts the file in**, or takes it out if it fails. -/
theorem write (held : V.Contents g chain files) (ok : V.Files g chain)
    (bytes : g.bytesPerSector = 512) (spc : 0 < g.sectorsPerCluster) (sized : want.length = 11)
    (more : direntFirst want ≠ 0) (ascii : direntFirst want ≠ 0xE5) (small : data.length < 2 ^ 32) :
    (V.write g want data).2.Contents g ((V.delete g want).chainsAfter g chain data)
      (Function.update files want (if (V.write g want data).1 then some data else none)) := by
  have created := (held.delete ok ascii).create (ok.delete ascii) bytes spc sized more
    ascii small fun j live => by
      rw [ok.slot_delete ascii live]
      exact ((ok.live_delete ascii).mp live).2
  rw [← Vol.write] at created
  cases done : (V.write g want data).1 with
  | true =>
      rw [done, if_pos rfl, Function.update_idem] at created
      exact created
  | false =>
      rw [done, if_neg Bool.false_ne_true] at created
      exact created

/-- **A read gives what the map has.** -/
theorem readFile (held : V.Contents g chain files) (ok : V.Files g chain)
    (bytes : 0 < g.bytesPerSector) (spc : 0 < g.sectorsPerCluster) {fuel max : Nat}
    (enough : 2 ^ 16 < fuel) (small : max < 2 ^ 31) :
    V.readFile g fuel want max = .ok (readResult (files want) max) := by
  rw [Vol.readFile]
  cases found : V.found g want with
  | none =>
      have none : files want = none := by
        by_contra some
        obtain ⟨i, live, named⟩ := held.named want some
        rw [ok.found_iff.mpr ⟨live, named⟩] at found
        cases found
      rw [none]
      rfl
  | some i =>
      obtain ⟨live, named⟩ := ok.found_iff.mp found
      obtain ⟨data, there, size, content⟩ := held.stored i live
      have file := ok.chains i live
      rw [named] at there
      rw [there, readResult]
      dsimp only
      have whole : ((max : Int) % 2 ^ 32).toNat = max := by omega
      rw [whole, ← size]
      have least : (if max < data.length then max else data.length) = min data.length max := by
        split <;> omega
      rw [least]
      by_cases empty : min data.length max = 0 ∨ direntCluster (V.slot i) < 2
      · have zero : min data.length max = 0 := by
          rcases empty with zero | low
          · exact zero
          · -- without a cluster there is no data
            have none : chain i = [] := by
              cases held : chain i with
              | nil => rfl
              | cons c cs =>
                  have link := file.link
                  rw [held] at link
                  have inChain := Decidable.not_not.mp link.2.1
                  omega
            have length := file.length
            rw [none, List.length_nil, ← size] at length
            have le := g.le_clustersFor spc bytes data.length
            rw [← length, Nat.zero_mul] at le
            omega
        rw [if_pos empty, zero]
        have nothing : data.take max = [] := by
          rw [List.take_eq_nil_iff, ← List.length_eq_zero_iff]
          omega
        rw [nothing]
        rfl
      · have short : (chain i).length < fuel := by
          have bound := (Vol.walks (V := V) (direntCluster (V.slot i))).2
          rw [file.walk] at bound
          omega
        rw [if_neg empty, Vol.readChain_eq file.link (Nat.zero_le _) short, List.nil_append]
        have cut : (loadBlocks V.data (chainSectors g (chain i))).take (min data.length max) =
            data.take max := by
          rw [Nat.min_comm, ← List.take_take, content]
        rw [cut]
        show Except.ok (Int.bmod (data.take max).length (2 ^ 32), data.take max) = _
        rw [List.length_take, Nat.min_comm, Int.bmod_eq_of_le (by omega) (by omega)]

end Vol.Contents

end Contents

end Flyos
