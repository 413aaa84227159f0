import Flyos.Fs.Fat16Refine

/-!
# The file operations as operations on the volume

`Vol.readFile`, `Vol.delete` and `Vol.write` say what `fat16_read_file`,
`fat16_delete_file` and `fat16_write_file` do to the volume that a watched drive shows;
everything that is proved about sequences of calls is proved about them.
-/

namespace Flyos

/-- The number of clusters for `size` bytes. -/
def Fat16.clustersFor (g : Fat16) (size : Nat) : Nat :=
  (size + g.sectorsPerCluster * g.bytesPerSector - 1) / (g.sectorsPerCluster * g.bytesPerSector)

namespace Vol

variable (V : Vol) (g : Fat16)

/-- The clusters that freeing the chain at `c` goes through. -/
def walk (c : Nat) : List Nat :=
  visitList (fun t : Nat → Nat => t) (fun t x => Function.update t x 0) (fun c => ¬ InChain c)
    (2 ^ 16 + 1) V.fat c

/-- The slot a deletion takes. -/
def target (want : List UInt8) : Option Nat := deleteSlot V.slot g.slots want

/-- The slot a lookup finds. -/
def found (want : List UInt8) : Option Nat := findSlot V.slot g.slots want

/-- `fat16_delete_file` on the volume. -/
def delete (want : List UInt8) : Vol :=
  match V.target g want with
  | none => V
  | some i => (V.clear (V.walk (direntCluster (V.slot i)))).setSlot i ((V.slot i).set 0 0xE5)

/-- `fat16_read_file` on the volume. -/
def readFile (fuel : Nat) (want : List UInt8) (max : Int) : Except Fat16Trap (Int × List UInt8) :=
  match V.found g want with
  | none => .ok (-1, [])
  | some i =>
      let max := (max % 2 ^ 32).toNat
      let size := if max < direntSize (V.slot i) then max else direntSize (V.slot i)
      if size = 0 ∨ direntCluster (V.slot i) < 2 then .ok (0, [])
      else (V.readChain g size fuel (direntCluster (V.slot i)) []).map fun out =>
        (Int.bmod out.length (2 ^ 32), out)

/-- The clusters a write takes. -/
def chainFor (data : List UInt8) : List Nat := (V.freeList g).take (g.clustersFor data.length)

/-- The volume with `data` in newly taken clusters. -/
def fill (data : List UInt8) : Vol :=
  (V.link (V.chainFor g data)).store (chainSectors g (V.chainFor g data)) data

/-- A write without the deletion in front of it. -/
def create (want data : List UInt8) : Bool × Vol :=
  if (V.freeList g).length < g.clustersFor data.length then (false, V)
  else
    match writeSlot V.slot g.slots with
    | none => (false, V.fill g data)
    | some i => (true, (V.fill g data).setSlot i
        (newDirent want ((V.chainFor g data).head?.getD 0) data.length))

/-- `fat16_write_file` on the volume. -/
def write (want data : List UInt8) : Bool × Vol := (V.delete g want).create g want data

variable {V g}

/-- The walk ends, within the number of clusters. -/
theorem walks (c : Nat) : Walks V.fat c (V.walk c) ∧ (V.walk c).length ≤ 2 ^ 16 := by
  obtain ⟨l, visits, short⟩ := exists_visits (fun t : Nat → Nat => t)
    (fun t x => Function.update t x 0) (fun c => ¬ InChain c) 0 (Finset.Ico 2 0xFFF8)
    (fun a live => Finset.mem_Ico.mpr (Decidable.not_not.mp live)) (by decide)
    (fun t a => Function.update_self ..)
    (fun t a x => by
      by_cases same : x = a
      · exact .inr (by rw [same, Function.update_self])
      · exact .inl (Function.update_of_ne same ..)) V.fat c
  have card := Finset.card_filter_le (Finset.Ico 2 0xFFF8) (fun x => V.fat x ≠ 0)
  rw [Nat.card_Ico] at card
  have le : l.length ≤ 2 ^ 16 := Nat.le_trans short (by omega)
  rw [walk, visits.visitList_eq (Nat.lt_succ_of_le le)]
  exact ⟨visits, le⟩

/-- The walk along a chain. -/
theorem walk_eq {c : Nat} {cs : List Nat}
    (chain : LinkChain V.fat (fun c => ¬ InChain c) c cs) : V.walk c = cs :=
  (walks c).1.unique (chain.visits 0)

/-- There are fewer free clusters than cluster numbers. -/
theorem length_freeList : (V.freeList g).length < 2 ^ 16 := by
  have le : (V.freeList g).length ≤ (List.range' 2 (g.limit - 2)).length := List.length_filter_le ..
  have bound : g.limit ≤ 0xFFF0 := Nat.min_le_right ..
  rw [List.length_range'] at le
  omega

end Vol

section Operations

variable {g : Fat16} {allowed : Nat → Prop} {base : Nat → Sector} {d : Ata} {V : Vol}
  {name : List UInt8} {fuel : Nat}

theorem FatShows.foundSlot {m : Nat → Sector} (shows : FatShows g m V) (name : List UInt8) :
    foundSlot g m name = V.found g (findName name) :=
  findSlot_congr shows.slots

theorem FatShows.takenSlot {m : Nat → Sector} (shows : FatShows g m V) (name : List UInt8) :
    takenSlot g m name = V.target g (parse83 name) :=
  deleteSlot_congr shows.slots

/-- A slot that is found or taken is one of the directory. -/
theorem Vol.found_lt {want : List UInt8} {i : Nat} (found : V.found g want = some i) : i < g.slots :=
  (findSlot_eq_some_iff.mp found).1

theorem Vol.target_lt {want : List UInt8} {i : Nat} (taken : V.target g want = some i) : i < g.slots :=
  (deleteSlot_eq_some_iff.mp taken).1

/-- **`fat16_delete_file` deletes.** -/
theorem Fat16.Mounted.deleteFile (ok : g.Mounted) (tables : TablesAllowed g allowed)
    (holds : FatHolds g allowed base d V) (enough : 2 ^ 16 < fuel)
    (inside : ∀ i, V.target g (parse83 name) = some i →
      ∀ x ∈ V.walk (direntCluster (V.slot i)), x < g.entries) :
    ∃ d', fat16DeleteFile g fuel d name = .ok ((V.target g (parse83 name)).isSome, d') ∧
      FatHolds g allowed base d' (V.delete g (parse83 name)) := by
  have root : ∀ s < g.rootCount, allowed (g.partLba + (g.rootStartLba + s)) :=
    fun s sector => tables.root ok sector
  have slot := holds.shows.takenSlot name
  rw [Vol.delete]
  cases taken : V.target g (parse83 name) with
  | none =>
      rw [taken] at slot
      obtain ⟨d', ran, watched, same⟩ := fat16DeleteFile_none ok holds.watched fuel slot root
      exact ⟨d', ran, watched, by rw [same]; exact holds.shows⟩
  | some i =>
      rw [taken] at slot
      obtain ⟨walks, short⟩ := Vol.walks (V := V) (direntCluster (V.slot i))
      have within := inside i taken
      have entry := holds.shows.slots i (Vol.target_lt taken)
      obtain ⟨d', ran, watched, deleted⟩ := fat16DeleteFile_some ok holds.watched slot
        (by rw [entry]; exact holds.shows.chainVisits ok walks within)
        (Nat.lt_of_le_of_lt short enough) root
        fun x mem f copy => tables.copy ok (within x mem) copy
      refine ⟨d', ran, watched, ?_⟩
      rw [deleted, deletedSectors]
      have cleared := holds.shows.zeroed ok fun x mem => ⟨(walks.low mem).1, within x mem⟩
      -- the directory sector is as it was read
      have sector : zeroed g d.sectors (V.walk (direntCluster (V.slot i))) (slotLba g i) =
          d.sectors (slotLba g i) := by
        refine zeroed_eq fun x mem f copy eq => ?_
        have table := ok.copy_region (within x mem) copy
        have region := ok.slot_region (Vol.target_lt taken)
        omega
      refine cleared.updateSlot ok (Vol.target_lt taken)
        (by rw [List.length_set, (d.sectors _).2]) fun k => ?_
      rw [dirent_set, sector]
      split
      · rw [← slotAt, entry]
      · rfl

/-- **`find_root_entry` finds.** -/
theorem Fat16.Mounted.findEntry (ok : g.Mounted) (tables : TablesAllowed g allowed)
    (holds : FatHolds g allowed base d V) (name : List UInt8) {kmalloc : Nat → Bool}
    (memory : ∀ n, kmalloc n = true) :
    ∃ d', findRootEntry g kmalloc d name = .ok ((V.found g (findName name)).map V.slot, d') ∧
      FatHolds g allowed base d' V := by
  obtain ⟨d', ran, watched, same⟩ := findRootEntry_spec ok holds.watched name kmalloc memory
    fun s sector => tables.root ok sector
  refine ⟨d', ?_, watched, by rw [same]; exact holds.shows⟩
  rw [ran, holds.shows.foundSlot]
  cases found : V.found g (findName name) with
  | none => rfl
  | some i => rw [Option.map_some, Option.map_some, holds.shows.slots i (Vol.found_lt found)]

/-- **`fat16_read_file` reads**, as long as the walk from the entry found stays among clusters of
the table that may be read. -/
theorem Fat16.Mounted.readFile (ok : g.Mounted) (tables : TablesAllowed g allowed)
    (holds : FatHolds g allowed base d V) {kmalloc : Nat → Bool} (memory : ∀ n, kmalloc n = true)
    (max : Int) (Good : Nat → Prop)
    (good : ∀ x, Good x → x < g.entries ∧ (InChain (V.fat x) → Good (V.fat x)) ∧
      ∀ k ∈ Flyos.clusterSectors g x, allowed (g.partLba + (g.dataStartLba + k)))
    (start : ∀ i, V.found g (findName name) = some i → InChain (direntCluster (V.slot i)) →
      Good (direntCluster (V.slot i))) :
    (∃ r d', V.readFile g fuel (findName name) max = .ok r ∧
      fat16ReadFile g kmalloc fuel d name max = .ok (r, d') ∧ FatHolds g allowed base d' V) ∨
    (V.readFile g fuel (findName name) max = .error .rounds ∧
      fat16ReadFile g kmalloc fuel d name max = .error .rounds) := by
  obtain ⟨u, looked, holdsU⟩ := ok.findEntry tables holds name memory
  rw [Vol.readFile, fat16ReadFile, looked, Except.bind]
  cases found : V.found g (findName name) with
  | none => exact .inl ⟨_, u, rfl, rfl, holdsU⟩
  | some i =>
      dsimp only [Option.map_some]
      by_cases empty : (if (max % 2 ^ 32).toNat < direntSize (V.slot i) then (max % 2 ^ 32).toNat
          else direntSize (V.slot i)) = 0 ∨ direntCluster (V.slot i) < 2
      · rw [if_pos empty, if_pos empty]
        exact .inl ⟨_, u, rfl, rfl, holdsU⟩
      · rw [if_neg empty, if_neg empty]
        rcases ok.readChain tables holdsU [] (Nat.zero_le _) Good good (start i found) with
          ⟨out, d', read, ran, holds'⟩ | ⟨read, ran⟩
        · refine .inl ⟨(Int.bmod out.length (2 ^ 32), out), d', ?_, ?_, holds'⟩
          · rw [read, Except.map]
          · rw [ran, Except.map, if_pos rfl]
        · rw [read, ran]
          exact .inr ⟨rfl, rfl⟩

/-- `write_root_dirent` fills the first slot that is not in use. -/
theorem Fat16.Mounted.writeDirent (ok : g.Mounted) (tables : TablesAllowed g allowed)
    (holds : FatHolds g allowed base d V) {want : List UInt8} (sized : want.length = 11)
    (c size : Nat) :
    ∃ d', writeRootDirent g d want c size = .ok ((writeSlot V.slot g.slots).isSome, d') ∧
      FatHolds g allowed base d' (match writeSlot V.slot g.slots with
        | none => V
        | some i => V.setSlot i (newDirent want c size)) := by
  obtain ⟨u, ran, watchedU, same⟩ := scanRoot_spec ok holds.watched writeVisit (Nat.zero_add _)
    fun s sector => tables.root ok sector
  have holdsU : FatHolds g allowed base u V := ⟨watchedU, by rw [same]; exact holds.shows⟩
  have hit : writeSlot V.slot g.slots =
      (firstHit (fun i => writeVisit (slotAt g d.sectors i)) (16 * g.rootCount) 0).map Prod.fst :=
    (writeSlot_congr holds.shows.slots).symm
  rw [writeRootDirent, ok.rootSectors, Except.map, ran, Nat.mul_zero, hit]
  cases stopped : firstHit (fun i => writeVisit (slotAt g d.sectors i)) (16 * g.rootCount) 0 with
  | none => exact ⟨u, rfl, holdsU⟩
  | some r =>
      obtain ⟨i, e⟩ := r
      have range := (firstHit_eq_some_iff.mp stopped).2.1
      have slot : i < g.slots := by rw [Fat16.slots]; omega
      have bytes : (d.sectors (slotLba g i)).1.length = 512 := (d.sectors _).2
      have fits : 32 * (i % 16) + 32 ≤ (d.sectors (slotLba g i)).1.length := by omega
      have buffer : (setDirent (d.sectors (slotLba g i)).1 (i % 16)
          (newDirent want c size)).length = ataSectorSize := by
        rw [length_setDirent fits (length_newDirent sized)]
        exact bytes
      obtain ⟨d', wrote, watched', stored⟩ := writeSector_spec ok watchedU
        (ok.root_small (s := i / 16) (by omega)) (tables.root ok (s := i / 16) (by omega)) _ buffer
      refine ⟨d', ?_, watched', ?_⟩
      · dsimp only [Scan.ofHit, Option.map_some, Option.isSome_some]
        rw [wrote]
      · rw [stored, same]
        refine holds.shows.updateSlot ok slot buffer fun k => ?_
        rw [dirent_setDirent fits (length_newDirent sized)]

/-- The clusters of a write are enough for its data. -/
theorem Fat16.Mounted.numClusters (ok : g.Mounted) (spc : 0 < g.sectorsPerCluster) (size : Nat) :
    numClusters g size = .ok (g.clustersFor size) := by
  have bytes := Nat.mul_pos spc ok.sectorBytes.1
  exact if_neg (by omega)

/-- What `fat16_write_file` does after the deletion. -/
theorem Fat16.Mounted.create (ok : g.Mounted) (tables : TablesAllowed g allowed)
    (holds : FatHolds g allowed base d V) (enough : 2 ^ 16 < fuel) {want : List UInt8}
    (sized : want.length = 11) (data : List UInt8)
    (room : g.clustersFor data.length ≤ (V.freeList g).length →
      ∀ k ∈ chainSectors g (V.chainFor g data), allowed (g.partLba + (g.dataStartLba + k))) :
    ∃ d', ((Flyos.allocChain g fuel (g.clustersFor data.length) d 0 0).bind fun
          | (none, d) => .ok (false, d)
          | (some (first, prev), d) =>
              let d := if prev ≠ 0 then (Flyos.fatSet g d prev 0xFFFF).2 else d
              (Flyos.writeChain g fuel d first data).bind fun
                | (false, d) => .ok (false, d)
                | (true, d) => writeRootDirent g d want first data.length) =
        .ok ((V.create g want data).1, d') ∧
      FatHolds g allowed base d' (V.create g want data).2 := by
  have short := Vol.length_freeList (V := V) (g := g)
  obtain ⟨goes, fails⟩ := ok.allocChain tables [] (V.freeList g) rfl holds
    (g.clustersFor data.length) fuel (by omega)
  rw [Vol.create]
  by_cases few : (V.freeList g).length < g.clustersFor data.length
  · obtain ⟨d', ran, holds'⟩ := fails few
    rw [if_pos few]
    refine ⟨d', ?_, holds'⟩
    change Flyos.allocChain g fuel _ d 0 0 = _ at ran
    rw [ran]
    rfl
  rw [if_neg few]
  obtain ⟨u, ran, holdsU⟩ := goes (Nat.le_of_not_lt few)
  rw [List.nil_append] at ran holdsU
  change Flyos.allocChain g fuel _ d 0 0 = _ at ran
  have cut : (V.freeList g).take (g.clustersFor data.length) = V.chainFor g data := rfl
  rw [cut] at ran holdsU
  have all : V.freeList g = V.chainFor g data ++
      (V.freeList g).drop (g.clustersFor data.length) := (List.take_append_drop ..).symm
  have members : ∀ x ∈ V.chainFor g data, InChain x ∧ x < g.entries := fun x mem =>
    Vol.freeList_low (all ▸ List.mem_append_left _ mem)
  have few' : (V.chainFor g data).length ≤ (V.freeList g).length := List.length_take_le' ..
  -- marking the end of the chain once more changes nothing
  obtain ⟨w, marked, holdsW⟩ : ∃ w, (if (V.chainFor g data).getLast?.getD 0 ≠ 0 then
        (Flyos.fatSet g u ((V.chainFor g data).getLast?.getD 0) 0xFFFF).2 else u) = w ∧
      FatHolds g allowed base w (V.link (V.chainFor g data)) := by
    rcases List.eq_nil_or_concat' (V.chainFor g data) with none | ⟨init, p, chain⟩
    · rw [none] at holdsU ⊢
      exact ⟨u, if_neg (by simp), holdsU⟩
    · have low := members p (by rw [chain]; simp)
      obtain ⟨w, set, holdsW⟩ := ok.fatSet tables holdsU low.1.1 low.2 (by omega)
        (by decide : 0xFFFF < 2 ^ 16)
      have same : (V.link (V.chainFor g data)).setFat p 0xFFFF = V.link (V.chainFor g data) := by
        have nodup : (V.chainFor g data).Nodup :=
          (V.nodup_freeList g).sublist (List.take_sublist ..)
        rw [chain] at nodup ⊢
        have last : threaded V.fat 0xFFFF (init ++ [p]) p = 0xFFFF := threaded_concat_self nodup
        have update := Function.update_eq_self p (threaded V.fat 0xFFFF (init ++ [p]))
        rw [last] at update
        exact congrArg (fun fat => { V with fat := fat }) update
      rw [same] at holdsW
      refine ⟨w, ?_, holdsW⟩
      rw [chain, List.getLast?_concat, Option.getD_some, if_pos (by omega), set]
  have chain : LinkChain (V.link (V.chainFor g data)).fat (fun c => ¬ InChain c)
      ((V.chainFor g data).head?.getD 0) (V.chainFor g data) := by
    cases first : (V.chainFor g data).head? with
    | none =>
        rw [List.head?_eq_none_iff.mp first]
        show ¬ InChain 0
        omega
    | some c => exact Vol.linkChain_link all first
  obtain ⟨x, filled, holdsX⟩ := ok.writeChain tables holdsW chain (fun x mem => (members x mem).2)
    (room (Nat.le_of_not_lt few)) data fuel (by omega)
  obtain ⟨d', wrote, holds'⟩ := ok.writeDirent tables holdsX sized
    ((V.chainFor g data).head?.getD 0) data.length
  have result : (Flyos.allocChain g fuel (g.clustersFor data.length) d 0 0).bind (fun
        | (none, d) => .ok (false, d)
        | (some (first, prev), d) =>
            let d := if prev ≠ 0 then (Flyos.fatSet g d prev 0xFFFF).2 else d
            (Flyos.writeChain g fuel d first data).bind fun
              | (false, d) => .ok (false, d)
              | (true, d) => writeRootDirent g d want first data.length) =
      .ok ((writeSlot V.slot g.slots).isSome, d') := by
    rw [ran, Except.bind]
    dsimp only
    rw [marked, filled]
    exact wrote
  rw [result]
  change FatHolds g allowed base d' (match writeSlot V.slot g.slots with
    | none => V.fill g data
    | some i => (V.fill g data).setSlot i
        (newDirent want ((V.chainFor g data).head?.getD 0) data.length)) at holds'
  cases slot : writeSlot V.slot g.slots with
  | none =>
      rw [slot] at holds'
      exact ⟨d', rfl, holds'⟩
  | some i =>
      rw [slot] at holds'
      exact ⟨d', rfl, holds'⟩

/-- **`fat16_write_file` writes.** -/
theorem Fat16.Mounted.writeFile (ok : g.Mounted) (spc : 0 < g.sectorsPerCluster)
    (tables : TablesAllowed g allowed) (holds : FatHolds g allowed base d V) (enough : 2 ^ 16 < fuel)
    (inside : ∀ i, V.target g (parse83 name) = some i →
      ∀ x ∈ V.walk (direntCluster (V.slot i)), x < g.entries)
    (data : List UInt8)
    (room : g.clustersFor data.length ≤ ((V.delete g (parse83 name)).freeList g).length →
      ∀ k ∈ chainSectors g ((V.delete g (parse83 name)).chainFor g data),
        allowed (g.partLba + (g.dataStartLba + k))) :
    ∃ d', fat16WriteFile g fuel d name data data.length =
        .ok ((V.write g (parse83 name) data).1, d') ∧
      FatHolds g allowed base d' (V.write g (parse83 name) data).2 := by
  obtain ⟨u, deleted, holdsU⟩ := ok.deleteFile tables holds enough inside
  obtain ⟨d', ran, holds'⟩ := ok.create tables holdsU enough (length_parse83 name) data room
  refine ⟨d', ?_, holds'⟩
  rw [fat16WriteFile, if_neg (by omega), Int.toNat_natCast, deleted]
  show (Flyos.numClusters g data.length).bind _ = _
  rw [ok.numClusters spc, List.take_length]
  exact ran

end Operations

/-! ## Clusters that lead to clusters -/

section Closed

variable {g : Fat16} {V : Vol} {R : Nat → Prop} {want : List UInt8} {i c x : Nat}

/-- Slot `i` lies before the end mark. -/
def Vol.Reached (V : Vol) (i : Nat) : Prop := ∀ k ≤ i, direntFirst (V.slot k) ≠ 0

/-- `R` is a set of clusters of the table that the entries before the end mark record, deleted
ones too, and that is not left by following the table. -/
structure Vol.Closed (V : Vol) (g : Fat16) (R : Nat → Prop) : Prop where
  table : ∀ c, R c → c < g.entries ∧ (InChain (V.fat c) → R (V.fat c))
  slots : ∀ i < g.slots, V.Reached i → InChain (direntCluster (V.slot i)) →
    R (direntCluster (V.slot i))

theorem Vol.reached_found (found : V.found g want = some i) : V.Reached i := by
  obtain ⟨-, live, -, before⟩ := findSlot_eq_some_iff.mp found
  intro k le
  rcases Nat.lt_or_eq_of_le le with less | rfl
  · exact (before k less).1
  · exact live.1

theorem Vol.reached_target (taken : V.target g want = some i) : V.Reached i := by
  obtain ⟨-, more, -, before⟩ := deleteSlot_eq_some_iff.mp taken
  intro k le
  rcases Nat.lt_or_eq_of_le le with less | rfl
  · exact (before k less).1
  · exact more

/-- The walk from a cluster of a closed set stays in it. -/
theorem Vol.Closed.walk (closed : V.Closed g R) (start : InChain c → R c)
    (mem : x ∈ V.walk c) : R x := by
  have walks := (Vol.walks (V := V) c).1
  by_cases live : InChain c
  · refine walks.forall_mem R (fun t => ∀ c, R c → InChain (t c) → R (t c)) (start live)
      (fun c held => (closed.table c held).2) ?_ x mem
    intro t a inv _ held
    refine ⟨fun c held' goes => ?_, ?_⟩
    · by_cases same : c = a
      · rw [same, Function.update_self] at goes
        exact absurd goes (by decide)
      · rw [Function.update_of_ne same] at goes ⊢
        exact inv c held' goes
    · by_cases goes : InChain (t a)
      · exact .inr (inv a held goes)
      · exact .inl goes
  · rw [Vol.walk, visitList, if_pos live] at mem
    cases mem

/-- What a deletion frees are clusters of the table. -/
theorem Vol.Closed.target (closed : V.Closed g R) (taken : V.target g want = some i)
    (mem : x ∈ V.walk (direntCluster (V.slot i))) : R x :=
  closed.walk (closed.slots i (Vol.target_lt taken) (Vol.reached_target taken)) mem

/-- Freeing clusters keeps the set closed. -/
theorem Vol.Closed.clear (closed : V.Closed g R) (l : List Nat) : (V.clear l).Closed g R := by
  refine ⟨fun c held => ⟨(closed.table c held).1, fun goes => ?_⟩, closed.slots⟩
  by_cases mem : c ∈ l
  · have zero : (V.clear l).fat c = 0 := cleared_of_mem mem
    rw [zero] at goes
    exact absurd goes (by decide)
  · have same : (V.clear l).fat c = V.fat c := cleared_of_notMem mem
    rw [same] at goes ⊢
    exact (closed.table c held).2 goes

/-- An entry that was marked is not live. -/
theorem direntFirst_marked {e : List UInt8} (more : direntFirst e ≠ 0) :
    direntFirst (e.set 0 0xE5) = 0xE5 := by
  cases e with
  | nil => exact absurd rfl more
  | cons b e => rfl

/-- A marked entry records the same cluster. -/
theorem direntCluster_marked (e : List UInt8) : direntCluster (e.set 0 0xE5) = direntCluster e := by
  have same : ∀ k, 0 < k → (e.set 0 0xE5).getD k 0 = e.getD k 0 := by
    intro k later
    rw [List.getD_eq_getElem?_getD, List.getElem?_set_ne (by omega), List.getD_eq_getElem?_getD]
  rw [direntCluster, direntCluster, word, word, same 26 (by decide), same (26 + 1) (by decide)]

/-- Marking an entry does not move the end mark. -/
theorem Vol.reached_mark (more : direntFirst (V.slot i) ≠ 0) {j : Nat} :
    (V.setSlot i ((V.slot i).set 0 0xE5)).Reached j ↔ V.Reached j := by
  have first : ∀ k, direntFirst ((V.setSlot i ((V.slot i).set 0 0xE5)).slot k) ≠ 0 ↔
      direntFirst (V.slot k) ≠ 0 := by
    intro k
    by_cases same : k = i
    · rw [same, Vol.setSlot_self, direntFirst_marked more]
      exact ⟨fun _ => more, fun _ => by decide⟩
    · rw [Vol.setSlot_of_ne same]
  exact forall_congr' fun k => forall_congr' fun _ => first k

/-- Marking an entry keeps the set closed. -/
theorem Vol.Closed.mark (closed : V.Closed g R) (more : direntFirst (V.slot i) ≠ 0) :
    (V.setSlot i ((V.slot i).set 0 0xE5)).Closed g R := by
  refine ⟨closed.table, fun j slot reached goes => ?_⟩
  have before := (Vol.reached_mark more).mp reached
  by_cases same : j = i
  · subst same
    rw [Vol.setSlot_self, direntCluster_marked] at goes ⊢
    exact closed.slots j slot before goes
  · rw [Vol.setSlot_of_ne same] at goes ⊢
    exact closed.slots j slot before goes

/-- A deletion keeps the set closed. -/
theorem Vol.Closed.delete (closed : V.Closed g R) (want : List UInt8) :
    (V.delete g want).Closed g R := by
  rw [Vol.delete]
  cases taken : V.target g want with
  | none => exact closed
  | some i =>
      obtain ⟨-, more, -, -⟩ := deleteSlot_eq_some_iff.mp taken
      exact (closed.clear (V.walk (direntCluster (V.slot i)))).mark more

/-- Linking up free clusters keeps a set closed that has them. -/
theorem Vol.Closed.link (closed : V.Closed g R) (cs : List Nat)
    (clusters : ∀ x ∈ cs, x < g.entries) : (V.link cs).Closed g fun c => R c ∨ c ∈ cs := by
  refine ⟨fun c held => ⟨?_, fun goes => ?_⟩, fun i slot reached goes =>
    .inl (closed.slots i slot reached goes)⟩
  · rcases held with held | mem
    · exact (closed.table c held).1
    · exact clusters c mem
  · by_cases mem : c ∈ cs
    · rcases threaded_of_mem V.fat 0xFFFF mem with last | next
      · have ends : (V.link cs).fat c = 0xFFFF := last
        rw [ends] at goes
        exact absurd goes (by decide)
      · exact .inr next
    · have same : (V.link cs).fat c = V.fat c := threaded_of_notMem mem
      rw [same] at goes ⊢
      exact .inl ((closed.table c (held.resolve_right mem)).2 goes)

/-- Filling clusters keeps a set closed that has them. -/
theorem Vol.Closed.fill (closed : V.Closed g R) (data : List UInt8) :
    (V.fill g data).Closed g fun c => R c ∨ c ∈ V.chainFor g data := by
  have linked := closed.link (V.chainFor g data) fun x mem =>
    (Vol.freeList_low (List.mem_of_mem_take mem)).2
  exact ⟨linked.table, linked.slots⟩

end Closed

end Flyos
