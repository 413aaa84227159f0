import Flyos.Fs.Fat16Ops

/-!
# A write that fails

`fat16_write_file` deletes the previous version first, takes clusters, fills them and
then looks for a free root entry.  When clusters run out it gives back the ones it took;
when there is no root entry it keeps them, and in either case the previous version is
gone.  `KeepsOnFailure` says that nothing is lost, `NothingToLose` is the condition on
the volume before the call under which that is so.
-/

namespace Flyos

/-- The volume that the first copy of the table shows. -/
def Vol.ofSectors (g : Fat16) (m : Nat → Sector) : Vol where
  fat c := fatWord g m 0 c
  media f c := fatWord g m f c
  slot i := slotAt g m i
  data j := (m (g.partLba + (g.dataStartLba + j))).1

/-- **A consistent volume**: the copies of the table are identical, the entries before the end
mark lead to clusters of the table, and no two live ones have the same name. -/
structure ConsistentVolume (g : Fat16) (m : Nat → Sector) : Prop where
  copies : ∀ f < g.numFats, ∀ c < g.entries, fatWord g m f c = fatWord g m 0 c
  closed : ∃ R, (Vol.ofSectors g m).Closed g R
  names : ∀ i j, i < g.slots → j < g.slots → (Vol.ofSectors g m).Reached i →
    (Vol.ofSectors g m).Reached j → LiveEntry (slotAt g m i) → LiveEntry (slotAt g m j) →
    direntRaw (slotAt g m i) = direntRaw (slotAt g m j) → i = j

/-- What `fat16_read_file` gives for a name. -/
def fileReads (g : Fat16) (fuel : Nat) (d : Ata) (name : List UInt8) (max : Int) :
    Except Fat16Trap (Int × List UInt8) :=
  (fat16ReadFile g (fun _ => true) fuel d name max).map Prod.fst

/-- **A write that fails loses nothing**: every file reads as before and the same clusters are
free. -/
def KeepsOnFailure (g : Fat16) (fuel : Nat) (d : Ata) (name data : List UInt8) : Prop :=
  ∀ d', fat16WriteFile g fuel d name data data.length = .ok (false, d') →
    (∀ rounds other max, fileReads g rounds d' other max = fileReads g rounds d other max) ∧
    ∀ c, 2 ≤ c → c < g.entries → (fatWord g d'.sectors 0 c = 0 ↔ fatWord g d.sectors 0 c = 0)

/-- The condition: without an entry of the name, that there is a free root entry, or nothing to
store, or not room for it; with one, that there is room once its chain is given back, or that it
is not live and leads to free clusters only. -/
def NothingToLose (g : Fat16) (V : Vol) (name data : List UInt8) : Prop :=
  match V.target g (parse83 name) with
  | none => writeSlot V.slot g.slots ≠ none ∨ g.clustersFor data.length = 0 ∨
      (V.freeList g).length < g.clustersFor data.length
  | some i =>
      g.clustersFor data.length ≤
        ((V.clear (V.walk (direntCluster (V.slot i)))).freeList g).length ∨
      (¬ LiveEntry (V.slot i) ∧ ∀ x ∈ V.walk (direntCluster (V.slot i)), V.fat x = 0)

section Failure

variable {g : Fat16} {allowed : Nat → Prop} {base : Nat → Sector} {d : Ata} {V V' : Vol}
  {name data want : List UInt8} {i : Nat} {R : Nat → Prop}

/-- What is read from a drive is what is read from the volume it shows. -/
theorem fileReads_eq (ok : g.Mounted) (holds : FatHolds g (fun _ => True) base d V)
    (closed : ∀ i, V.found g (findName name) = some i → ∃ R, V.Closed g R) (rounds : Nat) (max : Int) :
    fileReads g rounds d name max = V.readFile g rounds (findName name) max := by
  obtain ⟨Good, good, start⟩ : ∃ Good : Nat → Prop,
      (∀ x, Good x → x < g.entries ∧ (InChain (V.fat x) → Good (V.fat x)) ∧
        ∀ k ∈ clusterSectors g x, True) ∧
      ∀ i, V.found g (findName name) = some i → InChain (direntCluster (V.slot i)) →
        Good (direntCluster (V.slot i)) := by
    cases found : V.found g (findName name) with
    | none => exact ⟨fun _ => False, fun _ no => no.elim, fun i no => nomatch no⟩
    | some i =>
        obtain ⟨R, closed⟩ := closed i found
        refine ⟨R, fun x held => ⟨(closed.table x held).1, (closed.table x held).2, fun _ _ =>
          trivial⟩, fun j eq goes => ?_⟩
        obtain rfl := Option.some.inj eq
        exact closed.slots i (Vol.found_lt found) (Vol.reached_found found) goes
  rw [fileReads]
  rcases ok.readFile (fun _ _ _ => trivial) holds (fun _ => rfl) max Good good start with
    ⟨r, d', read, ran, -⟩ | ⟨read, ran⟩
  · rw [read, ran]
    rfl
  · rw [read, ran]
    rfl

/-- Only the table, the data and the entry found matter to a read. -/
theorem Vol.readFile_congr (fat : V'.fat = V.fat) (blocks : V'.data = V.data)
    (found : V'.found g want = V.found g want)
    (entry : ∀ i, V.found g want = some i → V'.slot i = V.slot i) (rounds : Nat) (max : Int) :
    V'.readFile g rounds want max = V.readFile g rounds want max := by
  have along : ∀ size fuel c acc, V'.readChain g size fuel c acc = V.readChain g size fuel c acc := by
    intro size fuel
    induction fuel with
    | zero => exact fun _ _ => rfl
    | succ fuel ih =>
        intro c acc
        rw [Vol.readChain, Vol.readChain, fat, Vol.cluster, Vol.cluster, blocks, ih]
  rw [Vol.readFile, Vol.readFile, found]
  cases at_ : V.found g want with
  | none => rfl
  | some i =>
      dsimp only
      rw [entry i at_, along]

/-- Marking a dead entry changes no lookup. -/
theorem findSlot_mark {slot : Nat → List UInt8} {n : Nat} (more : direntFirst (slot i) ≠ 0)
    (dead : ¬ LiveEntry (slot i)) :
    findSlot (Function.update slot i ((slot i).set 0 0xE5)) n want = findSlot slot n want := by
  have mark := direntFirst_marked more
  have dead' : ¬ LiveEntry ((slot i).set 0 0xE5) := fun live => live.2.1 mark
  apply Option.ext
  intro j
  rw [findSlot_eq_some_iff, findSlot_eq_some_iff]
  have first : ∀ k, direntFirst (Function.update slot i ((slot i).set 0 0xE5) k) ≠ 0 ↔
      direntFirst (slot k) ≠ 0 := by
    intro k
    by_cases same : k = i
    · rw [same, Function.update_self, mark]
      exact ⟨fun _ => more, fun _ => by decide⟩
    · rw [Function.update_of_ne same]
  have live : ∀ k, (LiveEntry (Function.update slot i ((slot i).set 0 0xE5) k) ∧
      direntRaw (Function.update slot i ((slot i).set 0 0xE5) k) = want) ↔
      (LiveEntry (slot k) ∧ direntRaw (slot k) = want) := by
    intro k
    by_cases same : k = i
    · rw [same, Function.update_self]
      exact ⟨fun both => absurd both.1 dead', fun both => absurd both.1 dead⟩
    · rw [Function.update_of_ne same]
  simp only [first, ← and_assoc]
  constructor
  · rintro ⟨⟨⟨inside, live'⟩, named⟩, before⟩
    obtain ⟨live', named⟩ := (live j).mp ⟨live', named⟩
    exact ⟨⟨⟨inside, live'⟩, named⟩, fun k less => ⟨(before k less).1, fun both =>
      (before k less).2 ((live k).mpr both)⟩⟩
  · rintro ⟨⟨⟨inside, live'⟩, named⟩, before⟩
    obtain ⟨live', named⟩ := (live j).mpr ⟨live', named⟩
    exact ⟨⟨⟨inside, live'⟩, named⟩, fun k less => ⟨(before k less).1, fun both =>
      (before k less).2 ((live k).mp both)⟩⟩

/-- After a deletion there is a root entry that is not in use. -/
theorem Vol.writeSlot_delete (taken : V.target g want = some i) :
    writeSlot (V.delete g want).slot g.slots ≠ none := by
  obtain ⟨inside, more, -, -⟩ := deleteSlot_eq_some_iff.mp taken
  have marked : direntFirst ((V.delete g want).slot i) = 0xE5 := by
    rw [Vol.delete, taken]
    dsimp only
    rw [Vol.setSlot_self]
    exact direntFirst_marked more
  have some : ∃ j, direntFirst ((V.delete g want).slot j) = 0 ∨
      direntFirst ((V.delete g want).slot j) = 0xE5 := ⟨i, .inr marked⟩
  have le : Nat.find some ≤ i := Nat.find_min' some (.inr marked)
  have slot : writeSlot (V.delete g want).slot g.slots = Nat.find some := by
    refine writeSlot_eq_some_iff.mpr ⟨by omega, Nat.find_spec some, fun k less => ?_⟩
    exact not_or.mp (Nat.find_min some less)
  rw [slot]
  exact Option.some_ne_none _

/-- With nothing to store a write fills nothing. -/
theorem Vol.fill_nil (none : g.clustersFor data.length = 0) : V.fill g data = V := by
  have empty : V.chainFor g data = [] := by rw [Vol.chainFor, none, List.take_zero]
  rw [Vol.fill, empty]
  rfl

/-- When a write of the volume fails: there are too few clusters, or no root entry. -/
theorem Vol.create_fst : (V.create g want data).1 = false ↔
    (V.freeList g).length < g.clustersFor data.length ∨ writeSlot V.slot g.slots = none := by
  rw [Vol.create]
  split
  · next few => simp [few]
  · next enough =>
      cases writeSlot V.slot g.slots with
      | none => simp
      | some i => simp [enough]

/-- A deletion that frees nothing leaves the table. -/
theorem Vol.clear_free {l : List Nat} (free : ∀ x ∈ l, V.fat x = 0) : (V.clear l).fat = V.fat := by
  funext x
  by_cases mem : x ∈ l
  · exact (cleared_of_mem mem).trans (free x mem).symm
  · exact cleared_of_notMem mem

/-- A write without an entry to delete is a creation. -/
theorem Vol.write_of_none (passed : V.target g want = none) :
    V.write g want data = V.create g want data := by
  rw [Vol.write, Vol.delete, passed]

/-- A write that deletes an entry finds a root entry, so it fails for want of clusters only, and
then leaves what the deletion left. -/
theorem Vol.write_of_some (taken : V.target g want = some i) (data : List UInt8) :
    ((V.write g want data).1 = false ↔
      ((V.clear (V.walk (direntCluster (V.slot i)))).freeList g).length <
        g.clustersFor data.length) ∧
    ((V.write g want data).1 = false → (V.write g want data).2 = V.delete g want) := by
  have deleted : V.delete g want =
      (V.clear (V.walk (direntCluster (V.slot i)))).setSlot i ((V.slot i).set 0 0xE5) := by
    rw [Vol.delete, taken]
  have fails : (V.write g want data).1 = false ↔
      ((V.delete g want).freeList g).length < g.clustersFor data.length := by
    rw [Vol.write, Vol.create_fst]
    simp only [Vol.writeSlot_delete taken, or_false]
  refine ⟨by rw [fails, deleted]; rfl, fun failed => ?_⟩
  rw [Vol.write, Vol.create, if_pos (fails.mp failed)]

/-- When the root directory is full the clusters that were filled are kept. -/
theorem Vol.create_leaks (want : List UInt8) (full : writeSlot V.slot g.slots = none)
    (some : g.clustersFor data.length ≠ 0)
    (few : g.clustersFor data.length ≤ (V.freeList g).length) :
    ∃ x ∈ V.freeList g, (V.create g want data).2.fat x ≠ 0 := by
  have kept : (V.create g want data).2 = V.fill g data := by
    rw [Vol.create, if_neg (by omega), full]
  have length : (V.chainFor g data).length = g.clustersFor data.length :=
    List.length_take_of_le few
  obtain ⟨x, mem⟩ := List.exists_mem_of_length_pos (show 0 < (V.chainFor g data).length by omega)
  have mem' : x ∈ V.freeList g := List.mem_of_mem_take mem
  obtain ⟨low, high, -⟩ := Vol.mem_freeList.mp mem'
  refine ⟨x, mem', fun zero => ?_⟩
  rw [kept] at zero
  have still : x ∈ (V.link (V.chainFor g data)).freeList g := Vol.mem_freeList.mpr ⟨low, high, zero⟩
  have all : V.freeList g = V.chainFor g data ++
    (V.freeList g).drop (g.clustersFor data.length) := (List.take_append_drop ..).symm
  rw [Vol.freeList_link all] at still
  have nodup : (V.chainFor g data ++
    (V.freeList g).drop (g.clustersFor data.length)).Nodup := all ▸ V.nodup_freeList g
  exact List.disjoint_of_nodup_append nodup mem still

/-- A live entry that was deleted is not found any more, if it was the only one of its name. -/
theorem Vol.found_delete (taken : V.target g want = some i)
    (unique : ∀ j < g.slots, V.Reached j → LiveEntry (V.slot j) → direntRaw (V.slot j) = want →
      j = i) : (V.delete g want).found g want = none := by
  obtain ⟨inside, more, named, -⟩ := deleteSlot_eq_some_iff.mp taken
  have deleted : V.delete g want =
      (V.clear (V.walk (direntCluster (V.slot i)))).setSlot i ((V.slot i).set 0 0xE5) := by
    rw [Vol.delete, taken]
  cases found : (V.delete g want).found g want with
  | none => rfl
  | some j =>
      obtain ⟨inside', live, named', -⟩ := findSlot_eq_some_iff.mp found
      have reached := Vol.reached_found found
      rw [deleted] at live named' reached
      have before : V.Reached j :=
        (Vol.reached_mark (V := V.clear (V.walk (direntCluster (V.slot i)))) more).mp reached
      by_cases same : j = i
      · rw [same, Vol.setSlot_self] at live
        exact absurd (direntFirst_marked more) live.2.1
      · rw [Vol.setSlot_of_ne same] at live named'
        exact absurd (unique j inside' before live named') same

/-- **A failed write loses nothing**, as a property of the volume. -/
def Vol.KeepsOnFailure (V : Vol) (g : Fat16) (name data : List UInt8) : Prop :=
  (V.write g (parse83 name) data).1 = false →
    (∀ rounds other max, (V.write g (parse83 name) data).2.readFile g rounds (findName other) max =
      V.readFile g rounds (findName other) max) ∧
    ∀ c, 2 ≤ c → c < g.entries → ((V.write g (parse83 name) data).2.fat c = 0 ↔ V.fat c = 0)

/-- What the volume keeps, the drive keeps. -/
theorem keepsOnFailure_iff (ok : g.Mounted) (spc : 0 < g.sectorsPerCluster) (healthy : d.Healthy)
    (consistent : ConsistentVolume g d.sectors) {fuel : Nat} (enough : 2 ^ 16 < fuel) :
    KeepsOnFailure g fuel d name data ↔
      (Vol.ofSectors g d.sectors).KeepsOnFailure g name data := by
  obtain ⟨R, closed⟩ := consistent.closed
  set V := Vol.ofSectors g d.sectors with shown
  have holds : FatHolds g (fun _ => True) d.sectors d V := by
    refine ⟨healthy.watched, fun f copy c inside => ?_, fun i _ => rfl, fun j => rfl⟩
    split
    · rfl
    · exact consistent.copies f copy c inside
  obtain ⟨d', ran, holds'⟩ := ok.writeFile spc (fun _ _ _ => trivial) holds enough
    (fun i taken x mem => (closed.table x (closed.target taken mem)).1) data (fun _ _ _ => trivial)
  have entry : ∀ {W : Vol} {u : Ata}, FatHolds g (fun _ => True) d.sectors u W →
      ∀ c, 2 ≤ c → c < g.entries → fatWord g u.sectors 0 c = W.fat c := by
    intro W u holds c low inside
    rw [holds.shows.table 0 ok.numFats.1 c inside, if_neg (by omega)]
  have closed' : (V.write g (parse83 name) data).1 = false →
      ∃ R', (V.write g (parse83 name) data).2.Closed g R' := by
    intro failed
    have deleted := closed.delete (parse83 name)
    rw [Vol.write, Vol.create] at failed ⊢
    split at failed
    · next few =>
        rw [if_pos few]
        exact ⟨R, deleted⟩
    · next enough =>
        rw [if_neg enough]
        cases slot : writeSlot (V.delete g (parse83 name)).slot g.slots with
        | none => exact ⟨_, deleted.fill data⟩
        | some i =>
            rw [slot] at failed
            cases failed
  rw [KeepsOnFailure, Vol.KeepsOnFailure]
  constructor
  · intro keeps failed
    obtain ⟨reads, free⟩ := keeps d' (by rw [ran, failed])
    refine ⟨fun rounds other max => ?_, fun c low inside => ?_⟩
    · rw [← fileReads_eq ok holds' (fun _ _ => closed' failed),
        ← fileReads_eq ok holds (fun _ _ => ⟨R, closed⟩)]
      exact reads rounds other max
    · rw [← entry holds' c low inside, ← entry holds c low inside]
      exact free c low inside
  · intro keeps w ran'
    rw [ran] at ran'
    obtain ⟨failed, rfl⟩ := Prod.mk.inj (Except.ok.inj ran')
    obtain ⟨reads, free⟩ := keeps failed
    refine ⟨fun rounds other max => ?_, fun c low inside => ?_⟩
    · rw [fileReads_eq ok holds' (fun _ _ => closed' failed),
        fileReads_eq ok holds (fun _ _ => ⟨R, closed⟩)]
      exact reads rounds other max
    · rw [entry holds' c low inside, entry holds c low inside]
      exact free c low inside

/-- A write of a new name keeps everything exactly when it does not fail for want of a root entry
after taking clusters. -/
theorem Vol.keeps_new (passed : V.target g (parse83 name) = none) :
    V.KeepsOnFailure g name data ↔ writeSlot V.slot g.slots ≠ none ∨
      g.clustersFor data.length = 0 ∨ (V.freeList g).length < g.clustersFor data.length := by
  rw [Vol.KeepsOnFailure, Vol.write_of_none passed]
  constructor
  · intro keeps
    by_contra lost
    simp only [not_or, not_not, Nat.not_lt] at lost
    obtain ⟨full, some, few⟩ := lost
    obtain ⟨x, mem, taken⟩ := Vol.create_leaks (parse83 name) full some few
    obtain ⟨low, -, free⟩ := Vol.mem_freeList.mp mem
    have failed : (V.create g (parse83 name) data).1 = false := Vol.create_fst.mpr (.inr full)
    exact taken (((keeps failed).2 x low (Vol.freeList_low mem).2).mpr free)
  · intro condition failed
    have kept : (V.create g (parse83 name) data).2 = V := by
      rw [Vol.create]
      by_cases few : (V.freeList g).length < g.clustersFor data.length
      · rw [if_pos few]
      rw [if_neg few]
      have full := (Vol.create_fst.mp failed).resolve_left few
      rcases condition with slot | none | few'
      · exact absurd full slot
      · rw [full]
        exact Vol.fill_nil none
      · exact absurd few' few
    rw [kept]
    exact ⟨fun _ _ _ => rfl, fun _ _ _ => Iff.rfl⟩

/-- A write over an entry keeps everything exactly when there is room once the old chain is given
back, or the entry was dead and its chain free. -/
theorem Vol.keeps_old (closed : V.Closed g R) (taken : V.target g (parse83 name) = some i)
    (unique : LiveEntry (V.slot i) → ∀ j < g.slots, V.Reached j → LiveEntry (V.slot j) →
      direntRaw (V.slot j) = parse83 name → j = i) :
    V.KeepsOnFailure g name data ↔ g.clustersFor data.length ≤
        ((V.clear (V.walk (direntCluster (V.slot i)))).freeList g).length ∨
      (¬ LiveEntry (V.slot i) ∧ ∀ x ∈ V.walk (direntCluster (V.slot i)), V.fat x = 0) := by
  obtain ⟨-, more, -, -⟩ := deleteSlot_eq_some_iff.mp taken
  obtain ⟨fails, result⟩ := Vol.write_of_some taken data
  have deleted : V.delete g (parse83 name) =
      (V.clear (V.walk (direntCluster (V.slot i)))).setSlot i ((V.slot i).set 0 0xE5) := by
    rw [Vol.delete, taken]
  rw [Vol.KeepsOnFailure]
  constructor
  · intro keeps
    by_contra lost
    rw [not_or, Nat.not_le, not_and_or, not_not] at lost
    obtain ⟨few, loses⟩ := lost
    have failed := fails.mpr few
    obtain ⟨reads, free⟩ := keeps failed
    rw [result failed] at reads free
    have freed : ∀ x ∈ V.walk (direntCluster (V.slot i)), V.fat x = 0 := by
      intro x mem
      have held := closed.target taken mem
      have low := ((Vol.walks (direntCluster (V.slot i))).1.low mem).1
      refine (free x low (closed.table x held).1).mp ?_
      rw [deleted]
      exact cleared_of_mem mem
    have live : LiveEntry (V.slot i) := by
      rcases loses with live | busy
      · exact live
      · exact absurd freed busy
    -- the name was found, and is not found any more
    have there : V.found g (findName name) = some i := findSlot_of_deleteSlot taken live
    have gone : (V.delete g (parse83 name)).found g (findName name) = none :=
      Vol.found_delete taken (unique live)
    have read := reads 0 name 0
    rw [Vol.readFile, gone, Vol.readFile, there] at read
    dsimp only at read
    rw [if_pos (.inl (by simp))] at read
    exact absurd (Prod.mk.inj (Except.ok.inj read)).1 (by decide)
  · intro condition failed
    have few := fails.mp failed
    rcases condition with room | ⟨dead, free⟩
    · omega
    rw [result failed, deleted]
    have table : (V.clear (V.walk (direntCluster (V.slot i)))).fat = V.fat := Vol.clear_free free
    refine ⟨fun rounds other max => ?_, fun c _ _ => by rw [Vol.setSlot_fat, table]⟩
    have found : ((V.clear (V.walk (direntCluster (V.slot i)))).setSlot i
        ((V.slot i).set 0 0xE5)).found g (findName other) = V.found g (findName other) :=
      findSlot_mark more dead
    refine Vol.readFile_congr ?_ ?_ ?_ (fun j there => ?_) rounds max
    · exact table
    · rfl
    · exact found
    · refine Vol.setSlot_of_ne ?_
      rintro rfl
      exact dead (findSlot_eq_some_iff.mp there).2.1

/-- **A failed write loses nothing** exactly when there is nothing to lose.  A write under an old
name gives its chain back before it looks for room, and a failure does not restore it; one under
a new name loses the clusters it took when there is no root entry for it.  On a consistent volume
the sectors show an abstract volume, about which the equivalence is proved
(`keepsOnFailure_iff`). -/
theorem failed_write_keeps (ok : g.Mounted) (spc : 0 < g.sectorsPerCluster) (healthy : d.Healthy)
    (consistent : ConsistentVolume g d.sectors) {fuel : Nat} (enough : 2 ^ 16 < fuel) :
    KeepsOnFailure g fuel d name data ↔
      NothingToLose g (Vol.ofSectors g d.sectors) name data := by
  rw [keepsOnFailure_iff ok spc healthy consistent enough, NothingToLose]
  cases taken : (Vol.ofSectors g d.sectors).target g (parse83 name) with
  | none => exact Vol.keeps_new taken
  | some i =>
      obtain ⟨R, closed⟩ := consistent.closed
      obtain ⟨inside, -, named, -⟩ := deleteSlot_eq_some_iff.mp taken
      exact Vol.keeps_old closed taken fun live j inside' reached live' named' =>
        consistent.names j i inside' inside reached (Vol.reached_target taken) live' live
          (named'.trans named.symm)

end Failure

/-! ## A volume with one file -/

/-- A volume with the file `NEW.TXT` of one cluster. -/
def keptDisk : Ata :=
  smallDisk [0xF8, 0xFF, 0xFF, 0xFF, 0xFF, 0xFF] (newDirent (parse83 newName) 2 5)

/-- 255 clusters of zeros. -/
def bigData : List UInt8 := List.replicate 130560 0

theorem keptDisk_healthy : keptDisk.Healthy := smallDisk_healthy _ _

theorem keptDisk_consistent : ConsistentVolume smallFat keptDisk.sectors := by
  have first : ∀ i, (Vol.ofSectors smallFat keptDisk.sectors).Reached i → i = 0 := by
    intro i reached
    by_contra later
    exact reached 1 (by omega) (by decide +kernel)
  refine ⟨fun f copy c _ => ?_, ⟨fun c => c = 2, fun c held => ?_, fun i _ reached _ => ?_⟩, ?_⟩
  · rw [show f = 0 from Nat.lt_one_iff.mp copy]
  · subst held
    exact ⟨by decide, by decide +kernel⟩
  · rw [first i reached]
    decide +kernel
  · intro i j _ _ reached reached' _ _ _
    rw [first i reached, first j reached']

/-- Writing one cluster to a volume with room loses nothing. -/
theorem failed_write_keeps_small :
    KeepsOnFailure smallFat (2 ^ 16 + 1) keptDisk oldName [1] := by
  refine (failed_write_keeps smallFat_mounted (by decide) keptDisk_healthy
    keptDisk_consistent (Nat.lt_succ_self _)).mpr ?_
  have passed : (Vol.ofSectors smallFat keptDisk.sectors).target smallFat (parse83 oldName) = none := by
    decide +kernel
  rw [NothingToLose, passed]
  exact .inl (by decide +kernel)

/-- **The exception.**  The table has 254 clusters, one of them of `NEW.TXT`; writing 255 clusters
under that name fails, and the file is gone. -/
theorem failed_write_loses : ¬ KeepsOnFailure smallFat (2 ^ 16 + 1) keptDisk newName bigData := by
  have taken : (Vol.ofSectors smallFat keptDisk.sectors).target smallFat (parse83 newName) =
      some 0 := by decide +kernel
  have live : LiveEntry ((Vol.ofSectors smallFat keptDisk.sectors).slot 0) := by decide +kernel
  obtain ⟨R, closed⟩ := keptDisk_consistent.closed
  obtain ⟨inside, -, named, -⟩ := deleteSlot_eq_some_iff.mp taken
  rw [keepsOnFailure_iff smallFat_mounted (by decide) keptDisk_healthy keptDisk_consistent
    (Nat.lt_succ_self _), Vol.keeps_old closed taken fun live j inside' reached live' named' =>
      keptDisk_consistent.names j 0 inside' inside reached (Vol.reached_target taken) live' live
        (named'.trans named.symm)]
  rintro (room | ⟨dead, -⟩)
  · have le := Nat.le_trans room (List.length_filter_le ..)
    rw [List.length_range', bigData, List.length_replicate] at le
    exact absurd le (by decide)
  · exact dead live

end Flyos
