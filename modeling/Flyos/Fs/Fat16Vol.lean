import Flyos.Fs.Fat16Delete
import Flyos.Lib.Blocks

/-!
# The volume as table, slots and data

`Vol` is the volume as the code thinks of it: one table of clusters, the slots of the
root directory, and the sectors of the data region.  `FatHolds` says that a watched drive
shows such a volume, every copy of the table the same one.  Each function of the code is
then an operation on `Vol`: the entries it sets, the first free cluster it takes
(`freeList`), the chain it links up and the blocks it fills.
-/

namespace Flyos

/-- A volume: the table from cluster 2 on, the two entries in front of it in each copy, the
slots of the root directory and the data sectors. -/
structure Vol where
  fat : Nat → Nat
  media : Nat → Nat → Nat
  slot : Nat → List UInt8
  data : Nat → List UInt8

namespace Vol

variable (V : Vol)

/-- An entry of the table set. -/
def setFat (c v : Nat) : Vol := { V with fat := Function.update V.fat c v }

/-- The clusters of `l` free. -/
def clear (l : List Nat) : Vol := { V with fat := cleared V.fat 0 l }

/-- The clusters of `cs` linked up to a chain. -/
def link (cs : List Nat) : Vol := { V with fat := threaded V.fat 0xFFFF cs }

/-- `src` written to the sectors `js`. -/
def store (js : List Nat) (src : List UInt8) : Vol :=
  { V with data := storeBlocks 512 0 V.data js src }

/-- A slot filled. -/
def setSlot (i : Nat) (e : List UInt8) : Vol := { V with slot := Function.update V.slot i e }

/-- A data sector filled. -/
def setSector (j : Nat) (buf : List UInt8) : Vol :=
  { V with data := Function.update V.data j buf }

variable {V} in
theorem setFat_self {c v : Nat} : (V.setFat c v).fat c = v := Function.update_self ..

variable {V} in
theorem setFat_of_ne {c c' v : Nat} (other : c' ≠ c) : (V.setFat c v).fat c' = V.fat c' :=
  Function.update_of_ne other ..

variable {V} in
theorem setSlot_self {i : Nat} {e : List UInt8} : (V.setSlot i e).slot i = e :=
  Function.update_self ..

variable {V} in
theorem setSlot_of_ne {i j : Nat} {e : List UInt8} (other : j ≠ i) :
    (V.setSlot i e).slot j = V.slot j :=
  Function.update_of_ne other ..

variable {V} in
theorem setSector_self {j : Nat} {buf : List UInt8} : (V.setSector j buf).data j = buf :=
  Function.update_self ..

variable {V} in
theorem setSector_of_ne {j k : Nat} {buf : List UInt8} (other : k ≠ j) :
    (V.setSector j buf).data k = V.data k :=
  Function.update_of_ne other ..

theorem setSlot_fat (i : Nat) (e : List UInt8) : (V.setSlot i e).fat = V.fat := rfl

end Vol
/-- The number of entries of a copy of the table. -/
def Fat16.entries (g : Fat16) : Nat := 256 * g.fatSize

/-- The sectors of the cluster `c`, counted from the first data sector. -/
def clusterSectors (g : Fat16) (c : Nat) : List Nat :=
  List.range' ((c - 2) * g.sectorsPerCluster) g.sectorsPerCluster

/-- The sectors of the clusters of a chain. -/
def chainSectors (g : Fat16) (cs : List Nat) : List Nat := cs.flatMap (clusterSectors g)

/-- Sectors that show a volume. -/
structure FatShows (g : Fat16) (m : Nat → Sector) (V : Vol) : Prop where
  table : ∀ f < g.numFats, ∀ c < g.entries,
    fatWord g m f c = if c < 2 then V.media f c else V.fat c
  slots : ∀ i < g.slots, slotAt g m i = V.slot i
  data : ∀ j, (m (g.partLba + (g.dataStartLba + j))).1 = V.data j

/-- A watched drive that shows a volume. -/
structure FatHolds (g : Fat16) (allowed : Nat → Prop) (base : Nat → Sector) (d : Ata) (V : Vol) :
    Prop where
  watched : Watched allowed base d
  shows : FatShows g d.sectors V

/-- The sectors of the table and of the root directory are allowed. -/
def TablesAllowed (g : Fat16) (allowed : Nat → Prop) : Prop :=
  ∀ l, g.fatStartLba ≤ l → l < g.dataStartLba → allowed (g.partLba + l)

/-! ## Where things lie -/

section Regions

variable {g : Fat16} {m : Nat → Sector} {V : Vol} {allowed : Nat → Prop}

/-- A copy of an entry lies in the table region. -/
theorem Fat16.Mounted.copy_region (ok : g.Mounted) {c f : Nat} (inside : c < g.entries)
    (copy : f < g.numFats) :
    g.partLba + g.fatStartLba ≤ copyLba g c f ∧ copyLba g c f < g.partLba + g.rootStartLba := by
  rw [Fat16.entries] at inside
  have le : (f + 1) * g.fatSize ≤ g.numFats * g.fatSize := Nat.mul_le_mul_right _ copy
  rw [Nat.succ_mul] at le
  have start := ok.rootStart
  rw [copyLba]
  omega

/-- A slot lies in the directory region. -/
theorem Fat16.Mounted.slot_region (ok : g.Mounted) {i : Nat} (inside : i < g.slots) :
    g.partLba + g.rootStartLba ≤ slotLba g i ∧ slotLba g i < g.partLba + g.dataStartLba := by
  rw [Fat16.slots] at inside
  have start := ok.dataStart
  rw [slotLba]
  omega

theorem TablesAllowed.copy (tables : TablesAllowed g allowed) (ok : g.Mounted) {c f : Nat}
    (inside : c < g.entries) (copy : f < g.numFats) : allowed (copyLba g c f) := by
  have region := ok.copy_region inside copy
  have start := ok.dataStart
  have here := tables (copyLba g c f - g.partLba) (by omega) (by omega)
  rwa [Nat.add_sub_cancel' (by omega)] at here

theorem TablesAllowed.root (tables : TablesAllowed g allowed) (ok : g.Mounted) {s : Nat}
    (inside : s < g.rootCount) : allowed (g.partLba + (g.rootStartLba + s)) := by
  have start := ok.rootStart
  have start' := ok.dataStart
  exact tables _ (by omega) (by omega)

/-- Setting an entry in the sectors. -/
theorem FatShows.fatStore (shows : FatShows g m V) (ok : g.Mounted) {c v : Nat} (low : 2 ≤ c)
    (inside : c < g.entries) (small : v < 2 ^ 16) : FatShows g (fatStore g m c v) (V.setFat c v) := by
  refine ⟨fun f copy c' inside' => ?_, fun i slot => ?_, fun j => ?_⟩
  · by_cases same : c' = c
    · rw [same, fatWord_fatStore_self copy small, if_neg (by omega)]
      exact Vol.setFat_self.symm
    · rw [fatWord_fatStore_other same inside inside', shows.table f copy c' inside']
      split
      · rfl
      · exact (Vol.setFat_of_ne same).symm
  · have region := ok.slot_region slot
    rw [slotAt, fatStore_other fun f copy eq => ?_]
    · exact shows.slots i slot
    · have table := ok.copy_region inside copy
      omega
  · have start := ok.dataStart
    rw [fatStore_other fun f copy eq => ?_]
    · exact shows.data j
    · have table := ok.copy_region inside copy
      omega

/-- Rewriting the directory sector of slot `i` so that only that entry changes. -/
theorem FatShows.updateSlot (shows : FatShows g m V) (ok : g.Mounted) {i : Nat} (inside : i < g.slots)
    {buf e : List UInt8} (sized : buf.length = ataSectorSize)
    (entries : ∀ k, dirent buf k = if k = i % 16 then e else dirent (m (slotLba g i)).1 k) :
    FatShows g (Function.update m (slotLba g i) (.ofList buf)) (V.setSlot i e) := by
  have region := ok.slot_region inside
  refine ⟨fun f copy c inside => ?_, fun j slot => ?_, fun j => ?_⟩
  · have table := ok.copy_region inside copy
    rw [fatWord, Function.update_of_ne (by omega)]
    exact shows.table f copy c inside
  · by_cases row : slotLba g j = slotLba g i
    · rw [slotAt, row, Function.update_self, Sector.ofList_val sized, entries]
      rw [slotLba, slotLba] at row
      by_cases same : j = i
      · rw [same, if_pos rfl]
        exact Vol.setSlot_self.symm
      · rw [if_neg (by omega), Vol.setSlot_of_ne same, ← shows.slots j slot, slotAt, slotLba, slotLba,
          row]
    · have other : j ≠ i := fun eq => row (by rw [eq])
      rw [slotAt, Function.update_of_ne row, Vol.setSlot_of_ne other]
      exact shows.slots j slot
  · rw [Function.update_of_ne (by omega)]
    exact shows.data j

/-- Writing a data sector. -/
theorem FatShows.updateData (shows : FatShows g m V) (ok : g.Mounted) (j : Nat) {buf : List UInt8}
    (sized : buf.length = ataSectorSize) :
    FatShows g (Function.update m (g.partLba + (g.dataStartLba + j)) (.ofList buf))
      (V.setSector j buf) := by
  have start := ok.dataStart
  have start' := ok.rootStart
  refine ⟨fun f copy c inside => ?_, fun i slot => ?_, fun k => ?_⟩
  · have table := ok.copy_region inside copy
    rw [fatWord, Function.update_of_ne (by omega)]
    exact shows.table f copy c inside
  · have region := ok.slot_region slot
    rw [slotAt, Function.update_of_ne (by omega)]
    exact shows.slots i slot
  · by_cases same : k = j
    · rw [same, Function.update_self, Sector.ofList_val sized]
      exact Vol.setSector_self.symm
    · rw [Function.update_of_ne (by omega), shows.data k]
      exact (Vol.setSector_of_ne same).symm

end Regions

/-! ## Entries of the table -/

section Table

variable {g : Fat16} {allowed : Nat → Prop} {base : Nat → Sector} {d : Ata} {V : Vol}

theorem Fat16.Mounted.fatGet (ok : g.Mounted) (tables : TablesAllowed g allowed)
    (holds : FatHolds g allowed base d V) {c : Nat} (low : 2 ≤ c) (inside : c < g.entries)
    (cluster : c < 2 ^ 16) :
    ∃ d', fatGet g d c = (V.fat c, d') ∧ FatHolds g allowed base d' V := by
  obtain ⟨d', ran, watched, same⟩ :=
    fatGet_spec ok holds.watched cluster (tables.copy ok inside ok.numFats.1)
  rw [holds.shows.table 0 ok.numFats.1 c inside, if_neg (by omega)] at ran
  exact ⟨d', ran, watched, by rw [same]; exact holds.shows⟩

theorem Fat16.Mounted.fatSet (ok : g.Mounted) (tables : TablesAllowed g allowed)
    (holds : FatHolds g allowed base d V) {c v : Nat} (low : 2 ≤ c) (inside : c < g.entries)
    (cluster : c < 2 ^ 16) (small : v < 2 ^ 16) :
    ∃ d', fatSet g d c v = (true, d') ∧ FatHolds g allowed base d' (V.setFat c v) := by
  obtain ⟨d', ran, watched, stored⟩ := fatSet_spec ok holds.watched (v := v) cluster
    fun f copy => tables.copy ok inside copy
  exact ⟨d', ran, watched, by rw [stored]; exact holds.shows.fatStore ok low inside small⟩

/-! ## Freeing -/

/-- The clusters `free_chain` visits from `c`. -/
abbrev Walks (fat : Nat → Nat) (c : Nat) (l : List Nat) : Prop :=
  Visits (fun t : Nat → Nat => t) (fun t x => Function.update t x 0) (fun c => ¬ InChain c) fat c l

/-- The walk through the table is the walk through the sectors that show it. -/
theorem FatShows.chainVisits {m : Nat → Sector} (shows : FatShows g m V) (ok : g.Mounted) {c : Nat}
    {l : List Nat} (walks : Walks V.fat c l) (inside : ∀ x ∈ l, x < g.entries) :
    ChainVisits g m c l := by
  induction l generalizing m V c with
  | nil => exact walks
  | cons x l ih =>
      obtain ⟨rfl, live, rest⟩ := walks
      have inChain : InChain x := Decidable.not_not.mp live
      have entry := inside x List.mem_cons_self
      have word := shows.table 0 ok.numFats.1 x entry
      rw [if_neg (by omega)] at word
      refine ⟨rfl, live, ?_⟩
      show ChainVisits g (Flyos.fatStore g m x 0) (fatWord g m 0 x) l
      rw [word]
      exact ih (shows.fatStore ok inChain.1 entry (by decide)) rest
        fun y mem => inside y (List.mem_cons_of_mem x mem)

/-- Clearing entries in the sectors. -/
theorem FatShows.zeroed {m : Nat → Sector} (shows : FatShows g m V) (ok : g.Mounted) {l : List Nat}
    (inside : ∀ x ∈ l, 2 ≤ x ∧ x < g.entries) : FatShows g (zeroed g m l) (V.clear l) := by
  rw [Vol.clear, ← foldl_update_eq_cleared]
  induction l generalizing m V with
  | nil => exact shows
  | cons x l ih =>
      have entry := inside x List.mem_cons_self
      exact ih (shows.fatStore ok entry.1 entry.2 (by decide))
        fun y mem => inside y (List.mem_cons_of_mem x mem)

/-- The walk stays among the cluster numbers. -/
theorem Walks.low {fat : Nat → Nat} {c x : Nat} {l : List Nat} (walks : Walks fat c l)
    (mem : x ∈ l) : InChain x :=
  Decidable.not_not.mp (walks.not_stop mem)

/-- `free_chain` frees the clusters it visits. -/
theorem Fat16.Mounted.freeChain (ok : g.Mounted) (tables : TablesAllowed g allowed)
    (holds : FatHolds g allowed base d V) {c fuel : Nat} {l : List Nat} (walks : Walks V.fat c l)
    (inside : ∀ x ∈ l, x < g.entries) (enough : l.length < fuel) :
    ∃ d', freeChain g fuel d c = .ok d' ∧ FatHolds g allowed base d' (V.clear l) := by
  obtain ⟨d', ran, watched, cleared⟩ := freeChain_spec ok holds.watched
    (holds.shows.chainVisits ok walks inside) enough
    fun x mem f copy => tables.copy ok (inside x mem) copy
  refine ⟨d', ran, watched, ?_⟩
  rw [cleared]
  exact holds.shows.zeroed ok fun x mem => ⟨(walks.low mem).1, inside x mem⟩

/-! ## Allocating -/

/-- The clusters that may be allocated are the ones below this. -/
def Fat16.limit (g : Fat16) : Nat := min g.entries 0xFFF0

/-- The free clusters, in the order they are taken. -/
def Vol.freeList (V : Vol) (g : Fat16) : List Nat :=
  (List.range' 2 (g.limit - 2)).filter fun c => V.fat c = 0

theorem Vol.mem_freeList {c : Nat} : c ∈ V.freeList g ↔ 2 ≤ c ∧ c < g.limit ∧ V.fat c = 0 := by
  rw [Vol.freeList, List.mem_filter, List.mem_range'_1, decide_eq_true_iff]
  omega

theorem Vol.nodup_freeList (V : Vol) (g : Fat16) : (V.freeList g).Nodup :=
  (List.nodup_range' 1).filter _

/-- The first free cluster heads the list, and once it is taken the rest is the list. -/
theorem Vol.freeList_cons {c v : Nat} (low : 2 ≤ c) (high : c < g.limit) (free : V.fat c = 0)
    (first : ∀ k, 2 ≤ k → k < c → V.fat k ≠ 0) (taken : v ≠ 0) :
    V.freeList g = c :: (V.setFat c v).freeList g := by
  have parts : List.range' 2 (g.limit - 2) =
      List.range' 2 (c - 2) ++ c :: List.range' (c + 1) (g.limit - c - 1) := by
    rw [show g.limit - 2 = (c - 2) + ((g.limit - c - 1) + 1) by omega, ← List.range'_append_1,
      show 2 + (c - 2) = c by omega, List.range'_succ]
  have before : ∀ fat : Nat → Nat, (∀ k, 2 ≤ k → k < c → fat k ≠ 0) →
      (List.range' 2 (c - 2)).filter (fun c => fat c = 0) = [] := by
    intro fat used
    refine List.filter_eq_nil_iff.mpr fun k mem => ?_
    rw [List.mem_range'_1] at mem
    simp only [decide_eq_true_eq]
    exact used k mem.1 (by omega)
  have after : (List.range' (c + 1) (g.limit - c - 1)).filter (fun k => V.fat k = 0) =
      (List.range' (c + 1) (g.limit - c - 1)).filter (fun k => (V.setFat c v).fat k = 0) := by
    refine List.filter_congr fun k mem => ?_
    rw [List.mem_range'_1] at mem
    rw [Vol.setFat_of_ne (by omega)]
  rw [Vol.freeList, Vol.freeList, parts, List.filter_append, List.filter_append, before V.fat first,
    before _ fun k low less => by rw [Vol.setFat_of_ne (by omega)]; exact first k low less,
    List.nil_append, List.nil_append, List.filter_cons_of_pos (by simpa using free),
    List.filter_cons_of_neg (by rw [Vol.setFat_self]; simpa using taken), after]

/-- What the scan of `alloc_cluster` does at an entry. -/
def allocVisit (fat : Nat → Nat) (c : Nat) : Option Nat :=
  if c < 2 then none else if 0xFFF0 ≤ c then some 0 else if fat c = 0 then some c else none

/-- Where the scan of `alloc_cluster` stops. -/
theorem allocVisit_eq_some {fat : Nat → Nat} {k r : Nat} : allocVisit fat k = some r ↔
    2 ≤ k ∧ ((0xFFF0 ≤ k ∧ r = 0) ∨ (k < 0xFFF0 ∧ fat k = 0 ∧ r = k)) := by
  rw [allocVisit]
  by_cases low : k < 2
  · rw [if_pos low]
    constructor
    · intro no; cases no
    · intro bound; omega
  rw [if_neg low]
  by_cases high : 0xFFF0 ≤ k
  · rw [if_pos high, Option.some.injEq]
    omega
  rw [if_neg high]
  by_cases free : fat k = 0
  · rw [if_pos free, Option.some.injEq]
    omega
  · rw [if_neg free]
    constructor
    · intro no; cases no
    · intro bound; omega

/-- The scan stops at the first free cluster, if there is one. -/
theorem Vol.firstHit_free (V : Vol) (g : Fat16) :
    match V.freeList g with
    | [] => ∀ k c, firstHit (allocVisit V.fat) g.entries 0 = some (k, c) → c = 0
    | c :: rest => firstHit (allocVisit V.fat) g.entries 0 = some (c, c) ∧
        (V.setFat c 0xFFFF).freeList g = rest := by
  cases free : V.freeList g with
  | nil =>
      intro k c found
      obtain ⟨-, high, stopped, -⟩ := firstHit_eq_some_iff.mp found
      obtain ⟨low, ⟨-, zero⟩ | ⟨below, zero, -⟩⟩ := allocVisit_eq_some.mp stopped
      · exact zero
      · have mem : k ∈ V.freeList g :=
          Vol.mem_freeList.mpr ⟨low, Nat.lt_min.mpr ⟨by omega, below⟩, zero⟩
        rw [free] at mem
        cases mem
  | cons c rest =>
      have mem : c ∈ V.freeList g := by
        rw [free]
        exact List.mem_cons_self
      obtain ⟨low, high, zero⟩ := Vol.mem_freeList.mp mem
      obtain ⟨inside, below⟩ := Nat.lt_min.mp high
      -- the list is in order, so nothing in front of its head is free
      have sorted : (c :: rest).Pairwise (· < ·) := by
        rw [← free]
        exact List.Pairwise.filter _ (List.pairwise_lt_range' ..)
      have first : ∀ k, 2 ≤ k → k < c → V.fat k ≠ 0 := by
        intro k low' less zero'
        have mem' : k ∈ c :: rest := by
          rw [← free]
          exact Vol.mem_freeList.mpr ⟨low', by omega, zero'⟩
        rcases List.mem_cons.mp mem' with same | later
        · omega
        · have after := (List.pairwise_cons.mp sorted).1 k later
          omega
      refine ⟨firstHit_eq_some_iff.mpr ⟨Nat.zero_le c, by omega,
        allocVisit_eq_some.mpr ⟨low, .inr ⟨below, zero, rfl⟩⟩, fun k _ less => ?_⟩, ?_⟩
      · cases stopped : allocVisit V.fat k with
        | none => rfl
        | some r =>
            obtain ⟨low', ⟨above, -⟩ | ⟨-, zero', -⟩⟩ := allocVisit_eq_some.mp stopped
            · omega
            · exact absurd zero' (first k low' less)
      · have cut := Vol.freeList_cons low high zero first (v := 0xFFFF) (by decide)
        rw [free] at cut
        exact (List.cons.inj cut).2.symm

/-- The loop over a sector of the table, of which the first copy is read. -/
theorem freeFatEntry_words {m : Nat → Sector} {fat : Nat → Nat}
    (words : ∀ c, 2 ≤ c → c < g.entries → fatWord g m 0 c = fat c) {s n i : Nat}
    (sector : s < g.fatSize) (within : i + n = 256) :
    freeFatEntry (m (g.partLba + (g.fatStartLba + s))).1 s n i =
      (firstHit (allocVisit fat) n (s * 256 + i)).map Prod.snd := by
  induction n generalizing i with
  | zero => rfl
  | succ n ih =>
      have entry : word (m (g.partLba + (g.fatStartLba + s))).1 (2 * i) =
          fatWord g m 0 (s * 256 + i) := by
        rw [fatWord, copyLba, Nat.zero_mul, Nat.add_zero,
          show (s * 256 + i) * 2 / 512 = s by omega, show (s * 256 + i) * 2 % 512 = 2 * i by omega]
      have next : i + 1 + n = 256 → freeFatEntry (m (g.partLba + (g.fatStartLba + s))).1 s n (i + 1) =
          (firstHit (allocVisit fat) n (s * 256 + i + 1)).map Prod.snd := by
        intro more
        rw [ih more, Nat.add_assoc]
      rw [freeFatEntry, firstHit, allocVisit]
      by_cases low : s * 256 + i < 2
      · rw [if_pos low, if_pos low]
        exact next (by omega)
      rw [if_neg low, if_neg low]
      by_cases high : 0xFFF0 ≤ s * 256 + i
      · rw [if_pos high, if_pos high]
        rfl
      rw [if_neg high, if_neg high, entry, words _ (by omega) (by rw [Fat16.entries]; omega)]
      by_cases free : fat (s * 256 + i) = 0
      · rw [if_pos free, if_pos free]
        rfl
      · rw [if_neg free, if_neg free]
        exact next (by omega)

/-- The loop over a sector of the table. -/
theorem freeFatEntry_eq {m : Nat → Sector} (shows : FatShows g m V) (ok : g.Mounted) {s n i : Nat}
    (sector : s < g.fatSize) (within : i + n = 256) :
    freeFatEntry (m (g.partLba + (g.fatStartLba + s))).1 s n i =
      (firstHit (allocVisit V.fat) n (s * 256 + i)).map Prod.snd := by
  refine freeFatEntry_words (fun c low inside => ?_) sector within
  rw [shows.table 0 ok.numFats.1 c inside, if_neg (by omega)]

/-- `alloc_cluster` takes the cluster its scan stops at. -/
theorem allocLoop_spec (ok : g.Mounted) (tables : TablesAllowed g allowed)
    (holds : FatHolds g allowed base d V) {n s : Nat} (sectors : s + n = g.fatSize) :
    ∃ d', allocLoop g n s d =
        (((firstHit (allocVisit V.fat) (256 * n) (s * 256)).map Prod.snd).getD 0, d') ∧
      FatHolds g allowed base d' (match firstHit (allocVisit V.fat) (256 * n) (s * 256) with
        | some (_, c + 1) => V.setFat (c + 1) 0xFFFF
        | _ => V) := by
  induction n generalizing s d with
  | zero => exact ⟨d, rfl, holds⟩
  | succ n ih =>
      have sector : s < g.fatSize := by omega
      have small : g.fatStartLba + s < 2 ^ 26 := by
        have start := ok.fatStart
        have size := ok.fatSize
        omega
      have here : allowed (g.partLba + (g.fatStartLba + s)) := by
        have inside := tables.copy ok (c := s * 256) (by rw [Fat16.entries]; omega) ok.numFats.1
        rwa [copyLba, Nat.zero_mul, Nat.add_zero, show s * 256 * 2 / 512 = s by omega] at inside
      obtain ⟨u, read, watchedU, sameU⟩ := readSector_spec ok holds.watched small here
      have holdsU : FatHolds g allowed base u V := ⟨watchedU, by rw [sameU]; exact holds.shows⟩
      have entries := freeFatEntry_eq holds.shows ok (n := 256) (i := 0) sector rfl
      rw [allocLoop, read, show 256 * (n + 1) = 256 + 256 * n by omega, firstHit_add]
      dsimp only
      rw [entries, Nat.add_zero]
      cases found : firstHit (allocVisit V.fat) 256 (s * 256) with
      | none =>
          obtain ⟨d', ran, holds'⟩ := ih holdsU (s := s + 1) (by omega)
          rw [show (s + 1) * 256 = s * 256 + 256 by omega] at ran holds'
          exact ⟨d', ran, holds'⟩
      | some r =>
          obtain ⟨k, c⟩ := r
          cases c with
          | zero => exact ⟨u, rfl, holdsU⟩
          | succ c =>
              obtain ⟨low, high, stopped, -⟩ := firstHit_eq_some_iff.mp found
              rw [allocVisit] at stopped
              have facts : c + 1 = k ∧ 2 ≤ k ∧ k < 0xFFF0 := by
                split at stopped
                · cases stopped
                · next low =>
                    split at stopped
                    · cases stopped
                    · next high =>
                        split at stopped
                        · exact ⟨(Option.some.inj stopped).symm, by omega, by omega⟩
                        · cases stopped
              obtain ⟨w, set, holdsW⟩ := ok.fatSet tables holdsU (c := c + 1) (v := 0xFFFF)
                (by omega) (by rw [Fat16.entries]; omega) (by omega) (by decide)
              refine ⟨w, ?_, holdsW⟩
              show (if (Flyos.fatSet g u (c + 1) 0xFFFF).1 = true then c + 1 else 0,
                (Flyos.fatSet g u (c + 1) 0xFFFF).2) = (c + 1, w)
              rw [set]
              rfl

/-- **`alloc_cluster` takes the first free cluster**, if there is one. -/
theorem Fat16.Mounted.allocCluster (ok : g.Mounted) (tables : TablesAllowed g allowed)
    (holds : FatHolds g allowed base d V) :
    match V.freeList g with
    | [] => ∃ d', allocCluster g d = (0, d') ∧ FatHolds g allowed base d' V
    | c :: rest => ∃ d', allocCluster g d = (c, d') ∧
        FatHolds g allowed base d' (V.setFat c 0xFFFF) ∧ (V.setFat c 0xFFFF).freeList g = rest := by
  obtain ⟨d', ran, holds'⟩ := allocLoop_spec ok tables holds (Nat.zero_add g.fatSize)
  rw [Nat.zero_mul] at ran holds'
  change allocLoop g g.fatSize 0 d =
    (((firstHit (allocVisit V.fat) g.entries 0).map Prod.snd).getD 0, d') at ran
  change FatHolds g allowed base d' (match firstHit (allocVisit V.fat) g.entries 0 with
    | some (_, c + 1) => V.setFat (c + 1) 0xFFFF
    | _ => V) at holds'
  have hit := V.firstHit_free g
  cases free : V.freeList g with
  | nil =>
      rw [free] at hit
      cases found : firstHit (allocVisit V.fat) g.entries 0 with
      | none =>
          rw [found] at ran holds'
          exact ⟨d', ran, holds'⟩
      | some r =>
          obtain ⟨k, c⟩ := r
          obtain rfl := hit k c found
          rw [found] at ran holds'
          exact ⟨d', ran, holds'⟩
  | cons c rest =>
      rw [free] at hit
      obtain ⟨low, -, -⟩ := Vol.mem_freeList.mp (free ▸ List.mem_cons_self : c ∈ V.freeList g)
      obtain ⟨c, rfl⟩ := Nat.exists_eq_add_of_le' (Nat.le_of_succ_le low)
      rw [hit.1] at ran holds'
      exact ⟨d', ran, holds', hit.2⟩

end Table

end Flyos
