import Flyos.Fs.Fat16Vol

/-!
# The file operations on the volume

What `fat16_read_file`, `fat16_delete_file` and `fat16_write_file` do to the volume that
the drive shows: `Vol.read`, `Vol.delete` and `Vol.write`.  A write takes the first free
clusters, and when there are too few it gives back the ones it took.

Along the way the loops: the chain that is allocated and linked up one cluster at a time
(`allocChain`), the sectors that are filled (`writeChain`) and read (`readChain`).
-/

namespace Flyos

section Loops

variable {g : Fat16} {allowed : Nat → Prop} {base : Nat → Sector} {d : Ata} {V : Vol}

/-! ## Allocating a chain -/

/-- The free clusters are clusters. -/
theorem Vol.freeList_low {c : Nat} (mem : c ∈ V.freeList g) : InChain c ∧ c < g.entries := by
  obtain ⟨low, high, -⟩ := Vol.mem_freeList.mp mem
  have bounds := Nat.lt_min.mp high
  exact ⟨⟨low, by omega⟩, bounds.1⟩

/-- Linking up the first free clusters leaves the others free. -/
theorem Vol.freeList_link {cs rest : List Nat} (all : V.freeList g = cs ++ rest) :
    (V.link cs).freeList g = rest := by
  have nodup : (cs ++ rest).Nodup := all ▸ V.nodup_freeList g
  have free : ∀ c, (V.link cs).fat c = 0 ↔ c ∉ cs ∧ V.fat c = 0 := by
    intro c
    by_cases mem : c ∈ cs
    · have used : (V.link cs).fat c ≠ 0 := by
        rcases threaded_of_mem V.fat 0xFFFF mem with last | next
        · show threaded V.fat 0xFFFF cs c ≠ 0
          rw [last]
          decide
        · have low := Vol.freeList_low (all ▸ List.mem_append_left rest next : _ ∈ V.freeList g)
          show threaded V.fat 0xFFFF cs c ≠ 0
          omega
      simp [used, mem]
    · show threaded V.fat 0xFFFF cs c = 0 ↔ c ∉ cs ∧ V.fat c = 0
      rw [threaded_of_notMem mem]
      simp [mem]
  have filtered : (V.link cs).freeList g = (V.freeList g).filter (· ∉ cs) := by
    rw [Vol.freeList, Vol.freeList, List.filter_filter]
    refine List.filter_congr fun c _ => ?_
    rw [Bool.eq_iff_iff]
    simp only [decide_eq_true_eq, Bool.and_eq_true, decide_not, Bool.not_eq_eq_eq_not, Bool.not_true,
      decide_eq_false_iff_not]
    exact free c
  rw [filtered, all, List.filter_append, List.filter_eq_nil_iff.mpr (by simp), List.nil_append,
    List.filter_eq_self.mpr]
  intro c mem
  simpa using fun other => List.disjoint_of_nodup_append nodup other mem

/-- A chain that was linked up from free clusters. -/
theorem Vol.linkChain_link {cs rest : List Nat} (all : V.freeList g = cs ++ rest) {c : Nat}
    (first : cs.head? = some c) : LinkChain (V.link cs).fat (fun c => ¬ InChain c) c cs := by
  have nodup : (cs ++ rest).Nodup := all ▸ V.nodup_freeList g
  cases cs with
  | nil => cases first
  | cons x cs =>
      obtain rfl := Option.some.inj first
      refine linkChain_threaded (List.nodup_append.mp nodup).1 (fun y mem => ?_) (by decide)
      have mem' : y ∈ V.freeList g := all ▸ List.mem_append_left rest mem
      exact fun out => out (Vol.freeList_low mem').1

/-- Giving back a chain that was linked up. -/
theorem Vol.clear_link {cs rest : List Nat} (all : V.freeList g = cs ++ rest) :
    (V.link cs).clear cs = V := by
  rw [Vol.clear, Vol.link, cleared_threaded]
  intro c mem
  exact (Vol.mem_freeList.mp (all ▸ List.mem_append_left rest mem : c ∈ V.freeList g)).2.2

/-- **The allocation loop**: `n` more clusters are taken from the front of the free ones and
linked behind the chain; when there are too few, the chain is given back. -/
theorem Fat16.Mounted.allocChain (ok : g.Mounted) (tables : TablesAllowed g allowed)
    (cs rest : List Nat) (all : V.freeList g = cs ++ rest)
    (holds : FatHolds g allowed base d (V.link cs)) (n fuel : Nat) (enough : (V.freeList g).length < fuel) :
    (n ≤ rest.length → ∃ d', allocChain g fuel n d (cs.head?.getD 0) (cs.getLast?.getD 0) =
        .ok (some ((cs ++ rest.take n).head?.getD 0, (cs ++ rest.take n).getLast?.getD 0), d') ∧
      FatHolds g allowed base d' (V.link (cs ++ rest.take n))) ∧
    (rest.length < n → ∃ d', allocChain g fuel n d (cs.head?.getD 0) (cs.getLast?.getD 0) =
        .ok (none, d') ∧ FatHolds g allowed base d' V) := by
  induction n generalizing cs rest d with
  | zero =>
      refine ⟨fun _ => ⟨d, ?_, ?_⟩, fun less => absurd less (Nat.not_lt_zero _)⟩
      · rw [List.take_zero, List.append_nil, Flyos.allocChain]
      · rw [List.take_zero, List.append_nil]
        exact holds
  | succ n ih =>
      have took := ok.allocCluster tables holds
      rw [Vol.freeList_link all] at took
      cases rest with
      | nil =>
          obtain ⟨u, ran, holdsU⟩ := took
          refine ⟨fun less => absurd less (Nat.not_succ_le_zero n), fun _ => ?_⟩
          rw [Flyos.allocChain, ran]
          cases cs with
          | nil => exact ⟨u, rfl, holdsU⟩
          | cons x cs =>
              have walks := (Vol.linkChain_link all rfl).visits 0
              have members : ∀ y ∈ x :: cs, InChain y ∧ y < g.entries := fun y mem =>
                Vol.freeList_low (all ▸ List.mem_append_left [] mem : y ∈ V.freeList g)
              obtain ⟨d', freed, holds'⟩ := ok.freeChain tables holdsU walks
                (fun y mem => (members y mem).2) (by rw [all, List.append_nil] at enough; exact enough)
              rw [Vol.clear_link all] at holds'
              have live : x ≠ 0 := by
                have low := (members x List.mem_cons_self).1
                omega
              refine ⟨d', ?_, holds'⟩
              show (if x ≠ 0 then (Flyos.freeChain g fuel u x).map fun d => (none, d)
                else .ok (none, u)) = _
              rw [if_pos live, freed]
              rfl
      | cons c rest =>
          obtain ⟨u, ran, holdsU, -⟩ := took
          have all' : V.freeList g = (cs ++ [c]) ++ rest := by rw [all, List.append_assoc]; rfl
          have nodup : ((cs ++ [c]) ++ rest).Nodup := all' ▸ V.nodup_freeList g
          have low : InChain c ∧ c < g.entries := Vol.freeList_low (by rw [all]; simp)
          obtain ⟨k, rfl⟩ : ∃ k, c = k + 1 := Nat.exists_eq_succ_of_ne_zero (by omega)
          -- one cluster more, marked and linked from the one before
          obtain ⟨w, step, holdsW⟩ : ∃ w, Flyos.allocChain g fuel (n + 1) d (cs.head?.getD 0)
              (cs.getLast?.getD 0) = Flyos.allocChain g fuel n w ((cs ++ [k + 1]).head?.getD 0)
                ((cs ++ [k + 1]).getLast?.getD 0) ∧
              FatHolds g allowed base w (V.link (cs ++ [k + 1])) := by
            rw [Flyos.allocChain, ran]
            rcases List.eq_nil_or_concat' cs with rfl | ⟨init, p, rfl⟩
            · exact ⟨u, rfl, holdsU⟩
            · have mem : p ∈ V.freeList g := by rw [all]; simp
              have lowP := Vol.freeList_low mem
              obtain ⟨w, set, holdsW⟩ := ok.fatSet tables holdsU lowP.1.1 lowP.2
                (by omega) (by omega : k + 1 < 2 ^ 16)
              refine ⟨w, ?_, ?_⟩
              · have head : (init ++ [p] ++ [k + 1]).head?.getD 0 = (init ++ [p]).head?.getD 0 := by
                  cases init <;> rfl
                show (if (init ++ [p]).getLast?.getD 0 ≠ 0 then Flyos.allocChain g fuel n
                    (Flyos.fatSet g u ((init ++ [p]).getLast?.getD 0) (k + 1)).2
                    ((init ++ [p]).head?.getD 0) (k + 1)
                  else Flyos.allocChain g fuel n u (k + 1) (k + 1)) = _
                rw [List.getLast?_concat, List.getLast?_concat, Option.getD_some, Option.getD_some,
                  if_pos (by omega), set, head]
              · have front := (List.nodup_append.mp nodup).1
                rw [List.append_assoc] at front
                have linked := threaded_concat V.fat 0xFFFF (x := p) (y := k + 1) front
                have same : ((V.link (init ++ [p])).setFat (k + 1) 0xFFFF).setFat p (k + 1) =
                    V.link (init ++ [p] ++ [k + 1]) := by
                  rw [List.append_assoc]
                  exact congrArg (fun fat => { V with fat := fat }) linked.symm
                rw [← same]
                exact holdsW
          obtain ⟨goes, fails⟩ := ih _ rest all' holdsW
          rw [step]
          refine ⟨fun less => ?_, fun less => fails (Nat.lt_of_succ_lt_succ less)⟩
          have split : cs ++ ((k + 1) :: rest).take (n + 1) = cs ++ [k + 1] ++ rest.take n := by
            rw [List.take_succ_cons, List.append_assoc]
            rfl
          rw [split]
          exact goes (Nat.le_of_succ_le_succ less)

/-! ## Filling a chain -/

/-- The inner loop of a write fills the sectors from `j` on. -/
theorem Fat16.Mounted.writeCluster (ok : g.Mounted) (holds : FatHolds g allowed base d V) {n j : Nat}
    (src : List UInt8) (small : g.dataStartLba + j + n ≤ 2 ^ 26)
    (data : ∀ k ∈ List.range' j n, allowed (g.partLba + (g.dataStartLba + k))) :
    ∃ d', writeCluster g n (g.dataStartLba + j) d src = (true, src.drop (512 * n), d') ∧
      FatHolds g allowed base d' (V.store (List.range' j n) src) := by
  induction n generalizing j d V src with
  | zero => exact ⟨d, rfl, holds⟩
  | succ n ih =>
      by_cases done : src = []
      · subst done
        refine ⟨d, by rw [Flyos.writeCluster, if_pos rfl, List.drop_nil], ?_⟩
        rw [Vol.store, storeBlocks_empty]
        exact holds
      have here := data j (by rw [List.mem_range'_1]; omega)
      obtain ⟨u, wrote, watchedU, stored⟩ := writeSector_spec ok holds.watched (by omega) here
        (padSector src) (length_padTo src)
      have holdsU : FatHolds g allowed base u (V.setSector j (padSector src)) :=
        ⟨watchedU, by rw [stored]; exact holds.shows.updateData ok j (length_padTo src)⟩
      obtain ⟨d', ran, holds'⟩ := ih holdsU (j := j + 1) (src.drop 512) (by omega)
        fun k mem => data k (by rw [List.mem_range'_1] at mem ⊢; omega)
      refine ⟨d', ?_, ?_⟩
      · rw [Flyos.writeCluster, if_neg done, wrote]
        dsimp only
        rw [Nat.add_assoc, ran, List.drop_drop, show 512 + 512 * n = 512 * (n + 1) by omega]
      · rw [List.range'_succ, Vol.store, storeBlocks_cons done]
        exact holds'

/-- The sectors of a cluster are addressed. -/
theorem Fat16.Mounted.cluster_small (ok : g.Mounted) {c : Nat} (cluster : c < 2 ^ 16) :
    g.dataStartLba + (c - 2) * g.sectorsPerCluster + g.sectorsPerCluster ≤ 2 ^ 26 := by
  by_cases empty : g.sectorsPerCluster = 0
  · have start := ok.fatStart
    have tables := ok.tables_le
    have count := ok.rootCount_le
    have eq := ok.rootStart
    have eq' := ok.dataStart
    rw [empty]
    omega
  · have last := ok.data_small cluster (s := g.sectorsPerCluster - 1) (by omega)
    omega

/-- **The write loop fills the sectors of the chain.** -/
theorem Fat16.Mounted.writeChain (ok : g.Mounted) (tables : TablesAllowed g allowed)
    (holds : FatHolds g allowed base d V) {c : Nat} {cs : List Nat}
    (chain : LinkChain V.fat (fun c => ¬ InChain c) c cs) (inside : ∀ x ∈ cs, x < g.entries)
    (data : ∀ k ∈ chainSectors g cs, allowed (g.partLba + (g.dataStartLba + k)))
    (src : List UInt8) (fuel : Nat) (enough : cs.length < fuel) :
    ∃ d', writeChain g fuel d c src = .ok (true, d') ∧
      FatHolds g allowed base d' (V.store (chainSectors g cs) src) := by
  induction cs generalizing c fuel d V src with
  | nil =>
      obtain ⟨fuel, rfl⟩ := Nat.exists_eq_succ_of_ne_zero (Nat.ne_of_gt enough)
      refine ⟨d, ?_, holds⟩
      rw [Flyos.writeChain, if_neg fun both => chain both.1]
  | cons x cs ih =>
      obtain ⟨fuel, rfl⟩ := Nat.exists_eq_succ_of_ne_zero (Nat.ne_of_gt (Nat.zero_lt_of_lt enough))
      by_cases done : src = []
      · subst done
        refine ⟨d, by rw [Flyos.writeChain, if_neg fun both => both.2 rfl], ?_⟩
        rw [Vol.store, storeBlocks_empty]
        exact holds
      obtain ⟨rfl, live, rest⟩ := chain
      have inChain : InChain x := Decidable.not_not.mp live
      obtain ⟨u, filled, holdsU⟩ := ok.writeCluster holds src
        (ok.cluster_small (c := x) (by omega)) fun k mem =>
          data k (List.mem_flatMap.mpr ⟨x, List.mem_cons_self, mem⟩)
      obtain ⟨w, got, holdsW⟩ := ok.fatGet tables holdsU inChain.1 (inside x List.mem_cons_self)
        (by omega)
      obtain ⟨d', ran, holds'⟩ := ih holdsW rest (fun y mem => inside y (List.mem_cons_of_mem x mem))
        (fun k mem => by
          obtain ⟨y, held, sector⟩ := List.mem_flatMap.mp mem
          exact data k (List.mem_flatMap.mpr ⟨y, List.mem_cons_of_mem x held, sector⟩))
        (src.drop (512 * g.sectorsPerCluster)) fuel (Nat.lt_of_succ_lt_succ enough)
      refine ⟨d', ?_, ?_⟩
      · rw [Flyos.writeChain, if_pos ⟨inChain, done⟩]
        dsimp only
        rw [filled]
        dsimp only
        rw [got]
        exact ran
      · rw [chainSectors, List.flatMap_cons, Vol.store, storeBlocks_append, Flyos.clusterSectors,
          List.length_range']
        exact holds'

/-! ## Reading along a chain -/

/-- The bytes of a cluster. -/
def Vol.cluster (V : Vol) (g : Fat16) (c : Nat) : List UInt8 :=
  loadBlocks V.data (clusterSectors g c)

/-- The read loop on the volume. -/
def Vol.readChain (V : Vol) (g : Fat16) (size : Nat) :
    Nat → Nat → List UInt8 → Except Fat16Trap (List UInt8)
  | 0, _, _ => .error .rounds
  | fuel + 1, c, acc =>
      if InChain c ∧ acc.length < size then
        readChain V g size fuel (V.fat c) ((acc ++ V.cluster g c).take size)
      else .ok acc

/-- The inner loop of a read. -/
theorem Fat16.Mounted.readCluster (ok : g.Mounted) (holds : FatHolds g allowed base d V) {n j size : Nat}
    (acc : List UInt8) (short : acc.length ≤ size) (small : g.dataStartLba + j + n ≤ 2 ^ 26)
    (data : ∀ k ∈ List.range' j n, allowed (g.partLba + (g.dataStartLba + k))) :
    ∃ d', readCluster g size n (g.dataStartLba + j) d acc =
        (true, (acc ++ loadBlocks V.data (List.range' j n)).take size, d') ∧
      FatHolds g allowed base d' V := by
  induction n generalizing j d acc with
  | zero =>
      refine ⟨d, ?_, holds⟩
      rw [List.range'_zero, loadBlocks_nil, List.append_nil, List.take_of_length_le short]
      rfl
  | succ n ih =>
      by_cases done : size ≤ acc.length
      · refine ⟨d, ?_, holds⟩
        rw [Flyos.readCluster, if_pos done, List.take_append_of_le_length done,
          List.take_of_length_le short]
      have here := data j (by rw [List.mem_range'_1]; omega)
      obtain ⟨u, read, watchedU, same⟩ := readSector_spec ok holds.watched (by omega) here
      have holdsU : FatHolds g allowed base u V := ⟨watchedU, by rw [same]; exact holds.shows⟩
      have more : acc ++ (V.data j).take (size - acc.length) = (acc ++ V.data j).take size := by
        rw [List.take_append, List.take_of_length_le short]
      obtain ⟨d', ran, holds'⟩ := ih holdsU (j := j + 1) ((acc ++ V.data j).take size)
        (by rw [List.length_take]; omega) (by omega)
        fun k mem => data k (by rw [List.mem_range'_1] at mem ⊢; omega)
      refine ⟨d', ?_, holds'⟩
      rw [Flyos.readCluster, if_neg done, read]
      dsimp only
      rw [holds.shows.data j, more, Nat.add_assoc, ran, List.range'_succ, loadBlocks_cons,
        take_take_append, List.append_assoc]

/-- **The read loop reads the clusters it walks along**, as long as the walk stays among clusters
of the table that may be read. -/
theorem Fat16.Mounted.readChain (ok : g.Mounted) (tables : TablesAllowed g allowed)
    (holds : FatHolds g allowed base d V) {size fuel c : Nat} (acc : List UInt8)
    (short : acc.length ≤ size) (Good : Nat → Prop)
    (good : ∀ x, Good x → x < g.entries ∧ (InChain (V.fat x) → Good (V.fat x)) ∧
      ∀ k ∈ Flyos.clusterSectors g x, allowed (g.partLba + (g.dataStartLba + k)))
    (start : InChain c → Good c) :
    (∃ out d', V.readChain g size fuel c acc = .ok out ∧
      readChain g size fuel d c acc = .ok (true, out, d') ∧ FatHolds g allowed base d' V) ∨
    (V.readChain g size fuel c acc = .error .rounds ∧
      readChain g size fuel d c acc = .error .rounds) := by
  induction fuel generalizing c d acc with
  | zero => exact .inr ⟨rfl, rfl⟩
  | succ fuel ih =>
      rw [Vol.readChain, Flyos.readChain]
      by_cases goes : InChain c ∧ acc.length < size
      · obtain ⟨entry, next, sectors⟩ := good c (start goes.1)
        obtain ⟨u, read, holdsU⟩ := ok.readCluster holds acc short
          (ok.cluster_small (c := c) (by omega)) sectors
        obtain ⟨w, got, holdsW⟩ := ok.fatGet tables holdsU goes.1.1 entry (by omega)
        rw [if_pos goes, if_pos goes]
        dsimp only
        rw [read]
        dsimp only
        rw [fatNext, got]
        exact ih holdsW _ (by rw [List.length_take]; omega) next
      · rw [if_neg goes, if_neg goes]
        exact .inl ⟨acc, d, rfl, rfl, holds⟩

/-- Along a chain the clusters are read one after the other. -/
theorem Vol.readChain_eq {size fuel c : Nat} {cs : List Nat} {acc : List UInt8}
    (chain : LinkChain V.fat (fun c => ¬ InChain c) c cs) (short : acc.length ≤ size)
    (enough : cs.length < fuel) :
    V.readChain g size fuel c acc =
      .ok ((acc ++ loadBlocks V.data (chainSectors g cs)).take size) := by
  induction cs generalizing c fuel acc with
  | nil =>
      obtain ⟨fuel, rfl⟩ := Nat.exists_eq_succ_of_ne_zero (Nat.ne_of_gt enough)
      rw [Vol.readChain, if_neg fun both => chain both.1, chainSectors, List.flatMap_nil,
        loadBlocks_nil, List.append_nil, List.take_of_length_le short]
  | cons x cs ih =>
      obtain ⟨fuel, rfl⟩ := Nat.exists_eq_succ_of_ne_zero (Nat.ne_of_gt (Nat.zero_lt_of_lt enough))
      obtain ⟨rfl, live, rest⟩ := chain
      rw [Vol.readChain]
      by_cases more : acc.length < size
      · rw [if_pos ⟨Decidable.not_not.mp live, more⟩, ih rest (by rw [List.length_take]; omega)
          (Nat.lt_of_succ_lt_succ enough), Vol.cluster, chainSectors, chainSectors, List.flatMap_cons,
          loadBlocks_append, take_take_append, List.append_assoc]
      · rw [if_neg fun both => more both.2, List.take_append_of_le_length (by omega),
          List.take_of_length_le short]

end Loops

end Flyos
