import Flyos.Fs.Fat16Faults
import Flyos.Fs.Fat16Divide

/-!
# The sectors of the volume

The boot sector declares how many sectors the volume has, and `fat16.c` does not read that: it
allocates whatever cluster the table has a free entry for.  The table may have entries for more
clusters than there are.  `Vol.Sound` is what keeps the code inside the volume, `Vol.Room` is
what a write must find so that it stays so; both hold on drives that fail, too.
-/

namespace Flyos

/-- A cluster of the volume: it has an entry in the table, and its sectors lie below sector
`total`. -/
structure InsideVolume (g : Fat16) (total c : Nat) : Prop where
  live : InChain c
  table : c < g.entries
  data : g.dataStartLba + (c - 2) * g.sectorsPerCluster + g.sectorsPerCluster ≤ total

/-- The sectors of the volume on the disk. -/
abbrev VolumeSector (g : Fat16) (total l : Nat) : Prop := g.partLba ≤ l ∧ l < g.partLba + total

/-- Following the table from `c` leads through clusters of the volume to an end mark. -/
def Vol.ChainInside (V : Vol) (g : Fat16) (total c : Nat) : Prop :=
  ∃ l, LinkChain V.fat (fun c => ¬ InChain c) c l ∧ ∀ x ∈ l, InsideVolume g total x

/-- **A sound volume**: what an entry of the root directory records leads through clusters of the
volume to an end mark. -/
def Vol.Sound (V : Vol) (g : Fat16) (total : Nat) : Prop :=
  ∀ i < g.slots, direntFirst (V.slot i) ≠ 0 → V.ChainInside g total (direntCluster (V.slot i))

/-- **There is room for `n` clusters**: the first `n` free entries of the table, or all if there
are fewer, are of clusters of the volume. -/
def Vol.Room (V : Vol) (g : Fat16) (total n : Nat) : Prop :=
  ∀ c ∈ (V.freeList g).take n, InsideVolume g total c

section Volume

variable {g : Fat16} {total : Nat} {V W : Vol} {c p v n : Nat} {e : List UInt8}

/-! ## Chains -/

/-- What is not a cluster leads nowhere. -/
theorem Vol.ChainInside.stop (stop : ¬ InChain c) : V.ChainInside g total c :=
  ⟨[], stop, fun _ mem => nomatch mem⟩

/-- A cluster of the volume whose entry is no cluster. -/
theorem Vol.ChainInside.single (inside : InsideVolume g total c) (last : ¬ InChain (V.fat c)) :
    V.ChainInside g total c := by
  refine ⟨[c], ⟨rfl, not_not_intro inside.live, last⟩, fun x mem => ?_⟩
  rw [List.mem_singleton.mp mem]
  exact inside

/-- Entries that are cleared or made an end mark shorten the chains. -/
theorem Vol.ChainInside.cut (leads : V.ChainInside g total c)
    (fat : ∀ x, W.fat x = V.fat x ∨ ¬ InChain (W.fat x)) : W.ChainInside g total c := by
  obtain ⟨l, chain, inside⟩ := leads
  obtain ⟨l', chain', sub⟩ := chain.cut fat
  exact ⟨l', chain', fun x mem => inside x (sub mem)⟩

/-- An entry that is set to a cluster whose chain is inside leaves the chains inside. -/
theorem Vol.ChainInside.setFat (leads : V.ChainInside g total c)
    (target : (V.setFat p v).ChainInside g total v) : (V.setFat p v).ChainInside g total c := by
  obtain ⟨l, chain, inside⟩ := leads
  obtain ⟨m, chain', inside'⟩ := target
  obtain ⟨l', chain'', sub⟩ := chain.redirect chain'
  exact ⟨l', chain'', fun x mem => (List.mem_append.mp (sub mem)).elim (inside x) (inside' x)⟩

/-- Only the entries of the table matter. -/
theorem Vol.ChainInside.congr (leads : V.ChainInside g total c)
    (fat : ∀ x, 2 ≤ x → x < g.entries → W.fat x = V.fat x) : W.ChainInside g total c := by
  obtain ⟨l, chain, inside⟩ := leads
  exact ⟨l, chain.congr fun x mem => (fat x (inside x mem).live.1 (inside x mem).table).symm, inside⟩

/-- A chain of the volume is short. -/
theorem Vol.ChainInside.bounded (leads : V.ChainInside g total c) :
    ∃ l, LinkChain V.fat (fun c => ¬ InChain c) c l ∧ (∀ x ∈ l, InsideVolume g total x) ∧
      l.length ≤ 2 ^ 16 := by
  obtain ⟨l, chain, inside⟩ := leads
  refine ⟨l, chain, inside, ?_⟩
  rw [← Vol.walk_eq chain]
  exact (Vol.walks c).2

/-! ## Sound volumes -/

/-- A change of the table that keeps the chains keeps the volume sound. -/
theorem Vol.Sound.table (sound : V.Sound g total) (slot : W.slot = V.slot)
    (leads : ∀ c, V.ChainInside g total c → W.ChainInside g total c) : W.Sound g total := by
  intro i inside used
  rw [slot] at used ⊢
  exact leads _ (sound i inside used)

theorem Vol.Sound.freed {l : List Nat} (sound : V.Sound g total) (freed : V.Freed l W) :
    W.Sound g total := by
  refine sound.table freed.slot fun c leads => leads.cut fun x => ?_
  rcases freed.fat x with same | ⟨-, zero⟩
  · exact .inl same
  · rw [zero]
    exact .inr (by omega)

theorem Vol.Sound.setFat (sound : V.Sound g total)
    (target : (V.setFat p v).ChainInside g total v) : (V.setFat p v).Sound g total :=
  sound.table rfl fun _ leads => leads.setFat target

/-- An entry that leads to clusters of the volume keeps it sound. -/
theorem Vol.Sound.setSlot (sound : V.Sound g total) (i : Nat)
    (leads : V.ChainInside g total (direntCluster e)) : (V.setSlot i e).Sound g total := by
  intro j inside used
  by_cases same : j = i
  · rw [same, Vol.setSlot_self]
    exact leads
  · rw [Vol.setSlot_of_ne same] at used ⊢
    exact sound j inside used

/-- Only what a drive shows matters. -/
theorem Vol.Sound.congr (sound : V.Sound g total)
    (fat : ∀ x, 2 ≤ x → x < g.entries → W.fat x = V.fat x)
    (slot : ∀ i < g.slots, W.slot i = V.slot i) : W.Sound g total := by
  intro i inside used
  rw [slot i inside] at used ⊢
  exact (sound i inside used).congr fat

/-- A deletion keeps the volume sound. -/
theorem Vol.Sound.delete (sound : V.Sound g total) (want : List UInt8) :
    (V.delete g want).Sound g total := by
  rw [Vol.delete]
  cases taken : V.target g want with
  | none => exact sound
  | some i =>
      obtain ⟨inside, more, -, -⟩ := deleteSlot_eq_some_iff.mp taken
      have freed : V.Freed (V.walk (direntCluster (V.slot i)))
          (V.clear (V.walk (direntCluster (V.slot i)))) := by
        refine ⟨rfl, fun x => ?_⟩
        by_cases mem : x ∈ V.walk (direntCluster (V.slot i))
        · exact .inr ⟨mem, cleared_of_mem mem⟩
        · exact .inl (cleared_of_notMem mem)
      refine (sound.freed freed).setSlot i ?_
      rw [direntCluster_marked]
      exact sound.freed freed i inside more

/-- The volume that the sectors show is sound when any that they show is. -/
theorem FirstShows.sound {m : Nat → Sector} (shows : FirstShows g m V) (sound : V.Sound g total) :
    (Vol.ofSectors g m).Sound g total :=
  sound.congr shows.table shows.slots

/-! ## Room -/

/-- Of more free entries the first ones are inside as well, if the new ones are. -/
theorem forall_mem_take_filter {q q' : Nat → Bool} {P : Nat → Prop} (more : ∀ x, q x → q' x)
    (new : ∀ x, q' x → ¬ q x → P x) {l : List Nat} {n : Nat}
    (all : ∀ x ∈ (l.filter q).take n, P x) : ∀ x ∈ (l.filter q').take n, P x := by
  induction l generalizing n with
  | nil => exact all
  | cons a l ih =>
      cases n with
      | zero => exact fun x mem => by simp at mem
      | succ n =>
          by_cases old : q a
          · rw [List.filter_cons_of_pos old, List.take_succ_cons] at all
            rw [List.filter_cons_of_pos (more a old), List.take_succ_cons]
            intro x mem
            rcases List.mem_cons.mp mem with rfl | later
            · exact all x List.mem_cons_self
            · exact ih (fun y held => all y (List.mem_cons_of_mem a held)) x later
          · rw [List.filter_cons_of_neg old] at all
            by_cases now : q' a
            · rw [List.filter_cons_of_pos now, List.take_succ_cons]
              intro x mem
              rcases List.mem_cons.mp mem with rfl | later
              · exact new x now old
              · exact ih (fun y held => all y
                  (List.take_subset_take_left _ (Nat.le_succ n) held)) x later
            · rw [List.filter_cons_of_neg now]
              exact ih all

/-- Clusters of the volume that are freed leave the room. -/
theorem Vol.Room.freed {l : List Nat} (room : V.Room g total n) (freed : V.Freed l W)
    (inside : ∀ x ∈ l, InsideVolume g total x) : W.Room g total n := by
  refine forall_mem_take_filter (fun x free => ?_) (fun x free used => ?_) room
  · rw [decide_eq_true_iff] at free ⊢
    exact (freed.fat x).elim (fun same => same.trans free) And.right
  · rw [decide_eq_true_iff] at free used
    rcases freed.fat x with same | ⟨mem, -⟩
    · exact absurd (same ▸ free) used
    · exact inside x mem

/-- An entry in use that is set to another one leaves the free ones. -/
theorem Vol.freeList_setFat (used : V.fat p ≠ 0) (used' : v ≠ 0) :
    (V.setFat p v).freeList g = V.freeList g := by
  refine List.filter_congr fun x _ => ?_
  by_cases same : x = p
  · rw [same, Vol.setFat_self, decide_eq_decide]
    exact ⟨fun zero => absurd zero used', fun zero => absurd zero used⟩
  · rw [Vol.setFat_of_ne same]

end Volume

/-! ## The functions -/

section Functions

variable {g : Fat16} {total : Nat} {allowed : Nat → Prop} {base : Nat → Sector} {d : Ata}
  {V W : Vol} {c fuel : Nat} {name : List UInt8}

/-- The sectors of a cluster of the volume are allowed where those of the volume are. -/
theorem InsideVolume.sectors (inside : InsideVolume g total c)
    (volume : ∀ l, VolumeSector g total l → allowed l) :
    ∀ k ∈ List.range' ((c - 2) * g.sectorsPerCluster) g.sectorsPerCluster,
      allowed (g.partLba + (g.dataStartLba + k)) := by
  intro k mem
  rw [List.mem_range'_1] at mem
  have data := inside.data
  exact volume _ ⟨by omega, by omega⟩

/-- The tables are allowed where the sectors of the volume are. -/
theorem tablesAllowed (fits : g.dataStartLba ≤ total)
    (volume : ∀ l, VolumeSector g total l → allowed l) : TablesAllowed g allowed :=
  fun l _ high => volume _ ⟨by omega, by omega⟩

/-- **`fat16_delete_file`** frees clusters of the volume at most. -/
theorem fat16DeleteFile_faulty (ok : g.Mounted) (tables : TablesAllowed g allowed)
    (holds : FirstHolds g allowed base d V) (sound : V.Sound g total) (enough : 2 ^ 16 < fuel)
    (name : List UInt8) :
    ∃ b d' W, fat16DeleteFile g fuel d name = .ok (b, d') ∧ FirstHolds g allowed base d' W ∧
      W.Sound g total ∧ ∀ n, V.Room g total n → W.Room g total n := by
  obtain ⟨r, u, ran, holdsU, sameU, hit⟩ :=
    scanRoot_faulty ok tables holds (deleteVisit (parse83 name)) (Nat.zero_add _)
  have nothing : ∃ b d' W, (.ok (false, u) : Except Fat16Trap (Bool × Ata)) = .ok (b, d') ∧
      FirstHolds g allowed base d' W ∧ W.Sound g total ∧
      ∀ n, V.Room g total n → W.Room g total n :=
    ⟨_, u, V, rfl, holdsU, sound, fun _ room => room⟩
  rw [fat16DeleteFile, ok.rootSectors, Except.bind, ran]
  cases r with
  | failed => exact nothing
  | ended => exact nothing
  | hit s k buf a =>
      cases a with
      | false => exact nothing
      | true =>
          obtain ⟨i, slot, rfl, rfl, rfl, stopped⟩ := hit _ _ _ _ rfl
          have more : direntFirst (V.slot i) ≠ 0 := by
            rcases deleteVisit_eq_some.mp stopped with ⟨-, no⟩ | ⟨more, -⟩
            · cases no
            · exact more
          obtain ⟨l, chain, inside, short⟩ := (sound i slot more).bounded
          obtain ⟨w, W, freed, holdsW, some⟩ := freeChain_faulty ok tables holdsU chain
            (fun x mem => (inside x mem).table) (Nat.lt_of_le_of_lt short enough)
          have entry : dirent (d.sectors (slotLba g i)).1 (i % 16) = V.slot i :=
            holds.shows.slots i slot
          have slots : W.slot i = V.slot i := by rw [some.slot]
          have sized : ((d.sectors (slotLba g i)).1.set (32 * (i % 16)) 0xE5).length =
              ataSectorSize := by
            rw [List.length_set, (d.sectors _).2]
          have entries : ∀ k < 16, dirent ((d.sectors (slotLba g i)).1.set (32 * (i % 16)) 0xE5) k =
              if k = i % 16 then (V.slot i).set 0 0xE5 else dirent (w.sectors (slotLba g i)).1 k := by
            intro k small
            rw [dirent_set, entry, holds.shows.row slot small, holdsW.shows.row slot small,
              some.slot]
          obtain ⟨b, d', wrote, after⟩ := writeSlot_faulty ok tables holdsW slot sized entries
          dsimp only
          rw [entry, freed, Except.map, wrote]
          have soundW := sound.freed some
          have roomW : ∀ n, V.Room g total n → W.Room g total n :=
            fun n room => room.freed some inside
          rcases after with holds' | holds'
          · exact ⟨b, d', W, rfl, holds', soundW, roomW⟩
          · refine ⟨b, d', W.setSlot i ((V.slot i).set 0 0xE5), rfl, holds', ?_, roomW⟩
            refine soundW.setSlot i ?_
            rw [direntCluster_marked, ← slots]
            exact soundW i slot (by rw [slots]; exact more)

/-- The clusters taken so far are given back. -/
theorem giveBack_faulty (ok : g.Mounted) (tables : TablesAllowed g allowed)
    (holds : FirstHolds g allowed base d V) (sound : V.Sound g total) (enough : 2 ^ 16 < fuel)
    {first : Nat} (leads : V.ChainInside g total first) :
    ∃ d' W, (if first ≠ 0 then (freeChain g fuel d first).map fun d => (none, d)
        else .ok (none, d)) = (.ok (none, d') : Except Fat16Trap (Option (Nat × Nat) × Ata)) ∧
      FirstHolds g allowed base d' W ∧ W.Sound g total := by
  by_cases some : first ≠ 0
  · rw [if_pos some]
    obtain ⟨l, chain, inside, short⟩ := leads.bounded
    obtain ⟨d', W, ran, holds', freed⟩ := freeChain_faulty ok tables holds chain
      (fun x mem => (inside x mem).table) (Nat.lt_of_le_of_lt short enough)
    exact ⟨d', W, by rw [ran, Except.map], holds', sound.freed freed⟩
  · rw [if_neg some]
    exact ⟨d, V, rfl, holds, sound⟩

/-- **The allocation loop** links up clusters of the volume, where there is room. -/
theorem allocChain_faulty (ok : g.Mounted) (tables : TablesAllowed g allowed)
    (holds : FirstHolds g allowed base d V) (sound : V.Sound g total) (enough : 2 ^ 16 < fuel)
    {n first prev : Nat} (room : V.Room g total n) (start : V.ChainInside g total first)
    (cluster : first < 2 ^ 16)
    (last : prev ≠ 0 → InsideVolume g total prev ∧ ¬ InChain (V.fat prev) ∧ V.fat prev ≠ 0) :
    ∃ r d' W, allocChain g fuel n d first prev = .ok (r, d') ∧ FirstHolds g allowed base d' W ∧
      W.Sound g total ∧ ∀ f p, r = some (f, p) → W.ChainInside g total f ∧ f < 2 ^ 16 ∧
        (p ≠ 0 → InsideVolume g total p) := by
  induction n generalizing d V first prev with
  | zero =>
      refine ⟨_, d, V, rfl, holds, sound, fun f p eq => ?_⟩
      obtain ⟨rfl, rfl⟩ := Prod.mk.inj (Option.some.inj eq)
      exact ⟨start, cluster, fun some => (last some).1⟩
  | succ n ih =>
      obtain ⟨r, u, ran, after⟩ := allocCluster_faulty ok tables holds
      rw [allocChain, ran]
      rcases after with ⟨rfl, holdsU⟩ | ⟨c, rest, free, left, result, holdsU⟩
      · obtain ⟨d', W, gave, holds', sound'⟩ := giveBack_faulty ok tables holdsU sound enough start
        exact ⟨_, d', W, gave, holds', sound', fun _ _ no => by cases no⟩
      have mem : c ∈ (V.freeList g).take (n + 1) := by
        rw [free, List.take_succ_cons]
        exact List.mem_cons_self
      have inside := room c mem
      have zero : V.fat c = 0 := (Vol.mem_freeList.mp (List.mem_of_mem_take mem)).2.2
      have ends : ¬ InChain 0xFFFF := by omega
      have taken : (V.setFat c 0xFFFF).fat c = 0xFFFF := Vol.setFat_self
      have soundU : (V.setFat c 0xFFFF).Sound g total := sound.setFat (.stop ends)
      have startU : (V.setFat c 0xFFFF).ChainInside g total first := start.setFat (.stop ends)
      have roomU : (V.setFat c 0xFFFF).Room g total n := by
        intro x held
        refine room x ?_
        rw [left] at held
        rw [free, List.take_succ_cons]
        exact List.mem_cons_of_mem c held
      rcases result with rfl | rfl
      · obtain ⟨d', W, gave, holds', sound'⟩ :=
          giveBack_faulty ok tables holdsU soundU enough startU
        exact ⟨_, d', W, gave, holds', sound', fun _ _ no => by cases no⟩
      obtain ⟨k, rfl⟩ := Nat.exists_eq_add_of_le' (Nat.le_of_succ_le inside.live.1)
      show ∃ r d' W, (if prev ≠ 0 then allocChain g fuel n (fatSet g u prev (k + 1)).2 first (k + 1)
        else allocChain g fuel n u (k + 1) (k + 1)) = .ok (r, d') ∧ _
      by_cases linked : prev ≠ 0
      · rw [if_pos linked]
        obtain ⟨insideP, endsP, usedP⟩ := last linked
        have other : k + 1 ≠ prev := fun eq => usedP (eq ▸ zero)
        have usedP' : (V.setFat (k + 1) 0xFFFF).fat prev ≠ 0 := by
          rw [Vol.setFat_of_ne other.symm]
          exact usedP
        obtain ⟨b, w, set, after⟩ := fatSet_faulty ok tables holdsU (v := k + 1) insideP.live
          insideP.table (by have live := inside.live; omega)
        rw [set]
        rcases after with ⟨-, holdsW⟩ | holdsW
        · exact ih holdsW soundU roomU startU cluster fun _ => ⟨inside, by rw [taken]; exact ends,
            by rw [taken]; decide⟩
        · have kept : ((V.setFat (k + 1) 0xFFFF).setFat prev (k + 1)).fat (k + 1) = 0xFFFF := by
            rw [Vol.setFat_of_ne other, taken]
          have target : ((V.setFat (k + 1) 0xFFFF).setFat prev (k + 1)).ChainInside g total (k + 1) :=
            .single inside (by rw [kept]; exact ends)
          refine ih holdsW (soundU.setFat target) ?_ (startU.setFat target) cluster fun _ =>
            ⟨inside, by rw [kept]; exact ends, by rw [kept]; decide⟩
          rw [Vol.Room, Vol.freeList_setFat usedP' (Nat.succ_ne_zero k)]
          exact roomU
      · rw [if_neg linked]
        exact ih holdsU soundU roomU (.single inside (by rw [taken]; exact ends))
          (by have live := inside.live; omega) fun _ => ⟨inside, by rw [taken]; exact ends, by rw [taken]; decide⟩

/-- The loop that fills the clusters writes to the volume. -/
theorem writeChain_faulty (ok : g.Mounted) (tables : TablesAllowed g allowed)
    (volume : ∀ l, VolumeSector g total l → allowed l) (holds : FirstHolds g allowed base d V)
    {l : List Nat} (chain : LinkChain V.fat (fun c => ¬ InChain c) c l)
    (inside : ∀ x ∈ l, InsideVolume g total x) (src : List UInt8) (enough : l.length < fuel) :
    ∃ b d', writeChain g fuel d c src = .ok (b, d') ∧ FirstHolds g allowed base d' V := by
  induction l generalizing c fuel d src with
  | nil =>
      obtain ⟨fuel, rfl⟩ := Nat.exists_eq_succ_of_ne_zero (Nat.ne_of_gt enough)
      exact ⟨_, d, by rw [writeChain, if_neg fun both => chain both.1], holds⟩
  | cons x l ih =>
      obtain ⟨fuel, rfl⟩ := Nat.exists_eq_succ_of_ne_zero (Nat.ne_of_gt (Nat.zero_lt_of_lt enough))
      obtain ⟨rfl, -, rest⟩ := chain
      have here := inside x List.mem_cons_self
      have live := here.live
      have enough' : l.length < fuel := Nat.lt_of_succ_lt_succ enough
      rw [writeChain]
      by_cases done : src = []
      · exact ⟨_, d, if_neg fun both => both.2 done, holds⟩
      rw [if_pos ⟨live, done⟩]
      obtain ⟨b, rest', u, wrote, holdsU⟩ := writeCluster_faulty ok holds src
        (ok.cluster_small (c := x) (by omega)) (here.sectors volume)
      dsimp only
      rw [wrote]
      cases b with
      | false => exact ⟨_, u, rfl, holdsU⟩
      | true =>
          obtain ⟨next, w, got, result, holdsW⟩ := fatGet_faulty ok tables holdsU live here.table
          dsimp only
          rw [got]
          rcases result with rfl | rfl
          · obtain ⟨fuel, rfl⟩ := Nat.exists_eq_succ_of_ne_zero
              (Nat.ne_of_gt (Nat.zero_lt_of_lt enough'))
            exact ⟨_, w, by rw [writeChain, if_neg (by omega)], holdsW⟩
          · exact ih holdsW rest (fun y mem => inside y (List.mem_cons_of_mem x mem)) rest' enough'

/-- The loop that reads the clusters reads from the volume. -/
theorem readChain_faulty (ok : g.Mounted) (tables : TablesAllowed g allowed)
    (volume : ∀ l, VolumeSector g total l → allowed l) (holds : FirstHolds g allowed base d V)
    {l : List Nat} (chain : LinkChain V.fat (fun c => ¬ InChain c) c l)
    (inside : ∀ x ∈ l, InsideVolume g total x) (size : Nat) (acc : List UInt8)
    (enough : l.length < fuel) :
    ∃ b out d', readChain g size fuel d c acc = .ok (b, out, d') ∧ FirstHolds g allowed base d' V := by
  induction l generalizing c fuel d acc with
  | nil =>
      obtain ⟨fuel, rfl⟩ := Nat.exists_eq_succ_of_ne_zero (Nat.ne_of_gt enough)
      exact ⟨_, _, d, by rw [readChain, if_neg fun both => chain both.1], holds⟩
  | cons x l ih =>
      obtain ⟨fuel, rfl⟩ := Nat.exists_eq_succ_of_ne_zero (Nat.ne_of_gt (Nat.zero_lt_of_lt enough))
      obtain ⟨rfl, -, rest⟩ := chain
      have here := inside x List.mem_cons_self
      have live := here.live
      have enough' : l.length < fuel := Nat.lt_of_succ_lt_succ enough
      rw [readChain]
      by_cases done : acc.length < size
      · rw [if_pos ⟨live, done⟩]
        obtain ⟨b, out, u, read, holdsU⟩ : ∃ b out u, readCluster g size g.sectorsPerCluster
            (g.dataStartLba + (x - 2) * g.sectorsPerCluster) d acc = (b, out, u) ∧
              FirstHolds g allowed base u V :=
          readCluster_faulty ok holds acc (ok.cluster_small (by omega)) (here.sectors volume)
        dsimp only
        rw [read]
        cases b with
        | false => exact ⟨_, _, u, rfl, holdsU⟩
        | true =>
            obtain ⟨next, w, got, result, holdsW⟩ := fatGet_faulty ok tables holdsU live here.table
            dsimp only
            rw [fatNext, got]
            rcases result with rfl | rfl
            · obtain ⟨fuel, rfl⟩ := Nat.exists_eq_succ_of_ne_zero
                (Nat.ne_of_gt (Nat.zero_lt_of_lt enough'))
              exact ⟨_, _, w, by rw [readChain, if_neg (by omega)], holdsW⟩
            · exact ih holdsW rest (fun y mem => inside y (List.mem_cons_of_mem x mem)) out enough'
      · exact ⟨_, _, d, if_neg fun both => done both.2, holds⟩

/-- `write_root_dirent` fills a slot with an entry of the chain. -/
theorem writeRootDirent_faulty (ok : g.Mounted) (tables : TablesAllowed g allowed)
    (holds : FirstHolds g allowed base d V) (sound : V.Sound g total) {want : List UInt8}
    (sized : want.length = 11) (leads : V.ChainInside g total c) (cluster : c < 2 ^ 16) (size : Nat) :
    ∃ b d' W, writeRootDirent g d want c size = .ok (b, d') ∧ FirstHolds g allowed base d' W ∧
      W.Sound g total := by
  obtain ⟨r, u, ran, holdsU, sameU, hit⟩ :=
    scanRoot_faulty ok tables holds writeVisit (Nat.zero_add _)
  rw [writeRootDirent, ok.rootSectors, Except.map, ran]
  cases r with
  | failed => exact ⟨_, u, V, rfl, holdsU, sound⟩
  | ended => exact ⟨_, u, V, rfl, holdsU, sound⟩
  | hit s k buf a =>
      obtain ⟨i, slot, rfl, rfl, rfl, -⟩ := hit _ _ _ _ rfl
      have bytes : (d.sectors (slotLba g i)).1.length = 512 := (d.sectors _).2
      have fits : 32 * (i % 16) + 32 ≤ (d.sectors (slotLba g i)).1.length := by omega
      have long : (setDirent (d.sectors (slotLba g i)).1 (i % 16) (newDirent want c size)).length =
          ataSectorSize := by
        rw [length_setDirent fits (length_newDirent sized)]
        exact bytes
      obtain ⟨b, d', wrote, after⟩ := writeSlot_faulty ok tables holdsU slot long
        fun k _ => by rw [dirent_setDirent fits (length_newDirent sized), sameU]
      dsimp only
      rw [wrote]
      rcases after with holds' | holds'
      · exact ⟨b, d', V, rfl, holds', sound⟩
      · refine ⟨b, d', _, rfl, holds', sound.setSlot i ?_⟩
        rw [direntCluster_newDirent sized cluster]
        exact leads

/-- After the deletion a write stays inside, where there is room. -/
theorem writeRest_faulty (ok : g.Mounted) (tables : TablesAllowed g allowed)
    (volume : ∀ l, VolumeSector g total l → allowed l) (holds : FirstHolds g allowed base d V)
    (sound : V.Sound g total) (enough : 2 ^ 16 < fuel) {n : Nat} (room : V.Room g total n)
    {want : List UInt8} (sized : want.length = 11) (data : List UInt8) (size : Nat) :
    ∃ b d' W, ((allocChain g fuel n d 0 0).bind fun
        | (none, d) => .ok (false, d)
        | (some (first, prev), d) =>
            let d := if prev ≠ 0 then (fatSet g d prev 0xFFFF).2 else d
            (writeChain g fuel d first data).bind fun
              | (false, d) => .ok (false, d)
              | (true, d) => writeRootDirent g d want first size) = .ok (b, d') ∧
      FirstHolds g allowed base d' W ∧ W.Sound g total := by
  obtain ⟨r, u, W, ran, holdsU, soundU, taken⟩ := allocChain_faulty ok tables holds sound enough room
    (.stop (show ¬ InChain 0 by omega)) (by decide) fun no => absurd rfl no
  rw [ran, Except.bind]
  cases r with
  | none => exact ⟨_, u, W, rfl, holdsU, soundU⟩
  | some r =>
      obtain ⟨first, prev⟩ := r
      obtain ⟨leads, cluster, last⟩ := taken first prev rfl
      have ends : ¬ InChain 0xFFFF := by omega
      -- marking the end of the chain
      obtain ⟨w, X, marked, holdsX, soundX, leadsX⟩ : ∃ w X,
          (if prev ≠ 0 then (fatSet g u prev 0xFFFF).2 else u) = w ∧
          FirstHolds g allowed base w X ∧ X.Sound g total ∧ X.ChainInside g total first := by
        by_cases some : prev ≠ 0
        · obtain ⟨b, w, set, after⟩ := fatSet_faulty ok tables holdsU (v := 0xFFFF) (last some).live
            (last some).table (by decide)
          rw [if_pos some, set]
          rcases after with ⟨-, holdsW⟩ | holdsW
          · exact ⟨w, W, rfl, holdsW, soundU, leads⟩
          · exact ⟨w, _, rfl, holdsW, soundU.setFat (.stop ends), leads.setFat (.stop ends)⟩
        · exact ⟨u, W, if_neg some, holdsU, soundU, leads⟩
      obtain ⟨l, chain, inside, short⟩ := leadsX.bounded
      obtain ⟨b, x, wrote, holdsX'⟩ := writeChain_faulty ok tables volume holdsX chain inside data
        (Nat.lt_of_le_of_lt short enough)
      dsimp only
      rw [marked, wrote, Except.bind]
      cases b with
      | false => exact ⟨_, x, X, rfl, holdsX', soundX⟩
      | true =>
          exact writeRootDirent_faulty ok tables holdsX' soundX sized leadsX cluster size

/-- `find_root_entry` finds an entry that is used. -/
theorem findRootEntry_faulty (ok : g.Mounted) (tables : TablesAllowed g allowed)
    (holds : FirstHolds g allowed base d V) (kmalloc : Nat → Bool) (name : List UInt8) :
    ∃ r d', findRootEntry g kmalloc d name = .ok (r, d') ∧ FirstHolds g allowed base d' V ∧
      ∀ e, r = some e → ∃ i < g.slots, e = V.slot i ∧ direntFirst (V.slot i) ≠ 0 := by
  rw [findRootEntry, ok.rootSectors, Except.map]
  by_cases memory : kmalloc 512 = false
  · exact ⟨none, d, by rw [if_pos memory], holds, fun _ no => by cases no⟩
  rw [if_neg memory]
  obtain ⟨r, u, ran, holdsU, -, hit⟩ :=
    scanRoot_faulty ok tables holds (findVisit (findName name)) (Nat.zero_add _)
  rw [ran]
  cases r with
  | failed => exact ⟨none, u, rfl, holdsU, fun _ no => by cases no⟩
  | ended => exact ⟨none, u, rfl, holdsU, fun _ no => by cases no⟩
  | hit s k buf a =>
      cases a with
      | none => exact ⟨none, u, rfl, holdsU, fun _ no => by cases no⟩
      | some e =>
          obtain ⟨i, slot, -, -, -, stopped⟩ := hit _ _ _ _ rfl
          obtain ⟨-, no⟩ | ⟨live, -, eq⟩ := findVisit_eq_some.mp stopped
          · cases no
          refine ⟨_, u, rfl, holdsU, fun e' found => ?_⟩
          by_cases memory : kmalloc 32
          · rw [if_pos memory] at found
            exact ⟨i, slot, (Option.some.inj found).symm.trans (Option.some.inj eq), live.1⟩
          · rw [if_neg memory] at found
            cases found

/-- `fat16_read_file` reads from the volume. -/
theorem fat16ReadFile_faulty (ok : g.Mounted) (tables : TablesAllowed g allowed)
    (volume : ∀ l, VolumeSector g total l → allowed l) (holds : FirstHolds g allowed base d V)
    (sound : V.Sound g total) (enough : 2 ^ 16 < fuel) (kmalloc : Nat → Bool) (name : List UInt8)
    (max : Int) :
    ∃ r d', fat16ReadFile g kmalloc fuel d name max = .ok (r, d') ∧
      FirstHolds g allowed base d' V := by
  obtain ⟨r, u, ran, holdsU, found⟩ := findRootEntry_faulty ok tables holds kmalloc name
  rw [fat16ReadFile, ran, Except.bind]
  cases r with
  | none => exact ⟨_, u, rfl, holdsU⟩
  | some e =>
      obtain ⟨i, slot, rfl, more⟩ := found e rfl
      obtain ⟨l, chain, inside, short⟩ := (sound i slot more).bounded
      show ∃ r d', (if readSize max (V.slot i) = 0 ∨ direntCluster (V.slot i) < 2 then .ok ((0, []), u)
        else (readChain g (readSize max (V.slot i)) fuel u (direntCluster (V.slot i)) []).map _) =
          .ok (r, d') ∧ _
      by_cases empty : readSize max (V.slot i) = 0 ∨ direntCluster (V.slot i) < 2
      · exact ⟨_, u, if_pos empty, holdsU⟩
      · obtain ⟨b, out, d', read, holds'⟩ := readChain_faulty ok tables volume holdsU chain inside
          (readSize max (V.slot i)) [] (Nat.lt_of_le_of_lt short enough)
        rw [if_neg empty, read]
        exact ⟨_, d', rfl, holds'⟩

/-- `fat16_list_root` reads the root directory. -/
theorem fat16ListRoot_faulty (ok : g.Mounted) (tables : TablesAllowed g allowed)
    (holds : FirstHolds g allowed base d V) (kmalloc : Nat → Bool) (max : Int) :
    ∃ r d', fat16ListRoot g kmalloc d max = .ok (r, d') ∧ FirstHolds g allowed base d' V := by
  have loop : ∀ n s (d : Ata) out, FirstHolds g allowed base d V → s + n = g.rootCount →
      FirstHolds g allowed base (listLoop g max n s d out).2 V := by
    intro n
    induction n with
    | zero => exact fun _ _ _ holds _ => holds
    | succ n ih =>
        intro s d out holds sectors
        have sector : s < g.rootCount := by omega
        obtain ⟨r, u, read, -, confined, same⟩ :=
          readSector_faulty ok holds.confined (ok.root_small sector) (tables.root ok sector)
        have holdsU : FirstHolds g allowed base u V := ⟨confined, by rw [same]; exact holds.shows⟩
        rw [listLoop, read]
        cases r with
        | none => exact holdsU
        | some buf =>
            dsimp only
            split
            · exact holdsU
            · exact ih (s + 1) u _ holdsU (by omega)
  rw [fat16ListRoot, ok.rootSectors, Except.map]
  by_cases memory : kmalloc 512 = false
  · exact ⟨_, d, by rw [if_pos memory], holds⟩
  · rw [if_neg memory]
    exact ⟨_, _, rfl, loop _ 0 d [] holds (Nat.zero_add _)⟩

end Functions

end Flyos
