import Flyos.Fs.Fat16Fail
import Flyos.Fs.Fat16Read

/-!
# The FAT16 code on a drive that may fail

Any wait of the drive may end in an error here.  A transfer that fails leaves the sectors as they
were, or has stored the one it wrote, so the copies of the table come apart.  The code reads the
first copy only, and `FirstHolds` says that a drive shows a volume in it.  The specifications
say what each function may leave of that volume, and that it transfers allowed sectors only
(`Confined`).
-/

namespace Flyos

/-- A drive that has transferred allowed sectors only, and every sector that differs from
`base`. -/
structure Confined (allowed : Nat → Prop) (base : Nat → Sector) (d : Ata) : Prop where
  touched : ∀ l ∈ d.touched, allowed l
  changed : ∀ l, d.sectors l ≠ base l → l ∈ d.touched

/-- Sectors that show a volume in the first copy of the table. -/
structure FirstShows (g : Fat16) (m : Nat → Sector) (V : Vol) : Prop where
  table : ∀ c, 2 ≤ c → c < g.entries → fatWord g m 0 c = V.fat c
  slots : ∀ i < g.slots, slotAt g m i = V.slot i

/-- A confined drive that shows a volume. -/
structure FirstHolds (g : Fat16) (allowed : Nat → Prop) (base : Nat → Sector) (d : Ata) (V : Vol) :
    Prop where
  confined : Confined allowed base d
  shows : FirstShows g d.sectors V

/-- Sectors in which the entry of cluster `c` was set in some copies of the table. -/
def PartlySet (g : Fat16) (c v : Nat) (m m' : Nat → Sector) : Prop :=
  ∀ l, m' l = m l ∨
    (∃ f < g.numFats, l = copyLba g c f) ∧ m' l = .ofList (setWord (m l).1 (c * 2 % 512) v)

section Faulty

variable {g : Fat16} {allowed : Nat → Prop} {base : Nat → Sector} {d : Ata} {V W : Vol}
  {m m' m'' : Nat → Sector} {c v : Nat}

/-- A watched drive is a confined one that answers. -/
theorem Watched.confined (watched : Watched allowed base d) : Confined allowed base d :=
  ⟨watched.touched, watched.changed⟩

theorem Confined.watched (confined : Confined allowed base d) (healthy : d.Healthy) :
    Watched allowed base d :=
  ⟨healthy, confined.touched, confined.changed⟩

/-- One more sector transferred, and at most that one changed. -/
theorem Confined.transfer (confined : Confined allowed base d) {d' : Ata} {l : Nat}
    (here : allowed l) (touched : d'.touched = l :: d.touched)
    (others : ∀ k, k ≠ l → d'.sectors k = d.sectors k) : Confined allowed base d' := by
  refine ⟨fun k mem => ?_, fun k differs => ?_⟩
  · rw [touched] at mem
    rcases List.mem_cons.mp mem with rfl | mem
    · exact here
    · exact confined.touched k mem
  · rw [touched]
    by_cases same : k = l
    · rw [same]
      exact List.mem_cons_self
    · rw [others k same] at differs
      exact List.mem_cons_of_mem _ (confined.changed k differs)

/-- Nothing transferred. -/
theorem Confined.same (confined : Confined allowed base d) {d' : Ata}
    (touched : d'.touched = d.touched) (sectors : d'.sectors = d.sectors) :
    Confined allowed base d' :=
  ⟨by rw [touched]; exact confined.touched, by rw [touched, sectors]; exact confined.changed⟩

/-! ## Sectors -/

/-- `read_sector` delivers the sector, or fails. -/
theorem readSector_faulty (ok : g.Mounted) (confined : Confined allowed base d) {lba : Nat}
    (small : lba < 2 ^ 26) (here : allowed (g.partLba + lba)) :
    ∃ r d', readSector g d lba = (r, d') ∧ (r = none ∨ r = some (d.sectors (g.partLba + lba)).1) ∧
      Confined allowed base d' ∧ d'.sectors = d.sectors := by
  have reach := ok.reachable
  rw [readSector, ataReadSectors]
  by_cases none : d.diskSectors = 0
  · exact ⟨_, d, if_pos none, .inl rfl, confined, rfl⟩
  rw [if_neg none]
  dsimp only
  by_cases failed : d.wait.1 = false
  · exact ⟨_, d.wait.2, if_pos failed, .inl rfl, confined.same rfl rfl, rfl⟩
  rw [if_neg failed, Ata.readLoop, Nat.mod_eq_of_lt (by omega)]
  dsimp only
  by_cases failed' : d.wait.2.wait.1 = false
  · exact ⟨_, d.wait.2.wait.2, if_pos failed', .inl rfl, confined.same rfl rfl, rfl⟩
  rw [if_neg failed', Ata.readLoop]
  exact ⟨_, _, rfl, .inr rfl, confined.transfer here rfl fun _ _ => rfl, rfl⟩

/-- `write_sector` stores the sector, or fails before or after that. -/
theorem writeSector_faulty (ok : g.Mounted) (confined : Confined allowed base d) {lba : Nat}
    (small : lba < 2 ^ 26) (here : allowed (g.partLba + lba)) (buf : List UInt8)
    (sized : buf.length = ataSectorSize) :
    ∃ r d', writeSector g d lba buf = (r, d') ∧ Confined allowed base d' ∧
      ((r = false ∧ d'.sectors = d.sectors) ∨
        d'.sectors = Function.update d.sectors (g.partLba + lba) (.ofList buf)) := by
  have reach := ok.reachable
  rw [writeSector, ataWriteSectors]
  by_cases none : d.diskSectors = 0
  · exact ⟨_, d, if_pos none, confined, .inl ⟨rfl, rfl⟩⟩
  rw [if_neg none]
  dsimp only
  by_cases failed : d.wait.1 = false
  · exact ⟨_, d.wait.2, if_pos failed, confined.same rfl rfl, .inl ⟨rfl, rfl⟩⟩
  rw [if_neg failed, Ata.writeLoop, Nat.mod_eq_of_lt (by omega)]
  by_cases failed' : d.wait.2.wait.1 = false
  · refine ⟨_, d.wait.2.wait.2, ?_, confined.same rfl rfl, .inl ⟨rfl, rfl⟩⟩
    rw [if_pos failed']
    exact if_pos rfl
  have cut : buf.take ataSectorSize = buf := by rw [← sized, List.take_length]
  rw [if_neg failed', Ata.writeLoop, cut]
  refine ⟨_, _, rfl, ?_, .inr rfl⟩
  exact confined.transfer here rfl fun k other => Function.update_of_ne other ..

/-! ## Entries of the table -/

theorem PartlySet.refl (g : Fat16) (c v : Nat) (m : Nat → Sector) : PartlySet g c v m m :=
  fun _ => .inl rfl

/-- Setting copies one after the other. -/
theorem PartlySet.trans (first : PartlySet g c v m m') (second : PartlySet g c v m' m'') :
    PartlySet g c v m m'' := by
  intro l
  rcases second l with same | ⟨copy, set⟩
  · rw [same]
    exact first l
  · rcases first l with same' | ⟨-, set'⟩
    · exact .inr ⟨copy, by rw [set, same']⟩
    · exact .inr ⟨copy, by rw [set, set', ofList_setWord, setWord_setWord]⟩

/-- One copy set. -/
theorem partlySet_update {f : Nat} (copy : f < g.numFats) (m : Nat → Sector) :
    PartlySet g c v m (Function.update m (copyLba g c f)
      (.ofList (setWord (m (copyLba g c f)).1 (c * 2 % 512) v))) := by
  intro l
  by_cases here : l = copyLba g c f
  · rw [here, Function.update_self]
    exact .inr ⟨⟨f, copy, rfl⟩, rfl⟩
  · exact .inl (Function.update_of_ne here ..)

/-- The other entries of the first copy stay. -/
theorem PartlySet.other (set : PartlySet g c v m m') {c' : Nat} (other : c' ≠ c)
    (inside : c < g.entries) (inside' : c' < g.entries) : fatWord g m' 0 c' = fatWord g m 0 c' := by
  rw [Fat16.entries] at inside inside'
  rcases set (copyLba g c' 0) with same | ⟨copy, stored⟩
  · rw [fatWord, same, fatWord]
  · have store : fatWord g m' 0 c' = fatWord g (fatStore g m c v) 0 c' := by
      rw [fatWord, stored, fatWord, fatStore, if_pos copy]
    rw [store, fatWord_fatStore_other other inside inside']

/-- In every copy the entry is as it was, or set. -/
theorem PartlySet.self (set : PartlySet g c v m m') (small : v < 2 ^ 16) (f : Nat) :
    fatWord g m' f c = fatWord g m f c ∨ fatWord g m' f c = v := by
  rcases set (copyLba g c f) with same | ⟨-, stored⟩
  · exact .inl (by rw [fatWord, same, fatWord])
  · have sized : (m (copyLba g c f)).1.length = 512 := (m (copyLba g c f)).2
    rw [fatWord, stored, ofList_setWord]
    exact .inr (word_setWord_self (by rw [sized]; omega) small)

/-- The first copy shows the volume with the entry as it was, or set. -/
theorem FirstShows.partlySet (shows : FirstShows g m V) (ok : g.Mounted)
    (set : PartlySet g c v m m') (low : 2 ≤ c) (inside : c < g.entries) (small : v < 2 ^ 16) :
    FirstShows g m' V ∨ FirstShows g m' (V.setFat c v) := by
  have slots : ∀ i < g.slots, slotAt g m' i = V.slot i := by
    intro i slot
    have region := ok.slot_region slot
    rcases set (slotLba g i) with same | ⟨⟨f, copy, eq⟩, -⟩
    · rw [slotAt, same]
      exact shows.slots i slot
    · have table := ok.copy_region inside copy
      omega
  rcases set.self small 0 with same | stored
  · refine .inl ⟨fun c' low' inside' => ?_, slots⟩
    by_cases here : c' = c
    · rw [here, same]
      exact shows.table c low inside
    · rw [set.other here inside inside']
      exact shows.table c' low' inside'
  · refine .inr ⟨fun c' low' inside' => ?_, slots⟩
    by_cases here : c' = c
    · rw [here, stored]
      exact Vol.setFat_self.symm
    · rw [set.other here inside inside', Vol.setFat_of_ne here]
      exact shows.table c' low' inside'

/-- `fat_get` returns the entry in the first copy, or an end mark. -/
theorem fatGet_faulty (ok : g.Mounted) (tables : TablesAllowed g allowed)
    (holds : FirstHolds g allowed base d V) (live : InChain c) (inside : c < g.entries) :
    ∃ next d', fatGet g d c = (next, d') ∧ (next = 0xFFFF ∨ next = V.fat c) ∧
      FirstHolds g allowed base d' V := by
  have small := ok.fat_small (c := c) (by omega) ok.numFats.1
  rw [Nat.zero_mul, Nat.add_zero] at small
  have here := tables.copy ok inside ok.numFats.1
  have lba : copyLba g c 0 = g.partLba + (g.fatStartLba + c * 2 / 512) := by
    rw [copyLba, Nat.zero_mul, Nat.add_zero]
  rw [lba] at here
  obtain ⟨r, d', ran, result, confined, same⟩ := readSector_faulty ok holds.confined small here
  have holds' : FirstHolds g allowed base d' V := ⟨confined, by rw [same]; exact holds.shows⟩
  rw [fatGet, ran]
  rcases result with rfl | rfl
  · exact ⟨_, d', rfl, .inl rfl, holds'⟩
  · refine ⟨_, d', rfl, .inr ?_, holds'⟩
    rw [← holds.shows.table c live.1 inside, fatWord, lba]

/-- The copies from `f` on are set, or some of them if it fails. -/
theorem fatSetLoop_faulty (ok : g.Mounted) (confined : Confined allowed base d) (cluster : c < 2 ^ 16)
    (small : v < 2 ^ 16) {n f : Nat} (copies : f + n = g.numFats)
    (here : ∀ f < g.numFats, allowed (copyLba g c f)) :
    ∃ b d', fatSetLoop g (g.fatStartLba + c * 2 / 512) (c * 2 % 512) v n f d = (b, d') ∧
      Confined allowed base d' ∧ PartlySet g c v d.sectors d'.sectors ∧
      (b = true → ∀ k, f ≤ k → k < g.numFats → fatWord g d'.sectors k c = v) := by
  induction n generalizing f d with
  | zero =>
      exact ⟨_, d, rfl, confined, .refl g c v _, fun _ k low high => absurd high (by omega)⟩
  | succ n ih =>
      have copy : f < g.numFats := by omega
      have lba := ok.fat_small cluster copy
      obtain ⟨r, u, read, result, confinedU, sameU⟩ :=
        readSector_faulty ok confined lba (here f copy)
      rw [fatSetLoop, read]
      rcases result with rfl | rfl
      · exact ⟨_, u, rfl, confinedU, by rw [sameU]; exact .refl g c v _, fun no => by cases no⟩
      obtain ⟨b, w, wrote, confinedW, stored⟩ := writeSector_faulty ok confinedU lba (here f copy)
        (setWord (d.sectors (copyLba g c f)).1 (c * 2 % 512) v)
        (by rw [length_setWord, (d.sectors _).2])
      rw [copyLba] at wrote
      dsimp only
      rw [wrote]
      rcases stored with ⟨rfl, same⟩ | stored
      · exact ⟨_, w, rfl, confinedW, by rw [same, sameU]; exact .refl g c v _, fun no => by cases no⟩
      have set : PartlySet g c v d.sectors w.sectors := by
        rw [stored, sameU]
        exact partlySet_update copy _
      cases b with
      | false => exact ⟨_, w, rfl, confinedW, set, fun no => by cases no⟩
      | true =>
          obtain ⟨b, d', ran, confined', set', all⟩ := ih confinedW (f := f + 1) (by omega)
          refine ⟨b, d', ran, confined', set.trans set', fun done k low high => ?_⟩
          by_cases first : k = f
          · -- this copy was set, and setting the others leaves it
            have bytes : (d.sectors (copyLba g c f)).1.length = 512 := (d.sectors _).2
            have here : fatWord g w.sectors f c = v := by
              rw [fatWord, stored, copyLba, Function.update_self, ← copyLba, ofList_setWord]
              exact word_setWord_self (by rw [bytes]; omega) small
            rw [first]
            rcases set'.self small f with same | same
            · rw [same, here]
            · exact same
          · exact all done k (by omega) high

/-- `fat_set` sets the entry, or fails and sets it or not. -/
theorem fatSet_faulty (ok : g.Mounted) (tables : TablesAllowed g allowed)
    (holds : FirstHolds g allowed base d V) (live : InChain c) (inside : c < g.entries)
    (small : v < 2 ^ 16) :
    ∃ b d', fatSet g d c v = (b, d') ∧ ((b = false ∧ FirstHolds g allowed base d' V) ∨
      FirstHolds g allowed base d' (V.setFat c v)) := by
  obtain ⟨b, d', ran, confined, set, all⟩ := fatSetLoop_faulty ok holds.confined (c := c) (by omega)
    small (Nat.zero_add _) fun f copy => tables.copy ok inside copy
  refine ⟨b, d', ran, ?_⟩
  have shows := holds.shows.partlySet ok set live.1 inside small
  cases b with
  | false => exact shows.imp (fun shows => ⟨rfl, confined, shows⟩) (⟨confined, ·⟩)
  | true =>
      refine .inr ⟨confined, shows.elim (fun shows => ⟨fun c' low inside' => ?_, shows.slots⟩) id⟩
      by_cases same : c' = c
      · rw [same, Vol.setFat_self]
        exact all rfl 0 (Nat.zero_le 0) ok.numFats.1
      · rw [Vol.setFat_of_ne same]
        exact shows.table c' low inside'

/-! ## Allocating and freeing -/

/-- The loop of `alloc_cluster` gives up, or takes the cluster its scan stops at; that may be
done when `fat_set` fails. -/
theorem allocLoop_faulty (ok : g.Mounted) (tables : TablesAllowed g allowed)
    (holds : FirstHolds g allowed base d V) {n s : Nat} (sectors : s + n = g.fatSize) :
    ∃ r d', allocLoop g n s d = (r, d') ∧ ((r = 0 ∧ FirstHolds g allowed base d' V) ∨
      ∃ k c, firstHit (allocVisit V.fat) (256 * n) (s * 256) = some (k, c) ∧ c ≠ 0 ∧
        (r = 0 ∨ r = c) ∧ FirstHolds g allowed base d' (V.setFat c 0xFFFF)) := by
  induction n generalizing s d with
  | zero => exact ⟨_, d, rfl, .inl ⟨rfl, holds⟩⟩
  | succ n ih =>
      have sector : s < g.fatSize := by omega
      have small : g.fatStartLba + s < 2 ^ 26 := by
        have start := ok.fatStart
        have size := ok.fatSize
        omega
      have here : allowed (g.partLba + (g.fatStartLba + s)) := by
        have inside := tables.copy ok (c := s * 256) (by rw [Fat16.entries]; omega) ok.numFats.1
        rwa [copyLba, Nat.zero_mul, Nat.add_zero, show s * 256 * 2 / 512 = s by omega] at inside
      obtain ⟨r, u, read, result, confined, same⟩ := readSector_faulty ok holds.confined small here
      have holdsU : FirstHolds g allowed base u V := ⟨confined, by rw [same]; exact holds.shows⟩
      rw [allocLoop, read]
      rcases result with rfl | rfl
      · exact ⟨_, u, rfl, .inl ⟨rfl, holdsU⟩⟩
      have entries := freeFatEntry_words holds.shows.table (n := 256) (i := 0) sector rfl
      rw [show 256 * (n + 1) = 256 + 256 * n by omega, firstHit_add]
      dsimp only
      rw [entries, Nat.add_zero]
      cases found : firstHit (allocVisit V.fat) 256 (s * 256) with
      | none =>
          obtain ⟨r, d', ran, after⟩ := ih holdsU (s := s + 1) (by omega)
          rw [show (s + 1) * 256 = s * 256 + 256 by omega] at after
          exact ⟨r, d', ran, after⟩
      | some hit =>
          obtain ⟨k, c⟩ := hit
          cases c with
          | zero => exact ⟨_, u, rfl, .inl ⟨rfl, holdsU⟩⟩
          | succ c =>
              obtain ⟨low, high, stopped, -⟩ := firstHit_eq_some_iff.mp found
              obtain ⟨two, ⟨-, no⟩ | ⟨below, -, eq⟩⟩ := allocVisit_eq_some.mp stopped
              · cases no
              obtain ⟨b, w, set, after⟩ := fatSet_faulty ok tables holdsU (c := c + 1)
                (v := 0xFFFF) (by omega) (by rw [Fat16.entries]; omega) (by decide)
              show ∃ r d', (if (fatSet g u (c + 1) 0xFFFF).1 then c + 1 else 0,
                (fatSet g u (c + 1) 0xFFFF).2) = (r, d') ∧ _
              rw [set]
              rcases after with ⟨rfl, holds'⟩ | holds'
              · exact ⟨_, w, rfl, .inl ⟨rfl, holds'⟩⟩
              · refine ⟨_, w, rfl, .inr ⟨k, c + 1, rfl, by omega, ?_, holds'⟩⟩
                cases b with
                | false => exact .inl rfl
                | true => exact .inr rfl

/-- `alloc_cluster` gives up, or takes the first free cluster; that may be done when it reports
that it failed. -/
theorem allocCluster_faulty (ok : g.Mounted) (tables : TablesAllowed g allowed)
    (holds : FirstHolds g allowed base d V) :
    ∃ r d', allocCluster g d = (r, d') ∧ ((r = 0 ∧ FirstHolds g allowed base d' V) ∨
      ∃ c rest, V.freeList g = c :: rest ∧ (V.setFat c 0xFFFF).freeList g = rest ∧
        (r = 0 ∨ r = c) ∧ FirstHolds g allowed base d' (V.setFat c 0xFFFF)) := by
  obtain ⟨r, d', ran, after⟩ := allocLoop_faulty ok tables holds (Nat.zero_add g.fatSize)
  refine ⟨r, d', ran, after.imp_right ?_⟩
  rintro ⟨k, c, found, taken, result, holds'⟩
  rw [Nat.zero_mul] at found
  change firstHit (allocVisit V.fat) g.entries 0 = some (k, c) at found
  have hit := V.firstHit_free g
  cases free : V.freeList g with
  | nil =>
      rw [free] at hit
      exact absurd (hit k c found) taken
  | cons x rest =>
      rw [free] at hit
      obtain ⟨-, rfl⟩ := Prod.mk.inj (Option.some.inj (found.symm.trans hit.1))
      exact ⟨c, rest, rfl, hit.2, result, holds'⟩

/-- Some entries of `l` free. -/
structure Vol.Freed (V : Vol) (l : List Nat) (W : Vol) : Prop where
  slot : W.slot = V.slot
  fat : ∀ x, W.fat x = V.fat x ∨ (x ∈ l ∧ W.fat x = 0)

theorem Vol.Freed.refl (V : Vol) (l : List Nat) : V.Freed l V := ⟨rfl, fun _ => .inl rfl⟩

/-- `free_chain` stops at an end mark. -/
theorem freeChain_end {fuel : Nat} (some : 0 < fuel) (g : Fat16) (d : Ata) :
    freeChain g fuel d 0xFFFF = .ok d := by
  obtain ⟨fuel, rfl⟩ := Nat.exists_eq_succ_of_ne_zero (Nat.ne_of_gt some)
  rw [freeChain, if_neg (by omega)]

/-- **`free_chain` frees some of the clusters of the chain**, and ends. -/
theorem freeChain_faulty (ok : g.Mounted) (tables : TablesAllowed g allowed)
    (holds : FirstHolds g allowed base d V) {fuel : Nat} {l : List Nat}
    (chain : LinkChain V.fat (fun c => ¬ InChain c) c l) (inside : ∀ x ∈ l, x < g.entries)
    (enough : l.length < fuel) :
    ∃ d' W, freeChain g fuel d c = .ok d' ∧ FirstHolds g allowed base d' W ∧ V.Freed l W := by
  induction l generalizing c fuel d V with
  | nil =>
      obtain ⟨fuel, rfl⟩ := Nat.exists_eq_succ_of_ne_zero (Nat.ne_of_gt enough)
      exact ⟨d, V, by rw [freeChain, if_neg chain], holds, .refl V []⟩
  | cons x l ih =>
      obtain ⟨fuel, rfl⟩ := Nat.exists_eq_succ_of_ne_zero (Nat.ne_of_gt (Nat.zero_lt_of_lt enough))
      have notAgain := (List.nodup_cons.mp chain.nodup).1
      obtain ⟨rfl, live, rest⟩ := chain
      have inChain : InChain x := Decidable.not_not.mp live
      have enough' : l.length < fuel := Nat.lt_of_succ_lt_succ enough
      obtain ⟨next, u, got, result, holdsU⟩ :=
        fatGet_faulty ok tables holds inChain (inside x List.mem_cons_self)
      obtain ⟨b, w, set, after⟩ := fatSet_faulty ok tables holdsU (v := 0) inChain
        (inside x List.mem_cons_self) (by decide)
      rw [freeChain, if_pos inChain]
      dsimp only
      rw [got]
      dsimp only
      rw [set]
      -- the entry as it was, or free
      obtain ⟨W, holdsW, freed, same⟩ : ∃ W, FirstHolds g allowed base w W ∧
          V.Freed (x :: l) W ∧ ∀ y, y ≠ x → W.fat y = V.fat y := by
        rcases after with ⟨-, holdsW⟩ | holdsW
        · exact ⟨V, holdsW, .refl V _, fun _ _ => rfl⟩
        · refine ⟨V.setFat x 0, holdsW, ⟨rfl, fun y => ?_⟩, fun y other => Vol.setFat_of_ne other⟩
          by_cases here : y = x
          · rw [here]
            exact .inr ⟨List.mem_cons_self, Vol.setFat_self⟩
          · exact .inl (Vol.setFat_of_ne here)
      rcases result with rfl | rfl
      · exact ⟨w, W, freeChain_end (by omega) g w, holdsW, freed⟩
      have rest' : LinkChain W.fat (fun c => ¬ InChain c) (V.fat x) l :=
        rest.congr fun y mem => (same y fun eq => notAgain (eq ▸ mem)).symm
      obtain ⟨d', W', ran, holds', freed'⟩ := ih holdsW rest'
        (fun y mem => inside y (List.mem_cons_of_mem x mem)) enough'
      refine ⟨d', W', ran, holds', freed'.slot.trans freed.slot, fun y => ?_⟩
      rcases freed'.fat y with eq | ⟨mem, zero⟩
      · rw [eq]
        exact freed.fat y
      · exact .inr ⟨List.mem_cons_of_mem x mem, zero⟩

/-! ## The root directory -/

/-- A scan fails, ends, or stops at an entry its visitor stops at. -/
theorem scanRoot_faulty {α : Type} (ok : g.Mounted) (tables : TablesAllowed g allowed)
    (holds : FirstHolds g allowed base d V) (visit : List UInt8 → Option α) {n s : Nat}
    (sectors : s + n = g.rootCount) :
    ∃ r d', scanRoot g visit n s d = (r, d') ∧ FirstHolds g allowed base d' V ∧
      d'.sectors = d.sectors ∧ ∀ s k buf a, r = .hit s k buf a → ∃ i < g.slots, s = i / 16 ∧
        k = i % 16 ∧ buf = (d.sectors (slotLba g i)).1 ∧ visit (V.slot i) = some a := by
  induction n generalizing s d with
  | zero => exact ⟨_, d, rfl, holds, rfl, fun _ _ _ _ no => by cases no⟩
  | succ n ih =>
      have sector : s < g.rootCount := by omega
      obtain ⟨r, u, read, result, confined, same⟩ :=
        readSector_faulty ok holds.confined (ok.root_small sector) (tables.root ok sector)
      have holdsU : FirstHolds g allowed base u V := ⟨confined, by rw [same]; exact holds.shows⟩
      rw [scanRoot, read]
      rcases result with rfl | rfl
      · exact ⟨_, u, rfl, holdsU, same, fun _ _ _ _ no => by cases no⟩
      dsimp only
      cases found : visitSector visit (d.sectors (g.partLba + (g.rootStartLba + s))).1 16 0 with
      | some hit =>
          obtain ⟨k, a⟩ := hit
          rw [visitSector_eq] at found
          obtain ⟨-, small, stopped, -⟩ := firstHit_eq_some_iff.mp found
          have lba : slotLba g (16 * s + k) = g.partLba + (g.rootStartLba + s) := by
            rw [slotLba, show (16 * s + k) / 16 = s by omega]
          have slot : 16 * s + k < g.slots := by
            rw [Fat16.slots]
            omega
          refine ⟨_, u, rfl, holdsU, same, ?_⟩
          rintro s' k' buf a' eq
          cases eq
          refine ⟨16 * s + k, slot, by omega, by omega, by rw [lba], ?_⟩
          rw [← holds.shows.slots _ slot, slotAt, lba, show (16 * s + k) % 16 = k by omega]
          exact stopped
      | none =>
          obtain ⟨r, d', ran, holds', same', hit⟩ := ih holdsU (s := s + 1) (by omega)
          refine ⟨r, d', ran, holds', same'.trans same, fun s k buf a eq => ?_⟩
          rw [← same]
          exact hit s k buf a eq

/-- A directory sector has the entries of its slots. -/
theorem FirstShows.row (shows : FirstShows g m V) {i k : Nat} (inside : i < g.slots)
    (small : k < 16) : dirent (m (slotLba g i)).1 k = V.slot (16 * (i / 16) + k) := by
  have slot : 16 * (i / 16) + k < g.slots := by
    rw [Fat16.slots] at inside ⊢
    omega
  rw [← shows.slots _ slot, slotAt, slotLba, slotLba, show (16 * (i / 16) + k) / 16 = i / 16 by omega,
    show (16 * (i / 16) + k) % 16 = k by omega]

/-- Rewriting the directory sector of slot `i` so that only that entry changes. -/
theorem FirstShows.updateSlot (shows : FirstShows g m V) (ok : g.Mounted) {i : Nat}
    (inside : i < g.slots) {buf e : List UInt8} (sized : buf.length = ataSectorSize)
    (entries : ∀ k < 16, dirent buf k = if k = i % 16 then e else dirent (m (slotLba g i)).1 k) :
    FirstShows g (Function.update m (slotLba g i) (.ofList buf)) (V.setSlot i e) := by
  have region := ok.slot_region inside
  refine ⟨fun c low inside => ?_, fun j slot => ?_⟩
  · have table := ok.copy_region inside ok.numFats.1
    rw [fatWord, Function.update_of_ne (by omega)]
    exact shows.table c low inside
  · by_cases row : slotLba g j = slotLba g i
    · rw [slotAt, row, Function.update_self, Sector.ofList_val sized,
        entries _ (Nat.mod_lt _ (by decide))]
      rw [slotLba, slotLba] at row
      by_cases same : j = i
      · rw [same, if_pos rfl]
        exact Vol.setSlot_self.symm
      · rw [if_neg (by omega), Vol.setSlot_of_ne same, ← shows.slots j slot, slotAt, slotLba, slotLba,
          row]
    · have other : j ≠ i := fun eq => row (by rw [eq])
      rw [slotAt, Function.update_of_ne row, Vol.setSlot_of_ne other]
      exact shows.slots j slot

/-- The sector of slot `i` rewritten: the entry is the new one, or the write failed. -/
theorem writeSlot_faulty (ok : g.Mounted) (tables : TablesAllowed g allowed)
    (holds : FirstHolds g allowed base d V) {i : Nat} (inside : i < g.slots) {buf e : List UInt8}
    (sized : buf.length = ataSectorSize)
    (entries : ∀ k < 16, dirent buf k =
      if k = i % 16 then e else dirent (d.sectors (slotLba g i)).1 k) :
    ∃ b d', writeSector g d (g.rootStartLba + i / 16) buf = (b, d') ∧
      (FirstHolds g allowed base d' V ∨ FirstHolds g allowed base d' (V.setSlot i e)) := by
  have sector : i / 16 < g.rootCount := by
    rw [Fat16.slots] at inside
    omega
  obtain ⟨b, d', wrote, confined, stored⟩ := writeSector_faulty ok holds.confined
    (ok.root_small sector) (tables.root ok sector) buf sized
  refine ⟨b, d', wrote, ?_⟩
  rcases stored with ⟨-, same⟩ | stored
  · exact .inl ⟨confined, by rw [same]; exact holds.shows⟩
  · exact .inr ⟨confined, by rw [stored]; exact holds.shows.updateSlot ok inside sized entries⟩

/-! ## The data -/

/-- Writing a data sector leaves the table and the directory. -/
theorem FirstShows.updateData (shows : FirstShows g m V) (ok : g.Mounted) (j : Nat) (s : Sector) :
    FirstShows g (Function.update m (g.partLba + (g.dataStartLba + j)) s) V := by
  have start := ok.dataStart
  refine ⟨fun c low inside => ?_, fun i slot => ?_⟩
  · have table := ok.copy_region inside ok.numFats.1
    rw [fatWord, Function.update_of_ne (by omega)]
    exact shows.table c low inside
  · have region := ok.slot_region slot
    rw [slotAt, Function.update_of_ne (by omega)]
    exact shows.slots i slot

/-- The inner loop of a write. -/
theorem writeCluster_faulty (ok : g.Mounted) (holds : FirstHolds g allowed base d V) {n j : Nat}
    (src : List UInt8) (small : g.dataStartLba + j + n ≤ 2 ^ 26)
    (data : ∀ k ∈ List.range' j n, allowed (g.partLba + (g.dataStartLba + k))) :
    ∃ b rest d', writeCluster g n (g.dataStartLba + j) d src = (b, rest, d') ∧
      FirstHolds g allowed base d' V := by
  induction n generalizing j d src with
  | zero => exact ⟨_, _, d, rfl, holds⟩
  | succ n ih =>
      rw [writeCluster]
      by_cases done : src = []
      · exact ⟨_, _, d, if_pos done, holds⟩
      rw [if_neg done]
      obtain ⟨b, u, wrote, confined, stored⟩ := writeSector_faulty ok holds.confined (by omega)
        (data j (by rw [List.mem_range'_1]; omega)) (padSector src) (length_padTo src)
      have holdsU : FirstHolds g allowed base u V := by
        refine ⟨confined, ?_⟩
        rcases stored with ⟨-, same⟩ | stored
        · rw [same]
          exact holds.shows
        · rw [stored]
          exact holds.shows.updateData ok j _
      rw [wrote]
      cases b with
      | false => exact ⟨_, _, u, rfl, holdsU⟩
      | true =>
          obtain ⟨b, rest, d', ran, holds'⟩ := ih holdsU (j := j + 1) (src.drop 512) (by omega)
            fun k mem => data k (by rw [List.mem_range'_1] at mem ⊢; omega)
          exact ⟨b, rest, d', ran, holds'⟩

/-- The inner loop of a read. -/
theorem readCluster_faulty (ok : g.Mounted) (holds : FirstHolds g allowed base d V) {n j size : Nat}
    (acc : List UInt8) (small : g.dataStartLba + j + n ≤ 2 ^ 26)
    (data : ∀ k ∈ List.range' j n, allowed (g.partLba + (g.dataStartLba + k))) :
    ∃ b out d', readCluster g size n (g.dataStartLba + j) d acc = (b, out, d') ∧
      FirstHolds g allowed base d' V := by
  induction n generalizing j d acc with
  | zero => exact ⟨_, _, d, rfl, holds⟩
  | succ n ih =>
      rw [readCluster]
      by_cases done : size ≤ acc.length
      · exact ⟨_, _, d, if_pos done, holds⟩
      rw [if_neg done]
      obtain ⟨r, u, read, result, confined, same⟩ := readSector_faulty ok holds.confined (by omega)
        (data j (by rw [List.mem_range'_1]; omega))
      have holdsU : FirstHolds g allowed base u V := ⟨confined, by rw [same]; exact holds.shows⟩
      rw [read]
      rcases result with rfl | rfl
      · exact ⟨_, _, u, rfl, holdsU⟩
      · obtain ⟨b, out, d', ran, holds'⟩ := ih holdsU (j := j + 1) (acc ++ _) (by omega)
          fun k mem => data k (by rw [List.mem_range'_1] at mem ⊢; omega)
        exact ⟨b, out, d', ran, holds'⟩

end Faulty

end Flyos
