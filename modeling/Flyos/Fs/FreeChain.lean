import Flyos.Fs.Fat16Disk

/-!
# Freeing a chain of any table

`free_chain` follows links while it erases them.  Here nothing is assumed of the volume but
that it has a table and that the drive answers: the links may form a cycle or cross, a
cluster may lie past the end of the table, where a copy of one entry is another entry, and the
28 bits of the drive's sector numbers may wrap.  A cluster that was cleared stays clear, in
whatever copy it is read, so the chain is left at the latest where it comes back
(`freeChain_ends`).
-/

namespace Flyos

/-- The sector of the drive with copy `f` of the entry of cluster `c`: 28 bits of its number. -/
def copySector (g : Fat16) (c f : Nat) : Nat := copyLba g c f % 2 ^ 28

/-- The entry of cluster `c`, as `fat_get` reads it. -/
def fatEntry (g : Fat16) (m : Nat → Sector) (c : Nat) : Nat :=
  word (m (copySector g c 0)).1 (c * 2 % 512)

/-- A sector with a word cleared. -/
def clearWord (m : Nat → Sector) (l off : Nat) : Nat → Sector :=
  Function.update m l (.ofList (setWord (m l).1 off 0))

/-- The sectors with the entry of cluster `c` cleared in `n` copies from `f` on, one after the
other. -/
def clearCopies (g : Fat16) (c : Nat) : Nat → Nat → (Nat → Sector) → Nat → Sector
  | 0, _, m => m
  | n + 1, f, m => clearCopies g c n (f + 1) (clearWord m (copySector g c f) (c * 2 % 512))

/-- Every word at an even place is as before, or clear. -/
def OnlyCleared (m m' : Nat → Sector) : Prop :=
  ∀ l c, word (m' l).1 (c * 2 % 512) = word (m l).1 (c * 2 % 512) ∨ word (m' l).1 (c * 2 % 512) = 0

/-- **The clusters `free_chain` visits** from `c`: it looks up the next one with `fat_get`,
clears the one it is at with `fat_set`, and stops outside of `2 .. 0xFFF7`. -/
abbrev FreeVisits (g : Fat16) (d : Ata) (c : Nat) (l : List Nat) : Prop :=
  Visits (fun d c => (fatGet g d c).1) (fun d c => (fatSet g (fatGet g d c).2 c 0).2)
    (fun c => ¬ InChain c) d c l

variable {g : Fat16} {m m' m'' : Nat → Sector} {c n f l off : Nat} {d : Ata}

/-! ## Clearing -/

theorem OnlyCleared.refl (m : Nat → Sector) : OnlyCleared m m := fun _ _ => .inl rfl

theorem OnlyCleared.trans (first : OnlyCleared m m') (second : OnlyCleared m' m'') :
    OnlyCleared m m'' := by
  intro l c
  rcases second l c with same | clear
  · rw [same]
    exact first l c
  · exact .inr clear

/-- What is clear stays clear. -/
theorem OnlyCleared.clear (only : OnlyCleared m m') (clear : word (m l).1 (c * 2 % 512) = 0) :
    word (m' l).1 (c * 2 % 512) = 0 := by
  rcases only l c with same | gone
  · rw [same, clear]
  · exact gone

/-- A word that was cleared reads as zero. -/
theorem word_clearWord (m : Nat → Sector) (l c : Nat) :
    word (clearWord m l (c * 2 % 512) l).1 (c * 2 % 512) = 0 := by
  have sized : (m l).1.length = 512 := (m l).2
  rw [clearWord, Function.update_self, ofList_setWord]
  exact word_setWord_self (by rw [sized]; omega) (by decide)

theorem onlyCleared_clearWord (m : Nat → Sector) (l c : Nat) :
    OnlyCleared m (clearWord m l (c * 2 % 512)) := by
  intro l' c'
  by_cases here : l' = l
  · subst here
    by_cases same : c' * 2 % 512 = c * 2 % 512
    · rw [same]
      exact .inr (word_clearWord m l' c)
    · rw [clearWord, Function.update_self, ofList_setWord]
      exact .inl (word_setWord_other (by omega))
  · rw [clearWord, Function.update_of_ne here]
    exact .inl rfl

theorem onlyCleared_clearCopies (n f : Nat) (m : Nat → Sector) :
    OnlyCleared m (clearCopies g c n f m) := by
  induction n generalizing f m with
  | zero => exact .refl m
  | succ n ih => exact (onlyCleared_clearWord m _ c).trans (ih (f + 1) _)

/-- The entry that was cleared reads as zero, however its copies overlap. -/
theorem fatEntry_clearCopies (copies : 0 < n) : fatEntry g (clearCopies g c n 0 m) c = 0 := by
  obtain ⟨n, rfl⟩ := Nat.exists_eq_succ_of_ne_zero (Nat.ne_of_gt copies)
  exact (onlyCleared_clearCopies n 1 _).clear (word_clearWord m _ c)

/-! ## What the drive does -/

/-- A drive that answers delivers a sector, whatever its number. -/
theorem readSector_any (ok : d.Healthy) (g : Fat16) (lba : Nat) :
    ∃ d', readSector g d lba = (some (d.sectors ((g.partLba + lba) % 2 ^ 28)).1, d') ∧
      d'.Healthy ∧ d'.sectors = d.sectors := by
  have wraps : ataReadSectors d (g.partLba + lba) 1 =
      ataReadSectors d ((g.partLba + lba) % 2 ^ 28) 1 := by
    rw [ataReadSectors, ataReadSectors, Nat.mod_mod]
  exact ⟨_, wraps.trans (ataReadSectors_one ok (Nat.mod_lt _ (by decide))),
    ok.mono rfl rfl (Nat.le_add_right ..), rfl⟩

/-- It stores a sector, whatever its number. -/
theorem writeSector_any (ok : d.Healthy) (g : Fat16) (lba : Nat) (buf : List UInt8)
    (sized : buf.length = ataSectorSize) :
    ∃ d', writeSector g d lba buf = (true, d') ∧ d'.Healthy ∧
      d'.sectors = Function.update d.sectors ((g.partLba + lba) % 2 ^ 28) (.ofList buf) := by
  have wraps : ataWriteSectors d (g.partLba + lba) 1 buf =
      ataWriteSectors d ((g.partLba + lba) % 2 ^ 28) 1 buf := by
    rw [ataWriteSectors, ataWriteSectors, Nat.mod_mod]
  exact ⟨_, wraps.trans (ataWriteSectors_one ok (Nat.mod_lt _ (by decide)) sized),
    ok.mono rfl rfl (Nat.le_add_right ..), rfl⟩

/-- `fat_get` returns the entry. -/
theorem fatGet_any (ok : d.Healthy) (g : Fat16) (c : Nat) :
    ∃ d', fatGet g d c = (fatEntry g d.sectors c, d') ∧ d'.Healthy ∧ d'.sectors = d.sectors := by
  obtain ⟨d', read, ok', same⟩ := readSector_any ok g (g.fatStartLba + c * 2 / 512)
  refine ⟨d', ?_, ok', same⟩
  rw [fatGet, read, fatEntry, copySector, copyLba, Nat.zero_mul, Nat.add_zero]

/-- The loop of `fat_set` clears copy after copy. -/
theorem fatSetLoop_any (ok : d.Healthy) (g : Fat16) (c n f : Nat) :
    ∃ d', fatSetLoop g (g.fatStartLba + c * 2 / 512) (c * 2 % 512) 0 n f d = (true, d') ∧
      d'.Healthy ∧ d'.sectors = clearCopies g c n f d.sectors := by
  induction n generalizing f d with
  | zero => exact ⟨d, rfl, ok, rfl⟩
  | succ n ih =>
      obtain ⟨u, read, okU, sameU⟩ :=
        readSector_any ok g (g.fatStartLba + c * 2 / 512 + f * g.fatSize)
      obtain ⟨w, wrote, okW, stored⟩ :=
        writeSector_any okU g (g.fatStartLba + c * 2 / 512 + f * g.fatSize)
          (setWord (d.sectors (copySector g c f)).1 (c * 2 % 512) 0)
          (by rw [length_setWord, (d.sectors _).2])
      obtain ⟨d', ran, ok', cleared⟩ := ih okW (f + 1)
      refine ⟨d', ?_, ok', ?_⟩
      · rw [copySector, copyLba] at wrote
        rw [fatSetLoop, read]
        dsimp only
        rw [wrote]
        exact ran
      · rw [cleared, stored, sameU]
        rfl

/-- `fat_set` with 0 clears every copy. -/
theorem fatSet_any (ok : d.Healthy) (g : Fat16) (c : Nat) :
    ∃ d', fatSet g d c 0 = (true, d') ∧ d'.Healthy ∧
      d'.sectors = clearCopies g c g.numFats 0 d.sectors :=
  fatSetLoop_any ok g c g.numFats 0

/-- One round of `free_chain`. -/
theorem freeRound_any (ok : d.Healthy) (g : Fat16) (c : Nat) :
    (fatGet g d c).1 = fatEntry g d.sectors c ∧
      (fatSet g (fatGet g d c).2 c 0).2.Healthy ∧
      (fatSet g (fatGet g d c).2 c 0).2.sectors = clearCopies g c g.numFats 0 d.sectors := by
  obtain ⟨u, got, okU, sameU⟩ := fatGet_any ok g c
  obtain ⟨w, set, okW, cleared⟩ := fatSet_any okU g c
  rw [got]
  dsimp only
  rw [set]
  exact ⟨rfl, okW, by rw [cleared, sameU]⟩

/-! ## Freeing a chain -/

/-- In the sectors the walk ends, on every table. -/
theorem exists_entryVisits (copies : 0 < g.numFats) (m : Nat → Sector) (c : Nat) :
    ∃ l, Visits (fatEntry g) (fun m c => clearCopies g c g.numFats 0 m) (fun c => ¬ InChain c) m c l ∧
      l.length ≤ 2 ^ 16 := by
  obtain ⟨l, visits, short⟩ := exists_visits (fatEntry g)
    (fun m c => clearCopies g c g.numFats 0 m) (fun c => ¬ InChain c) 0 (Finset.Ico 2 0xFFF8)
    (fun a live => Finset.mem_Ico.mpr (Decidable.not_not.mp live)) (by decide)
    (fun m c => fatEntry_clearCopies copies)
    (fun m c x => onlyCleared_clearCopies g.numFats 0 m (copySector g x 0) x) m c
  refine ⟨l, visits, Nat.le_trans short ?_⟩
  have card := Finset.card_filter_le (Finset.Ico 2 0xFFF8) (fun x => fatEntry g m x ≠ 0)
  rw [Nat.card_Ico] at card
  omega

/-- The loop does what the walk does. -/
theorem freeChain_visits {l : List Nat} (ok : d.Healthy) (copies : 0 < g.numFats)
    (visits : FreeVisits g d c l) : ∃ d', (∀ fuel, l.length < fuel → freeChain g fuel d c = .ok d') ∧
      d'.Healthy ∧ OnlyCleared d.sectors d'.sectors ∧ ∀ x ∈ l, fatEntry g d'.sectors x = 0 := by
  induction l generalizing d c with
  | nil =>
      refine ⟨d, fun fuel enough => ?_, ok, .refl _, fun x mem => absurd mem List.not_mem_nil⟩
      obtain ⟨fuel, rfl⟩ := Nat.exists_eq_succ_of_ne_zero (Nat.ne_of_gt enough)
      rw [freeChain, if_neg visits]
  | cons x l ih =>
      obtain ⟨rfl, live, rest⟩ := visits
      obtain ⟨-, okW, cleared⟩ := freeRound_any ok g x
      obtain ⟨d', ran, ok', only, clear⟩ := ih okW rest
      rw [cleared] at only
      refine ⟨d', fun fuel enough => ?_, ok',
        (onlyCleared_clearCopies g.numFats 0 d.sectors).trans only, fun y mem => ?_⟩
      · obtain ⟨fuel, rfl⟩ :=
          Nat.exists_eq_succ_of_ne_zero (Nat.ne_of_gt (Nat.zero_lt_of_lt enough))
        rw [freeChain, if_pos (Decidable.not_not.mp live)]
        exact ran fuel (Nat.lt_of_succ_lt_succ enough)
      · rcases List.mem_cons.mp mem with rfl | mem
        · exact only.clear (fatEntry_clearCopies copies)
        · exact clear y mem

/-- **Freeing a chain ends on every table**, after at most 2^16 rounds, and every cluster it
visited then reads as 0.  Each round clears an entry that was not 0, so no cluster is visited
twice and the entries of a table, 2^16 at most, bound the rounds; the code itself has no counter.
-/
theorem freeChain_ends (ok : d.Healthy) (copies : 0 < g.numFats) (c : Nat) :
    ∃ l d', FreeVisits g d c l ∧ l.length ≤ 2 ^ 16 ∧
      (∀ fuel, l.length < fuel → freeChain g fuel d c = .ok d') ∧
      ∀ x ∈ l, (fatGet g d' x).1 = 0 := by
  obtain ⟨l, walked, short⟩ := exists_entryVisits copies d.sectors c
  have visits : FreeVisits g d c l :=
    walked.simulates (fun m d => d.Healthy ∧ d.sectors = m) (fun _ => True) trivial ⟨ok, rfl⟩
      fun {m d a} rel _ _ => by
        obtain ⟨looked, okW, cleared⟩ := freeRound_any rel.1 g a
        rw [rel.2] at looked cleared
        exact ⟨looked, ⟨okW, cleared⟩, .inr trivial⟩
  obtain ⟨d', ran, ok', -, clear⟩ := freeChain_visits ok copies visits
  refine ⟨l, d', visits, short, ran, fun x mem => ?_⟩
  obtain ⟨u, got, -⟩ := fatGet_any ok' g x
  rw [got]
  exact clear x mem

/-! ## A cycle -/

/-- A volume with two copies of a table of one sector. -/
def cyclicFat : Fat16 :=
  { Fat16.initial with fatSize := 1, fatStartLba := 1, rootStartLba := 3, dataStartLba := 35 }

/-- Its table links cluster 2 to 3 and 3 back to 2. -/
def cyclicDisk : Ata where
  sectors l := .ofList (if l = 1 ∨ l = 2 then [0xF8, 0xFF, 0xFF, 0xFF, 3, 0, 2, 0] else [])
  diskSectors := 64
  fault _ := false
  waits := 0
  touched := []

/-- The cycle is freed. -/
theorem freeChain_ends_cycle : ∃ l d', FreeVisits cyclicFat cyclicDisk 2 l ∧ l.length ≤ 2 ^ 16 ∧
    (∀ fuel, l.length < fuel → freeChain cyclicFat fuel cyclicDisk 2 = .ok d') ∧
    ∀ x ∈ l, (fatGet cyclicFat d' x).1 = 0 :=
  freeChain_ends ⟨by decide, fun _ _ => rfl⟩ (by decide) 2

end Flyos
