import Flyos.Fs.Fat16Disk
import Flyos.Lib.Packing

/-!
# Listing the root directory into a buffer

`fat16_list_root` writes a line for every entry that is in use.  When one does not fit, it
leaves the loop over the sector it is in and goes on with the next sector.
`listRoot_prefix_iff` says when what it writes is nevertheless a beginning of the whole
list: when no later sector begins with an entry that fits.
-/

namespace Flyos

/-- The entries of a sector that are listed, from entry `k` on, and whether the end mark stands
behind them: those that are neither deleted nor part of a long name. -/
def listedEntries (buf : List UInt8) : Nat → Nat → Bool × List (List UInt8)
  | 0, _ => (false, [])
  | n + 1, k =>
      let e := dirent buf k
      if direntFirst e = 0 then (true, [])
      else
        let r := listedEntries buf n (k + 1)
        if direntFirst e = 0xE5 ∨ direntAttr e = 0x0F then r else (r.1, e :: r.2)

/-- The sectors of the root directory, up to one that cannot be read: the entries listed in each,
and whether it has the end mark. -/
def rootEntries (g : Fat16) : Nat → Nat → Ata → List (Bool × List (List UInt8))
  | 0, _, _ => []
  | n + 1, s, d =>
      match readSector g d (g.rootStartLba + s) with
      | (none, _) => []
      | (some buf, d) => listedEntries buf 16 0 :: rootEntries g n (s + 1) d

/-- The beginning of the whole list: the lines of the first entries, up to the first that does
not fit. -/
def listPrefix (max : Int) (entries : List (List UInt8)) : List UInt8 :=
  (packed (LineFits max) listedLine [] entries).1

/-- **What a bounded list is to be**: within `max` bytes, and unless there is no memory for a
sector, a beginning of the whole list that ends where an entry does not fit. -/
def ListsPrefix (g : Fat16) (kmalloc : Nat → Bool) (d : Ata) (max : Int) : Prop :=
  ∃ r out d', fat16ListRoot g kmalloc d max = .ok ((r, out), d') ∧ out.length ≤ max.toNat ∧
    (r = -1 ∧ out = [] ∨
      r = out.length ∧ out = listPrefix max (joined (rootEntries g g.rootCount 0 d)))

variable {g : Fat16} {d : Ata} {max : Int} {buf out : List UInt8}

/-- A line is not empty. -/
theorem listedLine_ne_nil (e : List UInt8) : listedLine e ≠ [] := by
  simp [listedLine]

/-- A line that fits stays within the bound. -/
theorem LineFits.length {e : List UInt8} (fits : LineFits max out e) :
    (out ++ listedLine e).length ≤ max.toNat := by
  have slash : (if direntAttr e &&& 0x10 ≠ 0 then [(0x2F : UInt8)] else []).length ≤ 1 := by
    split <;> decide
  rw [LineFits] at fits
  rw [listedLine, List.length_append, List.length_append, List.length_append, List.length_singleton]
  omega

/-- The loop over a sector packs its listed entries. -/
theorem listSector_eq (n k : Nat) (out : List UInt8) : listSector max buf n k out =
    ((listedEntries buf n k).1 && (packed (LineFits max) listedLine out (listedEntries buf n k).2).2,
      (packed (LineFits max) listedLine out (listedEntries buf n k).2).1) := by
  induction n generalizing k out with
  | zero => rfl
  | succ n ih =>
      rw [listSector, listedEntries]
      dsimp only
      by_cases ended : direntFirst (dirent buf k) = 0
      · rw [if_pos ended, if_pos ended]
        rfl
      rw [if_neg ended, if_neg ended]
      by_cases deleted : direntFirst (dirent buf k) = 0xE5
      · rw [if_pos deleted, if_pos (.inl deleted)]
        exact ih (k + 1) out
      by_cases long : direntAttr (dirent buf k) = 0x0F
      · rw [if_neg deleted, if_pos long, if_pos (.inr long)]
        exact ih (k + 1) out
      rw [if_neg deleted, if_neg long, if_neg (not_or.mpr ⟨deleted, long⟩), packed]
      by_cases fits : LineFits max out (dirent buf k)
      · rw [if_pos fits, if_pos fits]
        exact ih (k + 1) _
      · rw [if_neg fits, if_neg fits, Bool.and_false]

/-- **The loop over the sectors packs each by itself.** -/
theorem listLoop_eq (n s : Nat) (d : Ata) (out : List UInt8) :
    (listLoop g max n s d out).1 =
      packedEach (LineFits max) listedLine out (rootEntries g n s d) := by
  induction n generalizing s d out with
  | zero => rfl
  | succ n ih =>
      rw [listLoop, rootEntries]
      cases read : readSector g d (g.rootStartLba + s) with
      | mk sector d' =>
      cases sector with
      | none => rfl
      | some buf =>
          dsimp only
          rw [listSector_eq, packedEach]
          by_cases returns : ((listedEntries buf 16 0).1 &&
              (packed (LineFits max) listedLine out (listedEntries buf 16 0).2).2) = true
          · rw [if_pos returns, returns]
          · rw [if_neg returns, Bool.eq_false_of_not_eq_true returns]
            exact ih (s + 1) d' _

/-- What `fat16_list_root` returns: the number of bytes written, all of them within the bound. -/
theorem fat16ListRoot_eq (bytes : g.bytesPerSector ≠ 0) (kmalloc : Nat → Bool) (d : Ata) (max : Int) :
    ∃ d', fat16ListRoot g kmalloc d max = .ok (if kmalloc 512 = false then (-1, []) else
      let out := packedEach (LineFits max) listedLine [] (rootEntries g g.rootCount 0 d)
      ((out.length : Int), out), d') := by
  rw [fat16ListRoot, Fat16.rootSectors, if_neg bytes, Except.map]
  by_cases full : kmalloc 512 = false
  · rw [if_pos full, if_pos full]
    exact ⟨d, rfl⟩
  · rw [if_neg full, if_neg full, ← listLoop_eq]
    exact ⟨_, rfl⟩

/-- **A bounded list is a beginning of the whole one** exactly when a sector has bytes, and there
is no memory for one, or behind the first entry that does not fit no sector begins with one that
does.  Both lists are folds over the entries of one sector after the other (`packedEach`): at an
entry that does not fit the loop over the sector stops, but the next sector is read all the same,
and a shorter name may fit there. -/
theorem listRoot_prefix_iff (g : Fat16) (kmalloc : Nat → Bool) (d : Ata) (max : Int) :
    ListsPrefix g kmalloc d max ↔ g.bytesPerSector ≠ 0 ∧ (kmalloc 512 = false ∨
      StaysFull (LineFits max) listedLine [] (rootEntries g g.rootCount 0 d)) := by
  by_cases bytes : g.bytesPerSector = 0
  · refine iff_of_false ?_ fun condition => condition.1 bytes
    rintro ⟨r, out, d', ran, -⟩
    rw [fat16ListRoot, Fat16.rootSectors, if_pos bytes] at ran
    cases ran
  rw [and_iff_right bytes]
  obtain ⟨d', ran⟩ := fat16ListRoot_eq bytes kmalloc d max
  by_cases full : kmalloc 512 = false
  · rw [if_pos full] at ran
    exact iff_of_true ⟨-1, [], d', ran, Nat.zero_le _, .inl ⟨rfl, rfl⟩⟩ (.inl full)
  have bounded : (packedEach (LineFits max) listedLine []
      (rootEntries g g.rootCount 0 d)).length ≤ max.toNat :=
    packedEach_invariant (fun out => out.length ≤ max.toNat) (fun _ _ _ fits => fits.length) _
      (Nat.zero_le _)
  rw [if_neg full] at ran
  rw [← packedEach_eq_iff listedLine_ne_nil]
  constructor
  · rintro ⟨r, out, d'', ran', -, result⟩
    rw [ran] at ran'
    cases ran'
    rcases result with ⟨negative, -⟩ | ⟨-, same⟩
    · exact absurd negative (by omega)
    · exact .inr same
  · intro fits
    exact ⟨_, _, d', ran, bounded, .inr ⟨rfl, fits.resolve_left full⟩⟩

/-! ## A directory of two sectors -/

/-- An entry of a file without contents. -/
def namedEntry (name : List UInt8) : List UInt8 := name ++ 0x20 :: List.replicate 20 0

/-- A volume with a root directory of two sectors: `LONGNAME.TXT` in the first, `A` in the
second. -/
def twoSectorRoot : Ata where
  sectors l := .ofList (
    if l = 0 then List.replicate 11 0 ++ [0, 2, 1, 1, 0, 1, 32, 0, 0, 0, 0, 1, 0]
    else if l = 2 then namedEntry [76, 79, 78, 71, 78, 65, 77, 69, 84, 88, 84]
    else if l = 3 then namedEntry ([65] ++ List.replicate 10 0x20)
    else [])
  diskSectors := 8
  fault _ := false
  waits := 0
  touched := []

/-- What `fat16_init` makes of its boot sector. -/
def twoSectorFat : Fat16 where
  partLba := 0
  bytesPerSector := 512
  sectorsPerCluster := 1
  reservedSectors := 1
  numFats := 1
  rootEntries := 32
  fatSize := 1
  fatStartLba := 1
  rootStartLba := 2
  dataStartLba := 4

/-- **With room for ten bytes `A` is listed without `LONGNAME.TXT`** in front of it. -/
theorem listRoot_skips :
    (fat16Init .initial twoSectorRoot 0).map Prod.fst = .ok twoSectorFat ∧
      ¬ ListsPrefix twoSectorFat (fun _ => true) twoSectorRoot 10 := by
  have listed : (fat16ListRoot twoSectorFat (fun _ => true) twoSectorRoot 10).map Prod.fst =
      .ok (2, [65, 10]) := by
    decide +kernel
  have whole : listPrefix 10 (joined (rootEntries twoSectorFat 2 0 twoSectorRoot)) = [] := by
    decide +kernel
  refine ⟨by decide +kernel, ?_⟩
  rintro ⟨r, out, d', ran, -, result⟩
  rw [ran] at listed
  obtain ⟨rfl, rfl⟩ := Prod.mk.inj (Except.ok.inj listed)
  rcases result with ⟨negative, -⟩ | ⟨-, same⟩
  · cases negative
  · exact absurd (same.trans whole) (by decide)

end Flyos
