import Flyos.Fs.Fat16
import Flyos.Lib.FirstHit
import Mathlib.Data.List.GetD
import Mathlib.Data.Nat.Find

/-!
# The root directory as a row of slots

The scans of `find_root_entry`, `fat16_delete_file` and `write_root_dirent` over the
entries of the root directory, taken as slots `0`, `1`, ...: which slot each stops at,
and how they differ.  A slot is live when a lookup may return it; deletion also stops at
deleted and long-name entries.
-/

namespace Flyos

/-! ## Names -/

section Names

variable {name : List UInt8}

theorem upperCase_ne_zero {c : UInt8} (char : c ≠ 0) : upperCase c ≠ 0 := by
  rw [upperCase]
  split
  · next letter =>
      intro zero
      have low := UInt8.le_iff_toNat_le.mp letter.1
      have toNat := congrArg UInt8.toNat zero
      rw [UInt8.toNat_sub_of_le _ _ (UInt8.le_iff_toNat_le.mpr (Nat.le_trans (by decide) low))] at toNat
      have low' : 0x61 ≤ c.toNat := low
      change c.toNat - 0x20 = 0 at toNat
      omega
  · exact char

theorem upperCase_lt {c : UInt8} (char : c < 0x80) : upperCase c < 0x80 := by
  rw [upperCase]
  split
  · next letter =>
      have low : 0x61 ≤ c.toNat := UInt8.le_iff_toNat_le.mp letter.1
      have high : c.toNat < 0x80 := UInt8.lt_iff_toNat_lt.mp char
      refine UInt8.lt_iff_toNat_lt.mpr ?_
      rw [UInt8.toNat_sub_of_le _ _ (UInt8.le_iff_toNat_le.mpr (Nat.le_trans (by decide) low))]
      show c.toNat - 0x20 < 0x80
      omega
  · exact char

/-- What holds of the characters of the name holds of the base name stored. -/
theorem parseBase_spec {Good : UInt8 → Prop} (chars : ∀ i, name.getD i 0 ≠ 0 → Good (upperCase (name.getD i 0)))
    {n i : Nat} {out : List UInt8} (before : ∀ b ∈ out, Good b) :
    (∀ b ∈ (parseBase name n i out).2, Good b) ∧
      (parseBase name n i out).2.length = out.length := by
  induction n generalizing i out with
  | zero => exact ⟨before, rfl⟩
  | succ n ih =>
      rw [parseBase]
      split
      · next char =>
          have stored : ∀ b ∈ out.set i (upperCase (name.getD i 0)), Good b := by
            intro b mem
            rcases List.mem_or_eq_of_mem_set mem with old | rfl
            · exact before b old
            · exact chars i char.1
          obtain ⟨good, length⟩ := ih (i := i + 1) stored
          exact ⟨good, by rw [length, List.length_set]⟩
      · exact ⟨before, rfl⟩

/-- What holds of the characters of the name holds of the extension stored. -/
theorem parseExt_spec {Good : UInt8 → Prop} (chars : ∀ i, name.getD i 0 ≠ 0 → Good (upperCase (name.getD i 0)))
    {n i j : Nat} {out : List UInt8} (before : ∀ b ∈ out, Good b) :
    (∀ b ∈ parseExt name n i j out, Good b) ∧ (parseExt name n i j out).length = out.length := by
  induction n generalizing i j out with
  | zero => exact ⟨before, rfl⟩
  | succ n ih =>
      rw [parseExt]
      split
      · next char =>
          have stored : ∀ b ∈ out.set j (upperCase (name.getD i 0)), Good b := by
            intro b mem
            rcases List.mem_or_eq_of_mem_set mem with old | rfl
            · exact before b old
            · exact chars i char
          obtain ⟨good, length⟩ := ih (i := i + 1) (j := j + 1) stored
          exact ⟨good, by rw [length, List.length_set]⟩
      · exact ⟨before, rfl⟩

/-- The 11 bytes of a name are spaces and characters of the name. -/
theorem parse83_spec (Good : UInt8 → Prop) (space : Good 0x20)
    (chars : ∀ i, name.getD i 0 ≠ 0 → Good (upperCase (name.getD i 0))) :
    (∀ b ∈ parse83 name, Good b) ∧ (parse83 name).length = 11 := by
  have spaces : ∀ b ∈ List.replicate 11 (0x20 : UInt8), Good b := by
    intro b mem
    rw [(List.mem_replicate.mp mem).2]
    exact space
  obtain ⟨good, length⟩ := parseBase_spec chars (n := 8) (i := 0) spaces
  rw [parse83, parseName]
  split
  · obtain ⟨good', length'⟩ := parseExt_spec chars (n := 3)
      (i := (parseBase name 8 0 (List.replicate 11 0x20)).1 + 1) (j := 8) good
    exact ⟨good', by rw [length', length, List.length_replicate]⟩
  · exact ⟨good, by rw [length, List.length_replicate]⟩

theorem length_parse83 (name : List UInt8) : (parse83 name).length = 11 :=
  (parse83_spec (fun _ => True) trivial fun _ _ => trivial).2

/-- No name starts with the end mark. -/
theorem direntFirst_parse83_ne (name : List UInt8) : direntFirst (parse83 name) ≠ 0 := by
  obtain ⟨good, length⟩ := parse83_spec (fun b => b ≠ 0) (by decide)
    fun i char => upperCase_ne_zero char
  rw [direntFirst, List.getD_eq_getElem _ _ (by rw [length]; decide)]
  exact good _ (List.getElem_mem _)

/-- A name of ASCII characters. -/
def AsciiName (name : List UInt8) : Prop := ∀ c ∈ name, c < 0x80

/-- No ASCII name starts with the deletion mark. -/
theorem AsciiName.direntFirst_ne (ascii : AsciiName name) : direntFirst (parse83 name) ≠ 0xE5 := by
  obtain ⟨good, length⟩ := parse83_spec (fun b => b < 0x80) (by decide) <| by
    intro i char
    by_cases inside : i < name.length
    · rw [List.getD_eq_getElem _ _ inside]
      exact upperCase_lt (ascii _ (List.getElem_mem _))
    · rw [List.getD_eq_default _ _ (by omega)] at char
      exact absurd rfl char
  rw [direntFirst, List.getD_eq_getElem _ _ (by rw [length]; decide)]
  have small := good _ (List.getElem_mem (l := parse83 name) (by rw [length]; decide : 0 < _))
  intro eq
  rw [eq] at small
  exact absurd small (by decide)

end Names

/-! ## Entries -/

section Entries

variable {buf e want : List UInt8} {c k j size : Nat}

/-- The first byte of an entry is that of its name. -/
theorem direntFirst_eq (e : List UInt8) : direntFirst e = direntFirst (direntRaw e) := by
  rw [direntFirst, direntFirst, direntRaw, List.getD_eq_getElem?_getD, List.getD_eq_getElem?_getD,
    List.getElem?_take_of_lt (by decide)]

theorem direntRaw_newDirent (sized : want.length = 11) : direntRaw (newDirent want c size) = want := by
  rw [direntRaw, newDirent, List.append_assoc, List.append_assoc]
  exact List.take_left' sized

theorem direntAttr_newDirent (sized : want.length = 11) :
    direntAttr (newDirent want c size) = 0x20 := by
  rw [direntAttr, newDirent, List.append_assoc, List.append_assoc, List.getD_append_right _ _ _ _
    (by rw [sized]), sized]
  rfl

theorem length_newDirent (sized : want.length = 11) : (newDirent want c size).length = 32 := by
  simp [newDirent, sized, le16]

/-- A word behind a list. -/
theorem word_append {front rest : List UInt8} (sized : front.length = k) (off : Nat) :
    word (front ++ rest) (k + off) = word rest off := by
  rw [word, word, List.getD_append_right _ _ _ _ (by omega),
    List.getD_append_right _ _ _ _ (by omega), sized, Nat.add_sub_cancel_left,
    show k + off + 1 - k = off + 1 by omega]

/-- A word of what follows the name. -/
theorem word_newDirent (sized : want.length = 11) (off : Nat) :
    word (newDirent want c size) (11 + off) =
      word (0x20 :: List.replicate 14 0 ++ le16 c ++ (le16 size ++ le16 (size / 2 ^ 16))) off := by
  have split : newDirent want c size =
      want ++ (0x20 :: List.replicate 14 0 ++ le16 c ++ (le16 size ++ le16 (size / 2 ^ 16))) := by
    simp [newDirent]
  rw [split, word_append sized]

theorem direntCluster_newDirent (sized : want.length = 11) (cluster : c < 2 ^ 16) :
    direntCluster (newDirent want c size) = c := by
  rw [direntCluster, word_newDirent sized 15]
  show (UInt8.ofNat c).toNat + 2 ^ 8 * (UInt8.ofNat (c / 2 ^ 8)).toNat = c
  rw [UInt8.toNat_ofNat', UInt8.toNat_ofNat']
  omega

theorem direntSize_newDirent (sized : want.length = 11) (small : size < 2 ^ 32) :
    direntSize (newDirent want c size) = size := by
  rw [direntSize, word_newDirent sized 17, word_newDirent sized 19]
  show (UInt8.ofNat size).toNat + 2 ^ 8 * (UInt8.ofNat (size / 2 ^ 8)).toNat + 2 ^ 16 *
    ((UInt8.ofNat (size / 2 ^ 16)).toNat + 2 ^ 8 * (UInt8.ofNat (size / 2 ^ 16 / 2 ^ 8)).toNat) = size
  simp only [UInt8.toNat_ofNat']
  omega

/-- Marking an entry. -/
theorem dirent_set {x : UInt8} :
    dirent (buf.set (32 * k) x) j = if j = k then (dirent buf k).set 0 x else dirent buf j := by
  rw [dirent, dirent, dirent]
  split
  · next eq =>
      have first : (buf.drop (32 * k)).set 0 x = (buf.set (32 * k) x).drop (32 * k) := by
        rw [List.drop_set, if_neg (Nat.lt_irrefl _), Nat.sub_self]
      rw [eq, ← first, List.take_set]
  · next other =>
      apply List.ext_getElem?
      intro i
      by_cases inside : i < 32
      · rw [List.getElem?_take_of_lt inside, List.getElem?_take_of_lt inside, List.getElem?_drop,
          List.getElem?_drop, List.getElem?_set_ne (by omega)]
      · rw [List.getElem?_take_eq_none (by omega), List.getElem?_take_eq_none (by omega)]

/-- Replacing an entry. -/
theorem dirent_setDirent (inside : 32 * k + 32 ≤ buf.length) (sized : e.length = 32) :
    dirent (setDirent buf k e) j = if j = k then e else dirent buf j := by
  have front : (buf.take (32 * k)).length = 32 * k := by rw [List.length_take]; omega
  rw [dirent, dirent, setDirent]
  split
  · next eq =>
      rw [eq, List.append_assoc, List.drop_left' front]
      exact List.take_left' sized
  · next other =>
      apply List.ext_getElem?
      intro i
      by_cases within : i < 32
      · rw [List.getElem?_take_of_lt within, List.getElem?_take_of_lt within, List.getElem?_drop,
          List.getElem?_drop]
        by_cases before : 32 * j + i < 32 * k
        · rw [List.append_assoc, List.getElem?_append_left (by omega), List.getElem?_take_of_lt before]
        · rw [List.getElem?_append_right (by rw [List.length_append, front, sized]; omega),
            List.length_append, front, sized, List.getElem?_drop]
          congr 1
          omega
      · rw [List.getElem?_take_eq_none (by omega), List.getElem?_take_eq_none (by omega)]

theorem length_setDirent (inside : 32 * k + 32 ≤ buf.length) (sized : e.length = 32) :
    (setDirent buf k e).length = buf.length := by
  simp only [setDirent, List.length_append, List.length_take, List.length_drop, sized]
  omega

end Entries

/-! ## Which slot a scan stops at -/

/-- An entry that a lookup may return. -/
def LiveEntry (e : List UInt8) : Prop :=
  direntFirst e ≠ 0 ∧ direntFirst e ≠ 0xE5 ∧ direntAttr e ≠ 0x0F

instance (e : List UInt8) : Decidable (LiveEntry e) :=
  inferInstanceAs (Decidable (_ ∧ _ ∧ _))

section Slots

/-- The slot whose entry `find_root_entry` returns. -/
def findSlot (slot : Nat → List UInt8) (n : Nat) (want : List UInt8) : Option Nat :=
  match firstHit (fun i => findVisit want (slot i)) n 0 with
  | some (i, some _) => some i
  | _ => none

/-- The slot that `fat16_delete_file` deletes. -/
def deleteSlot (slot : Nat → List UInt8) (n : Nat) (want : List UInt8) : Option Nat :=
  match firstHit (fun i => deleteVisit want (slot i)) n 0 with
  | some (i, true) => some i
  | _ => none

/-- The slot that `write_root_dirent` fills. -/
def writeSlot (slot : Nat → List UInt8) (n : Nat) : Option Nat :=
  (firstHit (fun i => writeVisit (slot i)) n 0).map Prod.fst

variable {slot slot' : Nat → List UInt8} {n i : Nat} {want e : List UInt8}

/-- Only the slots of the directory matter to the scans. -/
theorem findSlot_congr (same : ∀ k < n, slot' k = slot k) :
    findSlot slot' n want = findSlot slot n want := by
  rw [findSlot, findSlot, firstHit_congr fun k _ inside => by rw [same k (by omega)]]

theorem deleteSlot_congr (same : ∀ k < n, slot' k = slot k) :
    deleteSlot slot' n want = deleteSlot slot n want := by
  rw [deleteSlot, deleteSlot, firstHit_congr fun k _ inside => by rw [same k (by omega)]]

theorem writeSlot_congr (same : ∀ k < n, slot' k = slot k) :
    writeSlot slot' n = writeSlot slot n := by
  rw [writeSlot, writeSlot, firstHit_congr fun k _ inside => by rw [same k (by omega)]]

/-- The lookup stops at the end mark and at a live entry of the name. -/
theorem findVisit_eq_some {r : Option (List UInt8)} :
    findVisit want e = some r ↔ (direntFirst e = 0 ∧ r = none) ∨
      (LiveEntry e ∧ direntRaw e = want ∧ r = some e) := by
  rw [findVisit, LiveEntry]
  by_cases ended : direntFirst e = 0
  · simp [ended, eq_comm]
  by_cases deleted : direntFirst e = 0xE5
  · simp [deleted]
  by_cases long : direntAttr e = 0x0F
  · simp [ended, deleted, long]
  by_cases named : direntRaw e = want
  · simp [ended, deleted, long, named, eq_comm]
  · simp [ended, deleted, long, named]

/-- Deletion stops at the end mark and at any other entry of the name. -/
theorem deleteVisit_eq_some {r : Bool} :
    deleteVisit want e = some r ↔ (direntFirst e = 0 ∧ r = false) ∨
      (direntFirst e ≠ 0 ∧ direntRaw e = want ∧ r = true) := by
  rw [deleteVisit]
  by_cases ended : direntFirst e = 0
  · simp [ended, eq_comm]
  by_cases named : direntRaw e = want
  · simp [ended, named, eq_comm]
  · simp [ended, named]

theorem findVisit_eq_none :
    findVisit want e = none ↔ direntFirst e ≠ 0 ∧ ¬ (LiveEntry e ∧ direntRaw e = want) := by
  rw [findVisit, LiveEntry]
  by_cases ended : direntFirst e = 0
  · simp [ended]
  by_cases deleted : direntFirst e = 0xE5
  · simp [deleted]
  by_cases long : direntAttr e = 0x0F
  · simp [ended, deleted, long]
  by_cases named : direntRaw e = want <;> simp [ended, deleted, long, named]

theorem deleteVisit_eq_none :
    deleteVisit want e = none ↔ direntFirst e ≠ 0 ∧ direntRaw e ≠ want := by
  rw [deleteVisit]
  by_cases ended : direntFirst e = 0
  · simp [ended]
  · by_cases named : direntRaw e = want <;> simp [ended, named]

/-- The slot a lookup finds: the first live entry of the name before the end mark. -/
theorem findSlot_eq_some_iff :
    findSlot slot n want = some i ↔ i < n ∧ LiveEntry (slot i) ∧ direntRaw (slot i) = want ∧
      ∀ k < i, direntFirst (slot k) ≠ 0 ∧ ¬ (LiveEntry (slot k) ∧ direntRaw (slot k) = want) := by
  have hit : findSlot slot n want = some i ↔
      ∃ e, firstHit (fun i => findVisit want (slot i)) n 0 = some (i, some e) := by
    rw [findSlot]
    cases firstHit (fun i => findVisit want (slot i)) n 0 with
    | none => simp
    | some r =>
        obtain ⟨j, r⟩ := r
        cases r <;> simp
  rw [hit]
  simp only [firstHit_eq_some_iff, findVisit_eq_some, findVisit_eq_none]
  constructor
  · rintro ⟨e, -, inside, (⟨-, no⟩ | ⟨live, named, -⟩), before⟩
    · cases no
    · exact ⟨by omega, live, named, fun k less => before k (Nat.zero_le k) less⟩
  · rintro ⟨inside, live, named, before⟩
    exact ⟨slot i, Nat.zero_le i, by omega, .inr ⟨live, named, rfl⟩, fun k _ less => before k less⟩

/-- The slot deletion takes: the first entry of the name before the end mark, live or not. -/
theorem deleteSlot_eq_some_iff :
    deleteSlot slot n want = some i ↔
      i < n ∧ direntFirst (slot i) ≠ 0 ∧ direntRaw (slot i) = want ∧
        ∀ k < i, direntFirst (slot k) ≠ 0 ∧ direntRaw (slot k) ≠ want := by
  have hit : deleteSlot slot n want = some i ↔
      firstHit (fun i => deleteVisit want (slot i)) n 0 = some (i, true) := by
    rw [deleteSlot]
    cases firstHit (fun i => deleteVisit want (slot i)) n 0 with
    | none => simp
    | some r =>
        obtain ⟨j, r⟩ := r
        cases r <;> simp
  rw [hit]
  simp only [firstHit_eq_some_iff, deleteVisit_eq_some, deleteVisit_eq_none]
  constructor
  · rintro ⟨-, inside, (⟨-, no⟩ | ⟨more, named, -⟩), before⟩
    · cases no
    · exact ⟨by omega, more, named, fun k less => before k (Nat.zero_le k) less⟩
  · rintro ⟨inside, more, named, before⟩
    exact ⟨Nat.zero_le i, by omega, .inr ⟨more, named, trivial⟩, fun k _ less => before k less⟩

/-- What a lookup finds, deletion does not pass. -/
theorem deleteSlot_ne_none (found : findSlot slot n want = some i) :
    ∃ j, deleteSlot slot n want = some j ∧ j ≤ i := by
  obtain ⟨inside, live, named, before⟩ := findSlot_eq_some_iff.mp found
  have some : ∃ j, direntRaw (slot j) = want := ⟨i, named⟩
  have le : Nat.find some ≤ i := Nat.find_min' some named
  refine ⟨Nat.find some, deleteSlot_eq_some_iff.mpr ⟨by omega, ?_, Nat.find_spec some, ?_⟩, le⟩
  · rcases Nat.lt_or_eq_of_le le with less | eq
    · exact (before _ less).1
    · rw [eq]
      exact live.1
  · intro k less
    exact ⟨(before k (by omega)).1, Nat.find_min some less⟩

/-- A live entry that deletion takes is the one a lookup finds. -/
theorem findSlot_of_deleteSlot (taken : deleteSlot slot n want = some i)
    (live : LiveEntry (slot i)) : findSlot slot n want = some i := by
  obtain ⟨inside, -, named, before⟩ := deleteSlot_eq_some_iff.mp taken
  exact findSlot_eq_some_iff.mpr ⟨inside, live, named, fun k less =>
    ⟨(before k less).1, fun both => (before k less).2 both.2⟩⟩

/-- Where deletion finds nothing, neither does a lookup. -/
theorem findSlot_eq_none (passed : deleteSlot slot n want = none) :
    findSlot slot n want = none := by
  cases found : findSlot slot n want with
  | none => rfl
  | some i =>
      obtain ⟨j, taken, -⟩ := deleteSlot_ne_none found
      rw [passed] at taken
      cases taken

/-- A name that starts with the deletion mark is never found. -/
theorem findSlot_deleted (marked : direntFirst want = 0xE5) : findSlot slot n want = none := by
  cases found : findSlot slot n want with
  | none => rfl
  | some i =>
      obtain ⟨-, live, named, -⟩ := findSlot_eq_some_iff.mp found
      have first := direntFirst_eq (slot i)
      rw [named, marked] at first
      exact absurd first live.2.1

/-- The slot that is filled: the first that is not in use. -/
theorem writeSlot_eq_some_iff :
    writeSlot slot n = some i ↔ i < n ∧ (direntFirst (slot i) = 0 ∨ direntFirst (slot i) = 0xE5) ∧
      ∀ k < i, direntFirst (slot k) ≠ 0 ∧ direntFirst (slot k) ≠ 0xE5 := by
  have hit : writeSlot slot n = some i ↔
      firstHit (fun i => writeVisit (slot i)) n 0 = some (i, ()) := by
    rw [writeSlot]
    cases firstHit (fun i => writeVisit (slot i)) n 0 with
    | none => simp
    | some r => simp [Prod.ext_iff]
  have used : ∀ k, writeVisit (slot k) = none ↔
      direntFirst (slot k) ≠ 0 ∧ direntFirst (slot k) ≠ 0xE5 := by
    intro k
    rw [writeVisit]
    split
    · next free => simp only [reduceCtorEq, false_iff, not_and_or, not_not, ne_eq, free]
    · next busy => simpa using busy
  have unused : ∀ k, writeVisit (slot k) = some () ↔
      (direntFirst (slot k) = 0 ∨ direntFirst (slot k) = 0xE5) := by
    intro k
    rw [writeVisit]
    split
    · next free => simp [free]
    · next busy => simp [busy]
  rw [hit]
  simp only [firstHit_eq_some_iff, used, unused]
  constructor
  · rintro ⟨-, inside, free, before⟩
    exact ⟨by omega, free, fun k less => before k (Nat.zero_le k) less⟩
  · rintro ⟨inside, free, before⟩
    exact ⟨Nat.zero_le i, by omega, free, fun k _ less => before k less⟩

end Slots

end Flyos
