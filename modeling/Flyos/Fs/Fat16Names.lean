import Flyos.Fs.Fat16Slots
import Flyos.Lib.Overlay
import Mathlib.Data.List.TakeWhile

/-!
# 8.3 names

`parse_83` stores a name in two fields, `dirent_name` reads them back.  What the loops of the
parser leave is two fields of the characters in upper case, filled up with spaces
(`parse83_eq`); so the names without a space come back, in upper case (`names83`).
-/

namespace Flyos

/-- A character of a valid name: printable, neither a space nor the dot. -/
def NameChar (c : UInt8) : Prop := 0x20 < c ∧ c < 0x7F ∧ c ≠ 0x2E

instance : DecidablePred NameChar := fun c =>
  inferInstanceAs (Decidable (0x20 < c ∧ c < 0x7F ∧ c ≠ 0x2E))

/-- **A valid 8.3 name**: a base name, or a base name, the dot and an extension. -/
inductive Valid83 : List UInt8 → Prop
  | base {base : List UInt8} : (∀ c ∈ base, NameChar c) → 1 ≤ base.length → base.length ≤ 8 →
      Valid83 base
  | ext {base ext : List UInt8} : (∀ c ∈ base, NameChar c) → 1 ≤ base.length → base.length ≤ 8 →
      (∀ c ∈ ext, NameChar c) → 1 ≤ ext.length → ext.length ≤ 3 → Valid83 (base ++ 0x2E :: ext)

/-- What the loops of the parser go on at. -/
def baseChar (c : UInt8) : Bool := decide (c ≠ 0 ∧ c ≠ 0x2E)

def extChar (c : UInt8) : Bool := decide (c ≠ 0)

/-- The base name and the extension of a string, as the parser takes them. -/
def base83 (name : List UInt8) : List UInt8 := (name.takeWhile baseChar).take 8

def ext83 (name : List UInt8) : List UInt8 :=
  if name.getD (base83 name).length 0 = 0x2E then
    ((name.drop ((base83 name).length + 1)).takeWhile extChar).take 3
  else []

/-- A field of `n` bytes: characters, filled up with spaces. -/
def padField (n : Nat) (l : List UInt8) : List UInt8 := l ++ List.replicate (n - l.length) 0x20

variable {name out l : List UInt8} {c : UInt8} {n i j : Nat}

/-! ## Upper case -/

theorem toNat_upperCase (c : UInt8) : (upperCase c).toNat =
    if 0x61 ≤ c.toNat ∧ c.toNat ≤ 0x7A then c.toNat - 0x20 else c.toNat := by
  have letter : (0x61 ≤ c ∧ c ≤ 0x7A) ↔ 0x61 ≤ c.toNat ∧ c.toNat ≤ 0x7A :=
    and_congr UInt8.le_iff_toNat_le UInt8.le_iff_toNat_le
  rw [upperCase]
  by_cases lower : 0x61 ≤ c.toNat ∧ c.toNat ≤ 0x7A
  · rw [if_pos (letter.mpr lower), if_pos lower]
    exact UInt8.toNat_sub_of_le _ _ (UInt8.le_iff_toNat_le.mpr (Nat.le_trans (by decide) lower.1))
  · rw [if_neg fun both => lower (letter.mp both), if_neg lower]

/-- Only letters change, so what is not a letter and is not the upper case of one is told apart
in upper case as well. -/
theorem upperCase_eq_iff {v : UInt8} (other : v.toNat < 0x41) : upperCase c = v ↔ c = v := by
  rw [← UInt8.toNat_inj, ← UInt8.toNat_inj, toNat_upperCase]
  split <;> omega

theorem upperCase_upperCase (c : UInt8) : upperCase (upperCase c) = upperCase c := by
  have once := toNat_upperCase c
  rw [← UInt8.toNat_inj, toNat_upperCase (upperCase c)]
  split at once <;> split <;> omega

/-! ## What the parser stores -/

/-- The next character, or the final 0. -/
theorem getD_eq_of_drop {rest : List UInt8} (here : name.drop i = c :: rest) :
    name.getD i 0 = c ∧ name.drop (i + 1) = rest := by
  have rest_eq := congrArg List.tail here
  rw [List.tail_drop] at rest_eq
  refine ⟨?_, rest_eq⟩
  rw [List.getD_eq_getElem?_getD, ← List.head?_drop, here]
  rfl

theorem getD_eq_zero_of_drop (ended : name.drop i = []) : name.getD i 0 = 0 := by
  rw [List.getD_eq_getElem?_getD, ← List.head?_drop, ended]
  rfl

/-- Storing one byte. -/
theorem set_eq_overlay (inside : i < out.length) (c : UInt8) : out.set i c = overlay out i [c] := by
  rw [List.set_eq_take_append_cons_drop, if_pos inside, overlay, List.append_assoc]
  rfl

/-- Storing one byte and then others behind it. -/
theorem overlay_set (inside : i + (l.length + 1) ≤ out.length) (c : UInt8) :
    overlay (out.set i c) (i + 1) l = overlay out i (c :: l) := by
  have first : i + [c].length ≤ out.length := by
    rw [List.length_singleton]
    omega
  rw [set_eq_overlay (by omega)]
  exact overlay_overlay first

/-- The loop over the base name writes its characters in upper case. -/
theorem parseBase_eq (room : i + n ≤ out.length) :
    parseBase name n i out =
      (i + (((name.drop i).takeWhile baseChar).take n).length,
        overlay out i ((((name.drop i).takeWhile baseChar).take n).map upperCase)) := by
  induction n generalizing i out with
  | zero => simp [parseBase]
  | succ n ih =>
      rw [parseBase]
      cases here : name.drop i with
      | nil =>
          rw [getD_eq_zero_of_drop here, if_neg (by decide)]
          simp
      | cons c rest =>
          obtain ⟨char, rest_eq⟩ := getD_eq_of_drop here
          rw [char]
          by_cases goes_on : c ≠ 0 ∧ c ≠ 0x2E
          · have length := List.length_take_le n (rest.takeWhile baseChar)
            rw [if_pos goes_on, ih (by rw [List.length_set]; omega), rest_eq,
              List.takeWhile_cons_of_pos (p := baseChar) (decide_eq_true goes_on),
              List.take_succ_cons, List.map_cons, List.length_cons, overlay_set (by rw [List.length_map]; omega),
              Nat.add_right_comm, Nat.add_assoc]
          · rw [if_neg goes_on, List.takeWhile_cons_of_neg (p := baseChar)
              fun char => goes_on (of_decide_eq_true char)]
            simp

/-- The loop over the extension writes its characters in upper case. -/
theorem parseExt_eq (room : j + n ≤ out.length) :
    parseExt name n i j out =
      overlay out j ((((name.drop i).takeWhile extChar).take n).map upperCase) := by
  induction n generalizing i j out with
  | zero => simp [parseExt]
  | succ n ih =>
      rw [parseExt]
      cases here : name.drop i with
      | nil =>
          rw [getD_eq_zero_of_drop here, if_neg (by decide)]
          simp
      | cons c rest =>
          obtain ⟨char, rest_eq⟩ := getD_eq_of_drop here
          rw [char]
          by_cases goes_on : c ≠ 0
          · have length := List.length_take_le n (rest.takeWhile extChar)
            rw [if_pos goes_on, ih (by rw [List.length_set]; omega), rest_eq,
              List.takeWhile_cons_of_pos (p := extChar) (decide_eq_true goes_on),
              List.take_succ_cons, List.map_cons, overlay_set (by rw [List.length_map]; omega)]
          · rw [if_neg goes_on, List.takeWhile_cons_of_neg (p := extChar)
              fun char => goes_on (of_decide_eq_true char)]
            simp

theorem length_base83_le (name : List UInt8) : (base83 name).length ≤ 8 := List.length_take_le ..

theorem length_ext83_le (name : List UInt8) : (ext83 name).length ≤ 3 := by
  rw [ext83]
  split
  · exact List.length_take_le ..
  · exact Nat.zero_le _

theorem length_padField (fits : l.length ≤ n) : (padField n l).length = n := by
  rw [padField, List.length_append, List.length_replicate]
  omega

/-- **What the parser stores**: the base name and the extension in upper case, each in its
field. -/
theorem parse83_eq (name : List UInt8) : parse83 name =
    padField 8 ((base83 name).map upperCase) ++ padField 3 ((ext83 name).map upperCase) := by
  have short := length_base83_le name
  have short' := length_ext83_le name
  have based : parseBase name 8 0 (List.replicate 11 0x20) = ((base83 name).length,
      padField 8 ((base83 name).map upperCase) ++ List.replicate 3 0x20) := by
    rw [parseBase_eq (by rw [List.length_replicate]; decide), List.drop_zero, Nat.zero_add,
      overlay_zero, List.drop_replicate, ← base83, padField, List.append_assoc,
      List.replicate_append_replicate]
    congr 3
    rw [List.length_map]
    omega
  have front := length_padField (n := 8) (l := (base83 name).map upperCase)
    (by rw [List.length_map]; exact short)
  rw [parse83, parseName, based]
  dsimp only
  by_cases dot : name.getD (base83 name).length 0 = 0x2E
  · rw [if_pos dot, parseExt_eq (by rw [List.length_append, front, List.length_replicate]), ext83,
      if_pos dot]
    rw [ext83, if_pos dot] at short'
    generalize ((name.drop ((base83 name).length + 1)).takeWhile extChar).take 3 = ext at short' ⊢
    have split_ : List.replicate 3 (0x20 : UInt8) =
        List.replicate (ext.map upperCase).length 0x20 ++
          List.replicate (3 - (ext.map upperCase).length) 0x20 := by
      rw [List.replicate_append_replicate, List.length_map]
      congr 1
      omega
    rw [split_, ← List.append_assoc, overlay_append front List.length_replicate, List.append_assoc]
    rfl
  · rw [if_neg dot, ext83, if_neg dot]
    rfl

/-! ## Reading the fields -/

/-- The characters of a field are those in front of the spaces. -/
theorem fieldText_padField (chars : ∀ c ∈ l, c ≠ 0x20) (n : Nat) : fieldText (padField n l) = l := by
  rw [fieldText, padField, List.takeWhile_append_of_pos fun c mem => decide_eq_true (chars c mem),
    List.takeWhile_replicate, if_neg (by decide), List.append_nil]

/-- **What `dirent_name` makes of two fields.** -/
theorem direntName_fields {e base ext : List UInt8}
    (raw : direntRaw e = padField 8 base ++ padField 3 ext) (sized : base.length ≤ 8)
    (sized' : ext.length ≤ 3) (chars : ∀ c ∈ base, c ≠ 0x20) (chars' : ∀ c ∈ ext, c ≠ 0x20) :
    direntName e = base ++ if ext = [] then [] else 0x2E :: ext := by
  have front := length_padField sized
  have back := length_padField sized'
  have name : e.take 8 = padField 8 base := by
    have taken := congrArg (List.take 8) raw
    rwa [direntRaw, List.take_take, List.take_left' front] at taken
  have rest : (e.drop 8).take 3 = padField 3 ext := by
    have dropped := congrArg (List.drop 8) raw
    rwa [direntRaw, List.drop_take, List.drop_left' front] at dropped
  have first : e.getD 8 0 = (padField 3 ext).headD 0 := by
    rw [← rest, List.getD_eq_getElem?_getD, ← List.head?_drop, List.headD_eq_head?_getD]
    cases e.drop 8 <;> rfl
  rw [direntName, name, rest, fieldText_padField chars, fieldText_padField chars', first]
  cases ext with
  | nil => rfl
  | cons c ext =>
      rw [if_neg (List.cons_ne_nil c ext), padField, List.cons_append, List.headD_cons,
        if_pos (chars' c List.mem_cons_self)]

/-! ## Case -/

/-- The loops take the same characters whatever their case. -/
theorem base83_map (name : List UInt8) :
    base83 (name.map upperCase) = (base83 name).map upperCase := by
  have same : baseChar ∘ upperCase = baseChar := by
    funext c
    rw [Function.comp_apply, baseChar, baseChar, decide_eq_decide]
    exact and_congr (upperCase_eq_iff (by decide)).not (upperCase_eq_iff (by decide)).not
  rw [base83, base83, List.takeWhile_map, same, List.map_take]

theorem ext83_map (name : List UInt8) :
    ext83 (name.map upperCase) = (ext83 name).map upperCase := by
  have same : extChar ∘ upperCase = extChar := by
    funext c
    rw [Function.comp_apply, extChar, extChar, decide_eq_decide]
    exact (upperCase_eq_iff (by decide)).not
  have dot : (name.map upperCase).getD (base83 name).length 0 = 0x2E ↔
      name.getD (base83 name).length 0 = 0x2E := by
    rw [show (0 : UInt8) = upperCase 0 from rfl, List.getD_map, upperCase_eq_iff (by decide)]
    rfl
  rw [ext83, ext83, base83_map, List.length_map]
  by_cases here : name.getD (base83 name).length 0 = 0x2E
  · rw [if_pos (dot.mpr here), if_pos here, ← List.map_drop, List.takeWhile_map, same, List.map_take]
  · rw [if_neg (dot.not.mpr here), if_neg here, List.map_nil]

/-- The case of a name does not matter. -/
theorem parse83_map (name : List UInt8) : parse83 (name.map upperCase) = parse83 name := by
  have twice : upperCase ∘ upperCase = upperCase := funext upperCase_upperCase
  rw [parse83_eq, parse83_eq, base83_map, ext83_map, List.map_map, List.map_map, twice]

/-! ## Valid names -/

theorem NameChar.ne_zero (char : NameChar c) : c ≠ 0 := by
  rintro rfl
  exact absurd char.1 (by decide)

theorem NameChar.upperCase_ne_space (char : NameChar c) : upperCase c ≠ 0x20 := by
  rw [Ne, upperCase_eq_iff (by decide)]
  rintro rfl
  exact absurd char.1 (by decide)

/-- The characters of a base name are taken up to what ends it. -/
theorem base83_append {base rest : List UInt8} (chars : ∀ c ∈ base, NameChar c)
    (sized : base.length ≤ 8) (ends : ∀ c, rest.head? = some c → c = 0x2E) :
    base83 (base ++ rest) = base := by
  have taken : ∀ c ∈ base, baseChar c = true := fun c mem =>
    decide_eq_true ⟨(chars c mem).ne_zero, (chars c mem).2.2⟩
  have ended : rest.takeWhile baseChar = [] := by
    cases rest with
    | nil => rfl
    | cons c rest =>
        rw [ends c rfl]
        rfl
  rw [base83, List.takeWhile_append_of_pos taken, ended, List.append_nil,
    List.take_of_length_le sized]

/-- **A valid name comes back** in upper case. -/
theorem direntName_parse83 {e : List UInt8} (valid : Valid83 name) (raw : direntRaw e = parse83 name) :
    direntName e = name.map upperCase := by
  rw [parse83_eq] at raw
  have chars_upper : ∀ {l : List UInt8}, (∀ c ∈ l, NameChar c) → ∀ c ∈ l.map upperCase, c ≠ 0x20 := by
    intro l chars c mem
    obtain ⟨c', mem', rfl⟩ := List.mem_map.mp mem
    exact (chars c' mem').upperCase_ne_space
  cases valid with
  | base chars some_ sized =>
      have based : base83 name = name := by
        have ends : ∀ c, ([] : List UInt8).head? = some c → c = 0x2E := fun c head => by cases head
        have taken := base83_append chars sized ends
        rwa [List.append_nil] at taken
      have none : ext83 name = [] := by
        rw [ext83, based, List.getD_eq_default _ _ (Nat.le_refl _), if_neg (by decide)]
      rw [based, none] at raw
      rw [direntName_fields raw (by rwa [List.length_map]) (Nat.zero_le _) (chars_upper chars) nofun,
        List.map_nil, if_pos rfl, List.append_nil]
  | @ext base ext chars some_ sized chars' some_' sized' =>
      have based : base83 (base ++ 0x2E :: ext) = base :=
        base83_append chars sized fun c head => (Option.some.inj head).symm
      have exted : ext83 (base ++ 0x2E :: ext) = ext := by
        have taken : ∀ c ∈ ext, extChar c = true := fun c mem =>
          decide_eq_true (chars' c mem).ne_zero
        rw [ext83, based, List.getD_append_right _ _ _ _ (Nat.le_refl _), Nat.sub_self,
          List.getD_cons_zero, if_pos rfl, List.drop_append, List.drop_of_length_le (by omega),
          Nat.add_sub_cancel_left, List.nil_append, List.drop_succ_cons, List.drop_zero,
          List.takeWhile_eq_self_iff.mpr taken, List.take_of_length_le sized']
      have here : ext.map upperCase ≠ [] := by
        intro empty
        rw [List.map_eq_nil_iff] at empty
        rw [empty] at some_'
        exact absurd some_' (by decide)
      rw [based, exted] at raw
      rw [direntName_fields raw (by rwa [List.length_map]) (by rwa [List.length_map])
        (chars_upper chars) (chars_upper chars'), if_neg here, List.map_append, List.map_cons]
      rfl

/-- **The 8.3 codec**: a valid name comes back from its entry in upper case, both parsers store
the same bytes of every string, and two valid names have the same bytes exactly when they are
equal up to case.  Encoder and decoder are loops over the eleven bytes; closed forms for them are
proved first (`parse83_eq`), and the rest is about lists of characters. -/
theorem names83 :
    (∀ name e, Valid83 name → direntRaw e = parse83 name → direntName e = name.map upperCase) ∧
      (∀ name, findName name = parse83 name) ∧
      ∀ name name', Valid83 name → Valid83 name' →
        (parse83 name = parse83 name' ↔ name.map upperCase = name'.map upperCase) := by
  refine ⟨fun name e valid raw => direntName_parse83 valid raw, fun name => rfl,
    fun name name' valid valid' => ⟨fun same => ?_, fun same => ?_⟩⟩
  · have entry : direntRaw (newDirent (parse83 name) 0 0) = parse83 name :=
      direntRaw_newDirent (length_parse83 name)
    rw [← direntName_parse83 valid entry, ← direntName_parse83 valid' (entry.trans same)]
  · rw [← parse83_map name, same, parse83_map]

/-- `readme.txt` comes back as `README.TXT`. -/
theorem names83_readme :
    direntName (newDirent (parse83 [114, 101, 97, 100, 109, 101, 46, 116, 120, 116]) 2 5) =
      [82, 69, 65, 68, 77, 69, 46, 84, 88, 84] :=
  names83.1 _ _ (@Valid83.ext [114, 101, 97, 100, 109, 101] [116, 120, 116]
    (by decide +kernel) (by decide) (by decide) (by decide +kernel) (by decide) (by decide))
    (by decide +kernel)

end Flyos
