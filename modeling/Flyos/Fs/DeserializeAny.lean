import Flyos.Fs.Allocators
import Flyos.Fs.DeserializeSpec
import Flyos.Fs.RamfsRun

/-!
# Reading any image

`Records bs f` is the format: the bytes `bs` are the records of the entries of `f`, and
`Describes input f` says so of a whole image.  What `ramfs_serialize` writes is in this
format (`records_encode`), but the reader takes more: longer names, which it cuts, and an
end mark with a length, which it skips.

`ramfsDeserialize_reports` is what the reader does with any bytes, whichever allocations
fail.  If it returns 0, the bytes describe a forest and every entry of it was created;
the contents are those described if no allocation failed.  If it returns -1, what was read
until then stays.  In both cases the entries that were there before are behind the new
ones, as they were.
-/

namespace Flyos

variable {H : Type*} {A : Allocator H} {s t u : Ramfs H} {kids : Nat → List Nat}
  {depth : Nat → Nat}

namespace Forest

/-- The entries of one forest in front of those of another. -/
def append : Forest → Forest → Forest
  | nil, g => g
  | file name bytes rest, g => file name bytes (rest.append g)
  | dir name kids rest, g => dir name kids (rest.append g)

/-- The names and the directories, without the contents of the files. -/
def blank : Forest → Forest
  | nil => nil
  | file name _ rest => file name [] rest.blank
  | dir name kids rest => dir name kids.blank rest.blank

/-- Entries are created one after the other. -/
theorem addTo_append (f f' g : Forest) : (f.append f').addTo g = f'.addTo (f.addTo g) := by
  induction f generalizing g with
  | nil => rfl
  | file name bytes rest ih => exact ih _
  | dir name kids rest _ ih => exact ih _

theorem blank_append (f g : Forest) : (f.append g).blank = f.blank.append g.blank := by
  induction f with
  | nil => rfl
  | file name bytes rest ih => rw [append, blank, blank, append, ih]
  | dir name kids rest _ ih => rw [append, blank, blank, append, ih]

end Forest

/-! ## The format -/

/-- The name in a record: at most 63 bytes, up to the first NUL. -/
def recordName (name : List UInt8) : CString := cString (name.take (ramfsNameMax - 1))

/-- **The records of the entries of a directory.** -/
inductive Records : List UInt8 → Forest → Prop
  | nil : Records [] .nil
  | file {name bytes bs : List UInt8} {rest : Forest} : name.length < 256 →
      bytes.length < 2 ^ 32 → Records bs rest →
      Records (NodeType.file.byte :: UInt8.ofNat name.length :: name ++
        (le32 bytes.length ++ (bytes ++ bs))) (.file (recordName name) bytes rest)
  | dir {name ks bs : List UInt8} {kids rest : Forest} : name.length < 256 →
      Records ks kids → Records bs rest →
      Records (NodeType.dir.byte :: UInt8.ofNat name.length :: name ++ (ks ++ (endMark ++ bs)))
        (.dir (recordName name) kids rest)
  | skip {x : UInt8} {bs : List UInt8} {f : Forest} : x ≠ 0 → Records bs f →
      Records (0xFF :: x :: bs) f

/-- **What an image describes**: behind the magic and the size there are records, up to an end mark
or to the end that the size gives, or that of the input. -/
def Describes (input : List UInt8) (f : Forest) : Prop :=
  16 ≤ input.length ∧ input.take 8 = magic ∧ ∃ bs tail,
    (input.take (ofLe32 ((input.drop 8).take 4))).drop 12 = bs ++ tail ∧ Records bs f ∧
      (tail.length < 2 ∨ endMark <+: tail)

/-- Records stand one behind the other. -/
theorem Records.append {bs cs : List UInt8} {f g : Forest} (records : Records bs f)
    (records' : Records cs g) : Records (bs ++ cs) (f.append g) := by
  induction records with
  | nil => exact records'
  | file short small _ ih =>
      have longer := Records.file short small ih
      simpa only [List.append_assoc, List.cons_append, Forest.append] using longer
  | dir short kids _ _ ih =>
      have longer := Records.dir short kids ih
      simpa only [List.append_assoc, List.cons_append, Forest.append] using longer
  | skip nonzero _ ih => exact .skip nonzero ih

/-- What `ramfs_serialize` writes is in the format. -/
theorem records_encode {f : Forest} (well : f.WellNamed) (small : (encode f).length < 2 ^ 32) :
    Records (encode f) f := by
  have named : ∀ {name : CString}, name.length < ramfsNameMax → 0 ∉ name →
      recordName name = name := by
    intro name short plain
    have whole : name.take (ramfsNameMax - 1) = name :=
      List.take_of_length_le (Nat.le_of_lt_succ short)
    rw [recordName, whole, cString_eq plain]
  induction f with
  | nil => exact .nil
  | file name bytes rest ih =>
      obtain ⟨short, plain, -, well'⟩ := well
      simp only [encode, List.length_append, List.length_cons] at small
      have tail := ih well' (by omega)
      have record := Records.file
        (show name.length < 256 from Nat.lt_of_lt_of_le short (by decide))
        (show bytes.length < 2 ^ 32 by omega) tail
      rwa [named short plain] at record
  | dir name kids rest ihKids ih =>
      obtain ⟨short, plain, -, wellKids, well'⟩ := well
      simp only [encode, List.length_append, List.length_cons] at small
      have record := Records.dir
        (show name.length < 256 from Nat.lt_of_lt_of_le short (by decide))
        (ihKids wellKids (by omega)) (ih well' (by omega))
      rwa [named short plain] at record

/-! ## Reading one record -/

variable {input : List UInt8} {len : Nat}

/-- In directory `p`, which showed `g`, the entries of `f` were created. -/
structure ReadIn (A : Allocator H) (s t : Ramfs H) (p : Nat) (l : List Nat) (g f : Forest) :
    Prop where
  created : ∃ l', Created A s t p l l' (f.addTo g)
  oom : s.oom = true → t.oom = true

/-- `f` is what `f'` describes, with its contents if no allocation failed. -/
def Faithful (t : Ramfs H) (f f' : Forest) : Prop :=
  f.blank = f'.blank ∧ (t.oom = false → f = f')

/-- From `pos` on, up to `r`, the input has the records of `f`. -/
def RecordsAt (input : List UInt8) (len pos r : Nat) (f : Forest) : Prop :=
  ∃ bs, input.drop pos = bs ++ input.drop r ∧ r = pos + bs.length ∧ r ≤ len ∧ Records bs f

/-- A state with the same files, in which nothing was created. -/
theorem ReadIn.of_same (files : SameFiles s t) (inv : RamfsInv A t kids depth)
    (oom : t.oom = s.oom ∨ t.oom = true) {p : Nat} {n : Node} (at_p : s.nodes p = some n)
    {g : Forest} {l : List Nat} (shows : Shows s n.children g l) : ReadIn A s t p l g .nil := by
  have bytes : ∀ x, fileBytes t x = fileBytes s x := fun x => by
    rw [fileBytes, fileBytes, files.nodes, files.bufs]
  refine ⟨⟨l, ⟨⟨kids, depth, inv⟩, files.root, ⟨n, n.children, at_p, ?_, ?_⟩,
    fun x mem => .inl mem, fun at_x _ => ⟨?_, bytes _⟩⟩⟩, fun full => ?_⟩
  · rw [files.nodes, at_p]
  · exact shows.congr fun x _ => ⟨by rw [files.nodes], bytes x⟩
  · rw [files.nodes, at_x]
  · exact oom.elim (fun same => same.trans full) id

/-- Nothing was created. -/
theorem ReadIn.refl (inv : RamfsInv A s kids depth) {p : Nat} {n : Node}
    (at_p : s.nodes p = some n) {g : Forest} {l : List Nat} (shows : Shows s n.children g l) :
    ReadIn A s s p l g .nil :=
  .of_same ⟨rfl, rfl, rfl, rfl⟩ inv (.inl rfl) at_p shows

/-- What stands in front of an entry. -/
theorem drop_header {pos : Nat} {type nlen : UInt8} (first : input[pos]? = some type)
    (second : input[pos + 1]? = some nlen) (inside : pos + 2 + nlen.toNat ≤ input.length) :
    ∃ name : List UInt8, name.length = nlen.toNat ∧ name.length < 256 ∧
      slice input (pos + 2) (min nlen.toNat (ramfsNameMax - 1)) =
        some (name.take (ramfsNameMax - 1)) ∧
      input.drop pos =
        type :: UInt8.ofNat name.length :: name ++ input.drop (pos + 2 + nlen.toNat) := by
  obtain ⟨low, at_type⟩ := List.getElem?_eq_some_iff.mp first
  obtain ⟨low', at_nlen⟩ := List.getElem?_eq_some_iff.mp second
  have length : ((input.drop (pos + 2)).take nlen.toNat).length = nlen.toNat := by
    rw [List.length_take, List.length_drop]
    omega
  have behind : (input.drop (pos + 2)).take nlen.toNat ++ input.drop (pos + 2 + nlen.toNat) =
      input.drop (pos + 2) := by
    have split := List.take_append_drop nlen.toNat (input.drop (pos + 2))
    rwa [List.drop_drop] at split
  refine ⟨(input.drop (pos + 2)).take nlen.toNat, length, by rw [length]; exact nlen.toNat_lt,
    ?_, ?_⟩
  · rw [slice, if_pos (by omega), List.take_take, Nat.min_comm]
  · rw [length, UInt8.ofNat_toNat, List.drop_eq_getElem_cons low, at_type,
      List.drop_eq_getElem_cons low', at_nlen, List.cons_append, List.cons_append, behind]

/-- A slice is what stands there. -/
theorem drop_of_slice {pos n : Nat} {b : List UInt8} (there : slice input pos n = some b) :
    b.length = n ∧ input.drop pos = b ++ input.drop (pos + n) := by
  rw [slice] at there
  split at there
  case isFalse => cases there
  case isTrue fits =>
    obtain rfl := Option.some.inj there
    refine ⟨?_, ?_⟩
    · rw [List.length_take, List.length_drop]
      omega
    · have split := List.take_append_drop n (input.drop pos)
      rw [List.drop_drop] at split
      exact split.symm

/-- Four bytes are those of their value. -/
theorem le32_ofLe32 {b : List UInt8} (four : b.length = 4) : le32 (ofLe32 b) = b := by
  match b, four with
  | [w, x, y, z], _ =>
      have byte : ∀ (n : Nat) (v : UInt8), n % 256 = v.toNat → UInt8.ofNat n = v := by
        intro n v same
        apply UInt8.toNat_inj.mp
        rw [UInt8.toNat_ofNat', same]
      have := w.toNat_lt
      have := x.toNat_lt
      have := y.toNat_lt
      have := z.toNat_lt
      simp only [le32, ofLe32, List.foldr_cons, List.foldr_nil]
      rw [byte _ w (by omega), byte _ x (by omega), byte _ y (by omega), byte _ z (by omega)]

/-- A bounded name fits a node. -/
theorem strCopy_recordName (name : List UInt8) :
    strCopy (recordName name) ramfsNameMax = recordName name := by
  refine List.take_of_length_le ?_
  have cut : (recordName name).length ≤ (name.take (ramfsNameMax - 1)).length :=
    (List.takeWhile_sublist _).length_le
  rw [List.length_take] at cut
  omega

section

variable {p c pos r : Nat} {n : Node} {g : Forest} {l : List Nat} {name : List UInt8}

/-- A creation: nothing, or a child with the name. -/
theorem createNode_read (inv : RamfsInv A s kids depth) (at_p : s.nodes p = some n)
    (shows : Shows s n.children g l) (type : NodeType) (name : CString) :
    ∃ c t, createNode A type s p name = some (c, t) ∧
      (c = 0 ∧ ReadIn A s t p l g .nil ∨
        Child A s t p c n type name ∧ t.oom = s.oom ∧ ∃ kids depth, RamfsInv A t kids depth) := by
  obtain ⟨c, t, made, ⟨null, files, inv', oom, -⟩ |
    ⟨nonnull, -, -, unused, -, nodes, bufs, root, -, oom, inv'⟩⟩ := createNode_spec inv at_p type name
  · exact ⟨c, t, made, .inl ⟨null, .of_same files inv' oom at_p shows⟩⟩
  · exact ⟨c, t, made, .inr ⟨⟨nonnull, unused, nodes, bufs, root⟩, oom, _, _, inv'⟩⟩

/-- A file that was created gets its contents, if there is memory. -/
theorem write_read (child : Child A s t p c n .file (recordName name))
    (inv : RamfsInv A t kids depth) (oom : t.oom = s.oom) (at_p : s.nodes p = some n)
    (shows : Shows s n.children g l) (out : p ∉ l) {data : List UInt8}
    (small : data.length < 2 ^ 32) :
    ∃ w u f, ramfsWrite A t c data 0 = some (w, u) ∧ ReadIn A s u p l g f ∧
      Faithful u f (.file (recordName name) data .nil) := by
  have at_c := child.at_child at_p
  obtain ⟨u, inv', ⟨ran, files, why⟩ | ⟨-, ran, written⟩⟩ := ramfsWrite_spec inv at_c
    (by omega : 0 + data.length ≤ 2 ^ 63)
  · -- the contents could not be stored, and the file stays empty
    have full : u.oom = true := by
      rcases why with ⟨other, -⟩ | ⟨-, full⟩
      · exact absurd rfl other
      · exact full
    have bytes : ∀ x, fileBytes u x = fileBytes t x := fun x => by
      rw [fileBytes, fileBytes, files.nodes, files.bufs]
    refine ⟨-1, u, .file (recordName name) [] .nil, ran, ⟨⟨_, child.created at_p shows out
      ⟨_, _, inv'⟩ files.root (fun at_x _ => ⟨by rw [files.nodes, at_x], bytes _⟩)
      (fun tail => ?_) (k := []) (by simp)⟩, fun _ => full⟩, rfl, fun calm => ?_⟩
    · refine ⟨child.nonnull, _, l, rfl, by rw [files.nodes, at_c], strCopy_recordName name, rfl, ?_,
        tail⟩
      rw [bytes, child.empty at_p]
    · rw [full] at calm
      cases calm
  · refine ⟨_, u, .file (recordName name) data .nil, ran, ⟨⟨_, child.created at_p shows out
      ⟨_, _, inv'⟩ written.root
      (fun at_x ne => ⟨(written.nodes ne).trans at_x, written.others ne⟩)
      (fun tail => ?_) (k := []) (by simp)⟩, fun full => ?_⟩, rfl, fun _ => rfl⟩
    · obtain ⟨m, at_c', shell, -⟩ := written.node
      simp only [Node.shell, newNode, Prod.mk.injEq] at shell
      obtain ⟨named, type, -, -, next⟩ := shell
      refine ⟨child.nonnull, m, l, rfl, at_c', named.trans (strCopy_recordName name), type, ?_,
        by rwa [next]⟩
      rw [written.bytes (Nat.zero_le _), child.empty at_p, overlay_zero, List.drop_nil,
        List.append_nil]
    · rw [written.oom, oom, full]

/-- An end mark with a length is skipped. -/
theorem RecordsAt.skip {nlen : UInt8} (first : input[pos]? = some 0xFF)
    (second : input[pos + 1]? = some nlen) (nonzero : nlen ≠ 0) (inside : pos + 2 ≤ len) :
    RecordsAt input len pos (pos + 2) .nil := by
  obtain ⟨low, at_type⟩ := List.getElem?_eq_some_iff.mp first
  obtain ⟨low', at_nlen⟩ := List.getElem?_eq_some_iff.mp second
  refine ⟨[0xFF, nlen], ?_, rfl, inside, .skip nonzero .nil⟩
  rw [List.drop_eq_getElem_cons low, at_type, List.drop_eq_getElem_cons low', at_nlen]
  rfl

/-- The record of a file: its header, its size and its contents. -/
theorem RecordsAt.file {sz data : List UInt8} (short : name.length < 256)
    (header : input.drop pos =
      NodeType.file.byte :: UInt8.ofNat name.length :: name ++ input.drop (pos + 2 + name.length))
    (sized : slice input (pos + 2 + name.length) 4 = some sz)
    (there : slice input (pos + 2 + name.length + 4) (ofLe32 sz) = some data)
    (inside : pos + 2 + name.length + 4 + ofLe32 sz ≤ len) :
    RecordsAt input len pos (pos + 2 + name.length + 4 + ofLe32 sz)
      (.file (recordName name) data .nil) := by
  obtain ⟨four, size⟩ := drop_of_slice sized
  obtain ⟨length, contents⟩ := drop_of_slice there
  have small : data.length < 2 ^ 32 := by
    rw [length]
    exact ofLe32_lt four
  refine ⟨_, ?_, ?_, inside, .file short small .nil⟩
  · rw [header, size, contents, length, le32_ofLe32 four]
    simp only [List.append_assoc, List.cons_append, List.nil_append]
  · simp only [List.length_cons, List.length_append, length_le32, List.length_nil]
    omega

/-- The record of a directory: its header, the records of its contents and an end mark. -/
theorem RecordsAt.dir {f : Forest} {q : Nat} (short : name.length < 256)
    (header : input.drop pos =
      NodeType.dir.byte :: UInt8.ofNat name.length :: name ++ input.drop (pos + 2 + name.length))
    (records : RecordsAt input len (pos + 2 + name.length) q f)
    (mark : input.drop q = endMark ++ input.drop (q + 2)) (inside : q + 2 ≤ len) :
    RecordsAt input len pos (q + 2) (.dir (recordName name) f .nil) := by
  obtain ⟨bs, at_kids, rfl, -, kidsRecords⟩ := records
  refine ⟨_, ?_, ?_, inside, .dir short kidsRecords .nil⟩
  · rw [header, at_kids, mark]
    simp only [List.append_assoc, List.cons_append, List.nil_append]
  · have two : endMark.length = 2 := rfl
    simp only [List.length_cons, List.length_append, List.length_nil, two]
    omega

/-- A directory that was created gets the entries that were read into it. -/
theorem ReadIn.dir {f : Forest} (read : ReadIn A t u c [] .nil f)
    (child : Child A s t p c n .dir (recordName name)) (oom : t.oom = s.oom)
    (at_p : s.nodes p = some n) (shows : Shows s n.children g l) (out : p ∉ l) :
    ReadIn A s u p l g (.dir (recordName name) f .nil) := by
  obtain ⟨l', inner⟩ := read.created
  refine ⟨⟨_, child.created at_p shows out inner.inv inner.root inner.others
    (fun tail => ?_) (k := l') fun x mem => ?_⟩, fun full => read.oom (oom.trans full)⟩
  · obtain ⟨m', c', before, after, contents⟩ := inner.dir
    obtain rfl := Option.some.inj (before.symm.trans (child.at_child at_p))
    exact ⟨child.nonnull, _, l', l, rfl, after, strCopy_recordName name, rfl, contents, tail⟩
  · exact (inner.fresh x mem).elim (by simp) child.none_of_none

/-- The records of one entry, and those of the others. -/
theorem RecordsAt.append {pos q r : Nat} {f f' : Forest} (records : RecordsAt input len pos q f)
    (records' : RecordsAt input len q r f') : RecordsAt input len pos r (f.append f') := by
  obtain ⟨bs, at_pos, rfl, -, read⟩ := records
  obtain ⟨cs, at_q, rfl, inside, read'⟩ := records'
  refine ⟨bs ++ cs, ?_, ?_, inside, read.append read'⟩
  · rw [at_pos, at_q, List.append_assoc]
  · rw [List.length_append]
    omega

/-- Entries are read one after the other. -/
theorem ReadIn.append {f f' : Forest} (read : ReadIn A s t p l g f) {l' : List Nat}
    (made : Created A s t p l l' (f.addTo g)) (read' : ReadIn A t u p l' (f.addTo g) f') :
    ReadIn A s u p l g (f.append f') := by
  obtain ⟨l'', made'⟩ := read'.created
  refine ⟨⟨l'', ?_⟩, fun full => read'.oom (read.oom full)⟩
  rw [Forest.addTo_append]
  exact made.trans made'

theorem Faithful.append {f f' h h' : Forest} (first : Faithful t f h)
    (second : Faithful u f' h') (calm : u.oom = false → t.oom = false) :
    Faithful u (f.append f') (h.append h') := by
  refine ⟨?_, fun none => ?_⟩
  · rw [Forest.blank_append, Forest.blank_append, first.1, second.1]
  · rw [first.2 (calm none), second.2 none]

/-- What reading one entry does, at some fuel. -/
def NodeReads (A : Allocator H) (input : List UInt8) (len fuel : Nat) : Prop :=
  ∀ {s t : Ramfs H} {kids depth p n g l pos r}, RamfsInv A s kids depth → s.nodes p = some n →
    Shows s n.children g l → p ∉ l → atEnd input pos = some false →
    deserNode A input len fuel s p pos = some (r, t) →
    ∃ f, ReadIn A s t p l g f ∧
      (r ≠ 0 → ∃ f', RecordsAt input len pos r f' ∧ Faithful t f f')

/-- What reading the contents of a directory does, at some fuel. -/
def KidsRead (A : Allocator H) (input : List UInt8) (len fuel : Nat) : Prop :=
  ∀ {s t : Ramfs H} {kids depth p n g l pos r}, RamfsInv A s kids depth → s.nodes p = some n →
    Shows s n.children g l → p ∉ l → deserKids A input len fuel s p pos = some (r, t) →
    ∃ f, ReadIn A s t p l g f ∧
      (r ≠ 0 → ∃ f' q, RecordsAt input len pos q f' ∧ input.drop q = endMark ++ input.drop r ∧
        r = q + 2 ∧ r ≤ len ∧ Faithful t f f')

/-- **Reading one entry.** -/
theorem NodeReads.succ (inside : len ≤ input.length) {fuel : Nat}
    (kidsRead : KidsRead A input len fuel) : NodeReads A input len (fuel + 1) := by
  intro s t kids depth p n g l pos r inv at_p shows out more ran
  have fails : some (0, s) = some (r, t) → ∃ f, ReadIn A s t p l g f ∧
      (r ≠ 0 → ∃ f', RecordsAt input len pos r f' ∧ Faithful t f f') := by
    rintro ⟨⟩
    exact ⟨.nil, .refl inv at_p shows, fun nonzero => absurd rfl nonzero⟩
  rw [deserNode] at ran
  by_cases past : len < pos + 2
  · rw [if_pos past] at ran
    exact fails ran
  have first : input[pos]? = some (input[pos]) := List.getElem?_eq_getElem (by omega)
  have second : input[pos + 1]? = some (input[pos + 1]) := List.getElem?_eq_getElem (by omega)
  rw [if_neg past, first, Option.bind_some, second, Option.bind_some] at ran
  rw [atEnd, first, Option.bind_some, second, Option.map_some, Option.some.injEq] at more
  generalize input[pos] = type at *
  generalize input[pos + 1] = nlen at *
  dsimp only at ran
  by_cases marker : type = 0xFF
  · -- an end mark with a length is skipped
    rw [if_pos marker] at ran
    cases ran
    have nonzero : nlen ≠ 0 := by simpa [marker] using more
    exact ⟨.nil, .refl inv at_p shows, fun _ =>
      ⟨.nil, .skip (marker ▸ first) second nonzero (by omega), rfl, fun _ => rfl⟩⟩
  rw [if_neg marker] at ran
  by_cases cut : len < pos + 2 + nlen.toNat
  · rw [if_pos cut] at ran
    exact fails ran
  obtain ⟨name, length, byte, named, header⟩ := drop_header first second (by omega)
  rw [if_neg cut, named, Option.bind_some] at ran
  rw [← length] at ran cut header
  by_cases file : type = NodeType.file.byte
  · rw [if_pos file] at ran
    by_cases cut' : len < pos + 2 + name.length + 4
    · rw [if_pos cut'] at ran
      exact fails ran
    obtain ⟨sz, sized, four⟩ := slice_some input (pos + 2 + name.length) 4 (by omega)
    have small := ofLe32_lt four
    rw [if_neg cut', sized, Option.bind_some] at ran
    by_cases cut'' : len < pos + 2 + name.length + 4 + ofLe32 sz
    · rw [if_pos cut''] at ran
      exact fails ran
    obtain ⟨c, t₁, made, result⟩ := createNode_read inv at_p shows .file (recordName name)
    rw [if_neg cut'', ramfsCreateFile, ← recordName, made, Option.bind_some] at ran
    dsimp only at ran
    rcases result with ⟨rfl, read⟩ | ⟨child, oom, _, _, inv₁⟩
    · rw [if_pos rfl] at ran
      cases ran
      exact ⟨.nil, read, fun nonzero => absurd rfl nonzero⟩
    obtain ⟨data, there, sized'⟩ :=
      slice_some input (pos + 2 + name.length + 4) (ofLe32 sz) (by omega)
    obtain ⟨w, u, f, wrote, read, faithful⟩ :=
      write_read child inv₁ oom at_p shows out (by omega : data.length < 2 ^ 32)
    rw [if_neg child.nonnull, there, Option.bind_some, wrote] at ran
    cases ran
    rw [file] at header
    exact ⟨f, read, fun _ => ⟨_, .file byte header sized there (by omega), faithful⟩⟩
  rw [if_neg file] at ran
  by_cases dir : type = NodeType.dir.byte
  · rw [if_pos dir] at ran
    obtain ⟨c, t₁, made, result⟩ := createNode_read inv at_p shows .dir (recordName name)
    rw [ramfsMkdir, ← recordName, made, Option.bind_some] at ran
    dsimp only at ran
    rcases result with ⟨rfl, read⟩ | ⟨child, oom, _, _, inv₁⟩
    · rw [if_pos rfl] at ran
      cases ran
      exact ⟨.nil, read, fun nonzero => absurd rfl nonzero⟩
    rw [if_neg child.nonnull] at ran
    obtain ⟨f, read, records⟩ := kidsRead inv₁ (child.at_child at_p) (g := .nil) (l := [])
      ⟨rfl, rfl⟩ (by simp) ran
    refine ⟨.dir (recordName name) f .nil, read.dir child oom at_p shows out, fun nonzero => ?_⟩
    obtain ⟨f', q, kidsRecords, mark, rfl, low, same, whole⟩ := records nonzero
    rw [dir] at header
    refine ⟨.dir (recordName name) f' .nil, .dir byte header kidsRecords mark low, ?_, ?_⟩
    · show Forest.dir _ f.blank .nil = Forest.dir _ f'.blank .nil
      rw [same]
    · exact fun calm => by rw [whole calm]
  · rw [if_neg dir] at ran
    exact fails ran

/-- Looking for the end mark inside the input. -/
theorem atEnd_cases (pos : Nat) (inside : pos + 2 ≤ input.length) :
    (atEnd input pos = some true ∧ input.drop pos = endMark ++ input.drop (pos + 2)) ∨
      atEnd input pos = some false := by
  have low : pos < input.length := by omega
  have low' : pos + 1 < input.length := by omega
  rw [atEnd, List.getElem?_eq_getElem low, Option.bind_some, List.getElem?_eq_getElem low',
    Option.map_some]
  cases mark : input[pos] == 0xFF && input[pos + 1] == 0 with
  | false => exact .inr rfl
  | true =>
      simp only [Bool.and_eq_true, beq_iff_eq] at mark
      refine .inl ⟨rfl, ?_⟩
      rw [List.drop_eq_getElem_cons low, mark.1, List.drop_eq_getElem_cons low', mark.2]
      rfl

/-- **Reading the contents of a directory.** -/
theorem KidsRead.succ (inside : len ≤ input.length) {fuel : Nat}
    (nodeReads : NodeReads A input len fuel) (kidsRead : KidsRead A input len fuel) :
    KidsRead A input len (fuel + 1) := by
  intro s t kids depth p n g l pos r inv at_p shows out ran
  rw [deserKids] at ran
  by_cases past : len < pos + 2
  · rw [if_pos past] at ran
    cases ran
    exact ⟨.nil, .refl inv at_p shows, fun nonzero => absurd rfl nonzero⟩
  rw [if_neg past] at ran
  rcases atEnd_cases pos (by omega : pos + 2 ≤ input.length) with ⟨mark, at_pos⟩ | more
  · rw [mark, Option.bind_some, if_pos rfl] at ran
    cases ran
    exact ⟨.nil, .refl inv at_p shows, fun _ => ⟨.nil, pos,
      ⟨[], rfl, rfl, by omega, .nil⟩, at_pos, rfl, by omega, rfl, fun _ => rfl⟩⟩
  rw [more, Option.bind_some, if_neg (by simp)] at ran
  obtain ⟨⟨q, t₁⟩, ran₁, ran⟩ := Option.bind_eq_some_iff.mp ran
  obtain ⟨f, read, records⟩ := nodeReads inv at_p shows out more ran₁
  dsimp only at ran
  by_cases stop : q = 0 ∨ q ≤ pos
  · rw [if_pos stop] at ran
    cases ran
    exact ⟨f, read, fun nonzero => absurd rfl nonzero⟩
  rw [if_neg stop] at ran
  obtain ⟨h, at_h, same⟩ := records (by omega)
  obtain ⟨l', made⟩ := read.created
  obtain ⟨c, at_p', shows', out'⟩ := made.next at_p out
  obtain ⟨_, _, inv₁⟩ := made.inv
  obtain ⟨f', read', records'⟩ := kidsRead inv₁ at_p' shows' out' ran
  refine ⟨f.append f', read.append made read', fun nonzero => ?_⟩
  obtain ⟨h', q', at_h', mark, rfl, low, same'⟩ := records' nonzero
  refine ⟨h.append h', q', at_h.append at_h', mark, rfl, low, same.append same' fun calm => ?_⟩
  rw [Bool.eq_false_iff] at calm ⊢
  exact fun full => calm (read'.oom full)

/-- Both recursions, at every fuel. -/
theorem deserNode_reads (inside : len ≤ input.length) (fuel : Nat) :
    NodeReads A input len fuel ∧ KidsRead A input len fuel := by
  induction fuel with
  | zero =>
      constructor
      · intro s t kids depth p n g l pos r inv at_p shows out more ran
        cases ran
      · intro s t kids depth p n g l pos r inv at_p shows out ran
        cases ran
  | succ fuel ih => exact ⟨NodeReads.succ inside ih.2, KidsRead.succ inside ih.1 ih.2⟩

/-- What is left of an image behind its records: nothing, or an end mark. -/
def Ends (len : Nat) (input : List UInt8) (q : Nat) : Prop :=
  len < q + 2 ∨ input.drop q = endMark ++ input.drop (q + 2)

/-- **The loop below the root.** -/
theorem deserTop_reads (inside : len ≤ input.length) (fuel : Nat) {s : Ramfs H}
    {kids : Nat → List Nat} {depth : Nat → Nat} {n : Node} {g : Forest} {l : List Nat} {pos : Nat}
    {r : Int} (within : pos ≤ len) (inv : RamfsInv A s kids depth)
    (at_root : s.nodes s.root = some n) (shows : Shows s n.children g l) (out : s.root ∉ l)
    (ran : deserTop A input len fuel s pos = some (r, t)) :
    (r = 0 ∨ r = -1) ∧ ∃ f, ReadIn A s t s.root l g f ∧
      (r = 0 → ∃ f' q, RecordsAt input len pos q f' ∧ Ends len input q ∧ Faithful t f f') := by
  induction fuel generalizing s kids depth n g l pos with
  | zero => cases ran
  | succ fuel ih =>
      have here : RecordsAt input len pos pos .nil := ⟨[], rfl, rfl, within, .nil⟩
      rw [deserTop] at ran
      by_cases past : len < pos + 2
      · rw [if_pos past] at ran
        cases ran
        exact ⟨.inl rfl, .nil, .refl inv at_root shows, fun _ =>
          ⟨.nil, pos, here, .inl past, rfl, fun _ => rfl⟩⟩
      rw [if_neg past] at ran
      rcases atEnd_cases pos (by omega : pos + 2 ≤ input.length) with ⟨mark, at_pos⟩ | more
      · rw [mark, Option.bind_some, if_pos rfl] at ran
        cases ran
        exact ⟨.inl rfl, .nil, .refl inv at_root shows, fun _ =>
          ⟨.nil, pos, here, .inr at_pos, rfl, fun _ => rfl⟩⟩
      rw [more, Option.bind_some, if_neg (by simp)] at ran
      obtain ⟨⟨q, t₁⟩, ran₁, ran⟩ := Option.bind_eq_some_iff.mp ran
      obtain ⟨f, read, records⟩ :=
        (deserNode_reads inside fuel).1 inv at_root shows out more ran₁
      dsimp only at ran
      by_cases stop : q = 0 ∨ q ≤ pos
      · rw [if_pos stop] at ran
        cases ran
        exact ⟨.inr rfl, f, read, fun zero => by cases zero⟩
      rw [if_neg stop] at ran
      obtain ⟨h, at_h, same⟩ := records (by omega)
      have within' : q ≤ len := by
        obtain ⟨-, -, -, low, -⟩ := at_h
        exact low
      obtain ⟨l', made⟩ := read.created
      obtain ⟨c, at_root', shows', out'⟩ := made.next at_root out
      obtain ⟨_, _, inv₁⟩ := made.inv
      rw [← made.root] at at_root' out'
      obtain ⟨result, f', read', records'⟩ := ih within' inv₁ at_root' shows' out' ran
      rw [made.root] at read'
      refine ⟨result, f.append f', read.append made read', fun zero => ?_⟩
      obtain ⟨h', q', at_h', ends, same'⟩ := records' zero
      refine ⟨h.append h', q', at_h.append at_h', ends, same.append same' fun calm => ?_⟩
      rw [Bool.eq_false_iff] at calm ⊢
      exact fun full => calm (read'.oom full)

end

/-! ## The whole image -/

/-- The first of some siblings is a child of the directory, and the others follow it. -/
theorem RamfsInv.first_child (inv : RamfsInv A s kids depth) {p a : Nat} {c : List Nat}
    {n m : Node} (at_p : s.nodes p = some n) (chain : LinkChain (nextOf s.nodes) (· = 0) a c)
    (sub : ∀ x ∈ c, x ∈ kids p) (nonnull : a ≠ 0) (at_a : s.nodes a = some m) :
    depth a = depth p + 1 ∧
      ∃ c', LinkChain (nextOf s.nodes) (· = 0) m.next c' ∧ ∀ x ∈ c', x ∈ kids p := by
  cases c with
  | nil => exact absurd chain nonnull
  | cons x c' =>
      obtain ⟨rfl, -, tail⟩ := chain
      rw [nextOf_some at_a] at tail
      obtain ⟨-, -, -, -, deeper⟩ := inv.links.child at_p (sub x (by simp))
      exact ⟨deeper, c', tail, fun y mem => sub y (by simp [mem])⟩

/-- What a directory shows lies deeper than it. -/
theorem RamfsInv.shows_deeper (inv : RamfsInv A s kids depth) {g : Forest} {p a : Nat}
    {c l : List Nat} {n : Node} (at_p : s.nodes p = some n)
    (chain : LinkChain (nextOf s.nodes) (· = 0) a c) (sub : ∀ x ∈ c, x ∈ kids p)
    (shows : Shows s a g l) : ∀ x ∈ l, depth p < depth x := by
  induction g generalizing p a c l n with
  | nil =>
      rw [shows.2]
      simp
  | file name bytes rest ih =>
      obtain ⟨nonnull, m, r, rfl, at_a, -, -, -, tail⟩ := shows
      obtain ⟨deeper, c', chain', sub'⟩ := inv.first_child at_p chain sub nonnull at_a
      intro x mem
      rcases List.mem_cons.mp mem with rfl | mem
      · omega
      · exact ih at_p chain' sub' tail x mem
  | dir name kids' rest ihKids ih =>
      obtain ⟨nonnull, m, k, r, rfl, at_a, -, -, inner, tail⟩ := shows
      obtain ⟨deeper, c', chain', sub'⟩ := inv.first_child at_p chain sub nonnull at_a
      intro x mem
      rcases List.mem_cons.mp mem with rfl | mem
      · omega
      rcases List.mem_append.mp mem with mem | mem
      · have below := ihKids at_a (inv.links.chain at_a) (fun _ mem => mem) inner x mem
        omega
      · exact ih at_p chain' sub' tail x mem

/-- The entries of a directory do not show the directory. -/
theorem RamfsInv.notMem_shows (inv : RamfsInv A s kids depth) {p : Nat} {n : Node}
    (at_p : s.nodes p = some n) {g : Forest} {l : List Nat} (shows : Shows s n.children g l) :
    p ∉ l := fun mem =>
  Nat.lt_irrefl _
    (inv.shows_deeper at_p (inv.links.chain at_p) (fun _ mem => mem) shows p mem)

/-- What the records of an image are, read with the size cut to the input. -/
theorem describes_of_records {input : List UInt8} {q : Nat} {f : Forest}
    (long : 16 ≤ input.length) (start : input.take 8 = magic)
    (records : RecordsAt input (min (ofLe32 ((input.drop 8).take 4)) input.length) 12 q f)
    (ends : Ends (min (ofLe32 ((input.drop 8).take 4)) input.length) input q) :
    Describes input f := by
  refine ⟨long, start, ?_⟩
  generalize ofLe32 ((input.drop 8).take 4) = total at *
  obtain ⟨bs, at_12, rfl, low, read⟩ := records
  refine ⟨bs, (input.drop (12 + bs.length)).take (total - (12 + bs.length)), ?_, read, ?_⟩
  · rw [List.drop_take, at_12, List.take_append, List.take_of_length_le (by omega)]
    congr 2
    omega
  · by_cases short : min total input.length < 12 + bs.length + 2
    · left
      rw [List.length_take, List.length_drop]
      omega
    · right
      rcases ends with past | mark
      · exact absurd past short
      · rw [mark]
        refine ⟨(input.drop (12 + bs.length + 2)).take (total - (12 + bs.length) - 2), ?_⟩
        obtain ⟨k, eq⟩ : ∃ k, total - (12 + bs.length) = k + 2 :=
          ⟨total - (12 + bs.length) - 2, by omega⟩
        rw [eq]
        rfl

/-- **A load that is rejected is reported, and nothing is lost.**  Whatever the bytes are and
whichever allocations fail, `ramfs_deserialize` ends with 0 or -1, and the entries that were
there are behind those that were read.  It returns 0 only if the bytes describe a forest and
every entry of it was created; each has the contents described if no allocation failed. -/
theorem ramfsDeserialize_reports (inv : RamfsInv A s kids depth) {n : Node}
    (at_root : s.nodes s.root = some n) {g : Forest} {l : List Nat}
    (shows : Shows s n.children g l) (input : List UInt8) :
    ∃ r t f l', ramfsDeserialize A s input = some (r, t) ∧ (r = 0 ∨ r = -1) ∧
      Created A s t s.root l l' (f.addTo g) ∧
      (r = 0 → ∃ f', Describes input f' ∧ f.blank = f'.blank ∧ (t.oom = false → f = f')) := by
  obtain ⟨r, t, ran, -⟩ := ramfsDeserialize_spec inv input
  have nothing : Created A s s s.root l l (Forest.nil.addTo g) := .refl inv at_root shows
  have run := ran
  unfold ramfsDeserialize at run
  by_cases few : input.length < 16
  · rw [if_pos few] at run
    cases run
    exact ⟨-1, s, .nil, l, ran, .inr rfl, nothing, fun zero => by cases zero⟩
  rw [if_neg few] at run
  by_cases other : input.take 8 ≠ magic
  · rw [if_pos other] at run
    cases run
    exact ⟨-1, s, .nil, l, ran, .inr rfl, nothing, fun zero => by cases zero⟩
  rw [if_neg other] at run
  dsimp only at run
  by_cases within : 12 ≤ min (ofLe32 ((input.drop 8).take 4)) input.length
  · obtain ⟨result, f, ⟨⟨l', made⟩, -⟩, records⟩ := deserTop_reads (Nat.min_le_right ..) _ within inv
      at_root shows (inv.notMem_shows at_root shows) run
    refine ⟨r, t, f, l', ran, result, made, fun zero => ?_⟩
    obtain ⟨f', q, at_12, ends, same, whole⟩ := records zero
    exact ⟨f', describes_of_records (by omega) (not_not.mp other) at_12 ends, same, whole⟩
  · -- the size ends before the records do
    rw [deserTop, if_pos (by omega)] at run
    cases run
    refine ⟨0, s, .nil, l, ran, .inl rfl, nothing, fun _ =>
      ⟨.nil, ⟨by omega, not_not.mp other, [], [], ?_, .nil, .inl (by simp)⟩, rfl, fun _ => rfl⟩⟩
    rw [List.drop_take, Nat.sub_eq_zero_of_le (by omega), List.take_zero]
    rfl

/-- An image of one file `a` with one byte. -/
def imageOfOne : List UInt8 := magic ++ le32 20 ++ [0, 1, 97, 1, 0, 0, 0, 5]

/-- The file is created in the empty root. -/
theorem ramfsDeserialize_reports_one : ∃ t f l',
    ramfsDeserialize countingAllocator freshRoot imageOfOne = some (0, t) ∧
      Created countingAllocator freshRoot t freshRoot.root [] l' (f.addTo .nil) ∧
      ∃ f', Describes imageOfOne f' ∧ f.blank = f'.blank ∧ (t.oom = false → f = f') := by
  obtain ⟨depth, inv⟩ := freshRoot_inv
  obtain ⟨r, t, f, l', ran, -, made, described⟩ :=
    ramfsDeserialize_reports inv (rfl : freshRoot.nodes freshRoot.root = some _) (g := .nil)
      (l := []) ⟨rfl, rfl⟩ imageOfOne
  have zero : (ramfsDeserialize countingAllocator freshRoot imageOfOne).map Prod.fst = some 0 := rfl
  rw [ran, Option.map_some, Option.some.injEq] at zero
  subst zero
  exact ⟨t, f, l', ran, made, described rfl⟩

/-- Behind this file there is a record of no known type: the load is rejected, and the file
stays. -/
theorem ramfsDeserialize_leaves : ¬ ∀ {s t : Ramfs CountingHeap} {kids : Nat → List Nat}
    {depth : Nat → Nat} {input : List UInt8}, RamfsInv countingAllocator s kids depth →
      ramfsDeserialize countingAllocator s input = some (-1, t) → t.nodes = s.nodes := by
  intro all
  obtain ⟨depth, inv⟩ := freshRoot_inv
  let input := magic ++ le32 22 ++ [0, 1, 97, 1, 0, 0, 0, 5, 7, 7]
  have result : (ramfsDeserialize countingAllocator freshRoot input).map
      (fun r => (r.1, (r.2.nodes 2).isSome)) = some (-1, true) := rfl
  obtain ⟨⟨r, t⟩, ran, same⟩ := Option.map_eq_some_iff.mp result
  simp only [Prod.mk.injEq] at same
  obtain ⟨rfl, there⟩ := same
  rw [all inv ran] at there
  cases there

end Flyos
