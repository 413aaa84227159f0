import Flyos.Fs.Forest
import Flyos.Fs.RamfsRun
import Flyos.Fs.Serialize

/-!
# What an image says

`encode` is the image of a forest, and `ramfsSerialize_spec` says that
`ramfs_serialize` writes the image of what the root shows, with a magic and the total
length in front, if that fits the buffer.  It fails otherwise and never writes past the
end.
-/

namespace Flyos

variable {H : Type*} {A : Allocator H} {s : Ramfs H} {kids : Nat → List Nat}
  {depth : Nat → Nat}

/-! ## Numbers -/

@[simp] theorem length_le32 (n : Nat) : (le32 n).length = 4 := rfl

/-- Four bytes hold a number below `2 ^ 32`. -/
theorem ofLe32_le32 {n : Nat} (small : n < 2 ^ 32) : ofLe32 (le32 n) = n := by
  simp only [ofLe32, le32, List.foldr_cons, List.foldr_nil, UInt8.toNat_ofNat']
  omega

/-! ## The image of a forest -/

/-- The end marker of a directory. -/
def endMark : List UInt8 := [0xFF, 0]

/-- The image of a forest. -/
def encode : Forest → List UInt8
  | .nil => []
  | .file name bytes rest =>
      NodeType.file.byte :: UInt8.ofNat name.length :: name ++
        (le32 bytes.length ++ (bytes ++ encode rest))
  | .dir name kids rest =>
      NodeType.dir.byte :: UInt8.ofNat name.length :: name ++
        (encode kids ++ (endMark ++ encode rest))

/-- A whole image: the magic, the total length, and the forest. -/
def image (f : Forest) : List UInt8 := magic ++ le32 (12 + (encode f).length) ++ encode f

theorem length_image (f : Forest) : (image f).length = 12 + (encode f).length := by
  rw [image, List.length_append, List.length_append, length_le32]
  rfl

/-- An image starts with the magic. -/
theorem image_magic (f : Forest) (tail : List UInt8) : (image f ++ tail).take 8 = magic := by
  rw [image, List.append_assoc, List.append_assoc]
  exact List.take_left' rfl

/-- The total length follows. -/
theorem image_total (f : Forest) (tail : List UInt8) :
    ((image f ++ tail).drop 8).take 4 = le32 (image f).length := by
  have behind : (image f ++ tail).drop 8 = le32 (12 + (encode f).length) ++ (encode f ++ tail) := by
    rw [image, List.append_assoc, List.append_assoc]
    exact List.drop_left' rfl
  rw [length_image, behind]
  exact List.take_left' rfl

/-- The nodes follow. -/
theorem image_body (f : Forest) (tail : List UInt8) :
    (image f ++ tail).drop 12 = encode f ++ tail := by
  rw [image, List.append_assoc]
  exact List.drop_left' rfl

/-! ## Writing it -/

/-- A store inside the buffer. -/
theorem emit_some {out bs : List UInt8} {max : Nat} (fits : out.length + bs.length ≤ max) :
    emit out max bs = some (out ++ bs) := if_pos fits

/-- The contents of a file are read from its buffer. -/
theorem fileData_spec (inv : RamfsInv A s kids depth) {a : Nat} {n : Node}
    (at_a : s.nodes a = some n) :
    fileData s n = some (fileBytes s a) ∧ n.size = (fileBytes s a).length := by
  have length := inv.bufs.length_fileBytes at_a
  refine ⟨?_, length.symm⟩
  unfold fileData
  by_cases empty : n.size = 0
  · rw [if_pos empty, List.length_eq_zero_iff.mp (length.trans empty)]
  rw [if_neg empty]
  rcases inv.bufs.held at_a with ⟨-, -, zero⟩ | ⟨-, b, held, cap, size⟩
  · exact absurd zero empty
  · rw [held, Option.bind_some, if_pos (by omega), fileBytes_of at_a held]

/-- Two if the last entry is an empty directory, which takes two bytes less than the test in
front of a directory asks for. -/
def Forest.spare : Forest → Nat
  | .nil => 0
  | .file _ _ rest => rest.spare
  | .dir _ .nil .nil => 2
  | .dir _ _ rest => rest.spare

theorem Forest.spare_le (f : Forest) : f.spare ≤ 2 := by
  fun_induction Forest.spare f <;> omega

/-- An entry takes at least four bytes. -/
theorem four_le_encode {f : Forest} (some_entry : f ≠ .nil) : 4 ≤ (encode f).length := by
  cases f with
  | nil => exact absurd rfl some_entry
  | file name bytes rest => simp [encode]; omega
  | dir name kids rest => simp [encode, endMark]; omega

/-- The run appended the bytes to the buffer, or gave up because there was no room for
them and `spare` bytes more. -/
def Wrote (out : List UInt8) (max : Nat) (bytes : List UInt8) (spare : Nat)
    (r : Option (List UInt8)) : Prop :=
  (r = none ∧ max < out.length + bytes.length + spare) ∨
    r = some (out ++ bytes) ∧ out.length + bytes.length + spare ≤ max

/-- A node that is a file. -/
theorem serNode_file (inv : RamfsInv A s kids depth) {max : Nat}
    {a : Nat} {n : Node} (at_a : s.nodes a = some n) (file : n.type = .file)
    (short : n.name.length < ramfsNameMax) (out : List UInt8)
    (small : max ≤ 2 ^ 63 ∨ out.length + n.name.length + (fileBytes s a).length ≤ 2 ^ 63)
    (fuel : Nat) :
    ∃ r, serNode s (fuel + 1) a out max = some r ∧
      Wrote out max (NodeType.file.byte :: UInt8.ofNat n.name.length :: n.name ++
        (le32 (fileBytes s a).length ++ fileBytes s a)) 0 r := by
  obtain ⟨data, size⟩ := fileData_spec inv at_a
  obtain ⟨le_cap, cap⟩ := inv.bufs.size_le at_a
  have whole : n.name.take 255 = n.name :=
    List.take_of_length_le (Nat.le_of_lt (Nat.lt_of_lt_of_le short (by decide)))
  rw [serNode, at_a, Option.bind_some]
  dsimp only
  rw [whole, size]
  by_cases header : max < out.length + 2 + n.name.length + 4
  · exact ⟨none, if_pos header, .inl ⟨rfl, by simp; omega⟩⟩
  rw [if_neg header, emit_some (by simp only [List.length_cons]; omega), Option.bind_some,
    if_pos file, emit_some (by simp only [List.length_append, List.length_cons, length_le32]; omega),
    Option.bind_some, file]
  have stored : ((out ++ NodeType.file.byte :: UInt8.ofNat n.name.length :: n.name) ++
      le32 (fileBytes s a).length).length = out.length + 2 + n.name.length + 4 := by
    simp
    omega
  simp only [heapSize, heapPages, pageSize] at cap
  rw [stored, Nat.mod_eq_of_lt (by omega)]
  by_cases full : max < out.length + 2 + n.name.length + 4 + (fileBytes s a).length
  · exact ⟨none, if_pos full, .inl ⟨rfl, by simp; omega⟩⟩
  · rw [if_neg full, data, Option.bind_some, emit_some (by rw [stored]; omega)]
    refine ⟨_, rfl, .inr ⟨by simp, ?_⟩⟩
    simp
    omega

/-- A node that is a directory, if its contents are written. -/
theorem serNode_dir {max : Nat} {a : Nat} {n : Node} (at_a : s.nodes a = some n)
    (dir : n.type = .dir) (short : n.name.length < ramfsNameMax) (out : List UInt8)
    (f : Forest) (fuel : Nat)
    (inner : ∀ out' : List UInt8, out'.length = out.length + 2 + n.name.length →
      out'.length ≤ max →
        ∃ r, serKids s fuel n.children out' max = some r ∧ Wrote out' max (encode f) f.spare r) :
    ∃ r, serNode s (fuel + 1) a out max = some r ∧
      Wrote out max (NodeType.dir.byte :: UInt8.ofNat n.name.length :: n.name ++
        (encode f ++ endMark)) (Forest.dir n.name f .nil).spare r := by
  have whole : n.name.take 255 = n.name :=
    List.take_of_length_le (Nat.le_of_lt (Nat.lt_of_lt_of_le short (by decide)))
  rw [serNode, at_a, Option.bind_some]
  dsimp only
  rw [whole]
  have spare := f.spare_le
  have kidsOf : (f = .nil ∧ (encode f).length = 0 ∧ (Forest.dir n.name f .nil).spare = 2) ∨
      4 ≤ (encode f).length ∧ (Forest.dir n.name f .nil).spare = 0 := by
    by_cases empty : f = .nil
    · exact .inl ⟨empty, by rw [empty]; rfl, by rw [empty]; rfl⟩
    · exact .inr ⟨four_le_encode empty, by cases f <;> first | exact absurd rfl empty | rfl⟩
  have total : (NodeType.dir.byte :: UInt8.ofNat n.name.length :: n.name ++
      (encode f ++ endMark)).length = 4 + n.name.length + (encode f).length := by
    simp [endMark]
    omega
  simp only [Wrote, total]
  by_cases header : max < out.length + 2 + n.name.length + 4
  · exact ⟨none, if_pos header, .inl ⟨rfl, by omega⟩⟩
  rw [if_neg header, emit_some (by simp only [List.length_cons]; omega), Option.bind_some,
    if_neg (by rw [dir]; simp), dir]
  have stored : (out ++ NodeType.dir.byte :: UInt8.ofNat n.name.length :: n.name).length =
      out.length + 2 + n.name.length := by
    simp
    omega
  obtain ⟨r, ran, ⟨rfl, full⟩ | ⟨rfl, fits⟩⟩ := inner _ stored (by omega)
  · exact ⟨none, by rw [ran]; rfl, .inl ⟨rfl, by omega⟩⟩
  rw [ran, Option.bind_some]
  have length : (out ++ NodeType.dir.byte :: UInt8.ofNat n.name.length :: n.name ++
      encode f).length = out.length + 2 + n.name.length + (encode f).length := by
    rw [List.length_append, stored]
  dsimp only
  rw [length]
  by_cases full : max < out.length + 2 + n.name.length + (encode f).length + 2
  · exact ⟨none, if_pos full, .inl ⟨rfl, by omega⟩⟩
  · rw [if_neg full, emit_some (by rw [length]; simp only [List.length_cons, List.length_nil]; omega)]
    exact ⟨_, rfl, .inr ⟨by simp [endMark], by omega⟩⟩

/-- What a directory and its siblings leave unused. -/
theorem Forest.spare_dir (name : CString) (kids rest : Forest) :
    (rest = .nil ∧ (Forest.dir name kids rest).spare = (Forest.dir name kids .nil).spare) ∨
      4 ≤ (encode rest).length ∧ (Forest.dir name kids rest).spare = rest.spare := by
  by_cases last : rest = .nil
  · exact .inl ⟨last, by rw [last]⟩
  · refine .inr ⟨four_le_encode last, ?_⟩
    cases rest <;> first | exact absurd rfl last | (cases kids <;> rfl)

/-- **Writing the nodes that show a forest**: by induction on the forest.  A node costs
at least two bytes, which pay for the fuel of what it contains. -/
theorem serKids_spec (inv : RamfsInv A s kids depth) {max : Nat}
    (f : Forest) {a : Nat} {l : List Nat} (shows : Shows s a f l) (short : f.Short)
    (out : List UInt8) (small : max ≤ 2 ^ 63 ∨ out.length + (encode f).length ≤ 2 ^ 63)
    (inside : out.length ≤ max) (fuel : Nat) (enough : 2 * (max - out.length) + 2 ≤ fuel) :
    ∃ r, serKids s fuel a out max = some r ∧ Wrote out max (encode f) f.spare r := by
  induction f generalizing a l out fuel with
  | nil =>
      obtain ⟨k, rfl⟩ : ∃ k, fuel = k + 1 := ⟨fuel - 1, by omega⟩
      refine ⟨some out, by rw [serKids, if_pos shows.1], .inr ⟨by simp [encode], ?_⟩⟩
      simpa [encode, Forest.spare] using inside
  | file name bytes rest ih =>
      obtain ⟨nonnull, n, l, rfl, at_a, rfl, file, rfl, tail⟩ := shows
      obtain ⟨short, shortRest⟩ := short
      obtain ⟨k, rfl⟩ : ∃ k, fuel = k + 1 + 1 := ⟨fuel - 2, by omega⟩
      have length : (encode (.file n.name (fileBytes s a) rest)).length =
          6 + n.name.length + (fileBytes s a).length + (encode rest).length := by
        simp [encode]
        omega
      have spare : (Forest.file n.name (fileBytes s a) rest).spare = rest.spare := rfl
      have smallFile : max ≤ 2 ^ 63 ∨
          out.length + n.name.length + (fileBytes s a).length ≤ 2 ^ 63 := by omega
      rw [serKids, if_neg nonnull]
      obtain ⟨r, ran, ⟨rfl, full⟩ | ⟨rfl, fits⟩⟩ :=
        serNode_file inv at_a file short out smallFile k
      · refine ⟨none, by rw [ran]; rfl, .inl ⟨rfl, ?_⟩⟩
        simp only [List.cons_append, List.length_cons, List.length_append, length_le32] at full
        omega
      rw [ran, Option.bind_some]
      dsimp only
      rw [at_a, Option.bind_some]
      simp only [List.cons_append, List.length_cons, List.length_append, length_le32] at fits
      have stored : (out ++ (NodeType.file.byte :: UInt8.ofNat n.name.length :: n.name ++
          (le32 (fileBytes s a).length ++ fileBytes s a))).length =
            out.length + (6 + n.name.length + (fileBytes s a).length) := by
        simp
        omega
      obtain ⟨r, ran', ⟨rfl, full⟩ | ⟨rfl, fits'⟩⟩ := ih tail shortRest
        (out ++ (NodeType.file.byte :: UInt8.ofNat n.name.length :: n.name ++
          (le32 (fileBytes s a).length ++ fileBytes s a))) (by omega) (by omega) (k + 1) (by omega)
      · exact ⟨none, ran', .inl ⟨rfl, by omega⟩⟩
      · exact ⟨_, ran', .inr ⟨by simp [encode], by omega⟩⟩
  | dir name kids rest ihKids ih =>
      obtain ⟨nonnull, n, k, l, rfl, at_a, rfl, dir, inner, tail⟩ := shows
      obtain ⟨short, shortKids, shortRest⟩ := short
      obtain ⟨k, rfl⟩ : ∃ k, fuel = k + 1 + 1 := ⟨fuel - 2, by omega⟩
      have length : (encode (.dir n.name kids rest)).length =
          4 + n.name.length + (encode kids).length + (encode rest).length := by
        simp [encode, endMark]
        omega
      have spare := Forest.spare_dir n.name kids rest
      have le := (Forest.dir n.name kids .nil).spare_le
      rw [serKids, if_neg nonnull]
      obtain ⟨r, ran, ⟨rfl, full⟩ | ⟨rfl, fits⟩⟩ := serNode_dir at_a dir short out kids k
        fun out' length below => ihKids inner shortKids out' (by omega) below k (by omega)
      · refine ⟨none, by rw [ran]; rfl, .inl ⟨rfl, ?_⟩⟩
        simp only [List.cons_append, List.length_cons, List.length_append, endMark,
          List.length_nil] at full
        omega
      rw [ran, Option.bind_some]
      dsimp only
      rw [at_a, Option.bind_some]
      simp only [List.cons_append, List.length_cons, List.length_append, endMark,
        List.length_nil] at fits
      have stored : (out ++ (NodeType.dir.byte :: UInt8.ofNat n.name.length :: n.name ++
          (encode kids ++ endMark))).length = out.length + (4 + n.name.length +
            (encode kids).length) := by
        simp [endMark]
        omega
      obtain ⟨r, ran', ⟨rfl, full⟩ | ⟨rfl, fits'⟩⟩ := ih tail shortRest
        (out ++ (NodeType.dir.byte :: UInt8.ofNat n.name.length :: n.name ++
          (encode kids ++ endMark))) (by omega) (by omega) (k + 1) (by omega)
      · refine ⟨none, ran', .inl ⟨rfl, ?_⟩⟩
        rcases spare with ⟨rfl, -⟩ | ⟨-, same⟩
        · simp only [encode, Forest.spare, List.length_nil] at full
          omega
        · omega
      · refine ⟨_, ran', .inr ⟨by simp [encode], ?_⟩⟩
        rcases spare with ⟨rfl, -⟩ | ⟨-, same⟩
        · have none : (encode .nil).length = 0 := rfl
          omega
        · omega

/-- **What `ramfs_serialize` does**: the image of what the root shows, or nothing if there
is not enough room for it and the bytes to spare. -/
theorem ramfsSerialize_spec (inv : RamfsInv A s kids depth) {r : Node}
    (at_root : s.nodes s.root = some r) {f : Forest} {l : List Nat}
    (shows : Shows s r.children f l) (short : f.Short) {old : List UInt8} {max : Nat}
    (small : max ≤ 2 ^ 63 ∨ (image f).length ≤ 2 ^ 63) (sized : old.length = max) :
    (ramfsSerialize s old max = some none ∧
        (max < 16 ∨ max < (image f).length + f.spare)) ∨
      ramfsSerialize s old max = some (some (image f)) ∧ (image f).length + f.spare ≤ max := by
  unfold ramfsSerialize
  by_cases few : max < 16
  · exact .inl ⟨if_pos few, .inl few⟩
  have four : ((old.drop 8).take 4).length = 4 := by
    rw [List.length_take, List.length_drop]
    omega
  have twelve : (magic ++ (old.drop 8).take 4).length = 12 := by
    rw [List.length_append, four]
    rfl
  rw [if_neg few, emit_some (by rw [twelve, List.length_nil]; omega), Option.bind_some, at_root,
    Option.bind_some, List.nil_append]
  rw [length_image] at small ⊢
  have smallKids : max ≤ 2 ^ 63 ∨
      (magic ++ (old.drop 8).take 4).length + (encode f).length ≤ 2 ^ 63 := by omega
  obtain ⟨r, ran, ⟨rfl, full⟩ | ⟨rfl, fits⟩⟩ := serKids_spec inv f shows short
    (magic ++ (old.drop 8).take 4) smallKids (by omega) (2 * max + 3) (by omega)
  · exact .inl ⟨by rw [ran]; rfl, .inr (by omega)⟩
  · refine .inr ⟨?_, by omega⟩
    have patched : overlay (magic ++ (old.drop 8).take 4 ++ encode f) 8
        (le32 (12 + (encode f).length)) = image f :=
      overlay_append rfl (by rw [four, length_le32])
    rw [ran, Option.map_some, Option.map_some, List.length_append, twelve, patched]

/-! ## The room an image takes -/

/-- The bytes of a forest in an image: six, the name and the contents for a file, four, the
name and the entries for a directory. -/
def Forest.codeLength : Forest → Nat
  | .nil => 0
  | .file name bytes rest => 6 + name.length + bytes.length + rest.codeLength
  | .dir name kids rest => 4 + name.length + kids.codeLength + rest.codeLength

/-- That many are written. -/
theorem length_encode (f : Forest) : (encode f).length = f.codeLength := by
  induction f with
  | nil => rfl
  | file name bytes rest ih =>
      simp [encode, Forest.codeLength, ← ih]
      omega
  | dir name kids rest ihKids ih =>
      simp [encode, endMark, Forest.codeLength, ← ihKids, ← ih]
      omega

/-- **`ramfs_serialize` uses exactly the room given**: it writes the image if that fits in
`max` bytes, and answers 0 otherwise. -/
def UsesRoom (s : Ramfs H) (old : List UInt8) (max : Nat) (f : Forest) : Prop :=
  ramfsSerialize s old max = some (if max < 12 + f.codeLength then none else some (image f))

/-- **It does unless the last entry of the root is an empty directory** that ends at `max` or one
byte before; there the test in front of a directory gives up.  The encoder writes the image of
the forest as long as its own tests on the way let it (`ramfsSerialize_spec`); the test in front
of a directory asks for two bytes more than an empty one takes (`Forest.spare`). -/
theorem ramfsSerialize_room (inv : RamfsInv A s kids depth)
    (short : ∀ c n, s.nodes c = some n → n.name.length < ramfsNameMax) {r : Node}
    (at_root : s.nodes s.root = some r) {old : List UInt8} {max : Nat} (enough : 16 ≤ max)
    (sized : old.length = max) :
    (∃ f l, Shows s r.children f l) ∧ ∀ f l, Shows s r.children f l →
      (max ≤ 2 ^ 63 ∨ 12 + f.codeLength ≤ 2 ^ 63) →
        (UsesRoom s old max f ↔
          ¬ (12 + f.codeLength ≤ max ∧ max < 12 + f.codeLength + f.spare)) := by
  obtain ⟨f, l, shows, -⟩ := inv.showsForest at_root
  refine ⟨⟨f, l, shows⟩, fun f l shows small => ?_⟩
  rw [UsesRoom, ← length_encode, ← length_image] at *
  rcases ramfsSerialize_spec inv at_root shows (shows.short short) small sized with
    ⟨ran, few | full⟩ | ⟨ran, fits⟩
  · omega
  · rw [ran]
    by_cases large : max < (image f).length
    · rw [if_pos large]
      exact ⟨fun _ room => absurd room.1 (Nat.not_le.mpr large), fun _ => rfl⟩
    · rw [if_neg large]
      constructor
      · intro eq
        cases eq
      · intro roomy
        exact absurd ⟨Nat.le_of_not_lt large, full⟩ roomy
  · rw [ran, if_neg (by omega)]
    exact ⟨fun _ room => absurd fits (Nat.not_le.mpr room.2), fun _ => rfl⟩

/-! ### Two small trees -/

/-- A new node `a` in the root. -/
def oneNode (type : NodeType) : Ramfs CountingHeap :=
  freshRoot.created countingAllocator type 1 [97]

/-- An empty file takes 19 bytes, and that much room is enough. -/
theorem ramfsSerialize_room_file :
    UsesRoom (oneNode .file) (List.replicate 19 0) 19 (.file [97] [] .nil) := by
  obtain ⟨depth, inv⟩ := freshRoot_inv
  have at_root : freshRoot.nodes 1 = some (newNode .dir [47] 0 0) := rfl
  obtain ⟨kids, depth', inv'⟩ := inv.created at_root .file [97]
  refine ((ramfsSerialize_room (r := ((oneNode .file).nodes 1).getD (newNode .dir [47] 0 0)) inv'
    (createdShort inv freshRoot_short at_root .file [97]) rfl (by decide) rfl).2 _ [2] ?_
    (.inl (by decide))).mpr (by decide)
  exact ⟨by decide, _, [], rfl, rfl, rfl, rfl, rfl, rfl, rfl⟩

/-- **An empty directory takes 17 bytes, and that much room is refused.** -/
theorem ramfsSerialize_refuses :
    ¬ UsesRoom (oneNode .dir) (List.replicate 17 0) 17 (.dir [97] .nil .nil) := by
  have refused : ramfsSerialize (oneNode .dir) (List.replicate 17 0) 17 = some none := rfl
  rw [UsesRoom, refused]
  decide

end Flyos
