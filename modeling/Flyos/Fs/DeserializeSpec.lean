import Flyos.Fs.Deserialize
import Flyos.Fs.SerializeSpec
import Flyos.Lib.Reading
import Mathlib.Data.List.TakeWhile

/-!
# Reading back what was written

`deserTop_spec`: from the image of a forest the loop of `ramfs_deserialize` creates that
forest in the root, if no allocation fails.  A run without a failed allocation is one
that ends with the ghost `oom` unset, since `oom` is never cleared (`Extends`).

The reader creates entries one by one, each in front of those before, so what a directory
shows afterwards is `Forest.addTo`.  `Created` says that and that nothing else of the tree
has changed, which is what carries the entries read earlier over the recursion.
-/

namespace Flyos

variable {H : Type*} {A : Allocator H} {s t u : Ramfs H} {kids : Nat → List Nat}
  {depth : Nat → Nat} {input : List UInt8}

/-! ## Bytes at a position -/

theorem getElem?_of_drop {pos : Nat} {x y : UInt8} {rest : List UInt8}
    (here : input.drop pos = x :: y :: rest) : input[pos]? = some x ∧ input[pos + 1]? = some y := by
  have first : (input.drop pos)[0]? = some x := by rw [here]; rfl
  have second : (input.drop pos)[1]? = some y := by rw [here]; rfl
  rw [List.getElem?_drop] at first second
  exact ⟨first, second⟩

theorem slice_of_drop {pos n : Nat} {b rest : List UInt8} (here : input.drop pos = b ++ rest)
    (sized : b.length = n) (inside : pos + n ≤ input.length) : slice input pos n = some b := by
  rw [slice, if_pos inside, here, ← sized, List.take_left]

theorem cString_eq {name : CString} (plain : 0 ∉ name) : cString name = name := by
  refine List.takeWhile_eq_self_iff.mpr fun x mem => ?_
  simpa using fun eq : x = 0 => plain (eq ▸ mem)

/-- What stands in front of a node in an image. -/
theorem header_reads {pos : Nat} {type : UInt8} {name : CString} {rest : List UInt8}
    (here : input.drop pos = type :: UInt8.ofNat name.length :: name ++ rest)
    (short : name.length < ramfsNameMax) (inside : pos + 2 + name.length ≤ input.length) :
    input[pos]? = some type ∧ input[pos + 1]? = some (UInt8.ofNat name.length) ∧
      (UInt8.ofNat name.length).toNat = name.length ∧
      slice input (pos + 2) (min name.length (ramfsNameMax - 1)) = some name ∧
      input.drop (pos + 2 + name.length) = rest := by
  obtain ⟨first, second⟩ := getElem?_of_drop here
  have behind : input.drop (pos + 2) = name ++ rest :=
    drop_of_drop (show input.drop pos = [type, UInt8.ofNat name.length] ++ (name ++ rest) from here)
  have byte : name.length < 256 := Nat.lt_of_lt_of_le short (by decide)
  have fits : min name.length (ramfsNameMax - 1) = name.length :=
    Nat.min_eq_left (Nat.le_of_lt_succ short)
  refine ⟨first, second, ?_, ?_, drop_of_drop behind⟩
  · rw [UInt8.toNat_ofNat']
    exact Nat.mod_eq_of_lt byte
  · rw [fits]
    exact slice_of_drop behind rfl inside

/-! ## What is created -/

/-- In directory `p`, whose contents were shown by `l`, nodes were created; `l'` shows its
contents now, which are `f`.  Nodes other than `p` are as before. -/
structure Created (A : Allocator H) (s t : Ramfs H) (p : Nat) (l l' : List Nat) (f : Forest) :
    Prop where
  inv : ∃ kids depth, RamfsInv A t kids depth
  root : t.root = s.root
  dir : ∃ n c, s.nodes p = some n ∧ t.nodes p = some { n with children := c } ∧ Shows t c f l'
  fresh : ∀ x ∈ l', x ∈ l ∨ s.nodes x = none
  others : ∀ {x m}, s.nodes x = some m → x ≠ p →
    t.nodes x = some m ∧ fileBytes t x = fileBytes s x

namespace Created

variable {p : Nat} {l l' l'' : List Nat} {f g : Forest}

/-- Nothing is created. -/
theorem refl (inv : RamfsInv A s kids depth) {n : Node} (at_p : s.nodes p = some n)
    (shows : Shows s n.children f l) : Created A s s p l l f :=
  ⟨⟨kids, depth, inv⟩, rfl, ⟨n, n.children, at_p, at_p, shows⟩, fun _ mem => .inl mem,
    fun at_x _ => ⟨at_x, rfl⟩⟩

/-- A node is still there. -/
theorem none_of_none (h : Created A s t p l l' f) {x : Nat} (gone : t.nodes x = none) :
    s.nodes x = none := by
  by_contra used
  obtain ⟨m, at_x⟩ := Option.ne_none_iff_exists'.mp used
  by_cases here : x = p
  · obtain ⟨n, c, -, at_p, -⟩ := h.dir
    rw [here, at_p] at gone
    cases gone
  · rw [(h.others at_x here).1] at gone
    cases gone

/-- What the next entry is created in. -/
theorem next (h : Created A s t p l l' f) {n : Node} (at_p : s.nodes p = some n) (out : p ∉ l) :
    ∃ c, t.nodes p = some { n with children := c } ∧ Shows t c f l' ∧ p ∉ l' := by
  obtain ⟨n', c, at_p', after, shows⟩ := h.dir
  obtain rfl := Option.some.inj (at_p.symm.trans at_p')
  refine ⟨c, after, shows, fun mem => ?_⟩
  rcases h.fresh p mem with mem | unused
  · exact out mem
  · rw [at_p] at unused
    cases unused

/-- Nodes are created one after the other. -/
theorem trans (h : Created A s t p l l' f) (h' : Created A t u p l' l'' g) :
    Created A s u p l l'' g := by
  refine ⟨h'.inv, h'.root.trans h.root, ?_, fun x mem => ?_, fun at_x ne => ?_⟩
  · obtain ⟨n, c, at_p, at_p', -⟩ := h.dir
    obtain ⟨n', c', before, after, shows⟩ := h'.dir
    obtain rfl := Option.some.inj (before.symm.trans at_p')
    exact ⟨n, c', at_p, after, shows⟩
  · exact (h'.fresh x mem).elim (h.fresh x) fun gone => .inr (h.none_of_none gone)
  · obtain ⟨at_x', bytes⟩ := h.others at_x ne
    obtain ⟨at_x'', bytes'⟩ := h'.others at_x' ne
    exact ⟨at_x'', bytes'.trans bytes⟩

end Created

/-- What a successful creation leaves. -/
structure Child (A : Allocator H) (s t : Ramfs H) (p c : Nat) (n : Node) (type : NodeType)
    (name : CString) : Prop where
  nonnull : c ≠ 0
  unused : s.nodes c = none
  nodes : t.nodes = withChild s.nodes p c n (newNode type name p n.children)
  bufs : t.bufs = s.bufs
  root : t.root = s.root

namespace Child

variable {p c : Nat} {n : Node} {type : NodeType} {name : CString} {l k : List Nat} {g h : Forest}

/-- The new node. -/
theorem at_child (child : Child A s t p c n type name) (at_p : s.nodes p = some n) :
    t.nodes c = some (newNode type name p n.children) := by
  have pc : c ≠ p := fun eq => by rw [← eq, child.unused] at at_p; cases at_p
  rw [child.nodes, withChild, Function.update_of_ne pc, Function.update_self]

/-- It is empty. -/
theorem empty (child : Child A s t p c n type name) (at_p : s.nodes p = some n) :
    fileBytes t c = [] := by
  rw [fileBytes, child.at_child at_p]
  rfl

/-- The directory has it as its first child. -/
theorem at_dir (child : Child A s t p c n type name) :
    t.nodes p = some { n with children := c } := by
  rw [child.nodes, withChild, Function.update_self]

/-- The other nodes are as before. -/
theorem others (child : Child A s t p c n type name) {x : Nat} {m : Node}
    (at_x : s.nodes x = some m) (ne : x ≠ p) :
    x ≠ c ∧ t.nodes x = some m ∧ fileBytes t x = fileBytes s x := by
  have xc : x ≠ c := fun eq => by rw [eq, child.unused] at at_x; cases at_x
  have same : t.nodes x = s.nodes x := by
    rw [child.nodes, withChild, Function.update_of_ne ne, Function.update_of_ne xc]
  exact ⟨xc, same.trans at_x, by rw [fileBytes, fileBytes, same, child.bufs]⟩

/-- A node unused after the creation was unused before. -/
theorem none_of_none (child : Child A s t p c n type name) {x : Nat}
    (gone : t.nodes x = none) : s.nodes x = none := by
  by_contra used
  obtain ⟨m, at_x⟩ := Option.ne_none_iff_exists'.mp used
  by_cases here : x = p
  · rw [here, child.at_dir] at gone
    cases gone
  · rw [(child.others at_x here).2.1] at gone
    cases gone

/-- **A node created and filled**: from `s` a child was created, from `t` on only the child
and new nodes changed.  If the child then shows `h` in front of what was there, `h` is what
the directory contains. -/
theorem created (child : Child A s t p c n type name) (at_p : s.nodes p = some n)
    (shows : Shows s n.children g l) (out : p ∉ l) (inv : ∃ kids depth, RamfsInv A u kids depth)
    (root : u.root = t.root)
    (filled : ∀ {x m}, t.nodes x = some m → x ≠ c →
      u.nodes x = some m ∧ fileBytes u x = fileBytes t x)
    (head : Shows u n.children g l → Shows u c h (c :: (k ++ l)))
    (fresh : ∀ x ∈ k, s.nodes x = none) : Created A s u p l (c :: (k ++ l)) h := by
  have pc : p ≠ c := fun eq => by rw [eq, child.unused] at at_p; cases at_p
  have others : ∀ {x m}, s.nodes x = some m → x ≠ p →
      u.nodes x = some m ∧ fileBytes u x = fileBytes s x := by
    intro x m at_x ne
    obtain ⟨xc, at_x', bytes⟩ := child.others at_x ne
    obtain ⟨at_x'', bytes'⟩ := filled at_x' xc
    exact ⟨at_x'', bytes'.trans bytes⟩
  have tail : Shows u n.children g l := by
    refine shows.congr fun x mem => ?_
    obtain ⟨m, at_x⟩ := shows.mem mem
    obtain ⟨at_x', bytes⟩ := others at_x fun eq => out (eq ▸ mem)
    exact ⟨at_x'.trans at_x.symm, bytes⟩
  refine ⟨inv, root.trans child.root, ⟨n, c, at_p, (filled child.at_dir pc).1, head tail⟩,
    fun x mem => ?_, others⟩
  rcases List.mem_cons.mp mem with rfl | mem
  · exact .inr child.unused
  · exact (List.mem_append.mp mem).elim (fun mem => .inr (fresh x mem)) .inl

end Child

/-- A creation under a new name succeeds if the allocation does. -/
theorem createNode_child (inv : RamfsInv A s kids depth) {p c : Nat} {n : Node}
    (at_p : s.nodes p = some n) (dir : n.type = .dir) {g : Forest} {l : List Nat}
    (shows : Shows s n.children g l) {type : NodeType} {name : CString} (new : name ∉ g.names)
    (ran : createNode A type s p name = some (c, t)) (calm : t.oom = false) :
    Child A s t p c n type name ∧ ∃ kids depth, RamfsInv A t kids depth := by
  obtain ⟨c', t', ran', result⟩ := createNode_spec inv at_p type name
  rw [ran, Option.some.injEq, Prod.mk.injEq] at ran'
  obtain ⟨rfl, rfl⟩ := ran'
  rcases result with ⟨-, -, -, -, why⟩ | ⟨nonnull, -, -, unused, -, nodes, bufs, root, -, -, inv'⟩
  · exfalso
    rcases why with file | ⟨x, mem, m, at_x, named⟩ | full
    · exact file dir
    · obtain ⟨chain, linked, among⟩ := shows.siblings
      rw [(inv.links.chain at_p).unique linked] at mem
      exact new (named ▸ among x mem m at_x)
    · rw [full] at calm
      cases calm
  · exact ⟨⟨nonnull, unused, nodes, bufs, root⟩, _, _, inv'⟩

/-! ## Reading one node -/

section

variable {len fuel p pos r : Nat} {n : Node} {g : Forest} {l : List Nat} {name : CString}
  {rest : List UInt8}

/-- A file is created with its contents. -/
theorem deserNode_file (inside : len ≤ input.length) (small : len < 2 ^ 32)
    (inv : RamfsInv A s kids depth) (at_p : s.nodes p = some n) (dir : n.type = .dir)
    (shows : Shows s n.children g l) (out : p ∉ l) (new : name ∉ g.names)
    (short : name.length < ramfsNameMax) (plain : 0 ∉ name) {bytes : List UInt8}
    (here : input.drop pos = NodeType.file.byte :: UInt8.ofNat name.length :: name ++
      (le32 bytes.length ++ (bytes ++ rest)))
    (room : pos + (2 + name.length + 4 + bytes.length) ≤ len)
    (ran : deserNode A input len (fuel + 1) s p pos = some (r, t)) (calm : t.oom = false) :
    r = pos + (2 + name.length + 4 + bytes.length) ∧
      ∃ l', Created A s t p l l' (.file name bytes g) := by
  obtain ⟨first, second, size, named, behind⟩ := header_reads here short (by omega)
  have sized := slice_of_drop behind (length_le32 _) (by omega)
  have after := drop_of_drop behind
  rw [length_le32] at after
  have data := slice_of_drop after rfl (by omega)
  rw [deserNode, if_neg (by omega), first, Option.bind_some, second, Option.bind_some] at ran
  dsimp only at ran
  rw [size, if_neg (by decide), if_neg (by omega), named, Option.bind_some, if_pos rfl,
    if_neg (by omega), sized, Option.bind_some, ofLe32_le32 (by omega), if_neg (by omega),
    cString_eq plain] at ran
  obtain ⟨c, t₁, made, ext, at_c⟩ := createNode_extends inv at_p .file name
  rw [ramfsCreateFile, made, Option.bind_some] at ran
  dsimp only at ran
  by_cases null : c = 0
  · rw [if_pos null, Option.some.injEq, Prod.mk.injEq] at ran
    obtain ⟨-, rfl⟩ := ran
    exact absurd null (createNode_child inv at_p dir shows new made calm).1.nonnull
  rw [if_neg null, data, Option.bind_some] at ran
  obtain ⟨m, at_c⟩ := at_c null
  obtain ⟨_, _, inv₁⟩ := ext.inv
  have bound : 0 + bytes.length ≤ 2 ^ 63 := by omega
  obtain ⟨w, t₂, wrote, ext'⟩ := ramfsWrite_extends inv₁ at_c bound
  rw [wrote, Option.map_some, Option.some.injEq, Prod.mk.injEq] at ran
  obtain ⟨rfl, rfl⟩ := ran
  obtain ⟨child, -⟩ := createNode_child inv at_p dir shows new made (ext'.calm calm)
  obtain ⟨t₃, inv₂, result⟩ := ramfsWrite_spec inv₁ (child.at_child at_p) bound
  rw [wrote] at result
  rcases result with ⟨same, -, why⟩ | ⟨-, same, written⟩
  · rw [Option.some.injEq, Prod.mk.injEq] at same
    obtain ⟨-, rfl⟩ := same
    rcases why with ⟨other, -⟩ | ⟨-, full⟩
    · exact absurd rfl other
    · rw [full] at calm
      cases calm
  · rw [Option.some.injEq, Prod.mk.injEq] at same
    obtain ⟨-, rfl⟩ := same
    refine ⟨by omega, _, child.created at_p shows out ⟨_, _, inv₂⟩ written.root
      (fun at_x ne => ⟨(written.nodes ne).trans at_x, written.others ne⟩)
      (fun tail => ?_) (k := []) (by simp)⟩
    obtain ⟨m', at_c', shell, -⟩ := written.node
    simp only [Node.shell, newNode, Prod.mk.injEq] at shell
    obtain ⟨named', type, -, -, next⟩ := shell
    have contents : fileBytes t₂ c = bytes := by
      rw [written.bytes (Nat.zero_le _), child.empty at_p, overlay_zero, List.drop_nil,
        List.append_nil]
    refine ⟨null, m', l, rfl, at_c', named'.trans ?_, type, contents, by rwa [next]⟩
    exact List.take_of_length_le (Nat.le_of_lt_succ short)

/-- What the loop over a directory does with the image of `f` and the end marker. -/
def ReadsBack (A : Allocator H) (input : List UInt8) (len : Nat) (f : Forest) : Prop :=
  ∀ {s t : Ramfs H} {kids depth p n g l pos fuel r rest}, RamfsInv A s kids depth →
    s.nodes p = some n → n.type = .dir → Shows s n.children g l → p ∉ l →
    (∀ name ∈ f.names, name ∉ g.names) → input.drop pos = encode f ++ (endMark ++ rest) →
    pos + ((encode f).length + 2) ≤ len → 2 * (len - pos) + 2 ≤ fuel →
    deserKids A input len fuel s p pos = some (r, t) → t.oom = false →
    r = pos + ((encode f).length + 2) ∧ ∃ l', Created A s t p l l' (f.addTo g)

/-- A directory is created with its contents. -/
theorem deserNode_dir (inside : len ≤ input.length) (small : len < 2 ^ 32)
    (inv : RamfsInv A s kids depth) (at_p : s.nodes p = some n) (dir : n.type = .dir)
    (shows : Shows s n.children g l) (out : p ∉ l) (new : name ∉ g.names)
    (short : name.length < ramfsNameMax) (plain : 0 ∉ name) {f : Forest}
    (reads : ReadsBack A input len f)
    (here : input.drop pos = NodeType.dir.byte :: UInt8.ofNat name.length :: name ++
      (encode f ++ (endMark ++ rest)))
    (room : pos + (2 + name.length + ((encode f).length + 2)) ≤ len)
    (enough : 2 * (len - pos) + 1 ≤ fuel + 1)
    (ran : deserNode A input len (fuel + 1) s p pos = some (r, t)) (calm : t.oom = false) :
    r = pos + (2 + name.length + ((encode f).length + 2)) ∧
      ∃ l', Created A s t p l l' (.dir name (f.addTo .nil) g) := by
  obtain ⟨first, second, size, named, behind⟩ := header_reads here short (by omega)
  rw [deserNode, if_neg (by omega), first, Option.bind_some, second, Option.bind_some] at ran
  dsimp only at ran
  rw [size, if_neg (by decide), if_neg (by omega), named, Option.bind_some, if_neg (by decide),
    if_pos rfl, cString_eq plain] at ran
  obtain ⟨c, t₁, made, ext, at_c⟩ := createNode_extends inv at_p .dir name
  rw [ramfsMkdir, made, Option.bind_some] at ran
  dsimp only at ran
  by_cases null : c = 0
  · rw [if_pos null, Option.some.injEq, Prod.mk.injEq] at ran
    obtain ⟨-, rfl⟩ := ran
    exact absurd null (createNode_child inv at_p dir shows new made calm).1.nonnull
  rw [if_neg null] at ran
  obtain ⟨m, at_c⟩ := at_c null
  obtain ⟨_, _, inv₁⟩ := ext.inv
  obtain ⟨r', t', ran', ext'⟩ := (deserNode_extends (A := A) inside (by omega) fuel).2
    (pos + 2 + name.length) inv₁ at_c (by omega)
  rw [ran, Option.some.injEq, Prod.mk.injEq] at ran'
  obtain ⟨rfl, rfl⟩ := ran'
  obtain ⟨child, -⟩ := createNode_child inv at_p dir shows new made (ext'.calm calm)
  obtain ⟨done, l', inner⟩ := reads inv₁ (child.at_child at_p) rfl (g := .nil) (l := [])
    ⟨rfl, rfl⟩ (by simp) (by simp [Forest.names]) behind (by omega) (by omega) ran calm
  refine ⟨by omega, _, child.created at_p shows out inner.inv inner.root inner.others
    (fun tail => ?_) (k := l') fun x mem => ?_⟩
  · obtain ⟨m', kids', before, after, contents⟩ := inner.dir
    obtain rfl := Option.some.inj (before.symm.trans (child.at_child at_p))
    exact ⟨null, _, l', l, rfl, after, List.take_of_length_le (Nat.le_of_lt_succ short), rfl,
      contents, tail⟩
  · exact (inner.fresh x mem).elim (by simp) child.none_of_none

end

/-! ## Reading forests -/

section

variable {len : Nat}

/-- The image of `f` starts with `hd`, the image of one entry; the others are `rest`.
Reading `hd` adds the entry to what a directory contains, which is `mk`. -/
structure HeadReads (A : Allocator H) (input : List UInt8) (len : Nat) (f rest : Forest)
    (name : CString) (hd : List UInt8) (mk : Forest → Forest) : Prop where
  image : encode f = hd ++ encode rest
  names : f.names = name :: rest.names
  unlike : name ∉ rest.names
  addTo : ∀ g, f.addTo g = rest.addTo (mk g)
  mk_names : ∀ g, (mk g).names = name :: g.names
  long : 2 ≤ hd.length
  marker : ∀ {pos tail}, input.drop pos = hd ++ tail → atEnd input pos = some false
  reads : ∀ {s t : Ramfs H} {kids depth p n g l pos fuel r tail}, RamfsInv A s kids depth →
    s.nodes p = some n → n.type = .dir → Shows s n.children g l → p ∉ l → name ∉ g.names →
    input.drop pos = hd ++ tail → pos + hd.length ≤ len → 2 * (len - pos) + 1 ≤ fuel + 1 →
    deserNode A input len (fuel + 1) s p pos = some (r, t) → t.oom = false →
    r = pos + hd.length ∧ ∃ l', Created A s t p l l' (mk g)

/-- The type of a node is not the first byte of an end marker. -/
theorem atEnd_byte {type : NodeType} {y : UInt8} {pos : Nat} {tail : List UInt8}
    (here : input.drop pos = type.byte :: y :: tail) : atEnd input pos = some false := by
  obtain ⟨first, second⟩ := getElem?_of_drop here
  rw [atEnd, first, Option.bind_some, second]
  cases type <;> rfl

/-- A file in front. -/
theorem HeadReads.file (inside : len ≤ input.length) (small : len < 2 ^ 32) {name : CString}
    {bytes : List UInt8} {rest : Forest} (well : (Forest.file name bytes rest).WellNamed) :
    HeadReads A input len (.file name bytes rest) rest name
      (NodeType.file.byte :: UInt8.ofNat name.length :: name ++ (le32 bytes.length ++ bytes))
      (.file name bytes) := by
  obtain ⟨short, plain, unlike, -⟩ := well
  have assoc : ∀ tail, NodeType.file.byte :: UInt8.ofNat name.length :: name ++
      (le32 bytes.length ++ bytes) ++ tail =
        NodeType.file.byte :: UInt8.ofNat name.length :: name ++
          (le32 bytes.length ++ (bytes ++ tail)) := fun tail => by simp
  refine ⟨(assoc _).symm, rfl, unlike, fun _ => rfl, fun _ => rfl, by simp, fun here => ?_,
    fun inv at_p dir shows out new here room enough ran calm => ?_⟩
  · exact atEnd_byte here
  · simp only [List.length_cons, List.length_append, List.cons_append, length_le32] at room ⊢
    rw [assoc] at here
    obtain ⟨rfl, made⟩ := deserNode_file inside small inv at_p dir shows out new short plain here
      (by omega) ran calm
    exact ⟨by omega, made⟩

/-- A directory in front. -/
theorem HeadReads.dir (inside : len ≤ input.length) (small : len < 2 ^ 32) {name : CString}
    {kids rest : Forest} (well : (Forest.dir name kids rest).WellNamed)
    (reads : ReadsBack A input len kids) :
    HeadReads A input len (.dir name kids rest) rest name
      (NodeType.dir.byte :: UInt8.ofNat name.length :: name ++ (encode kids ++ endMark))
      (.dir name (kids.addTo .nil)) := by
  obtain ⟨short, plain, unlike, -⟩ := well
  have assoc : ∀ tail, NodeType.dir.byte :: UInt8.ofNat name.length :: name ++
      (encode kids ++ endMark) ++ tail =
        NodeType.dir.byte :: UInt8.ofNat name.length :: name ++
          (encode kids ++ (endMark ++ tail)) := fun tail => by simp
  refine ⟨(assoc _).symm, rfl, unlike, fun _ => rfl, fun _ => rfl, by simp, fun here => ?_,
    fun inv at_p dir shows out new here room enough ran calm => ?_⟩
  · exact atEnd_byte here
  · have mark : endMark.length = 2 := rfl
    simp only [List.length_cons, List.length_append, List.cons_append, mark] at room ⊢
    rw [assoc] at here
    obtain ⟨rfl, made⟩ := deserNode_dir inside small inv at_p dir shows out new short plain reads
      here (by omega) enough ran calm
    exact ⟨by omega, made⟩

/-- A round of the loop over a directory. -/
theorem ReadsBack.cons (inside : len ≤ input.length) (small : len < 2 ^ 32) {f rest : Forest}
    {name : CString} {hd : List UInt8} {mk : Forest → Forest}
    (head : HeadReads A input len f rest name hd mk) (reads : ReadsBack A input len rest) :
    ReadsBack A input len f := by
  intro s t kids depth p n g l pos fuel r tail inv at_p dir shows out new here room enough ran calm
  rw [head.image, List.append_assoc] at here
  rw [head.image, List.length_append] at room
  have long := head.long
  obtain ⟨k, rfl⟩ : ∃ k, fuel = k + 1 + 1 := ⟨fuel - 2, by omega⟩
  rw [deserKids, if_neg (by omega), head.marker here, Option.bind_some, if_neg (by simp)] at ran
  obtain ⟨r₁, t₁, ran₁, ext⟩ :=
    (deserNode_extends (A := A) inside (by omega) (k + 1)).1 pos inv at_p (by omega)
  rw [ran₁, Option.bind_some] at ran
  dsimp only at ran
  -- the rest of the run does not clear the ghost
  have calm₁ : t₁.oom = false := by
    by_cases stop : r₁ = 0 ∨ r₁ ≤ pos
    · rw [if_pos stop, Option.some.injEq, Prod.mk.injEq] at ran
      rw [ran.2]
      exact calm
    · rw [if_neg stop] at ran
      obtain ⟨_, _, inv₁⟩ := ext.inv
      obtain ⟨_, at_p'⟩ := ext.nodes at_p
      obtain ⟨r', t', ran', ext'⟩ :=
        (deserNode_extends (A := A) inside (by omega) (k + 1)).2 r₁ inv₁ at_p' (by omega)
      rw [ran, Option.some.injEq, Prod.mk.injEq] at ran'
      obtain ⟨-, rfl⟩ := ran'
      exact ext'.calm calm
  obtain ⟨rfl, l₁, made⟩ := head.reads inv at_p dir shows out
    (new name (by rw [head.names]; simp)) here (by omega) (by omega) ran₁ calm₁
  rw [if_neg (by omega)] at ran
  obtain ⟨_, _, inv₁⟩ := made.inv
  obtain ⟨c, at_p', shows', out'⟩ := made.next at_p out
  have new' : ∀ x ∈ rest.names, x ∉ (mk g).names := by
    intro x mem
    rw [head.mk_names, List.mem_cons, not_or]
    exact ⟨fun eq => head.unlike (eq ▸ mem), new x (by rw [head.names]; simp [mem])⟩
  obtain ⟨rfl, l₂, made'⟩ := reads inv₁ at_p' dir shows' out' new'
    (drop_of_drop here) (by omega) (by omega) ran calm
  refine ⟨by rw [head.image, List.length_append]; omega, l₂, ?_⟩
  rw [head.addTo]
  exact made.trans made'

/-- **The loop over a directory** reads back the image of any forest: by induction on it. -/
theorem deserKids_spec (inside : len ≤ input.length) (small : len < 2 ^ 32) (f : Forest)
    (well : f.WellNamed) : ReadsBack A input len f := by
  induction f with
  | nil =>
      intro s t kids depth p n g l pos fuel r tail inv at_p dir shows out new here room enough ran calm
      obtain ⟨k, rfl⟩ : ∃ k, fuel = k + 1 := ⟨fuel - 1, by omega⟩
      obtain ⟨first, second⟩ := getElem?_of_drop here
      simp only [encode, List.length_nil] at room
      rw [deserKids, if_neg (by omega), atEnd, first, Option.bind_some, second] at ran
      obtain ⟨rfl, rfl⟩ := Prod.mk.inj (Option.some.inj ran)
      exact ⟨by simp [encode], l, .refl inv at_p shows⟩
  | file name bytes rest ih =>
      exact ReadsBack.cons inside small (.file inside small well) (ih well.2.2.2)
  | dir name kids rest ihKids ih =>
      exact ReadsBack.cons inside small (.dir inside small well (ihKids well.2.2.2.1))
        (ih well.2.2.2.2)

/-- What the loop of `ramfs_deserialize` does with the image of `f`, which ends the input. -/
def TopReads (A : Allocator H) (input : List UInt8) (len : Nat) (f : Forest) : Prop :=
  ∀ {s t : Ramfs H} {kids depth n g l pos fuel r tail}, RamfsInv A s kids depth →
    s.nodes s.root = some n → n.type = .dir → Shows s n.children g l → s.root ∉ l →
    (∀ name ∈ f.names, name ∉ g.names) → input.drop pos = encode f ++ tail →
    pos + (encode f).length = len → 2 * (len - pos) + 2 ≤ fuel →
    deserTop A input len fuel s pos = some (r, t) → t.oom = false →
    r = 0 ∧ ∃ l', Created A s t s.root l l' (f.addTo g)

/-- A round of that loop. -/
theorem TopReads.cons (inside : len ≤ input.length) (small : len < 2 ^ 32) {f rest : Forest}
    {name : CString} {hd : List UInt8} {mk : Forest → Forest}
    (head : HeadReads A input len f rest name hd mk) (reads : TopReads A input len rest) :
    TopReads A input len f := by
  intro s t kids depth n g l pos fuel r tail inv at_root dir shows out new here room enough ran calm
  rw [head.image, List.append_assoc] at here
  rw [head.image, List.length_append] at room
  have long := head.long
  obtain ⟨k, rfl⟩ : ∃ k, fuel = k + 1 + 1 := ⟨fuel - 2, by omega⟩
  rw [deserTop, if_neg (by omega), head.marker here, Option.bind_some, if_neg (by simp)] at ran
  obtain ⟨r₁, t₁, ran₁, ext⟩ :=
    (deserNode_extends (A := A) inside (by omega) (k + 1)).1 pos inv at_root (by omega)
  rw [ran₁, Option.bind_some] at ran
  dsimp only at ran
  have calm₁ : t₁.oom = false := by
    by_cases stop : r₁ = 0 ∨ r₁ ≤ pos
    · rw [if_pos stop, Option.some.injEq, Prod.mk.injEq] at ran
      rw [ran.2]
      exact calm
    · rw [if_neg stop] at ran
      obtain ⟨_, _, inv₁⟩ := ext.inv
      obtain ⟨r', t', ran', ext'⟩ :=
        deserTop_extends (A := A) inside (by omega) (k + 1) inv₁ r₁ (by omega)
      rw [ran, Option.some.injEq, Prod.mk.injEq] at ran'
      obtain ⟨-, rfl⟩ := ran'
      exact ext'.calm calm
  obtain ⟨rfl, l₁, made⟩ := head.reads inv at_root dir shows out
    (new name (by rw [head.names]; simp)) here (by omega) (by omega) ran₁ calm₁
  rw [if_neg (by omega)] at ran
  obtain ⟨_, _, inv₁⟩ := made.inv
  obtain ⟨c, at_root', shows', out'⟩ := made.next at_root out
  rw [← made.root] at at_root' out'
  have new' : ∀ x ∈ rest.names, x ∉ (mk g).names := by
    intro x mem
    rw [head.mk_names, List.mem_cons, not_or]
    exact ⟨fun eq => head.unlike (eq ▸ mem), new x (by rw [head.names]; simp [mem])⟩
  obtain ⟨rfl, l₂, made'⟩ := reads inv₁ at_root' dir shows' out' new'
    (drop_of_drop here) (by omega) (by omega) ran calm
  refine ⟨rfl, l₂, ?_⟩
  rw [head.addTo]
  rw [made.root] at made'
  exact made.trans made'

/-- **The loop below the root** reads back the image of any forest. -/
theorem deserTop_spec (inside : len ≤ input.length) (small : len < 2 ^ 32) (f : Forest)
    (well : f.WellNamed) : TopReads A input len f := by
  induction f with
  | nil =>
      intro s t kids depth n g l pos fuel r tail inv at_root dir shows out new here room enough ran calm
      obtain ⟨k, rfl⟩ : ∃ k, fuel = k + 1 := ⟨fuel - 1, by omega⟩
      simp only [encode, List.length_nil] at room
      rw [deserTop, if_pos (by omega), Option.some.injEq, Prod.mk.injEq] at ran
      obtain ⟨rfl, rfl⟩ := ran
      exact ⟨rfl, l, .refl inv at_root shows⟩
  | file name bytes rest ih =>
      exact TopReads.cons inside small (.file inside small well) (ih well.2.2.2)
  | dir name kids rest _ ih =>
      exact TopReads.cons inside small
        (.dir inside small well (deserKids_spec inside small kids well.2.2.2.1)) (ih well.2.2.2.2)

end

/-- **What `ramfs_deserialize` does with an image**, whatever stands behind it: if no
allocation fails it succeeds, and the empty root shows the forest, entry by entry in
front of each other. -/
theorem ramfsDeserialize_image (inv : RamfsInv A s kids depth) {n : Node}
    (at_root : s.nodes s.root = some n) (empty : n.children = 0) {f : Forest} (well : f.WellNamed)
    (small : (image f).length < 2 ^ 32) {tail : List UInt8} (enough : 16 ≤ (image f ++ tail).length)
    {r : Int} (ran : ramfsDeserialize A s (image f ++ tail) = some (r, t)) (calm : t.oom = false) :
    r = 0 ∧ ∃ l, Created A s t s.root [] l (f.addTo .nil) := by
  have length := length_image f
  have total : min (ofLe32 (((image f ++ tail).drop 8).take 4)) (image f ++ tail).length =
      (image f).length := by
    rw [image_total, ofLe32_le32 small, List.length_append]
    omega
  obtain ⟨n', at_root', dir, -⟩ := inv.links.top
  obtain rfl := Option.some.inj (at_root.symm.trans at_root')
  unfold ramfsDeserialize at ran
  rw [if_neg (by omega), if_neg (not_not.mpr (image_magic f tail))] at ran
  dsimp only at ran
  rw [total] at ran
  exact deserTop_spec (by rw [List.length_append]; omega) (by omega) f well inv at_root dir
    (g := .nil) (l := []) ⟨empty, rfl⟩ (by simp) (by simp [Forest.names]) (image_body f tail)
    length.symm (by omega) ran calm

end Flyos
