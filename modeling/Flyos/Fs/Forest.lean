import Flyos.Fs.RamfsData

/-!
# Trees of names and contents

A `Forest` is what a user of the file system sees in a directory: a list of files with
their contents and of directories with what is in them.  It is built the way the C
structures are linked, an entry and its siblings, so that `Shows s a f l`, "from the
node pointer `a` the nodes `l` show the forest `f`", is a recursion on `f`.

Two forests have the same `entries` up to order when they differ in the order of
siblings only.  `addTo` is what becomes of a directory when the entries of another are
created in it one by one, each in front of those before.
-/

namespace Flyos

/-- What a directory contains. -/
inductive Forest where
  | nil
  | file (name : CString) (bytes : List UInt8) (rest : Forest)
  | dir (name : CString) (kids rest : Forest)

namespace Forest

/-- The names in a directory. -/
def names : Forest → List CString
  | nil => []
  | file name _ rest => name :: rest.names
  | dir name _ rest => name :: rest.names

/-- The names fit the codec: at most 63 bytes, no NUL, no two siblings with one name. -/
def WellNamed : Forest → Prop
  | nil => True
  | file name _ rest => name.length < ramfsNameMax ∧ 0 ∉ name ∧ name ∉ rest.names ∧ rest.WellNamed
  | dir name kids rest => name.length < ramfsNameMax ∧ 0 ∉ name ∧ name ∉ rest.names ∧
      kids.WellNamed ∧ rest.WellNamed

/-- The names have at most 63 bytes. -/
def Short : Forest → Prop
  | nil => True
  | file name _ rest => name.length < ramfsNameMax ∧ rest.Short
  | dir name kids rest => name.length < ramfsNameMax ∧ kids.Short ∧ rest.Short

/-- Names that fit the codec are short. -/
theorem WellNamed.short {f : Forest} (well : f.WellNamed) : f.Short := by
  induction f with
  | nil => trivial
  | file name bytes rest ih => exact ⟨well.1, ih well.2.2.2⟩
  | dir name kids rest ihKids ih => exact ⟨well.1, ihKids well.2.2.2.1, ih well.2.2.2.2⟩

/-- Every file, with its path and contents, and every directory, with its path. -/
def entries : Forest → List CString → List (List CString × Option (List UInt8))
  | nil, _ => []
  | file name bytes rest, path => (path ++ [name], some bytes) :: rest.entries path
  | dir name kids rest, path =>
      (path ++ [name], none) :: (kids.entries (path ++ [name]) ++ rest.entries path)

/-- The entries of the first directory created in the second. -/
def addTo : Forest → Forest → Forest
  | nil, g => g
  | file name bytes rest, g => rest.addTo (file name bytes g)
  | dir name kids rest, g => rest.addTo (dir name (kids.addTo nil) g)

/-- Creating entries one by one gives them all, in some order. -/
theorem entries_addTo (f g : Forest) (path : List CString) :
    ((f.addTo g).entries path).Perm (f.entries path ++ g.entries path) := by
  induction f generalizing g path with
  | nil => exact .refl _
  | file name bytes rest ih =>
      refine (ih _ path).trans ?_
      simp only [entries]
      exact List.perm_middle
  | dir name kids rest ihKids ih =>
      refine (ih _ path).trans ?_
      have inner := ihKids nil (path ++ [name])
      simp only [entries, List.append_nil] at inner ⊢
      refine List.perm_middle.trans ?_
      rw [List.cons_append, List.perm_cons, ← List.append_assoc]
      refine List.Perm.append_right _ ?_
      exact (List.Perm.append_left _ inner).trans List.perm_append_comm

end Forest

variable {H : Type*} {A : Allocator H} {s t : Ramfs H} {kids : Nat → List Nat}
  {depth : Nat → Nat}

/-- From the pointer `a` the nodes `l` show the forest. -/
def Shows (s : Ramfs H) : Nat → Forest → List Nat → Prop
  | a, .nil, l => a = 0 ∧ l = []
  | a, .file name bytes rest, l => a ≠ 0 ∧ ∃ n r, l = a :: r ∧ s.nodes a = some n ∧
      n.name = name ∧ n.type = .file ∧ fileBytes s a = bytes ∧ Shows s n.next rest r
  | a, .dir name kids rest, l => a ≠ 0 ∧ ∃ n k r, l = a :: (k ++ r) ∧ s.nodes a = some n ∧
      n.name = name ∧ n.type = .dir ∧ Shows s n.children kids k ∧ Shows s n.next rest r

/-- Only the nodes that show a forest matter to it. -/
theorem Shows.congr {f : Forest} {a : Nat} {l : List Nat} (shows : Shows s a f l)
    (same : ∀ x ∈ l, t.nodes x = s.nodes x ∧ fileBytes t x = fileBytes s x) : Shows t a f l := by
  induction f generalizing a l with
  | nil => exact shows
  | file name bytes rest ih =>
      obtain ⟨nonnull, n, r, rfl, at_a, named, file, contents, tail⟩ := shows
      obtain ⟨node, kept⟩ := same a (by simp)
      exact ⟨nonnull, n, r, rfl, node.trans at_a, named, file, kept.trans contents,
        ih tail fun x mem => same x (by simp [mem])⟩
  | dir name kids rest ihKids ih =>
      obtain ⟨nonnull, n, k, r, rfl, at_a, named, dir, inner, tail⟩ := shows
      exact ⟨nonnull, n, k, r, rfl, (same a (by simp)).1.trans at_a, named, dir,
        ihKids inner fun x mem => same x (by simp [mem]), ih tail fun x mem => same x (by simp [mem])⟩

/-- The nodes that show a forest are nodes. -/
theorem Shows.mem {f : Forest} {a x : Nat} {l : List Nat} (shows : Shows s a f l) (mem : x ∈ l) :
    ∃ n, s.nodes x = some n := by
  induction f generalizing a l with
  | nil =>
      rw [shows.2] at mem
      cases mem
  | file name bytes rest ih =>
      obtain ⟨-, n, r, rfl, at_a, -, -, -, tail⟩ := shows
      rcases List.mem_cons.mp mem with rfl | mem
      · exact ⟨n, at_a⟩
      · exact ih tail mem
  | dir name kids rest ihKids ih =>
      obtain ⟨-, n, k, r, rfl, at_a, -, -, inner, tail⟩ := shows
      rcases List.mem_cons.mp mem with rfl | mem
      · exact ⟨n, at_a⟩
      · exact (List.mem_append.mp mem).elim (ihKids inner) (ih tail)

/-- Short names of nodes are short in what the nodes show. -/
theorem Shows.short {f : Forest} {a : Nat} {l : List Nat} (shows : Shows s a f l)
    (short : ∀ c n, s.nodes c = some n → n.name.length < ramfsNameMax) : f.Short := by
  induction f generalizing a l with
  | nil => trivial
  | file name bytes rest ih =>
      obtain ⟨-, n, r, -, at_a, rfl, -, -, tail⟩ := shows
      exact ⟨short a n at_a, ih tail⟩
  | dir name kids rest ihKids ih =>
      obtain ⟨-, n, k, r, -, at_a, rfl, -, inner, tail⟩ := shows
      exact ⟨short a n at_a, ihKids inner, ih tail⟩

/-- From `a` on, siblings have names among `names`. -/
def Siblings (s : Ramfs H) (a : Nat) (names : List CString) : Prop :=
  ∃ c, LinkChain (nextOf s.nodes) (· = 0) a c ∧
    ∀ x ∈ c, ∀ n, s.nodes x = some n → n.name ∈ names

theorem Siblings.cons {a : Nat} {n : Node} {names : List CString} (nonnull : a ≠ 0)
    (at_a : s.nodes a = some n) (tail : Siblings s n.next names) :
    Siblings s a (n.name :: names) := by
  obtain ⟨c, chain, named⟩ := tail
  refine ⟨a :: c, ⟨rfl, nonnull, by rw [nextOf_some at_a]; exact chain⟩, fun x mem m at_x => ?_⟩
  rcases List.mem_cons.mp mem with rfl | mem
  · obtain rfl := Option.some.inj (at_a.symm.trans at_x)
    exact List.mem_cons_self
  · exact List.mem_cons_of_mem _ (named x mem m at_x)

/-- The siblings under a forest have its names. -/
theorem Shows.siblings {f : Forest} {a : Nat} {l : List Nat} (shows : Shows s a f l) :
    Siblings s a f.names := by
  induction f generalizing a l with
  | nil => exact ⟨[], shows.1, by simp⟩
  | file name bytes rest ih =>
      obtain ⟨nonnull, n, r, -, at_a, rfl, -, -, tail⟩ := shows
      exact .cons nonnull at_a (ih tail)
  | dir name kids rest _ ih =>
      obtain ⟨nonnull, n, k, r, -, at_a, rfl, -, -, tail⟩ := shows
      exact .cons nonnull at_a (ih tail)

/-! ## Every tree shows a forest -/

/-- The names of the nodes fit the codec: at most 63 bytes, no NUL, and no two siblings
have one name. -/
def NamesFit (s : Ramfs H) : Prop :=
  ∀ {c m}, s.nodes c = some m → c ≠ s.root → m.name.length < ramfsNameMax ∧ 0 ∉ m.name ∧
    ∀ {c' m'}, s.nodes c' = some m' → c' ≠ s.root → c' ≠ c → m'.parent = m.parent →
      m'.name ≠ m.name

/-- The nodes that lie deeper than `p`. -/
noncomputable def deeper (s : Ramfs H) (depth : Nat → Nat) (p : Nat) : Finset Nat := by
  classical
  exact (Finset.Ioo 0 (2 ^ 64)).filter fun x => (∃ m, s.nodes x = some m) ∧ depth p < depth x

/-- There are fewer nodes below a child. -/
theorem RamfsInv.deeper_lt (inv : RamfsInv A s kids depth) {p c : Nat} {n : Node}
    (at_p : s.nodes p = some n) (mem : c ∈ kids p) :
    (deeper s depth c).card < (deeper s depth p).card := by
  obtain ⟨-, m, at_c, -, below⟩ := inv.links.child at_p mem
  have range := A.pointer (inv.bufs.nodeLive at_c)
  refine Finset.card_lt_card (Finset.ssubset_iff_of_subset (fun x => ?_) |>.mpr ⟨c, ?_, ?_⟩)
  · simp only [deeper, Finset.mem_filter]
    intro ⟨inside, node, deep⟩
    exact ⟨inside, node, by omega⟩
  · simp only [deeper, Finset.mem_filter, Finset.mem_Ioo]
    exact ⟨range, ⟨m, at_c⟩, by omega⟩
  · simp [deeper]

/-- **Every directory shows a forest**; its names fit if those of the nodes do. -/
theorem RamfsInv.showsForest (inv : RamfsInv A s kids depth) {p : Nat} {n : Node}
    (at_p : s.nodes p = some n) :
    ∃ f l, Shows s n.children f l ∧ (NamesFit s → f.WellNamed) := by
  induction below : (deeper s depth p).card using Nat.strongRecOn generalizing p n with
  | _ k ih =>
      -- the siblings from any child on
      have from_child : ∀ (c : List Nat) (a : Nat), LinkChain (nextOf s.nodes) (· = 0) a c →
          (∀ x ∈ c, x ∈ kids p) → ∃ f l, Shows s a f l ∧ (NamesFit s → f.WellNamed) ∧
            ∀ name ∈ f.names, ∃ x ∈ c, ∃ m, s.nodes x = some m ∧ m.name = name := by
        intro c
        induction c with
        | nil =>
            exact fun a chain _ => ⟨.nil, [], ⟨chain, rfl⟩, fun _ => trivial, by simp [Forest.names]⟩
        | cons x c rest =>
            intro a chain sub
            have nodup := chain.nodup
            obtain ⟨rfl, nonnull, tail⟩ := chain
            obtain ⟨⟨m, at_x, parent⟩, -⟩ := inv.links.mem_kids at_p (sub x (by simp))
            rw [nextOf_some at_x] at tail
            obtain ⟨f, l, shows, well, named⟩ := rest m.next tail fun y hy => sub y (by simp [hy])
            have top : ∀ {y}, y ∈ kids p → y ≠ s.root := fun mem eq =>
              inv.links.root_notMem at_p (eq ▸ mem)
            have fresh : NamesFit s → m.name ∉ f.names := by
              intro fit mem
              obtain ⟨-, -, unique⟩ := fit at_x (top (sub x (by simp)))
              obtain ⟨y, hy, m', at_y, eq⟩ := named _ mem
              obtain ⟨⟨m'', at_y', parent'⟩, -⟩ := inv.links.mem_kids at_p (sub y (by simp [hy]))
              obtain rfl := Option.some.inj (at_y.symm.trans at_y')
              have differ : y ≠ x := fun eq => (List.nodup_cons.mp nodup).1 (eq ▸ hy)
              exact unique at_y (top (sub y (by simp [hy]))) differ (parent'.trans parent.symm) eq
            have names : ∀ name ∈ m.name :: f.names, ∃ y ∈ x :: c, ∃ m', s.nodes y = some m' ∧
                m'.name = name := by
              intro name mem
              rcases List.mem_cons.mp mem with rfl | mem
              · exact ⟨x, by simp, m, at_x, rfl⟩
              · obtain ⟨y, hy, m', at_y, eq⟩ := named name mem
                exact ⟨y, by simp [hy], m', at_y, eq⟩
            cases type : m.type with
            | file =>
                refine ⟨.file m.name (fileBytes s x) f, x :: l,
                  ⟨nonnull, m, l, rfl, at_x, rfl, type, rfl, shows⟩, fun fit => ?_, names⟩
                obtain ⟨short, plain, -⟩ := fit at_x (top (sub x (by simp)))
                exact ⟨short, plain, fresh fit, well fit⟩
            | dir =>
                have fewer := inv.deeper_lt at_p (sub x (by simp))
                obtain ⟨g, k', inner, well'⟩ := ih _ (by omega) at_x rfl
                refine ⟨.dir m.name g f, x :: (k' ++ l),
                  ⟨nonnull, m, k', l, rfl, at_x, rfl, type, inner, shows⟩, fun fit => ?_, names⟩
                obtain ⟨short, plain, -⟩ := fit at_x (top (sub x (by simp)))
                exact ⟨short, plain, fresh fit, well' fit, well fit⟩
      obtain ⟨f, l, shows, well, -⟩ := from_child (kids p) n.children (inv.links.chain at_p)
        fun _ mem => mem
      exact ⟨f, l, shows, well⟩

/-- **Every directory shows a forest**, with names that fit. -/
theorem RamfsInv.shows (inv : RamfsInv A s kids depth) (fit : NamesFit s) {p : Nat} {n : Node}
    (at_p : s.nodes p = some n) : ∃ f l, Shows s n.children f l ∧ f.WellNamed := by
  obtain ⟨f, l, shows, well⟩ := inv.showsForest at_p
  exact ⟨f, l, shows, well fit⟩

end Flyos
