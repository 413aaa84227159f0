import Flyos.Fs.FailedOpen
import Flyos.Fs.Walk

/-!
# Opening a path and looking it up

`file_open` splits a path that it cannot find at its last slash, with a buffer of its own
for the part before, and stores at most 63 bytes of the part behind.  `openAgrees_iff` says
when `ramfs_lookup` finds the file afterwards: whenever the path was found before, and for a
new file when nothing was cut off that a lookup would need.
-/

namespace Flyos

variable {H : Type*} {A : Allocator H} {s t : Ramfs H} {kids : Nat → List Nat}
  {depth : Nat → Nat}

/-! ## The first child of a name -/

/-- The first of some nodes with a name, or null. -/
def firstNamed (s : Ramfs H) (name : CString) : List Nat → Nat
  | [] => 0
  | x :: l => if (s.nodes x).map Node.name = some name then x else firstNamed s name l

theorem firstNamed_cons {x : Nat} {l : List Nat} {name : CString} {n : Node}
    (at_x : s.nodes x = some n) :
    firstNamed s name (x :: l) = if n.name = name then x else firstNamed s name l := by
  simp [firstNamed, at_x]

/-- Only the names matter. -/
theorem firstNamed_congr {name : CString} {l : List Nat}
    (same : ∀ x ∈ l, (t.nodes x).map Node.name = (s.nodes x).map Node.name) :
    firstNamed t name l = firstNamed s name l := by
  induction l with
  | nil => rfl
  | cons x l ih =>
      rw [firstNamed, firstNamed, same x (by simp), ih fun y mem => same y (by simp [mem])]

/-- The first of some nodes is one of them and has the name. -/
theorem firstNamed_mem {l : List Nat} {name : CString} (found : firstNamed s name l ≠ 0) :
    firstNamed s name l ∈ l ∧ ∃ n, s.nodes (firstNamed s name l) = some n ∧ n.name = name := by
  induction l with
  | nil => exact absurd rfl found
  | cons x l ih =>
      rw [firstNamed] at found ⊢
      by_cases same : (s.nodes x).map Node.name = some name
      · rw [if_pos same]
        exact ⟨by simp, Option.map_eq_some_iff.mp same⟩
      · rw [if_neg same] at found ⊢
        obtain ⟨mem, named⟩ := ih found
        exact ⟨List.mem_cons_of_mem _ mem, named⟩

/-- It is null only if none has the name. -/
theorem firstNamed_zero {l : List Nat} {name : CString} (none : firstNamed s name l = 0)
    (nonnull : ∀ x ∈ l, x ≠ 0) : ∀ x ∈ l, ∀ n, s.nodes x = some n → n.name ≠ name := by
  induction l with
  | nil => simp
  | cons x l ih =>
      rw [firstNamed] at none
      by_cases same : (s.nodes x).map Node.name = some name
      · rw [if_pos same] at none
        exact absurd none (nonnull x (by simp))
      · rw [if_neg same] at none
        intro y mem n at_y named
        rcases List.mem_cons.mp mem with rfl | mem
        · exact same (by rw [at_y, Option.map_some, named])
        · exact ih none (fun z mem => nonnull z (by simp [mem])) y mem n at_y named

/-- The loop of `ramfs_find_child` stops at it. -/
theorem findChildLoop_eq {name : CString} {a : Nat} {l : List Nat}
    (chain : LinkChain (nextOf s.nodes) (· = 0) a l) (nodes : ∀ x ∈ l, ∃ n, s.nodes x = some n)
    {fuel : Nat} (enough : l.length < fuel) :
    findChildLoop s name fuel a = some (firstNamed s name l) := by
  induction l generalizing a fuel with
  | nil =>
      obtain ⟨fuel, rfl⟩ : ∃ k, fuel = k + 1 := ⟨fuel - 1, by omega⟩
      rw [findChildLoop, if_pos (show a = 0 from chain)]
      rfl
  | cons x l ih =>
      obtain ⟨rfl, more, tail⟩ := chain
      obtain ⟨n, at_x⟩ := nodes x (by simp)
      obtain ⟨fuel, rfl⟩ : ∃ k, fuel = k + 1 := ⟨fuel - 1, by omega⟩
      rw [List.length_cons] at enough
      rw [nextOf_some at_x] at tail
      rw [findChildLoop, if_neg more, at_x, Option.bind_some, firstNamed_cons at_x]
      by_cases same : n.name = name
      · rw [if_pos ((strEq_iff _ _).mpr same), if_pos same]
      · rw [if_neg (fun eq => same ((strEq_iff _ _).mp eq)), if_neg same]
        exact ih tail (fun y mem => nodes y (by simp [mem])) (by omega)

/-- **`ramfs_find_child` finds the first child with the name.** -/
theorem ramfsFindChild_eq (inv : RamfsInv A s kids depth) {p : Nat} {d : Node}
    (at_p : s.nodes p = some d) (name : CString) :
    ramfsFindChild s p name = some (firstNamed s name (kids p)) := by
  have nonnull : p ≠ 0 := fun eq => by rw [eq, inv.links.null] at at_p; cases at_p
  rw [ramfsFindChild, if_neg nonnull, at_p, Option.bind_some]
  by_cases dir : d.type = .dir
  · rw [if_neg (not_not.mpr dir)]
    exact findChildLoop_eq (inv.links.chain at_p) (fun x mem => by
      obtain ⟨⟨m, at_x, -⟩, -⟩ := inv.links.mem_kids at_p mem
      exact ⟨m, at_x⟩) (inv.kids_length at_p)
  · have none : kids p = [] := List.eq_nil_iff_forall_not_mem.mpr fun c mem =>
      dir (inv.links.child at_p mem).1
    rw [if_pos dir, none]
    rfl

/-! ## Walks in a tree with a new file -/

/-- A child of `p` has the name that a creation stores. -/
def Shadowed (s : Ramfs H) (kids : Nat → List Nat) (p : Nat) (name : CString) : Prop :=
  ∃ x ∈ kids p, ∃ n, s.nodes x = some n ∧ n.name = strCopy name ramfsNameMax

/-- A file `c` was created in directory `p`, in front of the children it had. -/
structure NewFile (A : Allocator H) (s t : Ramfs H) (kids : Nat → List Nat) (p c : Nat) (d : Node)
    (name : CString) : Prop where
  before : ∃ depth, RamfsInv A s kids depth
  after : ∃ depth, RamfsInv A t (kidsWith kids p c) depth
  parent : s.nodes p = some d
  dir : d.type = .dir
  nonnull : c ≠ 0
  unused : s.nodes c = none
  nodes : t.nodes = withChild s.nodes p c d (newNode .file name p d.children)
  root : t.root = s.root
  cwd : t.cwd = s.cwd

/-- Walks through `key` that ended at `x`, and where they end in the new tree: from a node of
before, and from the file in place of a child that it hides. -/
structure WalksLike (s t : Ramfs H) (kids : Nat → List Nat) (p c : Nat) (name : CString) (x : Nat)
    (key : CString) : Prop where
  same : ∀ {cur n}, s.nodes cur = some n → walkPath s cur key = some x →
    ∃ y, walkPath t cur key = some y ∧
      (y = x ∨ Shadowed s kids p name ∧ (y = 0 ∨ y = c ∧ x ∈ kids p))
  hides : ∀ {hidden n}, hidden ∈ kids p → s.nodes hidden = some n →
    n.name = strCopy name ramfsNameMax → walkPath s hidden key = some x →
    ∃ y, walkPath t c key = some y ∧
      (y = x ∨ Shadowed s kids p name ∧ (y = 0 ∨ y = c ∧ x ∈ kids p))

namespace NewFile

variable {p c : Nat} {d : Node} {name : CString} (new : NewFile A s t kids p c d name)
include new

theorem ne : c ≠ p := fun eq => by
  have gone := new.unused
  rw [eq, new.parent] at gone
  cases gone

/-- The file. -/
theorem at_file : t.nodes c = some (newNode .file name p d.children) := by
  rw [new.nodes, withChild, Function.update_of_ne new.ne, Function.update_self]

/-- The nodes of before keep all but their children. -/
theorem old {x : Nat} {n : Node} (at_x : s.nodes x = some n) :
    ∃ k, t.nodes x = some { n with children := k } := by
  rw [new.nodes]
  by_cases here : x = p
  · subst here
    obtain rfl := Option.some.inj (at_x.symm.trans new.parent)
    exact ⟨c, by rw [withChild, Function.update_self]⟩
  · have other : x ≠ c := fun eq => by
      have gone := new.unused
      rw [← eq, at_x] at gone
      cases gone
    exact ⟨n.children, by
      rw [withChild, Function.update_of_ne here, Function.update_of_ne other, at_x]⟩

/-- The first child of a name is the new file, or the one it was. -/
theorem firstNamed_eq {x : Nat} {n : Node} (at_x : s.nodes x = some n) (key : CString) :
    firstNamed t key (kidsWith kids p c x) =
      if x = p ∧ strCopy name ramfsNameMax = key then c else firstNamed s key (kids x) := by
  obtain ⟨depth, inv⟩ := new.before
  have same : firstNamed t key (kids x) = firstNamed s key (kids x) := by
    refine firstNamed_congr fun y mem => ?_
    obtain ⟨⟨m, at_y, -⟩, -⟩ := inv.links.mem_kids at_x mem
    obtain ⟨k, at_y'⟩ := new.old at_y
    rw [at_y, at_y']
    rfl
  have other : x ≠ c := fun eq => by
    have gone := new.unused
    rw [← eq, at_x] at gone
    cases gone
  by_cases here : x = p
  · subst here
    rw [kidsWith, Function.update_self, firstNamed_cons new.at_file, same]
    by_cases stored : strCopy name ramfsNameMax = key
    · rw [if_pos (show (newNode .file name x d.children).name = key from stored),
        if_pos ⟨rfl, stored⟩]
    · rw [if_neg (show (newNode .file name x d.children).name ≠ key from stored),
        if_neg fun both => stored both.2]
  · rw [kidsWith, Function.update_of_ne here, Function.update_of_ne other,
      if_neg (fun both => here both.1), same]

/-- One name of a walk, from a node of before. -/
theorem walk_same {x cur : Nat} {n : Node} {key : CString} (there : x ≠ 0) (more : key ≠ [])
    (rest : WalksLike s t kids p c name x (afterName key)) (at_cur : s.nodes cur = some n)
    (ran : walkPath s cur key = some x) :
    ∃ y, walkPath t cur key = some y ∧
      (y = x ∨ Shadowed s kids p name ∧ (y = 0 ∨ y = c ∧ x ∈ kids p)) := by
  obtain ⟨depth, inv⟩ := new.before
  obtain ⟨depth', inv'⟩ := new.after
  obtain ⟨first, at_cur'⟩ := new.old at_cur
  rw [walkPath_cons more] at ran ⊢
  by_cases skip : takeName key = [] ∨ takeName key = [46]
  · rw [if_pos skip] at ran ⊢
    exact rest.same at_cur ran
  rw [if_neg skip, at_cur, Option.bind_some] at ran
  rw [if_neg skip, at_cur', Option.bind_some]
  by_cases up : takeName key = [46, 46]
  · rw [if_pos up] at ran ⊢
    obtain ⟨m, at_next⟩ : ∃ m, s.nodes (if n.parent ≠ 0 then n.parent else cur) = some m := by
      by_cases orphan : n.parent ≠ 0
      · rw [if_pos orphan]
        refine (inv.links.parent at_cur fun top => orphan ?_).1
        obtain ⟨r, at_root, -, none⟩ := inv.links.top
        obtain rfl := Option.some.inj ((top ▸ at_cur).symm.trans at_root)
        exact none
      · rw [if_neg orphan]
        exact ⟨n, at_cur⟩
    exact rest.same at_next ran
  rw [if_neg up] at ran ⊢
  by_cases file : n.type ≠ .dir
  · rw [if_pos file] at ran
    exact absurd (Option.some.inj ran).symm there
  rw [if_neg file] at ran ⊢
  rw [ramfsFindChild_eq inv at_cur, Option.bind_some] at ran
  rw [ramfsFindChild_eq inv' at_cur', Option.bind_some, new.firstNamed_eq at_cur]
  have found : firstNamed s (takeName key) (kids cur) ≠ 0 := fun none => by
    rw [if_pos none] at ran
    exact there (Option.some.inj ran).symm
  obtain ⟨mem, m, at_child, named⟩ := firstNamed_mem found
  rw [if_neg found] at ran
  by_cases hides : cur = p ∧ strCopy name ramfsNameMax = takeName key
  · rw [if_pos hides, if_neg new.nonnull]
    exact rest.hides (hides.1 ▸ mem) at_child (named.trans hides.2.symm) ran
  · rw [if_neg hides, if_neg found]
    exact rest.same at_child ran

/-- One name of a walk, from a child that the file hides: both go up to the same directory, and
nothing else leads out of the file. -/
theorem walk_hides {x hidden : Nat} {n : Node} {key : CString} (more : key ≠ [])
    (rest : WalksLike s t kids p c name x (afterName key)) (mem : hidden ∈ kids p)
    (at_hidden : s.nodes hidden = some n) (named : n.name = strCopy name ramfsNameMax)
    (ran : walkPath s hidden key = some x) :
    ∃ y, walkPath t c key = some y ∧
      (y = x ∨ Shadowed s kids p name ∧ (y = 0 ∨ y = c ∧ x ∈ kids p)) := by
  obtain ⟨depth, inv⟩ := new.before
  have null : p ≠ 0 := fun eq => by
    have at_p := new.parent
    rw [eq, inv.links.null] at at_p
    cases at_p
  rw [walkPath_cons more] at ran ⊢
  by_cases skip : takeName key = [] ∨ takeName key = [46]
  · rw [if_pos skip] at ran ⊢
    exact rest.hides mem at_hidden named ran
  rw [if_neg skip, at_hidden, Option.bind_some] at ran
  rw [if_neg skip, new.at_file, Option.bind_some]
  by_cases up : takeName key = [46, 46]
  · obtain ⟨⟨n', at_hidden', parent⟩, -⟩ := inv.links.mem_kids new.parent mem
    obtain rfl := Option.some.inj (at_hidden.symm.trans at_hidden')
    rw [if_pos up, parent, if_pos null] at ran
    rw [if_pos up, if_pos (show (newNode .file name p d.children).parent ≠ 0 from null)]
    exact rest.same new.parent ran
  · rw [if_neg up, if_pos (by simp [newNode])]
    exact ⟨0, rfl, .inr ⟨⟨hidden, mem, n, at_hidden, named⟩, .inl rfl⟩⟩

/-- **Walks in the new tree** end where they did in the old one.  Only a child with the name
that was stored is hidden behind the file: a walk through it then ends nowhere, or where it
did, and a walk to it ends at the file. -/
theorem walksLike {x : Nat} (there : x ≠ 0) (key : CString) :
    WalksLike s t kids p c name x key := by
  induction size : key.length using Nat.strongRecOn generalizing key with
  | _ k ih =>
      by_cases done : key = []
      · subst done
        refine ⟨fun {cur n} _ ran => ⟨cur, rfl, .inl (Option.some.inj ran)⟩,
          fun {hidden n} mem at_hidden named ran => ?_⟩
        obtain rfl := Option.some.inj ran
        exact ⟨c, rfl, .inr ⟨⟨hidden, mem, n, at_hidden, named⟩, .inr ⟨rfl, mem⟩⟩⟩
      have rest := ih _ (size ▸ rest_shorter done) (afterName key) rfl
      exact ⟨new.walk_same there done rest, new.walk_hides done rest⟩

/-- A whole path that led somewhere. -/
theorem lookup_old (here : HasCwd s) {x : Nat} {path : CString}
    (ran : ramfsLookup s path = some x) (there : x ≠ 0) :
    ∃ y, ramfsLookup t path = some y ∧
      (y = x ∨ Shadowed s kids p name ∧ (y = 0 ∨ y = c ∧ x ∈ kids p)) := by
  obtain ⟨depth, inv⟩ := new.before
  by_cases empty : path = []
  · rw [empty] at ran
    exact absurd (Option.some.inj ran).symm there
  by_cases absolute : path.head? = some 47
  · obtain ⟨rest, rfl⟩ := List.head?_eq_some_iff.mp absolute
    obtain ⟨r, at_root, -⟩ := inv.links.top
    rw [ramfsLookup_root] at ran ⊢
    rw [new.root]
    exact (new.walksLike there rest).same at_root ran
  · obtain ⟨n, at_cwd⟩ := here
    rw [ramfsLookup_cwd empty absolute] at ran ⊢
    rw [new.cwd]
    exact (new.walksLike there path).same at_cwd ran

end NewFile

/-! ## The two parts of a path -/

/-- What stands behind the last slash of a path. -/
def baseName (path : CString) : CString :=
  match lastSlash path with
  | some i => path.drop (i + 1)
  | none => path

/-- The directory that the part of a path before its last slash denotes, all of that part. -/
def denotedParent (s : Ramfs H) (path : CString) : Option Nat :=
  match lastSlash path with
  | some 0 => some s.root
  | some i => ramfsLookup s (path.take i)
  | none => some s.cwd

/-- A path is its two parts and the slash between them. -/
theorem lastSlash_split {path : CString} {i : Nat} (slash : lastSlash path = some i) :
    path.take i ++ 47 :: path.drop (i + 1) = path := by
  induction path generalizing i with
  | nil => cases slash
  | cons b path ih =>
      rw [lastSlash] at slash
      cases tail : lastSlash path with
      | some j =>
          rw [tail] at slash
          obtain rfl := Option.some.inj slash
          rw [List.take_succ_cons, List.drop_succ_cons, List.cons_append, ih tail]
      | none =>
          rw [tail] at slash
          by_cases here : b = 47
          · simp only [here, if_true, Option.some.injEq] at slash
            subst slash
            simp [here]
          · simp [here] at slash

/-- The name in a split path is the part behind the last slash. -/
theorem splitPath_base {path base : CString} {p : Nat}
    (split : splitPath s path = some (p, base)) : base = baseName path ∧ 47 ∉ base := by
  rw [splitPath] at split
  rw [baseName]
  cases slash : lastSlash path with
  | none =>
      rw [slash] at split
      obtain ⟨-, rfl⟩ := Prod.mk.inj (Option.some.inj split)
      exact ⟨rfl, lastSlash_none slash⟩
  | some i =>
      rw [slash] at split
      dsimp only at split ⊢
      have plain := (lastSlash_some slash).2
      by_cases top : min i 127 = 0
      · rw [if_pos top] at split
        obtain ⟨-, rfl⟩ := Prod.mk.inj (Option.some.inj split)
        exact ⟨rfl, plain⟩
      · rw [if_neg top] at split
        obtain ⟨q, -, eq⟩ := Option.map_eq_some_iff.mp split
        obtain ⟨-, rfl⟩ := Prod.mk.inj eq
        exact ⟨rfl, plain⟩

/-- **A lookup goes to the denoted directory**, and from there along the last part. -/
theorem ramfsLookup_base (root : s.root ≠ 0) (cwd : s.cwd ≠ 0) {path : CString}
    (some_byte : path ≠ []) :
    ramfsLookup s path = (denotedParent s path).bind fun q =>
      if q = 0 then some 0 else walkPath s q (baseName path) := by
  rw [denotedParent, baseName]
  cases slash : lastSlash path with
  | none =>
      have plain := lastSlash_none slash
      rw [ramfsLookup_cwd some_byte fun head => plain (List.mem_of_mem_head? head)]
      exact (if_neg cwd).symm
  | some i =>
      have plain := (lastSlash_some slash).2
      have inside := (lastSlash_some slash).1
      have whole := lastSlash_split slash
      cases i with
      | zero =>
          conv_lhs => rw [← whole]
          rw [List.take_zero, List.nil_append, ramfsLookup_root]
          exact (if_neg root).symm
      | succ i =>
          have front : path.take (i + 1) ≠ [] := by
            rw [ne_eq, List.take_eq_nil_iff]
            simp [some_byte]
          conv_lhs => rw [← whole]
          exact ramfsLookup_append root (.inr cwd) front plain

/-! ## The last part -/

section Base

variable {base : CString} (plain : 47 ∉ base)
include plain

/-- A name is cut at 63 bytes. -/
theorem takeName_plain : takeName base = base.take (ramfsNameMax - 1) := by
  rw [takeName, List.takeWhile_eq_self_iff.mpr fun c mem => by
    simpa using fun eq : c = 47 => plain (eq ▸ mem)]

/-- The rest of it is the next name. -/
theorem afterName_plain : afterName base = base.drop (ramfsNameMax - 1) := by
  have rest : 47 ∉ base.drop (ramfsNameMax - 1) := fun mem => plain (List.mem_of_mem_drop mem)
  by_cases long : ramfsNameMax - 1 ≤ base.length
  · rw [afterName, takeName_plain plain, List.length_take, Nat.min_eq_left long, dropWhile_plain rest]
  · rw [afterName, takeName_plain plain, List.length_take, Nat.min_eq_right (by omega),
      List.drop_length, List.drop_eq_nil_of_le (by omega)]
    rfl

/-- The walk along more than 63 bytes. -/
theorem walkPath_long (inv : RamfsInv A s kids depth) (long : ramfsNameMax ≤ base.length) {cur : Nat}
    {n : Node} (at_cur : s.nodes cur = some n) (dir : n.type = .dir) :
    walkPath s cur base = if firstNamed s (base.take (ramfsNameMax - 1)) (kids cur) = 0 then some 0
      else walkPath s (firstNamed s (base.take (ramfsNameMax - 1)) (kids cur))
        (base.drop (ramfsNameMax - 1)) := by
  have length : (base.take (ramfsNameMax - 1)).length = 63 :=
    List.length_take_of_le (Nat.le_of_lt long)
  have other : ∀ {l : CString}, l.length < 63 → base.take (ramfsNameMax - 1) ≠ l := fun less eq => by
    rw [eq] at length
    omega
  rw [walkPath_cons (by rintro rfl; exact absurd long (by decide)), takeName_plain plain,
    afterName_plain plain, if_neg (not_or.mpr ⟨other (by decide), other (by decide)⟩), at_cur,
    Option.bind_some, if_neg (other (by decide)), if_neg (not_not.mpr dir),
    ramfsFindChild_eq inv at_cur, Option.bind_some]

end Base

namespace NewFile

variable {p c : Nat} {d : Node} {base : CString} (new : NewFile A s t kids p c d base)
include new

/-- The file is the first child with the name that was stored. -/
theorem first_stored :
    firstNamed t (base.take (ramfsNameMax - 1)) (kidsWith kids p c p) = c := by
  rw [new.firstNamed_eq new.parent, if_pos ⟨rfl, rfl⟩]

variable (plain : 47 ∉ base)
include plain

/-- **From its directory the file is found** by all of its name only if nothing of it was cut
off, or only a `.` that the lookup skips. -/
theorem fit_of_found (found : walkPath t p base = some c) :
    base ≠ [] ∧ (base.length < ramfsNameMax ∨ base.drop (ramfsNameMax - 1) = [46]) := by
  obtain ⟨depth', inv'⟩ := new.after
  obtain ⟨k, at_p⟩ := new.old new.parent
  refine ⟨fun empty => ?_, ?_⟩
  · rw [empty] at found
    exact new.ne (Option.some.inj found).symm
  by_cases long : base.length < ramfsNameMax
  · exact .inl long
  right
  rw [walkPath_long plain inv' (Nat.le_of_not_lt long) at_p new.dir, new.first_stored,
    if_neg new.nonnull] at found
  have rest : 47 ∉ base.drop (ramfsNameMax - 1) := fun mem => plain (List.mem_of_mem_drop mem)
  have cut : ramfsNameMax - 1 = 63 := rfl
  have more : base.drop (ramfsNameMax - 1) ≠ [] := by
    rw [ne_eq, List.drop_eq_nil_iff, cut]
    exact fun few => long (Nat.lt_succ_of_le few)
  generalize base.drop (ramfsNameMax - 1) = tail at found rest more
  -- a name of one or two bytes is the whole tail
  have whole : ∀ {l : CString}, l.length < 63 → takeName tail = l → tail = l := by
    intro l less eq
    rw [takeName_plain rest, cut] at eq
    have length : (tail.take 63).length = l.length := by rw [eq]
    rw [List.length_take] at length
    rwa [List.take_of_length_le (by omega)] at eq
  rw [walkPath_cons more] at found
  by_cases skip : takeName tail = [] ∨ takeName tail = [46]
  · rcases skip with none | dot
    · exact absurd (whole (by decide) none) more
    · exact whole (by decide) dot
  exfalso
  rw [if_neg skip, new.at_file, Option.bind_some] at found
  by_cases up : takeName tail = [46, 46]
  · have null : p ≠ 0 := fun eq => by
      rw [eq, inv'.links.null] at at_p
      cases at_p
    have done : afterName tail = [] := by
      rw [whole (by decide) up]
      rfl
    rw [if_pos up, if_pos (show (newNode .file base p d.children).parent ≠ 0 from null), done] at found
    exact new.ne (Option.some.inj found).symm
  · rw [if_neg up, if_pos (by simp [newNode])] at found
    exact new.nonnull (Option.some.inj found).symm

/-- **It is found if nothing that matters was cut off**, when the path led nowhere before. -/
theorem found_of_fit (missing : walkPath s p base = some 0) (some_byte : base ≠ [])
    (fit : base.length < ramfsNameMax ∨ base.drop (ramfsNameMax - 1) = [46]) :
    walkPath t p base = some c ∧ ¬ Shadowed s kids p base := by
  obtain ⟨depth, inv⟩ := new.before
  obtain ⟨depth', inv'⟩ := new.after
  obtain ⟨k, at_p⟩ := new.old new.parent
  have null : p ≠ 0 := fun eq => by
    rw [eq, inv'.links.null] at at_p
    cases at_p
  have kids_nonnull : ∀ x ∈ kids p, x ≠ 0 := fun x mem eq => by
    obtain ⟨⟨m, at_x, -⟩, -⟩ := inv.links.mem_kids new.parent mem
    rw [eq, inv.links.null] at at_x
    cases at_x
  have alone : firstNamed s (strCopy base ramfsNameMax) (kids p) = 0 → ¬ Shadowed s kids p base :=
    fun none ⟨x, mem, n, at_x, named⟩ => firstNamed_zero none kids_nonnull x mem n at_x named
  by_cases short : base.length < ramfsNameMax
  · have stored : strCopy base ramfsNameMax = base := List.take_of_length_le (by omega)
    have dots : base ≠ [46] ∧ base ≠ [46, 46] := by
      constructor
      · rintro rfl
        rw [walkPath_cons (by decide), if_pos (.inr (by decide))] at missing
        exact null (Option.some.inj missing)
      · rintro rfl
        rw [walkPath_cons (by decide), if_neg (by decide), new.parent, Option.bind_some,
          if_pos (by decide)] at missing
        have up := Option.some.inj missing
        by_cases orphan : d.parent ≠ 0
        · rw [if_pos orphan] at up
          exact orphan up
        · rw [if_neg orphan] at up
          exact null up
    have proper : base ≠ [] ∧ base ≠ [46] ∧ base ≠ [46, 46] := ⟨some_byte, dots⟩
    rw [walkPath_name plain short proper new.parent new.dir, ramfsFindChild_eq inv new.parent] at missing
    rw [walkPath_name plain short proper at_p new.dir, ramfsFindChild_eq inv' at_p,
      new.firstNamed_eq new.parent, if_pos ⟨rfl, stored⟩]
    exact ⟨rfl, alone (by rw [stored]; exact Option.some.inj missing)⟩
  · have tail := fit.resolve_left short
    have long := Nat.le_of_not_lt short
    have dot : ∀ {u : Ramfs H} {x : Nat}, walkPath u x [46] = some x := fun {u x} => by
      rw [walkPath_cons (by decide), if_pos (.inr (by decide))]
      rfl
    rw [walkPath_long plain inv long new.parent new.dir, tail] at missing
    rw [walkPath_long plain inv' long at_p new.dir, tail, new.first_stored, if_neg new.nonnull, dot]
    refine ⟨rfl, alone ?_⟩
    by_contra there
    rw [if_neg (show firstNamed s (base.take (ramfsNameMax - 1)) (kids p) ≠ 0 from there),
      dot] at missing
    exact there (Option.some.inj missing)

omit plain in
/-- The directory that a path denotes in the new tree. -/
theorem denoted_old (here : HasCwd s) {x : Nat} {path : CString}
    (ran : denotedParent s path = some x) (there : x ≠ 0) :
    ∃ y, denotedParent t path = some y ∧
      (y = x ∨ Shadowed s kids p base ∧ (y = 0 ∨ y = c ∧ x ∈ kids p)) := by
  rw [denotedParent] at ran ⊢
  cases slash : lastSlash path with
  | none =>
      rw [slash] at ran
      exact ⟨x, by rw [← ran]; exact congrArg some new.cwd, .inl rfl⟩
  | some i =>
      rw [slash] at ran
      cases i with
      | zero => exact ⟨x, by rw [← ran]; exact congrArg some new.root, .inl rfl⟩
      | succ i => exact new.lookup_old here ran there

end NewFile

/-- What a successful `file_open` has created. -/
theorem createNode_newFile (inv : RamfsInv A s kids depth) {p c : Nat} {base : CString}
    (ran : createNode A .file s p base = some (c, t)) (nonnull : c ≠ 0) :
    ∃ d, NewFile A s t kids p c d base := by
  have null : p ≠ 0 := fun eq => by
    rw [eq, createNode_null] at ran
    exact nonnull (Prod.mk.inj (Option.some.inj ran)).1.symm
  obtain ⟨d, at_p⟩ : ∃ d, s.nodes p = some d := by
    rw [createNode, if_neg null] at ran
    obtain ⟨d, at_p, -⟩ := Option.bind_eq_some_iff.mp ran
    exact ⟨d, at_p⟩
  obtain ⟨c', t', ran', result⟩ := createNode_spec inv at_p .file base
  obtain ⟨rfl, rfl⟩ := Prod.mk.inj (Option.some.inj (ran.symm.trans ran'))
  rcases result with ⟨zero, -⟩ | ⟨-, dir, -, unused, -, nodes, -, root, cwd, -, inv'⟩
  · exact absurd zero nonnull
  · exact ⟨d, ⟨_, inv⟩, ⟨_, inv'⟩, at_p, dir, nonnull, unused, nodes, root, cwd⟩

/-! ## Opening and looking up -/

/-- **What a caller of `file_open` expects of a descriptor for the node `f`**: the path leads
to the node; opening it again creates nothing and gives the same node, unless no descriptor is
left; and a new file is in the directory that the path says. -/
structure Agrees (A : Allocator H) (s t : FileSys H) (path : CString) (f : Nat) : Prop where
  found : ramfsLookup t.fs path = some f
  again : ∃ r u, fileOpen A t path = some (r, u) ∧ u.fs = t.fs ∧
    ∀ j : Nat, t.freeFd = some j → r = j ∧ (u.fdTable j).node = f
  parent : s.fs.nodes f = none → ∃ n, t.fs.nodes f = some n ∧
    denotedParent s.fs path = some n.parent

/-- Every descriptor that `file_open` returns for the path is as expected. -/
def OpenAgrees (A : Allocator H) (s : FileSys H) (path : CString) : Prop :=
  ∀ (i : Nat) t, fileOpen A s path = some ((i : Int), t) → Agrees A s t path (t.fdTable i).node

/-- Nothing of the path that matters is cut off: the directory it is split at is the one that
all of its first part denotes; the last part is not empty and has at most 63 bytes, or a `.`
behind them. -/
def NameFits (s : Ramfs H) (path : CString) : Prop :=
  ∀ p base, splitPath s path = some (p, base) → denotedParent s path = some p ∧ base ≠ [] ∧
    (base.length < ramfsNameMax ∨ base.drop (ramfsNameMax - 1) = [46])

section Opens

variable {s t : FileSys H} {path : CString}

/-- A path that leads to a file can be opened again. -/
theorem fileOpen_found {f : Nat} {n : Node} (looked : ramfsLookup s.fs path = some f)
    (nonnull : f ≠ 0) (at_f : s.fs.nodes f = some n) (file : n.type = .file) :
    ∃ r u, fileOpen A s path = some (r, u) ∧ u.fs = s.fs ∧
      ∀ j : Nat, s.freeFd = some j → r = j ∧ (u.fdTable j).node = f := by
  rw [fileOpen, looked, Option.bind_some, if_pos nonnull, Option.bind_some]
  dsimp only
  rw [if_neg nonnull, at_f, Option.map_some, if_neg (not_not.mpr file)]
  cases free : s.freeFd with
  | none =>
      exact ⟨-1, _, rfl, rfl, fun j eq => by cases eq⟩
  | some i =>
      refine ⟨i, _, rfl, rfl, fun j eq => ?_⟩
      cases eq
      exact ⟨rfl, by rw [FileSys.setFd_fdTable, Function.update_self]⟩

/-- A path that leads nowhere, when its file can be created. -/
theorem fileOpen_new {p c i : Nat} {base : CString} {fs : Ramfs H} {n : Node}
    (looked : ramfsLookup s.fs path = some 0) (split : splitPath s.fs path = some (p, base))
    (created : createNode A .file s.fs p base = some (c, fs)) (nonnull : c ≠ 0)
    (at_c : fs.nodes c = some n) (file : n.type = .file) (free : s.freeFd = some i) :
    fileOpen A s path = some ((i : Int), ({ s with fs } : FileSys H).setFd i ⟨true, c, 0, false⟩) := by
  rw [fileOpen, looked, Option.bind_some, if_neg (not_not.mpr rfl), openCreate_eq, split,
    Option.bind_some, ramfsCreateFile, created, Option.bind_some]
  dsimp only
  rw [if_neg nonnull, at_c, Option.map_some, if_neg (not_not.mpr file),
    show ({ s with fs } : FileSys H).freeFd = some i from free]

/-- **Open and lookup agree, exactly when** no file is created under a name, or in a directory,
that something was cut off: for every tree and every path.  Both look for the same node, so only
a creation can set them apart: the file is stored under as much of the name as fits into a node,
in the directory that as much of the path leads to as fits into a buffer (`NameFits`). -/
theorem openAgrees_iff (inv : RamfsInv A s.fs kids depth) (here : HasCwd s.fs) :
    OpenAgrees A s path ↔
      (CreatesFile A s.fs path → s.freeFd ≠ none → NameFits s.fs path) := by
  have root : s.fs.root ≠ 0 := fun eq => by
    obtain ⟨r, at_root, -⟩ := inv.links.top
    rw [eq, inv.links.null] at at_root
    cases at_root
  have cwd : s.fs.cwd ≠ 0 := fun eq => by
    obtain ⟨n, at_cwd⟩ := here
    rw [eq, inv.links.null] at at_cwd
    cases at_cwd
  constructor
  · intro agrees ⟨looked, p, base, split, can⟩ free
    obtain ⟨i, free⟩ := Option.ne_none_iff_exists'.mp free
    have ⟨d, at_p, _⟩ := can
    obtain ⟨c, fs, created, -⟩ := createNode_spec inv at_p .file base
    have nonnull := (createNode_cases inv created).1.mp can
    obtain ⟨d, new⟩ := createNode_newFile inv created nonnull
    obtain ⟨found, -, parent⟩ := agrees i _
      (fileOpen_new looked split created nonnull new.at_file rfl free)
    simp only [FileSys.setFd_fs, FileSys.setFd_fdTable, Function.update_self] at found parent
    obtain ⟨n, at_c, denoted⟩ := parent new.unused
    obtain rfl := Option.some.inj (new.at_file.symm.trans at_c)
    change denotedParent s.fs path = some p at denoted
    intro p' base' split'
    obtain ⟨rfl, rfl⟩ := Prod.mk.inj (Option.some.inj (split.symm.trans split'))
    obtain ⟨rfl, plain⟩ := splitPath_base split
    refine ⟨denoted, new.fit_of_found plain ?_⟩
    have some_byte : path ≠ [] := fun eq => by
      rw [eq] at found
      exact nonnull (Option.some.inj found).symm
    have null : p ≠ 0 := fun eq => by
      rw [eq, inv.links.null] at at_p
      cases at_p
    rw [ramfsLookup_base (new.root ▸ root) (new.cwd ▸ cwd) some_byte] at found
    obtain ⟨q, denoted', found⟩ := Option.bind_eq_some_iff.mp found
    obtain ⟨y, denoted'', same⟩ := new.denoted_old here denoted null
    obtain rfl := Option.some.inj (denoted'.symm.trans denoted'')
    by_cases zero : q = 0
    · rw [if_pos zero] at found
      exact absurd (Option.some.inj found).symm nonnull
    rw [if_neg zero] at found
    rcases same with rfl | ⟨-, zero' | ⟨-, mem⟩⟩
    · exact found
    · exact absurd zero' zero
    · exact absurd rfl (inv.links.mem_kids at_p mem).2
  · intro fits i t ran
    obtain ⟨c, fs, got, ⟨-, answer, -⟩ | ⟨nonnull, n, at_c, ⟨-, answer, -⟩ |
      ⟨file, j, free, answer, rfl⟩⟩⟩ := fileOpen_cases ran
    · omega
    · omega
    obtain rfl : i = j := by omega
    rw [FileSys.setFd_fdTable, Function.update_self]
    rcases got with ⟨looked, -, rfl⟩ | ⟨looked, p, base, split, created⟩
    · exact ⟨looked, fileOpen_found looked nonnull at_c file, fun gone => by
        rw [gone] at at_c
        cases at_c⟩
    obtain ⟨d, new⟩ := createNode_newFile inv created nonnull
    have possible := (createNode_cases inv created).1.mpr nonnull
    obtain ⟨denoted, some_byte, fit⟩ := fits ⟨looked, p, base, split, possible⟩
      (by rw [free]; simp) p base split
    obtain ⟨rfl, plain⟩ := splitPath_base split
    have more : path ≠ [] := fun eq => by
      rw [eq] at some_byte
      exact some_byte rfl
    have null : p ≠ 0 := fun eq => by
      have at_p := new.parent
      rw [eq, inv.links.null] at at_p
      cases at_p
    have missing := looked
    rw [ramfsLookup_base root cwd more, denoted, Option.bind_some, if_neg null] at missing
    obtain ⟨reached, alone⟩ := new.found_of_fit plain missing some_byte fit
    obtain ⟨y, denoted', same⟩ := new.denoted_old here denoted null
    obtain rfl := same.resolve_right fun shadowed => alone shadowed.1
    have found : ramfsLookup fs path = some c := by
      rw [ramfsLookup_base (new.root ▸ root) (new.cwd ▸ cwd) more, denoted', Option.bind_some,
        if_neg null, reached]
    exact ⟨found, fileOpen_found found nonnull new.at_file rfl,
      fun _ => ⟨_, new.at_file, denoted⟩⟩

end Opens

/-- The file `a` in an empty tree. -/
theorem openAgrees_a : OpenAgrees countingAllocator (fileInit freshRoot) [97] := by
  obtain ⟨depth, inv⟩ := freshRoot_inv
  refine (openAgrees_iff (s := fileInit freshRoot) inv ⟨_, rfl⟩).mpr fun _ _ p base split => ?_
  have there : splitPath freshRoot [97] = some (1, [97]) := rfl
  obtain ⟨rfl, rfl⟩ := Prod.mk.inj (Option.some.inj (split.symm.trans there))
  exact ⟨rfl, by decide, .inl (by decide)⟩

/-- **A name of 64 bytes**: the file is created under the first 63 of them, and the lookup does
not find it. -/
theorem openAgrees_long :
    ¬ OpenAgrees countingAllocator (fileInit freshRoot) (List.replicate 64 97) := by
  intro agrees
  have result : (fileOpen countingAllocator (fileInit freshRoot) (List.replicate 64 97)).map
      (fun r => (r.1, ramfsLookup r.2.fs (List.replicate 64 97), (r.2.fdTable 3).node)) =
        some (3, some 0, 2) := rfl
  obtain ⟨⟨r, t⟩, ran, same⟩ := Option.map_eq_some_iff.mp result
  simp only [Prod.mk.injEq] at same
  obtain ⟨rfl, missing, node⟩ := same
  have found := (agrees 3 t ran).found
  rw [missing, node] at found
  cases found

end Flyos
