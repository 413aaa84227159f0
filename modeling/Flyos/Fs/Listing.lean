import Flyos.Fs.FailedOpen
import Flyos.Lib.Cursor
import Flyos.Lib.Runs

/-!
# Listing a directory

A listing opens a directory with `dir_open` and calls `dir_read` until it answers 0.  The
descriptor keeps an index into the child list, which other tasks change in between.

`listing_once` says when such a listing is complete and free of repeats: no node is created
in the directory once an entry was returned, and no entry that was returned is unlinked.  A
node that is created comes first in the list and moves the others behind the index
(`listing_repeats`).
-/

namespace Flyos

variable {H : Type*} {A : Allocator H} {kids : Nat → List Nat} {depth : Nat → Nat}

/-! ## The calls -/

/-- The node at position `target` of the list from `c`, or null behind the end. -/
def entryLoop (s : Ramfs H) : Nat → Nat → Nat → Option Nat
  | 0, _, _ => none
  | fuel + 1, c, target =>
      if c = 0 then some 0
      else (s.nodes c).bind fun n =>
        if target = 0 then some c else entryLoop s fuel n.next (target - 1)

/-- The child that the next `dir_read` answers. -/
def dirEntry (s : FileSys H) (fd : Nat) : Option Nat :=
  (s.fs.nodes (s.fdTable fd).node).bind fun dir =>
    entryLoop s.fs walkFuel dir.children (s.fdTable fd).pos

/-- The system while a directory is listed, with the children that were returned. -/
structure Listing (H : Type*) where
  sys : FileSys H
  returned : List Nat

/-- A `dir_read`, and what other tasks do to the tree in between. -/
inductive DirCall where
  | read (max : Nat)
  | create (type : NodeType) (dir : Nat) (name : CString)
  | unlink (node : Nat)

/-- One call while descriptor `fd` is listed.  The listing goes on while `dir_read` answers
1. -/
def listExec (A : Allocator H) (fd : Nat) (l : Listing H) : DirCall → Option (Listing H)
  | .read max => (dirRead l.sys fd max).bind fun r =>
      if r.1 = 1 then (dirEntry l.sys fd).map fun c => ⟨r.2.2, l.returned ++ [c]⟩ else none
  | .create type dir name => (createNode A type l.sys.fs dir name).map fun r =>
      { l with sys := { l.sys with fs := r.2 } }
  | .unlink node => (ramfsUnlinkNode A l.sys.fs node).map fun r =>
      { l with sys := { l.sys with fs := r.2 } }

/-- Node `x` is in the child list of `dir`. -/
def IsChild (s : Ramfs H) (dir x : Nat) : Prop :=
  ∃ d l, s.nodes dir = some d ∧ LinkChain (nextOf s.nodes) (· = 0) d.children l ∧ x ∈ l

/-- **A call that leaves the index in place**: nothing is created in the directory unless the
index is 0, and no entry that was returned is taken out. -/
def Undisturbed (A : Allocator H) (fd dir : Nat) (l : Listing H) : DirCall → Prop
  | .read _ => True
  | .create _ p name => p = dir → CanCreate A l.sys.fs p name → (l.sys.fdTable fd).pos = 0
  | .unlink c => c ∈ l.returned → ¬ Removable l.sys.fs c

/-! ## What `dir_read` answers -/

section Read

variable {s : Ramfs H}

/-- The loop of `dir_read` finds the element at its index. -/
theorem dirReadLoop_spec {l : List Nat} {a fuel : Nat}
    (chain : LinkChain (nextOf s.nodes) (· = 0) a l)
    (live : ∀ x ∈ l, ∃ n, s.nodes x = some n) (enough : l.length < fuel) (k : Nat) :
    dirReadLoop s fuel a k = some (l[k]?.bind s.nodes) ∧
      entryLoop s fuel a k = some (l[k]?.getD 0) := by
  induction l generalizing a fuel k with
  | nil =>
      obtain ⟨f, rfl⟩ : ∃ f, fuel = f + 1 := ⟨fuel - 1, by simp at enough; omega⟩
      exact ⟨if_pos chain, if_pos chain⟩
  | cons x l ih =>
      obtain ⟨f, rfl⟩ : ∃ f, fuel = f + 1 := ⟨fuel - 1, by omega⟩
      obtain ⟨rfl, nonnull, rest⟩ := chain
      obtain ⟨n, at_x⟩ := live x (by simp)
      rw [nextOf_some at_x] at rest
      simp only [dirReadLoop, entryLoop, if_neg nonnull, at_x, Option.bind_some]
      cases k with
      | zero => exact ⟨by simp [at_x], rfl⟩
      | succ k =>
          exact ih rest (fun y mem => live y (List.mem_cons_of_mem x mem)) (by simpa using enough) k

/-- The children of a node are its child list. -/
theorem RamfsInv.isChild_iff (inv : RamfsInv A s kids depth) {dir x : Nat} {d : Node}
    (at_dir : s.nodes dir = some d) : IsChild s dir x ↔ x ∈ kids dir := by
  constructor
  · rintro ⟨d', l, at_dir', chain, mem⟩
    obtain rfl := Option.some.inj (at_dir.symm.trans at_dir')
    rwa [(inv.links.chain at_dir).unique chain]
  · intro mem
    exact ⟨d, kids dir, at_dir, inv.links.chain at_dir, mem⟩

end Read

/-- **While a directory is listed**, its descriptor has returned the children in front of the
index. -/
structure ListInv (A : Allocator H) (fd dir : Nat) (kids : Nat → List Nat)
    (depth : Nat → Nat) (pos : Nat) (l : Listing H) : Prop where
  tree : RamfsInv A l.sys.fs kids depth
  low : 3 ≤ fd
  high : fd < maxFd
  desc : l.sys.fdTable fd = ⟨true, dir, pos, true⟩
  node : ∃ d, l.sys.fs.nodes dir = some d
  seen : SeenUpTo (kids dir) l.returned pos

section Invariant

variable {l l' : Listing H} {fd dir pos : Nat}

/-- **What `dir_read` answers**: the name and the type of the child at the index, or 0 when
there is none. -/
theorem ListInv.dirRead (inv : ListInv A fd dir kids depth pos l) (max : Nat) :
    (∃ x n, (kids dir)[pos]? = some x ∧ dirEntry l.sys fd = some x ∧
        l.sys.fs.nodes x = some n ∧
        dirRead l.sys fd max = some (1, some (strCopy n.name max, n.type),
          l.sys.setFd fd ⟨true, dir, pos + 1, true⟩)) ∨
      (kids dir).length ≤ pos ∧ dirRead l.sys fd max = some (0, none, l.sys) := by
  obtain ⟨tree, low, high, desc, ⟨d, at_dir⟩, -⟩ := inv
  have index : l.sys.fd? fd = some fd :=
    FileSys.fd?_eq_some.mpr ⟨rfl, low, high, by rw [desc]⟩
  have live : ∀ x ∈ kids dir, ∃ n, l.sys.fs.nodes x = some n := fun x mem => by
    obtain ⟨⟨n, at_x, -⟩, -⟩ := tree.links.mem_kids at_dir mem
    exact ⟨n, at_x⟩
  obtain ⟨reads, entry⟩ := dirReadLoop_spec (tree.links.chain at_dir) live
    (tree.kids_length at_dir) pos
  rw [Flyos.dirRead, dirEntry, index]
  simp only [desc, at_dir, Option.bind_some, reads, entry, Bool.true_eq_false, if_false]
  by_cases inside : pos < (kids dir).length
  · obtain ⟨n, at_x⟩ := live _ (List.getElem_mem inside)
    left
    refine ⟨(kids dir)[pos], n, List.getElem?_eq_getElem inside, ?_, at_x, ?_⟩
    · rw [List.getElem?_eq_getElem inside]
      rfl
    · rw [List.getElem?_eq_getElem inside, Option.bind_some, at_x]
      rfl
  · right
    refine ⟨Nat.le_of_not_lt inside, ?_⟩
    rw [List.getElem?_eq_none (Nat.le_of_not_lt inside)]
    rfl

/-- A node that is created in the directory comes first in its list. -/
theorem ListInv.create (inv : ListInv A fd dir kids depth pos l) {type : NodeType} {p : Nat}
    {name : CString} (still : p = dir → CanCreate A l.sys.fs p name → pos = 0)
    (one : listExec A fd l (.create type p name) = some l') :
    ∃ kids depth, ListInv A fd dir kids depth pos l' := by
  obtain ⟨tree, low, high, desc, ⟨d, at_dir⟩, seen⟩ := inv
  obtain ⟨⟨c, t⟩, ran, rfl⟩ := Option.map_eq_some_iff.mp one
  by_cases null : p = 0
  · rw [null, createNode_null] at ran
    cases ran
    exact ⟨kids, depth, tree, low, high, desc, ⟨d, at_dir⟩, seen⟩
  have unfolded := ran
  rw [createNode, if_neg null] at unfolded
  obtain ⟨parent, at_p, -⟩ := Option.bind_eq_some_iff.mp unfolded
  obtain ⟨c', t', ran', result⟩ := createNode_spec tree at_p type name
  obtain ⟨rfl, rfl⟩ := Prod.mk.inj (Option.some.inj (ran.symm.trans ran'))
  rcases result with ⟨-, files, tree', -⟩ | ⟨nonnull, -, -, unused, -, nodes, -, -, -, -, tree'⟩
  · exact ⟨kids, depth, tree', low, high, desc, ⟨d, by rw [files.nodes]; exact at_dir⟩, seen⟩
  have fresh : dir ≠ c := fun eq => by
    rw [eq, unused] at at_dir
    cases at_dir
  refine ⟨_, _, tree', low, high, desc, ?_, ?_⟩
  · rw [nodes, withChild]
    by_cases same : dir = p
    · exact ⟨_, by rw [same, Function.update_self]⟩
    · exact ⟨d, by rw [Function.update_of_ne same, Function.update_of_ne fresh, at_dir]⟩
  · rw [kidsWith]
    by_cases same : dir = p
    · have first : pos = 0 := still same.symm ((createNode_cases tree ran).1.mpr nonnull)
      subst first
      subst same
      rw [Function.update_self]
      exact seen.push c
    · rw [Function.update_of_ne same, Function.update_of_ne fresh]
      exact seen

/-- A node that is unlinked was not returned, or stays. -/
theorem ListInv.unlink (inv : ListInv A fd dir kids depth pos l) {x c : Nat}
    (present : x ∈ kids dir) (still : c ∈ l.returned → ¬ Removable l.sys.fs c)
    (one : listExec A fd l (.unlink c) = some l') :
    ∃ kids depth, ListInv A fd dir kids depth pos l' := by
  obtain ⟨tree, low, high, desc, ⟨d, at_dir⟩, seen⟩ := inv
  obtain ⟨⟨r, t⟩, ran, rfl⟩ := Option.map_eq_some_iff.mp one
  by_cases null : c = 0
  · rw [ramfsUnlinkNode, if_pos null] at ran
    cases ran
    exact ⟨kids, depth, tree, low, high, desc, ⟨d, at_dir⟩, seen⟩
  have unfolded := ran
  rw [ramfsUnlinkNode, if_neg null] at unfolded
  obtain ⟨m, at_c, -⟩ := Option.bind_eq_some_iff.mp unfolded
  rcases ramfsUnlinkNode_spec tree at_c with ⟨-, ran'⟩ | ⟨below, leaf, t', ran', rest, tree'⟩
  · rw [ran'] at ran
    cases ran
    exact ⟨kids, depth, tree, low, high, desc, ⟨d, at_dir⟩, seen⟩
  rw [ran'] at ran
  cases ran
  -- a directory with a child is not unlinked
  have other : dir ≠ c := fun eq => by
    rw [eq, leaf] at present
    cases present
  obtain ⟨d', at_dir', -⟩ := rest.kept other at_dir
  refine ⟨_, depth, tree', low, high, desc, ⟨d', at_dir'⟩, ?_⟩
  by_cases same : dir = m.parent
  · have unseen : c ∉ l.returned := fun mem => by
      refine still mem ⟨below, m, at_c, fun _ => ?_⟩
      have chain := tree.links.chain at_c
      rw [leaf] at chain
      exact chain
    rw [← same, Function.update_self]
    exact seen.erase unseen
  · rw [Function.update_of_ne same]
    exact seen

/-- **One call** keeps the invariant. -/
theorem ListInv.step (inv : ListInv A fd dir kids depth pos l) {x : Nat}
    (present : IsChild l.sys.fs dir x) {call : DirCall} (still : Undisturbed A fd dir l call)
    (one : listExec A fd l call = some l') :
    ∃ kids depth pos, ListInv A fd dir kids depth pos l' := by
  cases call with
  | read max =>
      obtain ⟨r, ran, went⟩ := Option.bind_eq_some_iff.mp one
      rcases inv.dirRead max with ⟨c, n, here, entry, -, answer⟩ | ⟨-, answer⟩
      · obtain rfl := Option.some.inj (ran.symm.trans answer)
        rw [if_pos rfl, entry, Option.map_some] at went
        cases went
        exact ⟨kids, depth, pos + 1, inv.tree, inv.low, inv.high, Function.update_self ..,
          inv.node, inv.seen.advance here⟩
      · obtain rfl := Option.some.inj (ran.symm.trans answer)
        cases went
  | create type p name =>
      rw [Undisturbed, inv.desc] at still
      obtain ⟨kids', depth', inv'⟩ := inv.create still one
      exact ⟨kids', depth', pos, inv'⟩
  | unlink c =>
      obtain ⟨d, at_dir⟩ := inv.node
      have mem := (inv.tree.isChild_iff at_dir).mp present
      obtain ⟨kids', depth', inv'⟩ := inv.unlink mem still one
      exact ⟨kids', depth', pos, inv'⟩

end Invariant

/-- `dir_open` starts a listing. -/
theorem dirOpen_listInv {s t : FileSys H} (inv : RamfsInv A s.fs kids depth) {path : CString}
    {fd : Nat} (opened : dirOpen s path = some ((fd : Int), t)) :
    ListInv A fd (t.fdTable fd).node kids depth 0 ⟨t, []⟩ := by
  rcases dirOpen_cases opened with ⟨answer, -⟩ | ⟨i, n, d, answer, free, at_n, -, rfl⟩
  · omega
  obtain rfl : fd = i := by omega
  obtain ⟨low, high, -⟩ := FileSys.freeFd_some free
  have desc : (s.setFd fd ⟨true, n, 0, true⟩).fdTable fd = ⟨true, n, 0, true⟩ :=
    Function.update_self ..
  rw [desc]
  exact ⟨inv, low, high, desc, ⟨d, at_n⟩, .start _⟩

/-! ## Complete and without repeats -/

/-- **A listing that is not disturbed returns every child once**: a child that is there before
each call and at the end, in every run of reads, creations and removals from `dir_open` to the
first `dir_read` that answers 0.  The descriptor holds an index into the list of children
(`ListInv`), and new ones go to the front.  So `Undisturbed` lets a creation in the directory
pass only at index 0, and a removal only of what was not returned yet; it is about the state
before each call. -/
theorem listing_once {s t u : FileSys H} (inv : RamfsInv A s.fs kids depth) {path : CString}
    {fd dir x max : Nat} {calls : List DirCall} {l : Listing H}
    {entry : Option (CString × NodeType)}
    (opened : dirOpen s path = some ((fd : Int), t)) (listed : (t.fdTable fd).node = dir)
    (run : Run (Guarded (fun l call => IsChild l.sys.fs dir x ∧ Undisturbed A fd dir l call)
      fun l call l' => listExec A fd l call = some l') ⟨t, []⟩ calls l)
    (present : IsChild l.sys.fs dir x) (ends : dirRead l.sys fd max = some (0, entry, u)) :
    l.returned.count x = 1 := by
  have start := dirOpen_listInv inv opened
  rw [listed] at start
  obtain ⟨kids', depth', pos, inv'⟩ :=
    run.invariant (fun l => ∃ kids depth pos, ListInv A fd dir kids depth pos l)
      (fun ⟨_, _, _, inv⟩ ⟨⟨present, still⟩, one⟩ => inv.step present still one)
      ⟨kids, depth, 0, start⟩
  obtain ⟨d, at_dir⟩ := inv'.node
  have mem := (inv'.tree.isChild_iff at_dir).mp present
  rcases inv'.dirRead max with ⟨c, n, -, -, -, answer⟩ | ⟨atEnd, -⟩
  · rw [answer] at ends
    cases ends
  · exact inv'.seen.complete atEnd (inv'.tree.links.nodup at_dir) mem

/-- A listing of the root of `oneFile` after some calls. -/
def rootListing (calls : List DirCall) : Listing CountingHeap :=
  let opened := ((dirOpen (fileInit oneFile) [47]).map Prod.snd).getD (fileInit oneFile)
  (calls.foldlM (listExec countingAllocator 3) ⟨opened, []⟩).getD ⟨opened, []⟩

/-- A directory that is created before the first `dir_read` does no harm: two calls return the
two entries. -/
theorem listing_once_two :
    (rootListing [.create .dir 1 [98], .read 32, .read 32]).returned.count 2 = 1 := by
  obtain ⟨kids, depth, inv⟩ := oneFile_inv
  have before : IsChild (rootListing []).sys.fs 1 2 :=
    ⟨_, [2], rfl, ⟨rfl, by decide, rfl⟩, by decide⟩
  have after : ∀ l : Listing CountingHeap,
      l.sys.fs = (rootListing [.create .dir 1 [98]]).sys.fs → IsChild l.sys.fs 1 2 := by
    intro l same
    rw [same]
    exact ⟨_, [3, 2], rfl, ⟨rfl, by decide, rfl, by decide, rfl⟩, by decide⟩
  have run : Run (Guarded
      (fun l call => IsChild l.sys.fs 1 2 ∧ Undisturbed countingAllocator 3 1 l call)
      fun l call l' => listExec countingAllocator 3 l call = some l') (rootListing [])
      [.create .dir 1 [98], .read 32, .read 32]
      (rootListing [.create .dir 1 [98], .read 32, .read 32]) :=
    .cons (t := rootListing [.create .dir 1 [98]]) ⟨⟨before, fun _ _ => rfl⟩, rfl⟩
      (.cons (t := rootListing [.create .dir 1 [98], .read 32]) ⟨⟨after _ rfl, trivial⟩, rfl⟩
        (.single ⟨⟨after _ rfl, trivial⟩, rfl⟩))
  have opened : dirOpen (fileInit oneFile) [47] = some (((3 : ℕ) : ℤ), (rootListing []).sys) := rfl
  exact listing_once inv opened rfl run (after _ rfl) (rfl : dirRead _ 3 32 = some (0, none, _))

/-- **An entry is returned twice** when a file is created in the directory after it was
returned. -/
theorem listing_repeats : ¬ ∀ calls l u,
    Run (Guarded (fun l _ => IsChild l.sys.fs 1 2)
      fun l call l' => listExec countingAllocator 3 l call = some l') (rootListing []) calls l →
    IsChild l.sys.fs 1 2 → dirRead l.sys 3 32 = some (0, none, u) → l.returned.count 2 = 1 := by
  intro once
  have before : ∀ l : Listing CountingHeap,
      l.sys.fs = (rootListing []).sys.fs → IsChild l.sys.fs 1 2 := by
    intro l same
    rw [same]
    exact ⟨_, [2], rfl, ⟨rfl, by decide, rfl⟩, by decide⟩
  have after : ∀ l : Listing CountingHeap,
      l.sys.fs = (rootListing [.read 32, .create .file 1 [98]]).sys.fs → IsChild l.sys.fs 1 2 := by
    intro l same
    rw [same]
    exact ⟨_, [3, 2], rfl, ⟨rfl, by decide, rfl, by decide, rfl⟩, by decide⟩
  have twice := once [.read 32, .create .file 1 [98], .read 32]
    (rootListing [.read 32, .create .file 1 [98], .read 32]) _
    (.cons (t := rootListing [.read 32]) ⟨before _ rfl, rfl⟩
      (.cons (t := rootListing [.read 32, .create .file 1 [98]]) ⟨before _ rfl, rfl⟩
        (.single ⟨after _ rfl, rfl⟩))) (after _ rfl) rfl
  revert twice
  decide

end Flyos
