import Flyos.Fs.Names
import Flyos.Fs.Walk

/-!
# Printed paths

`ramfs_get_path` prints the absolute path of a node, one level of the tree at a time.
`getPath_resolves` says that `ramfs_lookup` finds the node again, if the names of the tree
are proper and the path fits the buffer.
-/

namespace Flyos

variable {H : Type*} {A : Allocator H} {s : Ramfs H} {kids : Nat → List Nat}
  {depth : Nat → Nat}

/-- `ramfs_get_path` into a buffer of `max` bytes: the string it writes in front of the NUL.
On the way up every level has a buffer of 256 bytes of its own. -/
def getPathLoop (s : Ramfs H) : Nat → Nat → Nat → Option CString
  | 0, _, _ => none
  | fuel + 1, n, max =>
      if n = 0 ∨ n = s.root then some (strCopy [47] max)
      else (s.nodes n).bind fun nd => (getPathLoop s fuel nd.parent 256).bind fun parent =>
        let out := parent.take (max - 1)
        -- the last byte of the parent's path is looked at only if there is room
        (if out.length < max - 1 then
            parent.getLast?.map fun c => if c ≠ 47 then out ++ [47] else out
          else some out).map fun out => out ++ nd.name.take (max - 1 - out.length)

/-- `ramfs_get_path`. -/
def ramfsGetPath (s : Ramfs H) (n max : Nat) : Option CString := getPathLoop s walkFuel n max

/-! ## Absolute paths -/

/-- The names on the way from the root to a node. -/
inductive PathTo (s : Ramfs H) : Nat → List CString → Prop
  | root : PathTo s s.root []
  | child {c : Nat} {m : Node} {names : List CString} : s.nodes c = some m → c ≠ s.root →
      PathTo s m.parent names → PathTo s c (names ++ [m.name])

/-- Names with a slash in front of each. -/
def slashed (names : List CString) : CString := names.flatMap (47 :: ·)

/-- The absolute path along some names. -/
def absolutePath (names : List CString) : CString := if names = [] then [47] else slashed names

theorem slashed_append (names : List CString) (name : CString) :
    slashed (names ++ [name]) = slashed names ++ 47 :: name := by
  simp [slashed]

/-- The path of a node is that of its parent, and its name. -/
theorem absolutePath_append (names : List CString) (name : CString) :
    absolutePath (names ++ [name]) = slashed names ++ 47 :: name := by
  rw [absolutePath, if_neg (by simp), slashed_append]

/-- Every name takes a byte. -/
theorem length_le_slashed (names : List CString) : names.length ≤ (slashed names).length := by
  induction names with
  | nil => exact Nat.zero_le _
  | cons name names ih =>
      simp only [slashed, List.flatMap_cons, List.length_append, List.length_cons] at ih ⊢
      omega

/-- **Every node of the tree has a path.** -/
theorem RamfsInv.pathTo (inv : RamfsInv A s kids depth) {n : Nat} {nd : Node}
    (at_n : s.nodes n = some nd) : ∃ names, PathTo s n names := by
  induction deep : depth n using Nat.strongRecOn generalizing n nd with
  | _ k ih =>
      by_cases top : n = s.root
      · exact ⟨[], top ▸ .root⟩
      obtain ⟨⟨p, at_p⟩, mem⟩ := inv.links.parent at_n top
      obtain ⟨-, m, at_n', -, deeper⟩ := inv.links.child at_p mem
      obtain ⟨names, path⟩ := ih _ (by omega) at_p rfl
      exact ⟨_, .child at_n top path⟩

/-- The path of a node that is not the root does not end in a slash. -/
theorem slashed_last (proper : NamesOk s) {n : Nat} {names : List CString} (path : PathTo s n names)
    (below : names ≠ []) : ∃ c, (slashed names).getLast? = some c ∧ c ≠ 47 := by
  cases path with
  | root => exact absurd rfl below
  | @child c m names at_c other _ =>
      obtain ⟨name, -⟩ := proper at_c other
      obtain ⟨front, last, eq⟩ := List.eq_nil_or_concat m.name |>.resolve_left name.some_byte
      refine ⟨last, ?_, fun slash => name.noSlash ?_⟩
      · have split : slashed (names ++ [m.name]) = (slashed names ++ 47 :: front) ++ [last] := by
          rw [slashed_append, eq]
          simp
        rw [split, List.getLast?_concat]
      · rw [eq, slash]
        simp

section Proper

variable (inv : RamfsInv A s kids depth) (proper : NamesOk s)
  (short : ∀ c m, s.nodes c = some m → c ≠ s.root → m.name.length < ramfsNameMax)
include inv proper

/-- The child of a directory is found by its name. -/
theorem findChild_self {c : Nat} {m : Node} (at_c : s.nodes c = some m) (other : c ≠ s.root) :
    ramfsFindChild s m.parent m.name = some c := by
  obtain ⟨⟨p, at_p⟩, mem⟩ := inv.links.parent at_c other
  obtain ⟨r, found, ⟨-, none⟩ | ⟨mem', m', at_r, same⟩⟩ := ramfsFindChild_spec inv at_p m.name
  · exact absurd rfl (none c mem m at_c)
  · obtain ⟨⟨m'', at_r', parent⟩, -⟩ := inv.links.mem_kids at_p mem'
    obtain rfl := Option.some.inj (at_r.symm.trans at_r')
    have here : r ≠ s.root := fun eq => inv.links.root_notMem at_p (eq ▸ mem')
    by_cases differ : r = c
    · rw [found, differ]
    · exact absurd same ((proper at_c other).2 at_r here differ parent)

include short

/-- **The path is printed**, if it fits. -/
theorem getPathLoop_path {n : Nat} {names : List CString} (path : PathTo s n names)
    (fits : (absolutePath names).length ≤ 255) {fuel : Nat} (enough : names.length < fuel) :
    getPathLoop s fuel n 256 = some (absolutePath names) := by
  induction path generalizing fuel with
  | root =>
      obtain ⟨fuel, rfl⟩ : ∃ k, fuel = k + 1 := ⟨fuel - 1, by omega⟩
      rw [getPathLoop, if_pos (.inr rfl)]
      rfl
  | @child c m names at_c other path ih =>
      obtain ⟨fuel, rfl⟩ : ∃ k, fuel = k + 1 := ⟨fuel - 1, by omega⟩
      have nonnull : c ≠ 0 := fun eq => by rw [eq, inv.links.null] at at_c; cases at_c
      have some_byte := List.length_pos_of_ne_nil (proper at_c other).1.some_byte
      have le := short c m at_c other
      rw [List.length_append, List.length_singleton] at enough
      rw [absolutePath_append, List.length_append, List.length_cons] at fits
      rw [getPathLoop, if_neg (not_or.mpr ⟨nonnull, other⟩), at_c, Option.bind_some,
        absolutePath_append]
      by_cases top : names = []
      · subst top
        rw [ih (by decide) (by omega), Option.bind_some]
        have whole : m.name.take 254 = m.name := List.take_of_length_le (by omega)
        simp [absolutePath, slashed, whole]
      · obtain ⟨last, ends, other_byte⟩ := slashed_last proper path top
        have parent : absolutePath names = slashed names := if_neg top
        have front : (slashed names).take 255 = slashed names := List.take_of_length_le (by omega)
        have whole : m.name.take (255 - ((slashed names).length + 1)) = m.name :=
          List.take_of_length_le (by omega)
        rw [ih (by rw [parent]; omega) (by omega), Option.bind_some, parent]
        dsimp only
        rw [front, if_pos (by omega), ends, Option.map_some, if_pos other_byte, Option.map_some,
          List.length_append, List.length_singleton, whole, List.append_assoc]
        rfl

/-- **The path leads to the node.** -/
theorem ramfsLookup_path {n : Nat} {names : List CString} (path : PathTo s n names) :
    ramfsLookup s (absolutePath names) = some n := by
  have root : s.root ≠ 0 := fun eq => by
    obtain ⟨r, at_root, -⟩ := inv.links.top
    rw [eq, inv.links.null] at at_root
    cases at_root
  induction path with
  | root => exact ramfsLookup_root []
  | @child c m names at_c other path ih =>
      obtain ⟨name, -⟩ := proper at_c other
      obtain ⟨⟨p, at_p⟩, mem⟩ := inv.links.parent at_c other
      have step : walkPath s m.parent m.name = some c := by
        rw [walkPath_name name.noSlash (short c m at_c other)
          ⟨name.some_byte, name.notDot, name.notDotDot⟩ at_p (inv.links.child at_p mem).1]
        exact findChild_self inv proper at_c other
      rw [absolutePath_append]
      by_cases top : names = []
      · subst top
        have top : s.root = m.parent := Option.some.inj ((ramfsLookup_root []).symm.trans ih)
        change ramfsLookup s (47 :: m.name) = some c
        rw [ramfsLookup_root, top, step]
      · obtain ⟨first, rest, rfl⟩ := List.exists_cons_of_ne_nil top
        have nonnull : m.parent ≠ 0 := fun eq => by
          rw [eq, inv.links.null] at at_p
          cases at_p
        rw [absolutePath, if_neg top] at ih
        rw [ramfsLookup_append root (.inl rfl) (by simp [slashed]) name.noSlash, ih,
          Option.bind_some, if_neg nonnull, step]

end Proper

/-- **Printed paths resolve back.**  `ramfs_get_path` puts the name of a node behind the path of
its parent, cutting at 255 characters, and the lookup takes the path apart at the slashes again.
`proper` and `short` say that names can be told apart in a path and were stored whole. -/
theorem getPath_resolves (inv : RamfsInv A s kids depth) (proper : NamesOk s)
    (short : ∀ c m, s.nodes c = some m → c ≠ s.root → m.name.length < ramfsNameMax) {n : Nat}
    {nd : Node} (at_n : s.nodes n = some nd) :
    (∃ names, PathTo s n names) ∧ ∀ names, PathTo s n names →
      (absolutePath names).length ≤ 255 →
        ramfsGetPath s n 256 = some (absolutePath names) ∧
          ramfsLookup s (absolutePath names) = some n := by
  refine ⟨inv.pathTo at_n, fun names path fits => ⟨?_, ramfsLookup_path inv proper short path⟩⟩
  refine getPathLoop_path inv proper short path fits ?_
  have le := length_le_slashed names
  have small : 256 < walkFuel := by decide
  by_cases top : names = []
  · rw [top]
    exact Nat.lt_trans (by decide) small
  · rw [absolutePath, if_neg top] at fits
    omega

/-- The file in the root. -/
theorem getPath_resolves_file :
    ramfsGetPath oneFile 2 256 = some [47, 97] ∧ ramfsLookup oneFile [47, 97] = some 2 := by
  obtain ⟨depth, inv⟩ := freshRoot_inv
  obtain ⟨kids', depth', inv'⟩ := oneFile_inv
  have names : NamesOk freshRoot := by
    intro c m at_c other
    refine absurd (?_ : c = 1) other
    by_contra differ
    rw [show freshRoot.nodes = Function.update (fun _ => none) 1 (some (newNode .dir [47] 0 0)) from
      rfl, Function.update_of_ne differ] at at_c
    cases at_c
  have creates : CreatesAt countingAllocator .file freshRoot [97] 2 oneFile :=
    ⟨1, [97], rfl, rfl⟩
  have proper : NamesOk oneFile := (createNode_names inv names (.inr ⟨_, rfl⟩)
    (StoresFit.of_short rfl (by decide) (by decide)) creates).2
  have at_file : oneFile.nodes 2 = some (newNode .file [97] 1 0) := rfl
  exact (getPath_resolves inv' proper
    (fun c m at_c _ => createdShort inv freshRoot_short rfl .file [97] c m at_c) at_file).2 [[97]]
    (.child at_file (by decide) .root) (by decide)

end Flyos
