import Mathlib.Data.List.Basic
import Mathlib.Logic.Function.Basic

/-!
# Trees as what their paths lead to

A `PathTree K D` says of every path, a list of names from `K`, whether it leads to a directory,
to a file with contents in `D`, or nowhere.  It carries what makes it a tree: the root is a
directory, and what has a name lies in a directory.

`walk` follows steps that go down by a name, up, or nowhere.  A tree grows by `add?`, shrinks
by `remove?` and has its files changed by `modify`; each says of every path what it leads to
afterwards.  `Over P` says that all names in the tree meet `P`; the changes keep it.
-/

/-- What a path can lead to. -/
inductive PathEntry (D : Type*) where
  | dir
  | file (contents : D)
  deriving DecidableEq

/-- A step of a path that is followed. -/
inductive PathStep (K : Type*) where
  | stay
  | up
  | down (name : K)
  deriving DecidableEq

/-- **A tree**, as what its paths lead to. -/
structure PathTree (K D : Type*) where
  entry : List K → Option (PathEntry D)
  root : entry [] = some .dir
  /-- What has a name lies in a directory. -/
  parent : ∀ {path name}, entry (path ++ [name]) ≠ none → entry path = some .dir

/-- The contents of an entry changed. -/
def PathEntry.map {D E : Type*} (f : D → E) : PathEntry D → PathEntry E
  | .dir => .dir
  | .file d => .file (f d)

namespace PathTree

variable {K D : Type*} {m : PathTree K D} {path : List K} {name : K}

/-- Trees are the same when their paths lead to the same. -/
theorem ext_entry {m m' : PathTree K D} (same : ∀ path, m.entry path = m'.entry path) :
    m = m' := by
  obtain ⟨entry, root, parent⟩ := m
  obtain ⟨entry', root', parent'⟩ := m'
  obtain rfl : entry = entry' := funext same
  rfl

/-- The tree that is a root only. -/
def bare (K D : Type*) : PathTree K D where
  entry
    | [] => some .dir
    | _ :: _ => none
  root := rfl
  parent {path name} there := by
    cases path with
    | nil => exact absurd rfl there
    | cons k path => exact absurd rfl there

@[simp] theorem bare_nil : (bare K D).entry [] = some .dir := rfl

@[simp] theorem bare_cons (k : K) : (bare K D).entry (k :: path) = none := rfl

/-- Behind what is no directory there is nothing. -/
theorem behind (other : m.entry path ≠ some .dir) (name : K) : m.entry (path ++ [name]) = none := by
  by_contra there
  exact other (m.parent there)

/-! ## Walks -/

/-- **Follow a path** from where one is: a name leads down if something has it there, and above
the root there is the root. -/
def walk (m : PathTree K D) : List K → List (PathStep K) → Option (List K)
  | here, [] => some here
  | here, .stay :: steps => walk m here steps
  | here, .up :: steps => walk m here.dropLast steps
  | here, .down name :: steps =>
      (m.entry (here ++ [name])).bind fun _ => walk m (here ++ [name]) steps

/-- A walk in two parts. -/
theorem walk_append (m : PathTree K D) (here : List K) (first second : List (PathStep K)) :
    m.walk here (first ++ second) = (m.walk here first).bind fun there => m.walk there second := by
  induction first generalizing here with
  | nil => rfl
  | cons step first ih =>
      cases step with
      | stay => exact ih here
      | up => exact ih here.dropLast
      | down name =>
          rw [List.cons_append, walk, walk]
          cases m.entry (here ++ [name]) with
          | none => rfl
          | some e => exact ih (here ++ [name])

/-! ## Changes -/

section Changes

variable [DecidableEq K]

/-- Something new in a directory, under a name that nothing has there. -/
def add? [DecidableEq D] (m : PathTree K D) (path : List K) (name : K) (e : PathEntry D) :
    Option (PathTree K D) :=
  if free : m.entry path = some .dir ∧ m.entry (path ++ [name]) = none then
    some {
      entry := Function.update m.entry (path ++ [name]) (some e)
      root := by
        rw [Function.update_of_ne (by simp), m.root]
      parent := by
        intro q k there
        have dir : m.entry q = some .dir := by
          by_cases new : q ++ [k] = path ++ [name]
          · obtain ⟨rfl, -⟩ := List.append_inj' new rfl
            exact free.1
          · rw [Function.update_of_ne new] at there
            exact m.parent there
        rw [Function.update_of_ne, dir]
        rintro rfl
        rw [free.2] at dir
        cases dir }
  else none

/-- What an addition leaves. -/
theorem add?_eq_some [DecidableEq D] {e : PathEntry D} {m' : PathTree K D} :
    m.add? path name e = some m' ↔ (m.entry path = some .dir ∧ m.entry (path ++ [name]) = none) ∧
      m'.entry = Function.update m.entry (path ++ [name]) (some e) := by
  unfold add?
  by_cases free : m.entry path = some .dir ∧ m.entry (path ++ [name]) = none
  · rw [dif_pos free, Option.some.injEq]
    refine ⟨fun same => ⟨free, by rw [← same]⟩, fun ⟨_, entries⟩ => ?_⟩
    refine ext_entry fun q => ?_
    rw [entries]
  · rw [dif_neg free]
    exact ⟨fun no => (by cases no), fun ⟨free', _⟩ => absurd free' free⟩

/-- There is nothing behind a path. -/
def Childless (m : PathTree K D) (path : List K) : Prop := ∀ name, m.entry (path ++ [name]) = none

open scoped Classical in
/-- Something that is there, has nothing behind it and is not the root, taken away. -/
noncomputable def remove? (m : PathTree K D) (path : List K) : Option (PathTree K D) :=
  if leaf : path ≠ [] ∧ m.entry path ≠ none ∧ m.Childless path then
    some {
      entry := Function.update m.entry path none
      root := by
        rw [Function.update_of_ne leaf.1.symm, m.root]
      parent := by
        intro q k there
        by_cases gone : q ++ [k] = path
        · rw [gone, Function.update_self] at there
          exact absurd rfl there
        rw [Function.update_of_ne gone] at there
        rw [Function.update_of_ne, m.parent there]
        rintro rfl
        exact there (leaf.2.2 k) }
  else none

/-- What a removal leaves. -/
theorem remove?_eq_some {m' : PathTree K D} : m.remove? path = some m' ↔
    (path ≠ [] ∧ m.entry path ≠ none ∧ m.Childless path) ∧
      m'.entry = Function.update m.entry path none := by
  unfold remove?
  by_cases leaf : path ≠ [] ∧ m.entry path ≠ none ∧ m.Childless path
  · rw [dif_pos leaf, Option.some.injEq]
    refine ⟨fun same => ⟨leaf, by rw [← same]⟩, fun ⟨_, entries⟩ => ?_⟩
    refine ext_entry fun q => ?_
    rw [entries]
  · rw [dif_neg leaf]
    exact ⟨fun no => (by cases no), fun ⟨leaf', _⟩ => absurd leaf' leaf⟩

/-- The contents of a file changed. -/
def modify (m : PathTree K D) (path : List K) (f : D → D) : PathTree K D where
  entry := Function.update m.entry path ((m.entry path).map (PathEntry.map f))
  root := by
    by_cases here : path = []
    · subst here
      rw [Function.update_self, m.root]
      rfl
    · rw [Function.update_of_ne (Ne.symm here), m.root]
  parent := by
    intro q k there
    have dir : m.entry q = some .dir := by
      refine m.parent fun absent : m.entry (q ++ [k]) = none => there ?_
      by_cases here : q ++ [k] = path
      · subst here
        rw [Function.update_self, absent]
        rfl
      · rw [Function.update_of_ne here, absent]
    by_cases here : q = path
    · subst here
      rw [Function.update_self, dir]
      rfl
    · rw [Function.update_of_ne here, dir]

@[simp] theorem modify_entry (m : PathTree K D) (path : List K) (f : D → D) :
    (m.modify path f).entry = Function.update m.entry path ((m.entry path).map (PathEntry.map f)) :=
  rfl

end Changes

/-! ## The names in a tree -/

/-- The names on every path that leads somewhere meet `P`. -/
def Over (P : K → Prop) (m : PathTree K D) : Prop :=
  ∀ path, m.entry path ≠ none → ∀ name ∈ path, P name

variable {P : K → Prop}

/-- There are no names in a root. -/
theorem over_bare : (bare K D).Over P := by
  intro path there
  cases path with
  | nil => exact fun _ mem => absurd mem List.not_mem_nil
  | cons k path => exact absurd rfl there

/-- Fewer paths have fewer names. -/
theorem Over.mono {m' : PathTree K D} (every : m.Over P)
    (fewer : ∀ path, m'.entry path ≠ none → m.entry path ≠ none) : m'.Over P :=
  fun path there => every path (fewer path there)

variable [DecidableEq K]

/-- A new name meets `P`. -/
theorem Over.add? [DecidableEq D] {e : PathEntry D} {m' : PathTree K D} (every : m.Over P)
    (new : P name) (added : m.add? path name e = some m') : m'.Over P := by
  obtain ⟨⟨dir, -⟩, entries⟩ := add?_eq_some.mp added
  intro q there k mem
  by_cases here : q = path ++ [name]
  · subst here
    rcases List.mem_append.mp mem with front | last
    · refine every path ?_ k front
      rw [dir]
      exact Option.some_ne_none _
    · rw [List.mem_singleton.mp last]
      exact new
  · rw [entries, Function.update_of_ne here] at there
    exact every q there k mem

/-- What is taken away takes no name along. -/
theorem Over.remove? {m' : PathTree K D} (every : m.Over P) (removed : m.remove? path = some m') :
    m'.Over P := by
  obtain ⟨-, entries⟩ := remove?_eq_some.mp removed
  refine every.mono fun q there => ?_
  by_cases here : q = path
  · rw [entries, here, Function.update_self] at there
    exact absurd rfl there
  · rwa [entries, Function.update_of_ne here] at there

/-- The contents of a file are no names. -/
theorem Over.modify (every : m.Over P) (path : List K) (f : D → D) : (m.modify path f).Over P := by
  refine every.mono fun q there => ?_
  by_cases here : q = path
  · subst here
    intro absent
    rw [modify_entry, Function.update_self, absent] at there
    exact there rfl
  · rwa [modify_entry, Function.update_of_ne here] at there

end PathTree
