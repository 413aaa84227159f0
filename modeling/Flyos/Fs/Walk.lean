import Flyos.Fs.FileSpec
import Mathlib.Data.List.TakeWhile

/-!
# Walking a path in parts

`ramfs_lookup` takes names off the front of a path.  `ramfsLookup_append` splits the walk at
any `/` behind which there is no other, and `walkPath_name` is the walk along one name.
-/

namespace Flyos

variable {H : Type*} {s : Ramfs H} {cur : Nat} {p d base : CString}

/-- A path walk from a node. -/
def walkPath (s : Ramfs H) (cur : Nat) (p : CString) : Option Nat :=
  lookupLoop s (p.length + 1) cur p

/-- What is left of a path when a name and the slashes behind it are taken off. -/
def afterName (p : CString) : CString := (p.drop (takeName p).length).dropWhile (· = 47)

/-- Fuel for every byte is enough. -/
theorem lookupLoop_fuel {fuel : Nat} (enough : p.length < fuel) :
    lookupLoop s fuel cur p = walkPath s cur p := by
  have bytes : ∀ (k fuel cur : Nat) (p : CString), p.length < k → p.length < fuel →
      lookupLoop s fuel cur p = lookupLoop s k cur p := by
    intro k
    induction k with
    | zero => exact fun fuel cur p short => absurd short (Nat.not_lt_zero _)
    | succ k ih =>
        intro fuel cur p short enough
        obtain ⟨fuel, rfl⟩ : ∃ f, fuel = f + 1 := ⟨fuel - 1, by omega⟩
        rw [lookupLoop, lookupLoop]
        by_cases done : p = []
        · rw [if_pos done, if_pos done]
        have shorter := rest_shorter done
        have rest : ∀ cur, lookupLoop s fuel cur (afterName p) = lookupLoop s k cur (afterName p) :=
          fun cur => ih fuel cur _ (by rw [afterName]; omega) (by rw [afterName]; omega)
        rw [if_neg done, if_neg done]
        dsimp only
        rw [← afterName, rest cur]
        simp only [rest]
  exact bytes _ fuel cur p (Nat.lt_succ_self _) enough

/-- The walk ends with the path. -/
@[simp] theorem walkPath_nil : walkPath s cur [] = some cur := rfl

/-- One round of `ramfs_lookup`. -/
theorem walkPath_cons (more : p ≠ []) : walkPath s cur p =
    if takeName p = [] ∨ takeName p = [46] then walkPath s cur (afterName p)
    else (s.nodes cur).bind fun n =>
      if takeName p = [46, 46] then
        walkPath s (if n.parent ≠ 0 then n.parent else cur) (afterName p)
      else if n.type ≠ .dir then some 0
      else (ramfsFindChild s cur (takeName p)).bind fun child =>
        if child = 0 then some 0 else walkPath s child (afterName p) := by
  have shorter : (afterName p).length < p.length := rest_shorter more
  have rest : ∀ cur, lookupLoop s p.length cur (afterName p) = walkPath s cur (afterName p) :=
    fun cur => lookupLoop_fuel shorter
  rw [walkPath, lookupLoop, if_neg more]
  dsimp only
  rw [← afterName]
  simp only [rest]
  by_cases skip : takeName p = []
  · rw [if_pos skip, if_pos (.inl skip)]
  by_cases dot : takeName p = [46]
  · rw [if_neg skip, if_pos dot, if_pos (.inr dot)]
  · rw [if_neg skip, if_neg dot, if_neg (not_or.mpr ⟨skip, dot⟩)]

/-! ## Names -/

/-- The first name of a path ends in front of its first slash. -/
theorem takeName_append : takeName (d ++ 47 :: base) = takeName d := by
  have front : (d ++ 47 :: base).takeWhile (· ≠ 47) = d.takeWhile (· ≠ 47) := by
    induction d with
    | nil => rw [List.nil_append, List.takeWhile_cons_of_neg (by simp), List.takeWhile_nil]
    | cons c d ih =>
        by_cases slash : c = 47
        · rw [List.cons_append, List.takeWhile_cons_of_neg (by simp [slash]),
            List.takeWhile_cons_of_neg (by simp [slash])]
        · rw [List.cons_append, List.takeWhile_cons_of_pos (by simp [slash]),
            List.takeWhile_cons_of_pos (by simp [slash]), ih]
  rw [takeName, takeName, front]

/-- A name is no longer than its path. -/
theorem length_takeName_le (p : CString) : (takeName p).length ≤ p.length := by
  have cut : (takeName p).length ≤ (p.takeWhile (· ≠ 47)).length := List.length_take_le' _ _
  exact cut.trans (List.takeWhile_sublist _).length_le

/-- Slashes in front of a name are dropped. -/
theorem dropWhile_plain (plain : 47 ∉ base) : base.dropWhile (· = 47) = base := by
  cases base with
  | nil => rfl
  | cons c base =>
      have other : c ≠ 47 := fun eq => plain (by simp [eq])
      rw [List.dropWhile_cons_of_neg (by simpa using other)]

/-- What is left of the whole path: what is left of its first part, or the second part. -/
theorem afterName_append (plain : 47 ∉ base) :
    afterName (d ++ 47 :: base) =
      if afterName d = [] then base else afterName d ++ 47 :: base := by
  rw [afterName, afterName, takeName_append, List.drop_append_of_le_length (length_takeName_le d),
    List.dropWhile_append]
  by_cases none : (d.drop (takeName d).length).dropWhile (· = 47) = []
  · rw [if_pos none, none]
    simp [dropWhile_plain plain]
  · rw [if_neg none]
    simp [none]

/-- **A walk in two parts.** -/
theorem walkPath_append (nonnull : cur ≠ 0) (plain : 47 ∉ base) :
    walkPath s cur (d ++ 47 :: base) =
      (walkPath s cur d).bind fun p => if p = 0 then some 0 else walkPath s p base := by
  induction size : d.length using Nat.strongRecOn generalizing cur d with
  | _ k ih =>
      have here : ∀ x, x ≠ 0 → d ≠ [] → walkPath s x (afterName (d ++ 47 :: base)) =
          (walkPath s x (afterName d)).bind fun p => if p = 0 then some 0 else walkPath s p base := by
        intro x ne more
        rw [afterName_append plain]
        by_cases last : afterName d = []
        · rw [if_pos last, last, walkPath_nil, Option.bind_some, if_neg ne]
        · rw [if_neg last]
          exact ih _ (size ▸ rest_shorter more) ne rfl
      by_cases empty : d = []
      · subst empty
        rw [List.nil_append, walkPath_nil, Option.bind_some, if_neg nonnull,
          walkPath_cons (List.cons_ne_nil _ _), if_pos (.inl (by simp [takeName]))]
        rw [show afterName (47 :: base) = base from by simp [afterName, takeName,
          dropWhile_plain plain]]
      rw [walkPath_cons (by simp [empty]), walkPath_cons empty, takeName_append]
      by_cases skip : takeName d = [] ∨ takeName d = [46]
      · rw [if_pos skip, if_pos skip]
        exact here cur nonnull empty
      rw [if_neg skip, if_neg skip]
      cases s.nodes cur with
      | none => rfl
      | some n =>
          rw [Option.bind_some, Option.bind_some]
          by_cases up : takeName d = [46, 46]
          · rw [if_pos up, if_pos up]
            refine here _ ?_ empty
            by_cases top : n.parent ≠ 0
            · rwa [if_pos top]
            · rwa [if_neg top]
          rw [if_neg up, if_neg up]
          by_cases file : n.type ≠ .dir
          · rw [if_pos file, if_pos file]
            rfl
          rw [if_neg file, if_neg file]
          cases ramfsFindChild s cur (takeName d) with
          | none => rfl
          | some child =>
              rw [Option.bind_some, Option.bind_some]
              by_cases null : child = 0
              · rw [if_pos null, if_pos null]
                rfl
              · rw [if_neg null, if_neg null]
                exact here child null empty

/-- **The walk along one name.** -/
theorem walkPath_name (plain : 47 ∉ base) (short : base.length < ramfsNameMax)
    (proper : base ≠ [] ∧ base ≠ [46] ∧ base ≠ [46, 46]) {n : Node} (at_cur : s.nodes cur = some n)
    (dir : n.type = .dir) : walkPath s cur base = ramfsFindChild s cur base := by
  have whole : takeName base = base := by
    rw [takeName, List.takeWhile_eq_self_iff.mpr (fun c mem => by
      simpa using fun eq : c = 47 => plain (eq ▸ mem)), List.take_of_length_le (by omega)]
  have done : afterName base = [] := by rw [afterName, whole, List.drop_length]; rfl
  rw [walkPath_cons proper.1, whole, done, if_neg (not_or.mpr ⟨proper.1, proper.2.1⟩), at_cur,
    Option.bind_some, if_neg proper.2.2, if_neg (not_not.mpr dir)]
  cases ramfsFindChild s cur base with
  | none => rfl
  | some child =>
      rw [Option.bind_some, walkPath_nil]
      by_cases null : child = 0
      · rw [if_pos null, null]
      · rw [if_neg null]

/-! ## Whole paths -/

/-- A path that starts with a slash. -/
theorem ramfsLookup_root (p : CString) : ramfsLookup s (47 :: p) = walkPath s s.root p := by
  rw [ramfsLookup]
  simp only [if_true]
  exact lookupLoop_fuel (by simp only [List.length_cons]; omega)

/-- A path that does not. -/
theorem ramfsLookup_cwd (some_byte : p ≠ []) (relative : p.head? ≠ some 47) :
    ramfsLookup s p = walkPath s s.cwd p := by
  cases p with
  | nil => exact absurd rfl some_byte
  | cons c p =>
      have other : c ≠ 47 := fun eq => relative (by rw [eq]; rfl)
      rw [ramfsLookup]
      simp only [if_neg other]
      rfl

/-- **A path in two parts**, at its last slash. -/
theorem ramfsLookup_append (root : s.root ≠ 0) (cwd : d.head? = some 47 ∨ s.cwd ≠ 0)
    (front : d ≠ []) (plain : 47 ∉ base) :
    ramfsLookup s (d ++ 47 :: base) =
      (ramfsLookup s d).bind fun p => if p = 0 then some 0 else walkPath s p base := by
  obtain ⟨c, d, rfl⟩ := List.exists_cons_of_ne_nil front
  by_cases slash : c = 47
  · subst slash
    rw [List.cons_append, ramfsLookup_root, ramfsLookup_root, walkPath_append root plain]
  · have relative : (c :: d).head? ≠ some 47 := fun head => slash (Option.some.inj head)
    rw [ramfsLookup_cwd (by simp) (by simpa using slash), ramfsLookup_cwd front relative,
      walkPath_append (cwd.resolve_left relative) plain]

end Flyos
