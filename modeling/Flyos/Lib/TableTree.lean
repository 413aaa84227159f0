import Mathlib.Data.List.Infix

/-!
# Trees of tables stored in the memory they translate

A table is a function from indices to entries, and a memory holds one table in
each frame.  What an entry of a table `d` levels below the root means is its
`Slot`: nothing, a leaf, or a link to the table in another frame.  `walk` looks
an index list up, `reach` follows links only.

The memory is changed one edge at a time, an edge being a reached table and an
index in it.  `SameOff` says that everything but one edge means what it did; then
lookups that do not go through the edge are unchanged (`SameOff.reach_eq`,
`SameOff.walk_eq`), and lookups that do are decided by what is now behind it
(`walk_append`).  With equal entries instead of equal meanings (`EqOff`) the same
holds of a check on the entries read (`EqOff.passes_eq`).  `Grows` is the common case that a link to a fresh table without
links of its own is put in, which keeps the frames of the tree distinct
(`Grows.distinct`).
-/

/-- What a table entry means. -/
inductive Slot (φ α : Type*) where
  | empty
  | leaf (a : α)
  | table (f : φ)
  deriving DecidableEq

namespace TableTree

variable {φ ι ε α : Type*} (slot : Nat → ε → Slot φ α)

/-- Look the indices up from the table in frame `f`, `d` levels below the root:
the leaf met, with the indices not used. -/
def walk (m : φ → ι → ε) : Nat → φ → List ι → Option (α × List ι)
  | _, _, [] => none
  | d, f, i :: is =>
      match slot d (m f i) with
      | .empty => none
      | .leaf a => some (a, is)
      | .table g => walk m (d + 1) g is

/-- Follow links only: the frame of the table the indices lead to. -/
def reach (m : φ → ι → ε) : Nat → φ → List ι → Option φ
  | _, f, [] => some f
  | d, f, i :: is =>
      match slot d (m f i) with
      | .table g => reach m (d + 1) g is
      | _ => none

/-- A lookup that meets a leaf and reads on its way only entries that pass a check,
which may depend on the edge the entry is read at.  `pre` are the indices used. -/
def passes (ok : List ι → ε → Bool) (m : φ → ι → ε) : List ι → φ → List ι → Bool
  | _, _, [] => false
  | pre, f, i :: is =>
      ok (pre ++ [i]) (m f i) &&
        match slot pre.length (m f i) with
        | .empty => false
        | .leaf _ => true
        | .table g => passes ok m (pre ++ [i]) g is

/-- Different index lists lead to different tables. -/
def Distinct (m : φ → ι → ε) (root : φ) : Prop :=
  ∀ p q f, reach slot m 0 root p = some f → reach slot m 0 root q = some f → p = q

/-- Every entry of the tree but entry `i` of the table at `p` means in `m'` what it
means in `m`. -/
structure SameOff (m m' : φ → ι → ε) (root : φ) (p : List ι) (i : ι) : Prop where
  keep : ∀ {q f j}, reach slot m 0 root q = some f → q ++ [j] ≠ p ++ [i] →
    slot q.length (m' f j) = slot q.length (m f j)

/-- Every entry of the tree but entry `i` of the table at `p` is in `m'` what it is in
`m`. -/
structure EqOff (m m' : φ → ι → ε) (root : φ) (p : List ι) (i : ι) : Prop where
  keep : ∀ {q f j}, reach slot m 0 root q = some f → q ++ [j] ≠ p ++ [i] → m' f j = m f j

/-- Entry `i` of the table at `p` is now a link to frame `g`, which was no table of
the tree and whose own entries are no links. -/
structure Grows (m m' : φ → ι → ε) (root : φ) (p : List ι) (i : ι) (g : φ) : Prop where
  same : SameOff slot m m' root p i
  fresh : ∀ q, reach slot m 0 root q ≠ some g
  link : ∀ f, reach slot m 0 root p = some f → slot p.length (m' f i) = .table g
  flat : ∀ j h, slot (p.length + 1) (m' g j) ≠ .table h

variable {slot} {m m' : φ → ι → ε} {root f g : φ} {p q : List ι} {i : ι} {d : Nat}

theorem reach_append : reach slot m d f (p ++ q) =
    (reach slot m d f p).bind fun g => reach slot m (d + p.length) g q := by
  induction p generalizing d f with
  | nil => rfl
  | cons i p ih =>
      simp only [List.cons_append, reach, List.length_cons]
      cases slot d (m f i) with
      | table g => simp only [ih, Nat.add_assoc, Nat.add_comm 1]
      | _ => rfl

/-- A lookup starts over at any table it passes. -/
theorem walk_append (at_p : reach slot m d f p = some g) (q : List ι) :
    walk slot m d f (p ++ q) = walk slot m (d + p.length) g q := by
  induction p generalizing d f with
  | nil =>
      obtain rfl : f = g := by simpa [reach] using at_p
      rfl
  | cons i p ih =>
      simp only [reach] at at_p
      simp only [List.cons_append, walk, List.length_cons]
      cases entry : slot d (m f i) with
      | table h =>
          rw [entry] at at_p
          simp only [ih at_p, Nat.add_assoc, Nat.add_comm 1]
      | _ => simp [entry] at at_p

/-- A table below the root is linked from a table. -/
theorem reach_snoc (at_q : reach slot m 0 root (p ++ [i]) = some g) :
    ∃ f, reach slot m 0 root p = some f ∧ slot p.length (m f i) = .table g := by
  rw [reach_append, Option.bind_eq_some_iff] at at_q
  obtain ⟨f, at_p, link⟩ := at_q
  refine ⟨f, at_p, ?_⟩
  simp only [reach, Nat.zero_add] at link
  cases entry : slot p.length (m f i) with
  | table h =>
      rw [entry] at link
      rw [Option.some.inj link]
  | _ => simp [entry] at link

/-- One table further. -/
theorem reach_link (at_p : reach slot m 0 root p = some f)
    (link : slot p.length (m f i) = .table g) : reach slot m 0 root (p ++ [i]) = some g := by
  rw [reach_append, at_p, Option.bind_some, Nat.zero_add]
  simp only [reach, link]

/-- A lookup that uses all its indices ends at a leaf in the last table. -/
theorem walk_exact {a : α} (found : walk slot m d f (p ++ [i]) = some (a, [])) :
    ∃ g, reach slot m d f p = some g ∧ slot (d + p.length) (m g i) = .leaf a := by
  induction p generalizing d f with
  | nil =>
      refine ⟨f, rfl, ?_⟩
      simp only [List.nil_append, walk] at found
      cases entry : slot d (m f i) with
      | leaf b => simpa [entry] using found
      | _ => simp [entry] at found
  | cons j p ih =>
      simp only [List.cons_append, walk] at found
      cases entry : slot d (m f j) with
      | table g =>
          rw [entry] at found
          obtain ⟨h, at_p, leaf⟩ := ih found
          refine ⟨h, by simpa only [reach, entry] using at_p, ?_⟩
          rw [List.length_cons, Nat.add_comm p.length, ← Nat.add_assoc]
          exact leaf
      | _ => simp [entry] at found

/-- Where no edge changed, links lead where they led. -/
theorem SameOff.reach_eq (same : SameOff slot m m' root p i) (off : ¬ p ++ [i] <+: q) :
    reach slot m' 0 root q = reach slot m 0 root q := by
  induction q using List.reverseRecOn with
  | nil => rfl
  | append_singleton q j ih =>
      have before : ¬ p ++ [i] <+: q := fun pre => off (pre.trans (List.prefix_append q [j]))
      rw [reach_append, reach_append, ih before]
      cases at_q : reach slot m 0 root q with
      | none => rfl
      | some f =>
          have edge : q ++ [j] ≠ p ++ [i] := fun eq => off (eq ▸ List.prefix_rfl)
          simp only [Option.bind_some, reach, Nat.zero_add, same.keep at_q edge]

/-- Where no edge changed, lookups find what they found. -/
theorem SameOff.walk_eq (same : SameOff slot m m' root p i) (off : ¬ p ++ [i] <+: q) :
    walk slot m' 0 root q = walk slot m 0 root q := by
  -- from any table on the way, for the rest of the indices
  suffices rest : ∀ is pre f, q = pre ++ is → reach slot m 0 root pre = some f →
      walk slot m' pre.length f is = walk slot m pre.length f is from
    rest q [] root rfl rfl
  intro is
  induction is with
  | nil => intro pre f _ _; rfl
  | cons j is ih =>
      intro pre f whole at_pre
      have edge : pre ++ [j] ≠ p ++ [i] := fun eq =>
        off ⟨is, by rw [whole, ← eq, List.append_assoc]; rfl⟩
      simp only [walk, same.keep at_pre edge]
      cases entry : slot pre.length (m f j) with
      | table g =>
          have next := ih (pre ++ [j]) g (by rw [whole, List.append_assoc]; rfl)
            (reach_link at_pre entry)
          simpa using next
      | _ => rfl

/-- No edge is one of its own table's path. -/
theorem not_edge_prefix : ¬ p ++ [i] <+: p := fun pre => by
  have := pre.length_le
  simp only [List.length_append, List.length_singleton] at this
  omega

/-- The table of a changed edge is where it was. -/
theorem SameOff.reach_self (same : SameOff slot m m' root p i) :
    reach slot m' 0 root p = reach slot m 0 root p :=
  same.reach_eq not_edge_prefix

/-- When the changed edge means what it did too, any edge may count as the changed one. -/
theorem SameOff.all (same : SameOff slot m m' root p i)
    (edge : ∀ f, reach slot m 0 root p = some f → slot p.length (m' f i) = slot p.length (m f i))
    (q : List ι) (j : ι) : SameOff slot m m' root q j where
  keep := fun {r f k} at_r _ => by
    by_cases eq : r ++ [k] = p ++ [i]
    · obtain ⟨rfl, rfl⟩ : r = p ∧ k = i := by simpa using eq
      exact edge f at_r
    · exact same.keep at_r eq

/-- When the changed edge is no link now, there are no new tables. -/
theorem SameOff.reach_of_noLink (same : SameOff slot m m' root p i)
    (noLink : ∀ f h, reach slot m 0 root p = some f → slot p.length (m' f i) ≠ .table h) {h : φ}
    (at_q : reach slot m' 0 root q = some h) : reach slot m 0 root q = some h := by
  by_cases off : p ++ [i] <+: q
  · obtain ⟨rest, rfl⟩ := off
    rw [reach_append, Option.bind_eq_some_iff] at at_q
    obtain ⟨k, at_edge, -⟩ := at_q
    obtain ⟨f, at_p, link⟩ := reach_snoc at_edge
    exact absurd link (noLink f k (same.reach_self.symm.trans at_p))
  · exact (same.reach_eq off).symm.trans at_q

/-- The tables after a link to a fresh table was put in. -/
theorem Grows.reach_cases (grows : Grows slot m m' root p i g) (at_p : reach slot m 0 root p = some f)
    {h : φ} (at_q : reach slot m' 0 root q = some h) :
    (q = p ++ [i] ∧ h = g) ∨ reach slot m 0 root q = some h := by
  by_cases off : p ++ [i] <+: q
  · obtain ⟨rest, rfl⟩ := off
    have at_new : reach slot m' 0 root (p ++ [i]) = some g :=
      reach_link (grows.same.reach_self.trans at_p) (grows.link f at_p)
    rw [reach_append, at_new] at at_q
    cases rest with
    | nil => exact .inl ⟨by simp, (Option.some.inj at_q).symm⟩
    | cons j rest =>
        simp only [Option.bind_some, reach, List.length_append, List.length_singleton,
          Nat.zero_add] at at_q
        cases entry : slot (p.length + 1) (m' g j) with
        | table h => exact absurd entry (grows.flat j h)
        | _ => simp [entry] at at_q
  · exact .inr ((grows.same.reach_eq off).symm.trans at_q)

/-- Growing keeps the tables distinct. -/
theorem Grows.distinct (grows : Grows slot m m' root p i g)
    (at_p : reach slot m 0 root p = some f) (distinct : Distinct slot m root) :
    Distinct slot m' root := by
  intro q r h at_q at_r
  rcases grows.reach_cases at_p at_q with ⟨rfl, rfl⟩ | old_q <;>
    rcases grows.reach_cases at_p at_r with ⟨rfl, eq⟩ | old_r
  · rfl
  · exact absurd old_r (grows.fresh r)
  · exact absurd (eq ▸ old_q) (grows.fresh q)
  · exact distinct _ _ _ old_q old_r

/-- Equal entries mean the same. -/
theorem EqOff.sameOff (same : EqOff slot m m' root p i) : SameOff slot m m' root p i where
  keep := fun at_q edge => by rw [same.keep at_q edge]

/-- From a table whose remaining edges are unchanged, a check has the same outcome. -/
theorem EqOff.passes_off {ok ok' : List ι → ε → Bool} (same : EqOff slot m m' root p i)
    (checks : ∀ edge e, edge ≠ p ++ [i] → ok' edge e = ok edge e) {pre is : List ι}
    (at_pre : reach slot m 0 root pre = some g)
    (off : ∀ r, r ≠ [] → r <+: is → pre ++ r ≠ p ++ [i]) :
    passes slot ok' m' pre g is = passes slot ok m pre g is := by
  induction is generalizing pre g with
  | nil => rfl
  | cons j is ih =>
      have edge : pre ++ [j] ≠ p ++ [i] :=
        off [j] (by simp) (by simp [List.cons_prefix_cons])
      simp only [passes, same.keep at_pre edge, checks _ _ edge]
      cases entry : slot pre.length (m g j) with
      | table h =>
          simp only
          rw [ih (reach_link at_pre entry) fun r _ below => by
            rw [List.append_assoc]
            exact off (j :: r) (by simp) (by simpa using below)]
      | _ => rfl

/-- A check has the same outcome when it does so behind the changed edge. -/
theorem EqOff.passes_eq {ok ok' : List ι → ε → Bool} (same : EqOff slot m m' root p i)
    (checks : ∀ edge e, edge ≠ p ++ [i] → ok' edge e = ok edge e)
    (at_p : reach slot m 0 root p = some f) {q : List ι}
    (behind : ∀ rest, q = p ++ i :: rest →
      passes slot ok' m' p f (i :: rest) = passes slot ok m p f (i :: rest)) :
    passes slot ok' m' [] root q = passes slot ok m [] root q := by
  -- from any table on the way, for the rest of the indices
  suffices rest : ∀ is pre g, q = pre ++ is → reach slot m 0 root pre = some g →
      passes slot ok' m' pre g is = passes slot ok m pre g is from
    rest q [] root rfl rfl
  intro is
  induction is with
  | nil => intro pre g _ _; rfl
  | cons j is ih =>
      intro pre g whole at_pre
      by_cases edge : pre ++ [j] = p ++ [i]
      · obtain ⟨rfl, rfl⟩ : pre = p ∧ j = i := by simpa using edge
        obtain rfl := Option.some.inj (at_pre.symm.trans at_p)
        exact behind is whole
      · simp only [passes, same.keep at_pre edge, checks _ _ edge]
        cases entry : slot pre.length (m g j) with
        | table h =>
            simp only
            rw [ih (pre ++ [j]) h (by rw [whole, List.append_assoc]; rfl)
              (reach_link at_pre entry)]
        | _ => rfl

/-- A check that all entries behind some edges pass, where they mean anything, is passed by
a lookup behind these edges. -/
theorem passes_of_walk {ok : List ι → ε → Bool} {top : List ι} {pre is : List ι}
    (checks : ∀ {q f j}, reach slot m 0 root q = some f → top <+: q ++ [j] →
      slot q.length (m f j) ≠ .empty → ok (q ++ [j]) (m f j) = true)
    (at_pre : reach slot m 0 root pre = some f)
    (below : ∀ {j rest}, is = j :: rest → top <+: pre ++ [j])
    (met : walk slot m pre.length f is ≠ none) : passes slot ok m pre f is = true := by
  induction is generalizing pre f with
  | nil => exact absurd rfl met
  | cons j rest ih =>
      have first := below rfl
      rw [walk] at met
      rw [passes, Bool.and_eq_true]
      cases entry : slot pre.length (m f j) with
      | empty => simp [entry] at met
      | leaf a => exact ⟨checks at_pre first (by simp [entry]), rfl⟩
      | table g =>
          refine ⟨checks at_pre first (by simp [entry]), ?_⟩
          simp only [entry] at met
          refine ih (reach_link at_pre entry) (fun {k tail} _ => ?_) ?_
          · exact first.trans (List.prefix_append _ _)
          · rwa [List.length_append]

/-- A weaker check passes where a stronger one does. -/
theorem passes_mono {ok ok' : List ι → ε → Bool}
    (weaker : ∀ edge e, ok edge e = true → ok' edge e = true) {pre is : List ι}
    (pass : passes slot ok m pre f is = true) : passes slot ok' m pre f is = true := by
  induction is generalizing pre f with
  | nil => exact pass
  | cons j is ih =>
      simp only [passes, Bool.and_eq_true] at pass ⊢
      refine ⟨weaker _ _ pass.1, ?_⟩
      have here := pass.2
      cases entry : slot pre.length (m f j) with
      | table g =>
          rw [entry] at here
          exact ih here
      | leaf a => rfl
      | empty => simp [entry] at here

end TableTree
