import Flyos.Lib.TableTree

/-!
# Copies of table trees

`Copy` relates an entry to its copy in another memory: an empty entry and the blank
one, two leaves with related contents, or two links, the copy to a fresh table, to
tables whose entries are copies again.  Leaves and links are `like` their copies.

Looking the same indices up in both gives related results (`Copy.walk`) through
entries that are alike (`Copy.trail`), and a copy stays one while its fresh tables
are left alone (`Copy.mono`).
-/

namespace TableTree

variable {φ ι ε α β : Type*} (slot : Nat → ε → Slot φ α)

/-- The entries a lookup reads on its way, without an empty one at the end. -/
def trail (m : φ → ι → ε) : Nat → φ → List ι → List ε
  | _, _, [] => []
  | d, f, i :: is =>
      match slot d (m f i) with
      | .empty => []
      | .leaf _ => [m f i]
      | .table g => m f i :: trail m (d + 1) g is

/-- `e'` in memory `m'` is a copy of `e` in memory `m`, at depth `d`. -/
inductive Copy (blank : ε) (like : ε → ε → Prop) (fresh : φ → Prop) (page : Nat → α → α → Prop)
    (m m' : φ → ι → ε) : Nat → ε → ε → Prop
  | empty {d : Nat} {e : ε} (none : slot d e = .empty) (none' : slot d blank = .empty) :
      Copy blank like fresh page m m' d e blank
  | leaf {d : Nat} {e e' : ε} {a a' : α} (leaf : slot d e = .leaf a)
      (leaf' : slot d e' = .leaf a') (alike : like e e') (content : page d a a') :
      Copy blank like fresh page m m' d e e'
  | table {d : Nat} {e e' : ε} {g g' : φ} (link : slot d e = .table g)
      (link' : slot d e' = .table g') (alike : like e e') (new : fresh g')
      (entries : ∀ i, Copy blank like fresh page m m' (d + 1) (m g i) (m' g' i)) :
      Copy blank like fresh page m m' d e e'

variable {slot} {blank : ε} {like : ε → ε → Prop} {fresh fresh' : φ → Prop}
  {page page' : Nat → α → α → Prop} {m m' m'' : φ → ι → ε} {d : Nat} {e e' : ε}
  {f f' g' root : φ} {i : ι}

/-- A copy remains one in a memory that has its tables. -/
theorem Copy.mono (copy : Copy slot blank like fresh page m m' d e e')
    (new : ∀ g, fresh g → fresh' g) (content : ∀ k a a', page k a a' → page' k a a')
    (kept : ∀ g, fresh g → m'' g = m' g) : Copy slot blank like fresh' page' m m'' d e e' := by
  induction copy with
  | empty none none' => exact .empty none none'
  | leaf leaf leaf' alike here => exact .leaf leaf leaf' alike (content _ _ _ here)
  | table link link' alike here _ ih =>
      refine .table link link' alike (new _ here) fun i => ?_
      rw [kept _ here]
      exact ih i

/-- **Lookups in a copy**: nothing in both, or related leaves at the same depth with the
same indices left. -/
theorem Copy.walk (copy : Copy slot blank like fresh page m m' d (m f i) (m' f' i))
    (is : List ι) :
    (TableTree.walk slot m d f (i :: is) = none ∧ TableTree.walk slot m' d f' (i :: is) = none) ∨
      ∃ k a a' rest, TableTree.walk slot m d f (i :: is) = some (a, rest) ∧
        TableTree.walk slot m' d f' (i :: is) = some (a', rest) ∧ page k a a' ∧
        k + rest.length = d + is.length := by
  generalize source : m f i = e, target : m' f' i = e' at copy
  induction copy generalizing f f' i is with
  | empty none none' => exact .inl (by simp [TableTree.walk, source, target, none, none'])
  | leaf leaf leaf' _ content =>
      exact .inr ⟨_, _, _, is, by simp [TableTree.walk, source, leaf],
        by simp [TableTree.walk, target, leaf'], content, rfl⟩
  | @table d _ _ g g' link link' _ _ _ ih =>
      cases is with
      | nil => exact .inl (by simp [TableTree.walk, source, target, link, link'])
      | cons j is =>
          have below := @ih j g g' j is rfl rfl
          simpa [TableTree.walk, source, target, link, link', Nat.add_assoc, Nat.add_comm 1]
            using below

/-- Lookups in a copy read entries with the same flags, when like entries have. -/
theorem Copy.trail (flag : ε → β) (same : ∀ e e', like e e' → flag e' = flag e)
    (copy : Copy slot blank like fresh page m m' d (m f i) (m' f' i)) (is : List ι) :
    (TableTree.trail slot m' d f' (i :: is)).map flag =
      (TableTree.trail slot m d f (i :: is)).map flag := by
  generalize source : m f i = e, target : m' f' i = e' at copy
  induction copy generalizing f f' i is with
  | empty none none' => simp [TableTree.trail, source, target, none, none']
  | leaf leaf leaf' alike _ =>
      simp [TableTree.trail, source, target, leaf, leaf', same _ _ alike]
  | @table _ _ _ g g' link link' alike _ _ ih =>
      cases is with
      | nil => simp [TableTree.trail, source, target, link, link', same _ _ alike]
      | cons j is =>
          have below := @ih j g g' j is rfl rfl
          simp only [TableTree.trail, source, target, link, link', List.map_cons,
            same _ _ alike] at below ⊢
          rw [below]

/-- **The tables of a copy** are fresh, and their entries are copies of those of the
table at the same place. -/
theorem Copy.reach (copy : Copy slot blank like fresh page m m' d (m f i) (m' f' i)) {p : List ι}
    (at_p : TableTree.reach slot m' d f' (i :: p) = some g') :
    fresh g' ∧ ∃ g, TableTree.reach slot m d f (i :: p) = some g ∧
      ∀ j, Copy slot blank like fresh page m m' (d + 1 + p.length) (m g j) (m' g' j) := by
  generalize source : m f i = e, target : m' f' i = e' at copy
  induction copy generalizing f f' i p with
  | empty none none' => simp [TableTree.reach, target, none'] at at_p
  | leaf leaf leaf' _ _ => simp [TableTree.reach, target, leaf'] at at_p
  | @table d _ _ g h link link' _ new entries ih =>
      simp only [TableTree.reach, source, target, link, link'] at at_p ⊢
      cases p with
      | nil =>
          obtain rfl := Option.some.inj at_p
          exact ⟨new, g, rfl, entries⟩
      | cons j p =>
          obtain ⟨new', g', at_p', below⟩ := @ih j g h j p at_p rfl rfl
          refine ⟨new', g', at_p', fun k => ?_⟩
          rw [List.length_cons, Nat.add_comm p.length, ← Nat.add_assoc]
          exact below k

/-- A lookup finds what it found where the tables it passes are unchanged. -/
theorem walk_eq_of_tables {is : List ι}
    (kept : ∀ p h, p <+: is → reach slot m d f p = some h → m' h = m h) :
    walk slot m' d f is = walk slot m d f is := by
  induction is generalizing d f with
  | nil => rfl
  | cons i is ih =>
      simp only [walk, kept [] f (List.nil_prefix) rfl]
      cases entry : slot d (m f i) with
      | table g =>
          refine ih fun p h below at_p => kept (i :: p) h ?_ ?_
          · exact List.cons_prefix_cons.mpr ⟨rfl, below⟩
          · simpa only [reach, entry] using at_p
      | _ => rfl

/-- Links lead where they led, too. -/
theorem reach_eq_of_tables {is : List ι}
    (kept : ∀ p h, p <+: is → reach slot m d f p = some h → m' h = m h) :
    reach slot m' d f is = reach slot m d f is := by
  induction is generalizing d f with
  | nil => rfl
  | cons i is ih =>
      simp only [reach, kept [] f (List.nil_prefix) rfl]
      cases entry : slot d (m f i) with
      | table g =>
          refine ih fun p h below at_p => kept (i :: p) h ?_ ?_
          · exact List.cons_prefix_cons.mpr ⟨rfl, below⟩
          · simpa only [reach, entry] using at_p
      | _ => rfl

/-- And it reads what it read. -/
theorem trail_eq_of_tables {is : List ι}
    (kept : ∀ p h, p <+: is → reach slot m d f p = some h → m' h = m h) :
    trail slot m' d f is = trail slot m d f is := by
  induction is generalizing d f with
  | nil => rfl
  | cons i is ih =>
      simp only [trail, kept [] f (List.nil_prefix) rfl]
      cases entry : slot d (m f i) with
      | table g =>
          refine congrArg (m f i :: ·) (ih fun p h below at_p => kept (i :: p) h ?_ ?_)
          · exact List.cons_prefix_cons.mpr ⟨rfl, below⟩
          · simpa only [reach, entry] using at_p
      | _ => rfl

/-- **An entry that two tables share** leads to the same from both. -/
theorem shared_entry (same : m' f' i = m f i)
    (kept : ∀ p h, reach slot m d f (i :: p) = some h → m' h = m h) (p : List ι) :
    reach slot m' d f' (i :: p) = reach slot m d f (i :: p) ∧
      walk slot m' d f' (i :: p) = walk slot m d f (i :: p) ∧
      trail slot m' d f' (i :: p) = trail slot m d f (i :: p) := by
  simp only [reach, walk, trail, same]
  cases link : slot d (m f i) with
  | table g =>
      have below : ∀ q h, q <+: p → reach slot m (d + 1) g q = some h → m' h = m h :=
        fun q h _ at_q => kept q h (by simpa only [reach, link] using at_q)
      exact ⟨reach_eq_of_tables below, walk_eq_of_tables below,
        congrArg (m f i :: ·) (trail_eq_of_tables below)⟩
  | _ => exact ⟨rfl, rfl, rfl⟩

/-- Lookups that start in a copied entry find what they found while the entry and the
fresh tables are left alone, -/
theorem Copy.walk_kept (copy : Copy slot blank like fresh page m m' d (m f i) (m' f' i))
    (same : m'' f' i = m' f' i) (kept : ∀ g, fresh g → m'' g = m' g) (is : List ι) :
    TableTree.walk slot m'' d f' (i :: is) = TableTree.walk slot m' d f' (i :: is) := by
  simp only [TableTree.walk, same]
  cases entry : slot d (m' f' i) with
  | table g =>
      refine walk_eq_of_tables fun p h _ at_p => kept h (copy.reach (p := p) ?_).1
      simpa only [TableTree.reach, entry] using at_p
  | _ => rfl

/-- and links lead where they led. -/
theorem Copy.reach_kept (copy : Copy slot blank like fresh page m m' d (m f i) (m' f' i))
    (same : m'' f' i = m' f' i) (kept : ∀ g, fresh g → m'' g = m' g) (is : List ι) :
    TableTree.reach slot m'' d f' (i :: is) = TableTree.reach slot m' d f' (i :: is) := by
  simp only [TableTree.reach, same]
  cases entry : slot d (m' f' i) with
  | table g =>
      refine reach_eq_of_tables fun p h _ at_p => kept h (copy.reach (p := p) ?_).1
      simpa only [TableTree.reach, entry] using at_p
  | _ => rfl

end TableTree
