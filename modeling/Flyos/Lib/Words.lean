import Mathlib.Data.List.Basic
import Mathlib.Data.List.Pairwise

/-!
# The words of a list

A word of a list is a stretch without a separator that cannot be made longer (`IsWord`).
`wordsFrom` finds them in one pass; it finds all of them and nothing else (`mem_wordsOf`), in
order (`wordsOf_pairwise`).  `wordsFrom_separators` and `wordsFrom_word` are for proofs about
programs that go through a list one stretch after the other.
-/

variable {α : Type*} {sep : α → Bool} {l xs rest : List α} {i j p a : Nat} {c : α}

/-- A separator at a place. -/
def SepAt (sep : α → Bool) (l : List α) (k : Nat) : Prop := ∃ c, l[k]? = some c ∧ sep c = true

/-- The elements from `i` on and before `j` are a word: there is one, none of them is a separator,
and on both sides there is a separator or the end of the list. -/
structure IsWord (sep : α → Bool) (l : List α) (i j : Nat) : Prop where
  some : i < j
  inside : j ≤ l.length
  free : ∀ k, i ≤ k → k < j → ¬ SepAt sep l k
  before : i = 0 ∨ SepAt sep l (i - 1)
  behind : j = l.length ∨ SepAt sep l j

/-- The words of what is left of a list, from place `p` on; a word that is open starts at `a`. -/
def wordsFrom (sep : α → Bool) : Nat → Option Nat → List α → List (Nat × Nat)
  | _, none, [] => []
  | p, some a, [] => [(a, p)]
  | p, none, c :: rest =>
      if sep c then wordsFrom sep (p + 1) none rest else wordsFrom sep (p + 1) (some p) rest
  | p, some a, c :: rest =>
      if sep c then (a, p) :: wordsFrom sep (p + 1) none rest
      else wordsFrom sep (p + 1) (some a) rest

/-- The words of a list. -/
def wordsOf (sep : α → Bool) (l : List α) : List (Nat × Nat) := wordsFrom sep 0 none l

/-! ## They are the words -/

/-- A word that is open: it has started, and has no separator so far. -/
structure Opened (sep : α → Bool) (l : List α) (a p : Nat) : Prop where
  some : a < p
  free : ∀ k, a ≤ k → k < p → ¬ SepAt sep l k
  before : a = 0 ∨ SepAt sep l (a - 1)

/-- A word that starts in an open one is this one. -/
theorem Opened.start (opened : Opened sep l a p) (word : IsWord sep l i j) (from_ : a ≤ i)
    (low : i ≤ p) : i = a := by
  rcases word.before with zero | sepBefore
  · omega
  · by_contra other
    exact opened.free (i - 1) (by omega) (by omega) sepBefore

/-- An open word ends at the first separator, or at the end of the list. -/
theorem Opened.close (opened : Opened sep l a p) (inside : p ≤ l.length)
    (behind : p = l.length ∨ SepAt sep l p) : IsWord sep l a p :=
  ⟨opened.some, inside, opened.free, opened.before, behind⟩

/-- A word that starts where an open one does ends where it does. -/
theorem Opened.end_ (opened : Opened sep l a p) (word : IsWord sep l a j)
    (behind : p = l.length ∨ SepAt sep l p) : j = p := by
  rcases Nat.lt_trichotomy j p with before | same | after
  · rcases word.behind with last | sepBehind
    · have := word.some
      rcases behind with full | ⟨c, there, -⟩
      · omega
      · have := (List.getElem?_eq_some_iff.mp there).1
        omega
    · exact absurd sepBehind (opened.free j (Nat.le_of_lt word.some) before)
  · exact same
  · rcases behind with full | sepBehind
    · have := word.inside
      omega
    · exact absurd sepBehind (word.free p (Nat.le_of_lt opened.some) after)

/-- The element after those that were passed is a separator. -/
theorem sepAt_here {pre : List α} (here : p = pre.length) :
    SepAt sep (pre ++ c :: rest) p ↔ sep c = true := by
  have there : (pre ++ c :: rest)[p]? = some c := by
    rw [here, List.getElem?_append_right (Nat.le_refl _), Nat.sub_self, List.getElem?_cons_zero]
  constructor
  · rintro ⟨d, same, sepD⟩
    rwa [Option.some.inj (there.symm.trans same)]
  · exact fun sepC => ⟨c, there, sepC⟩

/-- An open word goes on with what is no separator. -/
theorem Opened.goes (opened : Opened sep l a p) (free : ¬ SepAt sep l p) :
    Opened sep l a (p + 1) where
  some := Nat.lt_succ_of_lt opened.some
  free k low high sepK := by
    rcases Nat.lt_or_ge k p with inside | last
    · exact opened.free k low inside sepK
    · obtain rfl : k = p := by omega
      exact free sepK
  before := opened.before

/-- What is no separator opens a word, at the start and behind a separator. -/
theorem Opened.first (before : p = 0 ∨ SepAt sep l (p - 1)) (free : ¬ SepAt sep l p) :
    Opened sep l p (p + 1) where
  some := Nat.lt_succ_self p
  free k low high sepK := by
    obtain rfl : k = p := by omega
    exact free sepK
  before := before

/-- **The pass finds the words**: those from a place on, or from the open one on. -/
theorem mem_wordsFrom (pre : List α) (split : l = pre ++ rest) (here : p = pre.length) :
    ((p = 0 ∨ SepAt sep l (p - 1)) →
      ((i, j) ∈ wordsFrom sep p none rest ↔ IsWord sep l i j ∧ p ≤ i)) ∧
    ∀ a, Opened sep l a p →
      ((i, j) ∈ wordsFrom sep p (some a) rest ↔ IsWord sep l i j ∧ a ≤ i) := by
  induction rest generalizing pre p with
  | nil =>
      have full : p = l.length := by rw [split, List.append_nil, here]
      refine ⟨fun _ => ⟨fun mem => (by cases mem), fun ⟨word, low⟩ => ?_⟩, fun a opened =>
        ⟨fun mem => ?_, fun ⟨word, low⟩ => ?_⟩⟩
      · have := word.some
        have := word.inside
        omega
      · obtain ⟨rfl, rfl⟩ := Prod.mk.inj (List.mem_singleton.mp mem)
        exact ⟨opened.close (Nat.le_of_eq full) (.inl full), Nat.le_refl _⟩
      · have some := word.some
        have inside := word.inside
        obtain rfl := opened.start word low (by omega)
        obtain rfl := opened.end_ word (.inl full)
        exact List.mem_singleton_self _
  | cons c rest ih =>
      have next := ih (p := p + 1) (pre ++ [c])
        (by rw [split, List.append_assoc, List.singleton_append])
        (by rw [List.length_append, List.length_singleton, here])
      have isSep : SepAt sep l p ↔ sep c = true := split ▸ sepAt_here here
      have inside : p < l.length := by
        rw [split, List.length_append, List.length_cons, here]
        omega
      cases kind : sep c with
      | true =>
          have sepHere := isSep.mpr kind
          have rest_ := next.1 (.inr sepHere)
          refine ⟨fun _ => ?_, fun a opened => ?_⟩
          · rw [wordsFrom, if_pos kind, rest_]
            refine and_congr_right fun word => ⟨Nat.le_of_succ_le, fun low => ?_⟩
            rcases Nat.lt_or_eq_of_le low with later | rfl
            · exact later
            · exact absurd sepHere (word.free _ (Nat.le_refl _) word.some)
          · rw [wordsFrom, if_pos kind, List.mem_cons, rest_]
            constructor
            · rintro (same | ⟨word, later⟩)
              · obtain ⟨rfl, rfl⟩ := Prod.mk.inj same
                exact ⟨opened.close (Nat.le_of_lt inside) (.inr sepHere), Nat.le_refl _⟩
              · have := opened.some
                exact ⟨word, by omega⟩
            · rintro ⟨word, low⟩
              rcases Nat.lt_or_ge p i with later | before
              · exact .inr ⟨word, later⟩
              · obtain rfl := opened.start word low before
                obtain rfl := opened.end_ word (.inr sepHere)
                exact .inl rfl
      | false =>
          have free : ¬ SepAt sep l p := fun sepHere => by
            rw [isSep.mp sepHere] at kind
            cases kind
          have notSep : ¬ sep c = true := by rw [kind]; exact Bool.false_ne_true
          refine ⟨fun before => ?_, fun a opened => ?_⟩
          · rw [wordsFrom, if_neg notSep]
            exact next.2 p (.first before free)
          · rw [wordsFrom, if_neg notSep]
            exact next.2 a (opened.goes free)

/-- **`wordsOf` finds the words**, all of them and nothing else. -/
theorem mem_wordsOf : (i, j) ∈ wordsOf sep l ↔ IsWord sep l i j :=
  ((mem_wordsFrom [] rfl rfl).1 (.inl rfl)).trans (and_iff_left (Nat.zero_le i))

/-- The words of what is left start there, or where the open one does. -/
theorem le_of_mem_wordsFrom {w : Nat × Nat} :
    (w ∈ wordsFrom sep p none rest → p ≤ w.1) ∧
      ∀ a ≤ p, w ∈ wordsFrom sep p (some a) rest → a ≤ w.1 := by
  induction rest generalizing p with
  | nil =>
      refine ⟨fun mem => (by cases mem), fun a _ mem => ?_⟩
      obtain rfl := List.mem_singleton.mp mem
      exact Nat.le_refl a
  | cons c rest ih =>
      have next := ih (p := p + 1)
      cases kind : sep c with
      | true =>
          refine ⟨fun mem => ?_, fun a low mem => ?_⟩
          · rw [wordsFrom, if_pos kind] at mem
            exact Nat.le_of_succ_le (next.1 mem)
          · rw [wordsFrom, if_pos kind] at mem
            rcases List.mem_cons.mp mem with rfl | mem
            · exact Nat.le_refl _
            · have := next.1 mem
              omega
      | false =>
          have notSep : ¬ sep c = true := by rw [kind]; exact Bool.false_ne_true
          refine ⟨fun mem => ?_, fun a low mem => ?_⟩
          · rw [wordsFrom, if_neg notSep] at mem
            exact next.2 p (Nat.le_succ p) mem
          · rw [wordsFrom, if_neg notSep] at mem
            exact next.2 a (Nat.le_succ_of_le low) mem

/-- What a pass finds is in order. -/
theorem wordsFrom_pairwise (sep : α → Bool) (p : Nat) (opened : Option Nat) (rest : List α) :
    (wordsFrom sep p opened rest).Pairwise fun v w => v.2 < w.1 := by
  induction rest generalizing p opened with
  | nil =>
      cases opened with
      | none => exact .nil
      | some a => exact List.pairwise_singleton _ _
  | cons c rest ih =>
      cases opened with
      | none =>
          unfold wordsFrom
          split
          · exact ih (p + 1) none
          · exact ih (p + 1) (some p)
      | some a =>
          unfold wordsFrom
          split
          · exact .cons (fun w mem => le_of_mem_wordsFrom.1 mem) (ih (p + 1) none)
          · exact ih (p + 1) (some a)

/-- The words are in order. -/
theorem wordsOf_pairwise (sep : α → Bool) (l : List α) :
    (wordsOf sep l).Pairwise fun v w => v.2 < w.1 := wordsFrom_pairwise sep 0 none l

/-! ## One stretch after the other -/

/-- Separators are passed over. -/
theorem wordsFrom_separators (p : Nat) (rest : List α) (all : ∀ c ∈ xs, sep c = true) :
    wordsFrom sep p none (xs ++ rest) = wordsFrom sep (p + xs.length) none rest := by
  induction xs generalizing p with
  | nil => rfl
  | cons c xs ih =>
      rw [List.cons_append, wordsFrom, if_pos (all c List.mem_cons_self),
        ih (p + 1) fun d mem => all d (List.mem_cons_of_mem c mem), List.length_cons,
        Nat.add_right_comm, Nat.add_assoc]

/-- An open word goes on. -/
theorem wordsFrom_goes (p a : Nat) (rest : List α) (all : ∀ c ∈ xs, sep c = false) :
    wordsFrom sep p (some a) (xs ++ rest) = wordsFrom sep (p + xs.length) (some a) rest := by
  induction xs generalizing p with
  | nil => rfl
  | cons c xs ih =>
      have notSep : ¬ sep c = true := by
        rw [all c List.mem_cons_self]
        exact Bool.false_ne_true
      rw [List.cons_append, wordsFrom, if_neg notSep,
        ih (p + 1) fun d mem => all d (List.mem_cons_of_mem c mem), List.length_cons,
        Nat.add_right_comm, Nat.add_assoc]

/-- A word. -/
theorem wordsFrom_word (p : Nat) (rest : List α) (some_ : xs ≠ [])
    (all : ∀ c ∈ xs, sep c = false) :
    wordsFrom sep p none (xs ++ rest) = wordsFrom sep (p + xs.length) (some p) rest := by
  cases xs with
  | nil => exact absurd rfl some_
  | cons c xs =>
      have notSep : ¬ sep c = true := by
        rw [all c List.mem_cons_self]
        exact Bool.false_ne_true
      rw [List.cons_append, wordsFrom, if_neg notSep,
        wordsFrom_goes (p + 1) p rest fun d mem => all d (List.mem_cons_of_mem c mem),
        List.length_cons, Nat.add_right_comm, Nat.add_assoc]

/-- The words of a list that lies further on. -/
theorem wordsFrom_shift (sep : α → Bool) (d p : Nat) (opened : Option Nat) (l : List α) :
    wordsFrom sep (d + p) (opened.map (d + ·)) l =
      (wordsFrom sep p opened l).map fun w => (d + w.1, d + w.2) := by
  induction l generalizing p opened with
  | nil =>
      cases opened with
      | none => rfl
      | some a => rfl
  | cons c l ih =>
      cases opened with
      | none =>
          rw [Option.map_none, wordsFrom, wordsFrom]
          split
          · exact ih (p + 1) none
          · exact ih (p + 1) (some p)
      | some a =>
          rw [Option.map_some, wordsFrom, wordsFrom]
          split
          · exact congrArg _ (ih (p + 1) none)
          · exact ih (p + 1) (some a)
