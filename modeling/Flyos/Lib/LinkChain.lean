import Mathlib.Data.List.Nodup
import Mathlib.Data.List.Infix
import Mathlib.Logic.Function.Basic

/-!
# Chains of links

Kernel data structures are threaded: a value (a block address, a node pointer,
a cluster number) names an element, the element holds the value of the next
one, and some values mean "no more".  `LinkChain next stop a l` says that the
walk from `a` visits exactly `l` and then stops; `LinkSeg next stop a l b` is
a stretch of such a walk that has arrived at `b`.

The walk is deterministic, so the visited list is unique
(`LinkChain.unique`) and a walk that stops repeats nothing
(`LinkChain.nodup`).  Updates are handled by splitting a chain at the changed
element (`linkChain_append`) and moving the untouched stretches to the new
successor function (`LinkChain.congr`, `LinkSeg.congr`).
-/

variable {α : Type*} {next next' : α → α} {stop : α → Prop}

/-- The walk from `a` along `next` visits `l` and then meets a stop value. -/
def LinkChain (next : α → α) (stop : α → Prop) : α → List α → Prop
  | a, [] => stop a
  | a, x :: l => x = a ∧ ¬ stop a ∧ LinkChain next stop (next a) l

/-- The walk from `a` along `next` visits `l`, meeting no stop value, and then
stands at `b`. -/
def LinkSeg (next : α → α) (stop : α → Prop) : α → List α → α → Prop
  | a, [], b => a = b
  | a, x :: l, b => x = a ∧ ¬ stop a ∧ LinkSeg next stop (next a) l b

@[simp] theorem linkChain_nil {a : α} : LinkChain next stop a [] ↔ stop a := Iff.rfl

theorem linkChain_cons {a x : α} {l : List α} :
    LinkChain next stop a (x :: l) ↔
      x = a ∧ ¬ stop a ∧ LinkChain next stop (next a) l := Iff.rfl

@[simp] theorem linkSeg_nil {a b : α} : LinkSeg next stop a [] b ↔ a = b := Iff.rfl

/-- A chain is a stretch followed by the chain from where it arrived. -/
theorem linkChain_append {a : α} {l l' : List α} :
    LinkChain next stop a (l ++ l') ↔
      ∃ b, LinkSeg next stop a l b ∧ LinkChain next stop b l' := by
  induction l generalizing a with
  | nil => simp
  | cons x l ih =>
      rw [List.cons_append, linkChain_cons, ih]
      constructor
      · rintro ⟨rfl, live, b, seg, rest⟩
        exact ⟨b, ⟨rfl, live, seg⟩, rest⟩
      · rintro ⟨b, ⟨rfl, live, seg⟩, rest⟩
        exact ⟨rfl, live, b, seg, rest⟩

/-- The successor function only matters on the visited elements. -/
theorem LinkChain.congr {a : α} {l : List α} (h : LinkChain next stop a l)
    (same : ∀ x ∈ l, next x = next' x) : LinkChain next' stop a l := by
  induction l generalizing a with
  | nil => exact h
  | cons x l ih =>
      obtain ⟨rfl, live, rest⟩ := h
      refine ⟨rfl, live, ?_⟩
      rw [← same x (by simp)]
      exact ih rest fun y hy => same y (by simp [hy])

/-- The successor function only matters on the visited elements. -/
theorem LinkSeg.congr {a b : α} {l : List α} (h : LinkSeg next stop a l b)
    (same : ∀ x ∈ l, next x = next' x) : LinkSeg next' stop a l b := by
  induction l generalizing a with
  | nil => exact h
  | cons x l ih =>
      obtain ⟨rfl, live, rest⟩ := h
      refine ⟨rfl, live, ?_⟩
      rw [← same x (by simp)]
      exact ih rest fun y hy => same y (by simp [hy])

/-- Bypassing an element: when its predecessor is given its successor, the walk
visits the others as before. -/
theorem LinkChain.bypass {a x c : α} {l l' : List α}
    (h : LinkChain next stop a (l ++ x :: c :: l')) (link : next' x = next c)
    (same : ∀ y ∈ l ++ l', next y = next' y) : LinkChain next' stop a (l ++ x :: l') := by
  obtain ⟨b, before, eq, live, eq', -, rest⟩ := linkChain_append.mp h
  subst eq
  subst eq'
  refine linkChain_append.mpr ⟨x, before.congr fun y hy => same y (by simp [hy]), rfl, live, ?_⟩
  rw [link]
  exact rest.congr fun y hy => same y (by simp [hy])

/-- The walk from a value determines what it visits. -/
theorem LinkChain.unique {a : α} {l l' : List α} (h : LinkChain next stop a l)
    (h' : LinkChain next stop a l') : l = l' := by
  induction l generalizing a l' with
  | nil =>
      cases l' with
      | nil => rfl
      | cons x l' => exact absurd h h'.2.1
  | cons x l ih =>
      cases l' with
      | nil => exact absurd h' h.2.1
      | cons y l' =>
          obtain ⟨rfl, -, rest⟩ := h
          obtain ⟨rfl, -, rest'⟩ := h'
          rw [ih rest rest']

/-- The walk from a visited element visits the rest of the list. -/
theorem LinkChain.of_append {a x : α} {l l' : List α}
    (h : LinkChain next stop a (l ++ x :: l')) : LinkChain next stop x (x :: l') := by
  obtain ⟨b, -, rest⟩ := linkChain_append.mp h
  obtain ⟨rfl, -, -⟩ := id rest
  exact rest

/-- A walk that stops never comes back: it would be periodic. -/
theorem LinkChain.nodup {a : α} {l : List α} (h : LinkChain next stop a l) : l.Nodup := by
  induction l generalizing a with
  | nil => exact List.nodup_nil
  | cons x l ih =>
      obtain ⟨rfl, live, rest⟩ := h
      refine List.nodup_cons.mpr ⟨fun again => ?_, ih rest⟩
      obtain ⟨pre, post, rfl⟩ := List.append_of_mem again
      -- the walk from the second visit is both the tail and the whole
      have whole : LinkChain next stop x (x :: (pre ++ x :: post)) := ⟨rfl, live, rest⟩
      have lengths := congrArg List.length (whole.unique (LinkChain.of_append rest))
      simp only [List.length_cons, List.length_append] at lengths
      omega

/-- No visited element is a stop value. -/
theorem LinkChain.not_stop {a x : α} {l : List α} (h : LinkChain next stop a l)
    (mem : x ∈ l) : ¬ stop x := by
  obtain ⟨pre, post, rfl⟩ := List.append_of_mem mem
  exact (LinkChain.of_append h).2.1

/-- A walk does not end at an element that leads to itself. -/
theorem LinkChain.not_of_fixed {a : α} {l : List α} (fixed : next a = a) (live : ¬ stop a) :
    ¬ LinkChain next stop a l := by
  induction l with
  | nil => exact live
  | cons x l ih =>
      rintro ⟨-, -, rest⟩
      rw [fixed] at rest
      exact ih rest

/-- A visited element leads to a visited element or to a stop value. -/
theorem LinkChain.next_mem {a x : α} {l : List α} (h : LinkChain next stop a l) (mem : x ∈ l)
    (live : ¬ stop (next x)) : next x ∈ l := by
  obtain ⟨pre, post, rfl⟩ := List.append_of_mem mem
  have rest := (LinkChain.of_append h).2.2
  cases post with
  | nil => exact absurd rest live
  | cons y post =>
      rw [← rest.1]
      simp

/-- A chain ends at other stop values as well, if the links that stop it are among them. -/
theorem LinkChain.change_stop {stop' : α → Prop} {a : α} {l : List α} (h : LinkChain next stop a l)
    (live : ∀ x ∈ l, ¬ stop' x) (start : stop a → stop' a)
    (links : ∀ x ∈ l, stop (next x) → stop' (next x)) : LinkChain next stop' a l := by
  induction l generalizing a with
  | nil => exact start h
  | cons x l ih =>
      obtain ⟨rfl, -, rest⟩ := h
      exact ⟨rfl, live x (by simp), ih rest (fun y mem => live y (List.mem_cons_of_mem x mem))
        (links x (by simp)) fun y mem => links y (List.mem_cons_of_mem x mem)⟩

/-- Where links are left as they are or made to stop, the walk stops too, among the elements it
visited. -/
theorem LinkChain.cut {a : α} {l : List α} (h : LinkChain next stop a l)
    (links : ∀ x, next' x = next x ∨ stop (next' x)) :
    ∃ l', LinkChain next' stop a l' ∧ l' ⊆ l := by
  induction l generalizing a with
  | nil => exact ⟨[], h, List.Subset.refl _⟩
  | cons x l ih =>
      obtain ⟨rfl, live, rest⟩ := h
      rcases links x with same | stops
      · obtain ⟨l', chain, sub⟩ := ih rest
        refine ⟨x :: l', ⟨rfl, live, by rw [same]; exact chain⟩, List.cons_subset_cons x sub⟩
      · exact ⟨[x], ⟨rfl, live, stops⟩, by simp⟩

/-- Where one link is redirected to the start of a walk that stops, every walk that stopped still
does, among the elements of both. -/
theorem LinkChain.redirect [DecidableEq α] {a p v : α} {l m : List α} (h : LinkChain next stop a l)
    (target : LinkChain (Function.update next p v) stop v m) :
    ∃ l', LinkChain (Function.update next p v) stop a l' ∧ l' ⊆ l ++ m := by
  induction l generalizing a with
  | nil => exact ⟨[], h, by simp⟩
  | cons x l ih =>
      obtain ⟨rfl, live, rest⟩ := h
      by_cases here : x = p
      · refine ⟨x :: m, ⟨rfl, live, ?_⟩, List.cons_subset_cons x (by simp)⟩
        rw [here, Function.update_self]
        exact target
      · obtain ⟨l', chain, sub⟩ := ih rest
        refine ⟨x :: l', ⟨rfl, live, ?_⟩, List.cons_subset_cons x sub⟩
        rw [Function.update_of_ne here]
        exact chain
