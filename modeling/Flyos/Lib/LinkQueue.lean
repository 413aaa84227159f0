import Flyos.Lib.LinkChain
import Mathlib.Logic.Function.Basic

/-!
# Intrusive queues and rings

Two ways to thread elements by a successor field.

`LinkQueue next null head tail l` is a first-in first-out queue: the walk from
`head` visits `l` and ends at `null`, and `tail` is the last element, `null` when
there is none.  Elements are appended behind the tail (`LinkQueue.push`) and
taken from the head (`LinkQueue.pop`).

`LinkRing next a l` is a ring: the walk that leaves `a` visits `l` and is back at
`a`.  A ring can be entered anywhere (`LinkRing.rotate`), and a new element is
linked in behind `a` (`LinkRing.insert`).
-/

variable {α : Type*} {next next' : α → α} {stop stop' : α → Prop}

/-! ## Chains and stretches under other stop values -/

/-- A chain that stops at `b` only is a stretch that arrives at `b`. -/
theorem LinkChain.seg {a b : α} {l : List α} (chain : LinkChain next (· = b) a l)
    (live : ∀ x ∈ l, ¬ stop' x) : LinkSeg next stop' a l b := by
  induction l generalizing a with
  | nil => exact chain
  | cons x l ih =>
      obtain ⟨rfl, -, rest⟩ := chain
      exact ⟨rfl, live x (by simp), ih rest fun y mem => live y (by simp [mem])⟩

/-- A stretch that arrives at a stop value is a chain. -/
theorem LinkSeg.chain {a b : α} {l : List α} (seg : LinkSeg next stop a l b) (ends : stop' b)
    (live : ∀ x ∈ l, ¬ stop' x) : LinkChain next stop' a l := by
  induction l generalizing a with
  | nil => exact (linkSeg_nil.mp seg) ▸ ends
  | cons x l ih =>
      obtain ⟨rfl, -, rest⟩ := seg
      exact ⟨rfl, live x (by simp), ih rest fun y mem => live y (by simp [mem])⟩

/-! ## Queues -/

/-- A queue from `head` to `tail` that holds `l`. -/
structure LinkQueue (next : α → α) (null head tail : α) (l : List α) : Prop where
  chain : LinkChain next (· = null) head l
  last : tail = l.getLastD null

namespace LinkQueue

variable {null head tail t : α} {l : List α}

/-- The empty queue. -/
theorem nil (next : α → α) (null : α) : LinkQueue next null null null [] := ⟨rfl, rfl⟩

/-- The successor matters on the elements only. -/
theorem congr (h : LinkQueue next null head tail l) (same : ∀ x ∈ l, next x = next' x) :
    LinkQueue next' null head tail l :=
  ⟨h.chain.congr same, h.last⟩

theorem ne_null (h : LinkQueue next null head tail l) {x : α} (mem : x ∈ l) : x ≠ null :=
  h.chain.not_stop mem

/-- A tail that is not null is an element. -/
theorem tail_mem (h : LinkQueue next null head tail l) (some : tail ≠ null) : tail ∈ l := by
  have last := h.last
  rw [List.getLastD_eq_getLast?] at last
  cases found : l.getLast? with
  | none =>
      rw [found] at last
      exact absurd last some
  | some y =>
      rw [found] at last
      exact last ▸ List.mem_of_getLast? found

/-- The first element is the head. -/
theorem head_eq {x : α} (h : LinkQueue next null head tail (x :: l)) : head = x :=
  h.chain.1.symm

/-- A queue with a null head is empty. -/
theorem eq_nil (h : LinkQueue next null null tail l) : l = [] := by
  cases l with
  | nil => rfl
  | cons x l => exact absurd rfl h.chain.2.1

/-- A queue with another head begins with it. -/
theorem exists_cons (h : LinkQueue next null head tail l) (some : head ≠ null) :
    ∃ rest, l = head :: rest := by
  cases l with
  | nil => exact absurd h.chain some
  | cons x l => exact ⟨l, by rw [h.head_eq]⟩

/-- **Appending an element.**  The successor of the old tail, if there is one, becomes the
new element, and its own successor null. -/
theorem push [DecidableEq α] (h : LinkQueue next null head tail l) (fresh : t ∉ l) (some : t ≠ null)
    (stops : next' t = null) (link : tail ≠ null → next' tail = t)
    (same : ∀ x ∈ l, x ≠ tail → next' x = next x) :
    LinkQueue next' null (if tail ≠ null then head else t) t (l ++ [t]) := by
  refine ⟨?_, by rw [List.getLastD_concat]⟩
  rcases List.eq_nil_or_concat' l with rfl | ⟨front, last, rfl⟩
  · have none : tail = null := h.last
    rw [if_neg (not_not.mpr none)]
    exact ⟨rfl, some, stops⟩
  · have tail_eq : tail = last := by rw [h.last, List.getLastD_concat]
    subst tail_eq
    have nodup := h.chain.nodup
    have live : tail ≠ null := h.ne_null (by simp)
    rw [if_pos live]
    obtain ⟨b, seg, eq, -, -⟩ := linkChain_append.mp h.chain
    subst eq
    have front_same : ∀ x ∈ front, next x = next' x := by
      intro x mem
      refine (same x (by simp [mem]) ?_).symm
      rintro rfl
      exact (List.nodup_append.mp nodup).2.2 x mem x (by simp) rfl
    rw [List.append_assoc]
    refine linkChain_append.mpr ⟨tail, seg.congr front_same, rfl, live, ?_⟩
    rw [link live]
    exact ⟨rfl, some, stops⟩

/-- **Taking the head.** -/
theorem pop [DecidableEq α] {x : α} (h : LinkQueue next null head tail (x :: l))
    (same : ∀ y ∈ l, next y = next' y) :
    LinkQueue next' null (next x) (if next x = null then null else tail) l := by
  obtain ⟨rfl, -, rest⟩ := h.chain
  refine ⟨rest.congr same, ?_⟩
  cases l with
  | nil =>
      have ends : next x = null := rest
      rw [if_pos ends, List.getLastD_nil]
  | cons y l =>
      rw [if_neg rest.2.1, h.last]
      rfl

end LinkQueue

/-! ## Rings -/

/-- The walk that leaves `a` visits `l` and is back at `a`. -/
def LinkRing (next : α → α) (a : α) (l : List α) : Prop := LinkChain next (· = a) (next a) l

namespace LinkRing

variable {a b t : α} {l l' : List α}

theorem notMem (h : LinkRing next a l) : a ∉ l := fun mem => h.not_stop mem rfl

/-- The successor matters on the elements only. -/
theorem congr (h : LinkRing next a l) (first : next a = next' a)
    (same : ∀ x ∈ l, next x = next' x) : LinkRing next' a l := by
  rw [LinkRing, ← first]
  exact LinkChain.congr h same

/-- **Entering a ring elsewhere.** -/
theorem rotate (h : LinkRing next a (l ++ b :: l')) : LinkRing next b (l' ++ a :: l) := by
  have nodup := h.nodup
  have not_a : a ∉ l ++ b :: l' := h.notMem
  have parts := List.nodup_append.mp nodup
  obtain ⟨c, seg, eq, -, rest⟩ := linkChain_append.mp h
  subst eq
  have other : a ≠ b := fun same => not_a (by simp [same])
  have not_l : ∀ x ∈ l, x ≠ b := fun x mem => parts.2.2 x mem b (by simp)
  have not_l' : ∀ x ∈ l', x ≠ b := fun x mem same =>
    (List.nodup_cons.mp parts.2.1).1 (same ▸ mem)
  exact linkChain_append.mpr ⟨a, rest.seg not_l', rfl, other, seg.chain rfl not_l⟩

/-- **Linking in an element behind `a`.** -/
theorem insert (h : LinkRing next a l) (fresh : t ≠ a) (link : next' a = t)
    (onward : next' t = next a) (same : ∀ x ∈ l, next x = next' x) :
    LinkRing next' a (t :: l) := by
  rw [LinkRing, link]
  refine ⟨rfl, fresh, ?_⟩
  rw [onward]
  exact LinkChain.congr h same

end LinkRing
