import Flyos.Lib.LinkChain
import Mathlib.Data.Finset.Card
import Mathlib.Order.Interval.Finset.Nat

/-!
# Walks that clear what they visit

Giving back a linked structure walks along it and clears every link it has followed:
from `a` the walk looks up the next value, clears `a` and goes on.  `Visits` is that
walk over any state in which links are looked up and cleared; it ends even where the
links form a cycle, because a link that was cleared stops it (`exists_visits`), and
along a proper chain it visits the chain (`LinkChain.visits`).

`threaded` is the opposite: a table in which a list of elements has been linked up.
-/

variable {σ α : Type*}

/-! ## The walk -/

section Walk

variable (look : σ → α → α) (clear : σ → α → σ) (stop : α → Prop)

/-- The clearing walk from `a` visits `l`. -/
def Visits : σ → α → List α → Prop
  | _, a, [] => stop a
  | s, a, x :: l => x = a ∧ ¬ stop a ∧ Visits (clear s a) (look s a) l

/-- The clearing walk, as far as `fuel` goes. -/
def visitList [DecidablePred stop] : Nat → σ → α → List α
  | 0, _, _ => []
  | fuel + 1, s, a => if stop a then [] else a :: visitList fuel (clear s a) (look s a)

variable {look clear stop}

/-- A walk that ends within `fuel` elements is the one that is computed. -/
theorem Visits.visitList_eq [DecidablePred stop] {s : σ} {a : α} {l : List α} {fuel : Nat}
    (visits : Visits look clear stop s a l) (enough : l.length < fuel) :
    visitList look clear stop fuel s a = l := by
  induction l generalizing s a fuel with
  | nil =>
      obtain ⟨fuel, rfl⟩ := Nat.exists_eq_succ_of_ne_zero (Nat.ne_of_gt enough)
      exact if_pos visits
  | cons x l ih =>
      obtain ⟨fuel, rfl⟩ := Nat.exists_eq_succ_of_ne_zero (Nat.ne_of_gt (Nat.zero_lt_of_lt enough))
      obtain ⟨rfl, live, rest⟩ := visits
      rw [visitList, if_neg live, ih rest (Nat.lt_of_succ_lt_succ enough)]

/-- The walk determines what it visits. -/
theorem Visits.unique {s : σ} {a : α} {l l' : List α} (visits : Visits look clear stop s a l)
    (visits' : Visits look clear stop s a l') : l = l' := by
  induction l generalizing s a l' with
  | nil =>
      cases l' with
      | nil => rfl
      | cons x l' => exact absurd visits visits'.2.1
  | cons x l ih =>
      cases l' with
      | nil => exact absurd visits' visits.2.1
      | cons y l' =>
          obtain ⟨rfl, -, rest⟩ := visits
          obtain ⟨rfl, -, rest'⟩ := visits'
          rw [ih rest rest']

/-- No visited element is a stop value. -/
theorem Visits.not_stop {s : σ} {a x : α} {l : List α} (visits : Visits look clear stop s a l)
    (mem : x ∈ l) : ¬ stop x := by
  induction l generalizing s a with
  | nil => cases mem
  | cons y l ih =>
      obtain ⟨rfl, live, rest⟩ := visits
      rcases List.mem_cons.mp mem with rfl | mem
      · exact live
      · exact ih rest mem

/-- The walk starts with the element it starts from. -/
theorem Visits.head_mem {s : σ} {a : α} {l : List α} (visits : Visits look clear stop s a l)
    (live : ¬ stop a) : a ∈ l := by
  cases l with
  | nil => exact absurd visits live
  | cons x l => exact visits.1 ▸ List.mem_cons_self

/-- What holds of the start and of every link that is followed holds of the visited elements. -/
theorem Visits.forall_mem {s : σ} {a : α} {l : List α} (visits : Visits look clear stop s a l)
    (Good : α → Prop) (Inv : σ → Prop) (start : Good a) (inv : Inv s)
    (next : ∀ {s a}, Inv s → ¬ stop a → Good a →
      Inv (clear s a) ∧ (stop (look s a) ∨ Good (look s a))) : ∀ x ∈ l, Good x := by
  induction l generalizing s a with
  | nil => intro x mem; cases mem
  | cons y l ih =>
      obtain ⟨rfl, live, rest⟩ := visits
      intro x mem
      rcases List.mem_cons.mp mem with rfl | mem
      · exact start
      obtain ⟨inv', ends | good⟩ := next inv live start
      · cases l with
        | nil => cases mem
        | cons z l => exact absurd ends rest.2.1
      · exact ih rest good inv' x mem

/-- **The clearing walk ends**: there are finitely many elements, and a link that was cleared
stops it. -/
theorem exists_visits [DecidableEq α] (look : σ → α → α) (clear : σ → α → σ) (stop : α → Prop)
    (zero : α) (all : Finset α) (mem : ∀ a, ¬ stop a → a ∈ all) (ends : stop zero) (here : ∀ s a, look (clear s a) a = zero)
    (others : ∀ s a x, look (clear s a) x = look s x ∨ look (clear s a) x = zero) (s : σ) (a : α) :
    ∃ l, Visits look clear stop s a l ∧ l.length ≤ (all.filter (look s · ≠ zero)).card + 1 := by
  generalize size : (all.filter (look s · ≠ zero)).card = n
  induction n using Nat.strong_induction_on generalizing s a with
  | _ n ih =>
      by_cases stopped : stop a
      · exact ⟨[], stopped, by simp⟩
      by_cases last : look s a = zero
      · exact ⟨[a], ⟨rfl, stopped, by rw [last]; exact ends⟩, by simp⟩
      have fewer : (all.filter (look (clear s a) · ≠ zero)).card < n := by
        rw [← size]
        refine Finset.card_lt_card ⟨fun x link => ?_, fun back => ?_⟩
        · rw [Finset.mem_filter] at link ⊢
          rcases others s a x with same | gone
          · exact ⟨link.1, same ▸ link.2⟩
          · exact absurd gone link.2
        · have still := back (Finset.mem_filter.mpr ⟨mem a stopped, last⟩)
          exact (Finset.mem_filter.mp still).2 (here s a)
      obtain ⟨l, visits, short⟩ := ih _ fewer (clear s a) (look s a) rfl
      exact ⟨a :: l, ⟨rfl, stopped, visits⟩, by rw [List.length_cons]; omega⟩

/-- Two states that show the same links along the way are walked alike. -/
theorem Visits.simulates {τ : Type*} {look' : τ → α → α} {clear' : τ → α → τ} {s : σ} {t : τ}
    {a : α} {l : List α} (visits : Visits look clear stop s a l) (Rel : σ → τ → Prop)
    (Good : α → Prop) (start : Good a) (rel : Rel s t)
    (next : ∀ {s t a}, Rel s t → ¬ stop a → Good a → look' t a = look s a ∧
      Rel (clear s a) (clear' t a) ∧ (stop (look s a) ∨ Good (look s a))) :
    Visits look' clear' stop t a l := by
  induction l generalizing s t a with
  | nil => exact visits
  | cons x l ih =>
      obtain ⟨rfl, live, rest⟩ := visits
      obtain ⟨same, rel', ends | good⟩ := next rel live start
      · refine ⟨rfl, live, ?_⟩
        rw [same]
        cases l with
        | nil => exact ends
        | cons y l => exact absurd ends rest.2.1
      · refine ⟨rfl, live, ?_⟩
        rw [same]
        exact ih rest good rel'

end Walk

/-! ## Tables of links -/

section Table

variable [DecidableEq α] {next : α → α} {stop : α → Prop} {zero last : α}

/-- The table with the elements of `l` cleared. -/
def cleared (next : α → α) (zero : α) (l : List α) : α → α := fun x => if x ∈ l then zero else next x

/-- The table with the elements of `l` linked one to the next, the last one to `last`. -/
def threaded (next : α → α) (last : α) : List α → α → α
  | [] => next
  | [x] => Function.update next x last
  | x :: y :: l => Function.update (threaded next last (y :: l)) x y

theorem cleared_of_notMem {l : List α} {x : α} (other : x ∉ l) : cleared next zero l x = next x :=
  if_neg other

theorem cleared_of_mem {l : List α} {x : α} (mem : x ∈ l) : cleared next zero l x = zero :=
  if_pos mem

@[simp] theorem cleared_nil : cleared next zero [] = next := by
  funext x
  exact cleared_of_notMem (by simp)

/-- Clearing one element after the other clears them all. -/
theorem foldl_update_eq_cleared (next : α → α) (zero : α) (l : List α) :
    l.foldl (fun t x => Function.update t x zero) next = cleared next zero l := by
  induction l generalizing next with
  | nil => simp
  | cons x l ih =>
      rw [List.foldl_cons, ih]
      funext y
      by_cases mem : y ∈ l
      · rw [cleared_of_mem mem, cleared_of_mem (List.mem_cons_of_mem x mem)]
      rw [cleared_of_notMem mem]
      by_cases eq : y = x
      · rw [eq, Function.update_self, cleared_of_mem List.mem_cons_self]
      · rw [Function.update_of_ne eq, cleared_of_notMem (by simp [eq, mem])]

/-- The clearing walk along a chain visits the chain. -/
theorem LinkChain.visits {a : α} {l : List α} (chain : LinkChain next stop a l) (zero : α) :
    Visits (fun t : α → α => t) (fun t x => Function.update t x zero) stop next a l := by
  induction l generalizing next a with
  | nil => exact chain
  | cons x l ih =>
      obtain ⟨fresh, -⟩ := List.nodup_cons.mp chain.nodup
      obtain ⟨rfl, live, rest⟩ := chain
      refine ⟨rfl, live, ih (rest.congr fun y mem => ?_)⟩
      have apart : y ≠ x := fun eq => fresh (eq ▸ mem)
      exact (Function.update_of_ne apart ..).symm

/-- Linking up a list leaves the rest of the table. -/
theorem threaded_of_notMem {l : List α} {x : α} (other : x ∉ l) : threaded next last l x = next x := by
  induction l with
  | nil => rfl
  | cons y l ih =>
      have apart : x ≠ y ∧ x ∉ l := by simpa using other
      cases l with
      | nil => exact Function.update_of_ne apart.1 ..
      | cons z l => rw [threaded, Function.update_of_ne apart.1, ih apart.2]

/-- An element that was linked up leads to the next one, or to the last value. -/
theorem threaded_of_mem (next : α → α) (last : α) {l : List α} {x : α} (mem : x ∈ l) :
    threaded next last l x = last ∨ threaded next last l x ∈ l := by
  induction l with
  | nil => cases mem
  | cons y l ih =>
      cases l with
      | nil =>
          rw [List.mem_singleton.mp mem, threaded, Function.update_self]
          exact .inl rfl
      | cons z l =>
          rw [threaded]
          by_cases first : x = y
          · rw [first, Function.update_self]
            exact .inr (by simp)
          · rw [Function.update_of_ne first]
            have later : x ∈ z :: l := (List.mem_cons.mp mem).resolve_left first
            exact (ih later).imp_right (List.mem_cons_of_mem y)

/-- **A list that was linked up is a chain.** -/
theorem linkChain_threaded {l : List α} {x : α} (nodup : (x :: l).Nodup)
    (live : ∀ y ∈ x :: l, ¬ stop y) (ends : stop last) :
    LinkChain (threaded next last (x :: l)) stop x (x :: l) := by
  induction l generalizing x with
  | nil =>
      refine ⟨rfl, live x (by simp), ?_⟩
      rw [threaded, Function.update_self]
      exact ends
  | cons y l ih =>
      obtain ⟨fresh, nodup'⟩ := List.nodup_cons.mp nodup
      refine ⟨rfl, live x (by simp), ?_⟩
      rw [threaded, Function.update_self]
      refine (ih nodup' fun z mem => live z (List.mem_cons_of_mem x mem)).congr fun z mem => ?_
      have apart : z ≠ x := fun eq => fresh (eq ▸ mem)
      exact (Function.update_of_ne apart ..).symm

/-- Linking up one element more, the way an allocation loop does it: the new last element is
marked and then linked from the one before it. -/
theorem threaded_concat (next : α → α) (last : α) {l : List α} {x y : α}
    (nodup : (l ++ [x, y]).Nodup) :
    threaded next last (l ++ [x, y]) =
      Function.update (Function.update (threaded next last (l ++ [x])) y last) x y := by
  induction l with
  | nil =>
      have apart : x ≠ y := by simpa using nodup
      show Function.update (Function.update next y last) x y =
        Function.update (Function.update (Function.update next x last) y last) x y
      rw [@Function.update_comm α _ (fun _ => α) x y apart last last next, Function.update_idem]
  | cons z l ih =>
      rw [List.cons_append] at nodup
      obtain ⟨fresh, nodup'⟩ := List.nodup_cons.mp nodup
      have apart : z ≠ x ∧ z ≠ y := by
        simp only [List.mem_append, List.mem_cons, not_or] at fresh
        exact ⟨fresh.2.1, fresh.2.2.1⟩
      have outer : ∀ w, threaded next last (z :: (l ++ [x, y])) =
          Function.update (threaded next last (l ++ [x, y])) z w →
          threaded next last (z :: (l ++ [x])) =
            Function.update (threaded next last (l ++ [x])) z w →
          threaded next last (z :: (l ++ [x, y])) = Function.update (Function.update
            (threaded next last (z :: (l ++ [x]))) y last) x y := by
        intro w long short
        rw [long, short, ih nodup', Function.update_comm apart.1.symm,
          Function.update_comm apart.2.symm]
      cases l with
      | nil => exact outer x rfl rfl
      | cons w l => exact outer w rfl rfl

/-- The last element leads to the last value. -/
theorem threaded_concat_self {l : List α} {x : α} (nodup : (l ++ [x]).Nodup) :
    threaded next last (l ++ [x]) x = last := by
  induction l with
  | nil => exact Function.update_self ..
  | cons y l ih =>
      rw [List.cons_append] at nodup
      obtain ⟨fresh, nodup'⟩ := List.nodup_cons.mp nodup
      have apart : x ≠ y := fun eq => fresh (by simp [eq])
      cases l with
      | nil => exact (Function.update_of_ne apart ..).trans (ih nodup')
      | cons z l => exact (Function.update_of_ne apart ..).trans (ih nodup')

/-- Clearing what was linked up gives the table back, if its elements were clear before. -/
theorem cleared_threaded {l : List α} (clear : ∀ x ∈ l, next x = zero) :
    cleared (threaded next last l) zero l = next := by
  funext x
  by_cases mem : x ∈ l
  · rw [cleared_of_mem mem, clear x mem]
  · rw [cleared_of_notMem mem, threaded_of_notMem mem]

end Table
