import Mathlib.Data.List.Basic

/-!
# Filling a buffer in order

Items are written one behind the other as long as they fit.  `packed` stops at the first that
does not.  `packedEach` does so in every block of a list and goes on with the next block,
unless all of a block fitted that is marked as the last one: an item that does not fit hides
the mark.  It writes what `packed` writes of the items up to the mark exactly when behind the
first item left out no block is found that begins with one that fits (`packedEach_eq_iff`).
-/

variable {α β : Type*} (Fits : List β → α → Prop) [∀ out a, Decidable (Fits out a)]
  (text : α → List β)

/-- The items up to the first that does not fit, and whether all did. -/
def packed : List β → List α → List β × Bool
  | out, [] => (out, true)
  | out, a :: l => if Fits out a then packed (out ++ text a) l else (out, false)

/-- The same in each block, up to a last one of which all fits. -/
def packedEach : List β → List (Bool × List α) → List β
  | out, [] => out
  | out, (last, b) :: bs =>
      let r := packed Fits text out b
      if (last && r.2) = true then r.1 else packedEach r.1 bs

/-- The items of the blocks up to the one marked as the last. -/
def joined : List (Bool × List α) → List α
  | [] => []
  | (last, b) :: bs => b ++ if last = true then [] else joined bs

/-- No block begins with an item that fits, up to an empty one that is the last. -/
def NoneFits (out : List β) : List (Bool × List α) → Prop
  | [] => True
  | (last, []) :: bs => last = true ∨ NoneFits out bs
  | (_, a :: _) :: bs => ¬ Fits out a ∧ NoneFits out bs

/-- Behind the first item that is left out no block begins with one that fits. -/
def StaysFull : List β → List (Bool × List α) → Prop
  | _, [] => True
  | out, (last, b) :: bs =>
      if (packed Fits text out b).2 = true then
        last = true ∨ StaysFull (packed Fits text out b).1 bs
      else NoneFits Fits (packed Fits text out b).1 bs

instance decidableNoneFits (out : List β) :
    (bs : List (Bool × List α)) → Decidable (NoneFits Fits out bs)
  | [] => .isTrue trivial
  | (_, []) :: bs => @instDecidableOr _ _ _ (decidableNoneFits out bs)
  | (_, _ :: _) :: bs => @instDecidableAnd _ _ _ (decidableNoneFits out bs)

instance decidableStaysFull (out : List β) :
    (bs : List (Bool × List α)) → Decidable (StaysFull Fits text out bs)
  | [] => .isTrue trivial
  | (_, b) :: bs =>
      if all : (packed Fits text out b).2 = true then
        @decidable_of_iff _ _ (by rw [StaysFull, if_pos all])
          (@instDecidableOr _ _ _ (decidableStaysFull (packed Fits text out b).1 bs))
      else
        @decidable_of_iff _ _ (by rw [StaysFull, if_neg all])
          (decidableNoneFits Fits (packed Fits text out b).1 bs)

variable {Fits text} {out : List β} {a : α} {l l' : List α} {bs : List (Bool × List α)}

/-- Two lists of items are packed as one, if the first fits. -/
theorem packed_append : packed Fits text out (l ++ l') =
    if (packed Fits text out l).2 = true then packed Fits text (packed Fits text out l).1 l'
    else packed Fits text out l := by
  induction l generalizing out with
  | nil => rfl
  | cons a l ih =>
      rw [List.cons_append, packed, packed]
      by_cases here : Fits out a
      · rw [if_pos here, if_pos here]
        exact ih
      · rw [if_neg here, if_neg here]
        rfl

variable (Fits text) in
/-- What is there stays. -/
theorem prefix_packed (l : List α) (out : List β) : out <+: (packed Fits text out l).1 := by
  induction l generalizing out with
  | nil => exact List.prefix_refl out
  | cons a l ih =>
      rw [packed]
      split
      case isTrue => exact (List.prefix_append out (text a)).trans (ih _)
      case isFalse => exact List.prefix_refl out

variable (Fits text) in
theorem prefix_packedEach (bs : List (Bool × List α)) (out : List β) :
    out <+: packedEach Fits text out bs := by
  induction bs generalizing out with
  | nil => exact List.prefix_refl out
  | cons b bs ih =>
      rw [packedEach]
      split
      case isTrue => exact prefix_packed Fits text b.2 out
      case isFalse => exact (prefix_packed Fits text b.2 out).trans (ih _)

/-- What every item that fits keeps. -/
theorem packed_invariant (Inv : List β → Prop) (keeps : ∀ out a, Inv out → Fits out a →
    Inv (out ++ text a)) (l : List α) (start : Inv out) : Inv (packed Fits text out l).1 := by
  induction l generalizing out with
  | nil => exact start
  | cons a l ih =>
      rw [packed]
      split
      case isTrue here => exact ih (keeps out a start here)
      case isFalse => exact start

theorem packedEach_invariant (Inv : List β → Prop) (keeps : ∀ out a, Inv out → Fits out a →
    Inv (out ++ text a)) (bs : List (Bool × List α)) (start : Inv out) :
    Inv (packedEach Fits text out bs) := by
  induction bs generalizing out with
  | nil => exact start
  | cons b bs ih =>
      rw [packedEach]
      split
      case isTrue => exact packed_invariant Inv keeps b.2 start
      case isFalse => exact ih (packed_invariant Inv keeps b.2 start)

/-- Blocks that add nothing begin with items that do not fit. -/
theorem packedEach_eq_self_iff (some : ∀ a, text a ≠ []) :
    packedEach Fits text out bs = out ↔ NoneFits Fits out bs := by
  induction bs with
  | nil => exact iff_of_true rfl trivial
  | cons b bs ih =>
      obtain ⟨last, l⟩ := b
      rw [packedEach]
      cases l with
      | nil =>
          rw [NoneFits, packed, Bool.and_true]
          by_cases ended : last = true
          · simp [ended]
          · rw [if_neg ended, ih]
            simp [ended]
      | cons a l =>
          rw [NoneFits, packed]
          by_cases here : Fits out a
          · rw [if_pos here]
            refine iff_of_false (fun same => ?_) fun full => full.1 here
            -- the item would have been written
            have first := prefix_packed Fits text l (out ++ text a)
            have length : (out ++ text a).length ≤ out.length := by
              split at same
              case isTrue =>
                have le := first.length_le
                rwa [same] at le
              case isFalse =>
                have le := (first.trans (prefix_packedEach Fits text bs _)).length_le
                rwa [same] at le
            rw [List.length_append] at length
            have positive := List.length_pos_of_ne_nil (some a)
            omega
          · rw [if_neg here, Bool.and_false, if_neg Bool.false_ne_true, ih]
            simp [here]

/-- **Filling block by block writes the same** exactly when it stays full. -/
theorem packedEach_eq_iff (some : ∀ a, text a ≠ []) :
    packedEach Fits text out bs = (packed Fits text out (joined bs)).1 ↔
      StaysFull Fits text out bs := by
  induction bs generalizing out with
  | nil => exact iff_of_true rfl trivial
  | cons b bs ih =>
      obtain ⟨last, l⟩ := b
      rw [packedEach, joined, packed_append, StaysFull]
      by_cases all : (packed Fits text out l).2 = true
      · rw [if_pos all, if_pos all, all, Bool.and_true]
        by_cases ended : last = true
        · simp [ended, packed]
        · rw [if_neg ended, if_neg ended, ih]
          simp [ended]
      · have some_left : (packed Fits text out l).2 = false := Bool.not_eq_true _ ▸ all
        rw [if_neg all, if_neg all, some_left, Bool.and_false, if_neg Bool.false_ne_true]
        exact packedEach_eq_self_iff some
