import Mathlib.Data.List.TakeDrop

/-!
# Writing into a list

`overlay l off src` is the list `l` with `src` written at position `off`: what a
copy loop leaves in a buffer, a file or a disk.
-/

variable {α : Type*}

/-- `src` written over `l` at position `off`. -/
def overlay (l : List α) (off : Nat) (src : List α) : List α :=
  l.take off ++ src ++ l.drop (off + src.length)

/-- Writing nothing changes nothing. -/
@[simp] theorem overlay_nil (l : List α) (off : Nat) : overlay l off [] = l := by
  simp [overlay]

/-- Writing inside a list keeps its length. -/
theorem length_overlay {l src : List α} {off : Nat} (inside : off + src.length ≤ l.length) :
    (overlay l off src).length = l.length := by
  simp [overlay]
  omega

/-- Writing at the front. -/
theorem overlay_zero (l src : List α) : overlay l 0 src = src ++ l.drop src.length := by
  simp [overlay]

/-- Writing over the middle of a list. -/
theorem overlay_append {l mid mid' l' : List α} {off : Nat} (start : l.length = off)
    (sized : mid.length = mid'.length) : overlay (l ++ mid ++ l') off mid' = l ++ mid' ++ l' := by
  subst start
  rw [overlay, List.append_assoc l mid, List.take_left, ← sized, ← List.drop_drop, List.drop_left,
    List.drop_left]

/-- Writing two lists behind each other. -/
theorem overlay_overlay {l src src' : List α} {off : Nat}
    (inside : off + src.length ≤ l.length) :
    overlay (overlay l off src) (off + src.length) src' = overlay l off (src ++ src') := by
  have front : (l.take off ++ src).length = off + src.length := by
    rw [List.length_append, List.length_take]
    omega
  rw [overlay, overlay, overlay, ← front, List.take_left, ← List.drop_drop, List.drop_left, front,
    List.drop_drop, List.length_append, List.append_assoc (l.take off), Nat.add_assoc]

/-- What was written is there. -/
theorem drop_take_overlay {l src : List α} {off k : Nat} (inside : off + src.length ≤ l.length)
    (enough : off + src.length ≤ k) :
    (((overlay l off src).take k).drop off).take src.length = src := by
  have front : (l.take off).length = off := by rw [List.length_take]; omega
  rw [List.drop_take, List.take_take, Nat.min_eq_left (by omega), overlay, List.append_assoc,
    List.drop_left' front, List.take_left]

/-- The first `k` elements of a buffer are a list of their own: writing into the
buffer, and counting what was written as part of it, is writing into that list. -/
theorem take_overlay {l src : List α} {off k : Nat} (start : off ≤ k)
    (inside : off + src.length ≤ l.length) :
    (overlay l off src).take (max k (off + src.length)) = overlay (l.take k) off src := by
  have front : (l.take off ++ src).length = off + src.length := by simp; omega
  have first : (l.take k).take off = l.take off := by rw [List.take_take, Nat.min_eq_left start]
  rw [overlay, overlay, first, List.take_append, front, List.drop_take,
    List.take_of_length_le (by omega : (l.take off ++ src).length ≤ _)]
  congr 2
  omega
