import Mathlib.Data.List.Induction

/-!
# What has happened since

`Since P Q l` is the temporal operator over a finite history `l`, oldest first: something that
is `P` happened, and nothing that is `Q` happened after it.  It is computed from the last
event backwards (`Since.append_singleton`), which is how a driver that folds over its events
is compared with it.

For events of two kinds that exclude each other, `Since P Q` and `Since Q P` say which kind
came last (`Since.last`, `Since.exclusive`).
-/

variable {α : Type*} {P P' Q Q' : α → Prop} {l : List α} {e : α}

/-- Something that is `P` happened, and nothing that is `Q` since then. -/
def Since (P Q : α → Prop) (l : List α) : Prop :=
  ∃ before x after, l = before ++ x :: after ∧ P x ∧ ∀ y ∈ after, ¬ Q y

namespace Since

/-- Nothing happened in an empty history. -/
@[simp] theorem nil : ¬ Since P Q [] := by
  rintro ⟨before, x, after, eq, -⟩
  exact List.append_ne_nil_of_right_ne_nil _ (List.cons_ne_nil _ _) eq.symm

/-- **One event more.** -/
theorem append_singleton : Since P Q (l ++ [e]) ↔ P e ∨ Since P Q l ∧ ¬ Q e := by
  constructor
  · rintro ⟨before, x, after, eq, happened, quiet⟩
    rcases List.eq_nil_or_concat after with rfl | ⟨after, y, rfl⟩
    · obtain ⟨-, same⟩ := List.append_inj' eq rfl
      obtain rfl := (List.cons.inj same).1
      exact .inl happened
    · rw [List.concat_eq_append, ← List.cons_append, ← List.append_assoc] at eq
      obtain ⟨rfl, same⟩ := List.append_inj' eq rfl
      obtain rfl := (List.cons.inj same).1
      rw [List.concat_eq_append] at quiet
      exact .inr ⟨⟨before, x, after, rfl, happened, fun z mem => quiet z (by simp [mem])⟩,
        quiet e (by simp)⟩
  · rintro (now | ⟨⟨before, x, after, rfl, happened, quiet⟩, still⟩)
    · exact ⟨l, e, [], rfl, now, fun _ none => by cases none⟩
    · refine ⟨before, x, after ++ [e], by simp, happened, fun y mem => ?_⟩
      rcases List.mem_append.mp mem with mem | mem
      · exact quiet y mem
      · rw [List.mem_singleton.mp mem]
        exact still

/-- More that can happen, less that ends it. -/
theorem mono (since : Since P Q l) (more : ∀ x, P x → P' x) (less : ∀ x, Q' x → Q x) :
    Since P' Q' l := by
  obtain ⟨before, x, after, rfl, happened, quiet⟩ := since
  exact ⟨before, x, after, rfl, more x happened, fun y mem ends => quiet y mem (less y ends)⟩

/-- One of two kinds of events happened. -/
theorem or : Since (fun x => P x ∨ P' x) Q l ↔ Since P Q l ∨ Since P' Q l := by
  constructor
  · rintro ⟨before, x, after, rfl, happened | happened, quiet⟩
    · exact .inl ⟨before, x, after, rfl, happened, quiet⟩
    · exact .inr ⟨before, x, after, rfl, happened, quiet⟩
  · rintro (since | since)
    · exact since.mono (fun _ => .inl) fun _ => id
    · exact since.mono (fun _ => .inr) fun _ => id

/-- Where events of a kind happened, one of two kinds came last. -/
theorem last (since : Since P Q' l) : Since P Q l ∨ Since Q P l := by
  induction l using List.reverseRecOn with
  | nil => exact absurd since nil
  | append_singleton l e ih =>
      rw [append_singleton, append_singleton]
      by_cases now : P e
      · exact .inl (.inl now)
      · by_cases other : Q e
        · exact .inr (.inl other)
        · have earlier := (append_singleton.mp since).resolve_left now
          exact (ih earlier.1).imp (fun since => .inr ⟨since, other⟩) fun since => .inr ⟨since, now⟩

/-- Only one of two kinds that exclude each other came last. -/
theorem exclusive (apart : ∀ x, P x → ¬ Q x) (since : Since P Q l) : ¬ Since Q P l := by
  induction l using List.reverseRecOn with
  | nil => exact nil
  | append_singleton l e ih =>
      rw [append_singleton] at since ⊢
      rintro (other | ⟨other, not⟩)
      · exact since.elim (fun now => apart e now other) fun earlier => earlier.2 other
      · exact since.elim not fun earlier => ih earlier.1 other

end Since
