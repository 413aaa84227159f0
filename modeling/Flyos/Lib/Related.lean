import Flyos.Lib.Runs
import Mathlib.Data.Option.Basic

/-!
# Two runs side by side

A property of two runs of a system is proved like one of a single run: a relation between
the two states that every pair of steps keeps.  `Option.Rel R` relates partial results; the
rules below carry it through the operations that partial functions are made of
(`Option.Rel.bind`, `Option.Rel.map`), so that a function is related to itself, or to one of
the same shape, by following its text.

`Run.agree` is the rule for runs: when related states give the same answers to the same calls
and lead to related states, so do runs of the same calls.
-/

section Results

variable {α β γ δ : Type*} {R : α → β → Prop} {S : γ → δ → Prop} {x : Option α} {y : Option β}

/-- Related results go on to related results. -/
theorem Option.Rel.bind {f : α → Option γ} {g : β → Option δ} (related : Option.Rel R x y)
    (next : ∀ {a b}, R a b → Option.Rel S (f a) (g b)) : Option.Rel S (x.bind f) (y.bind g) := by
  cases related with
  | none => exact .none
  | some one => exact next one

/-- Functions of related results. -/
theorem Option.Rel.map {f : α → γ} {g : β → δ} (related : Option.Rel R x y)
    (next : ∀ {a b}, R a b → S (f a) (g b)) : Option.Rel S (x.map f) (y.map g) := by
  cases related with
  | none => exact .none
  | some one => exact .some (next one)

/-- One result goes on to related results. -/
theorem Option.Rel.bind_same {f : α → Option γ} {g : α → Option δ}
    (next : ∀ a, Option.Rel S (f a) (g a)) : Option.Rel S (x.bind f) (x.bind g) := by
  cases x with
  | none => exact .none
  | some a => exact next a

/-- Related functions of one result. -/
theorem Option.Rel.map_same {f : α → γ} {g : α → δ} (next : ∀ a, S (f a) (g a)) :
    Option.Rel S (x.map f) (x.map g) := by
  cases x with
  | none => exact .none
  | some a => exact .some (next a)

/-- Related results on both sides of a test. -/
theorem Option.Rel.ite {c : Prop} [Decidable c] {x' : Option α} {y' : Option β}
    (holds : c → Option.Rel R x y) (fails : ¬ c → Option.Rel R x' y') :
    Option.Rel R (if c then x else x') (if c then y else y') := by
  by_cases test : c
  · rw [if_pos test, if_pos test]
    exact holds test
  · rw [if_neg test, if_neg test]
    exact fails test

/-- Functions that do not tell related results apart. -/
theorem Option.Rel.map_eq {f : α → γ} {g : β → γ} (related : Option.Rel R x y)
    (same : ∀ {a b}, R a b → g b = f a) : y.map g = x.map f := by
  cases related with
  | none => rfl
  | some one => exact congrArg _ (same one)

/-- A weaker relation. -/
theorem Option.Rel.mono {R' : α → β → Prop} (related : Option.Rel R x y)
    (weaker : ∀ {a b}, R a b → R' a b) : Option.Rel R' x y := by
  cases related with
  | none => exact .none
  | some one => exact .some (weaker one)

/-- Both are defined, or neither. -/
theorem Option.Rel.isSome_eq (related : Option.Rel R x y) : y.isSome = x.isSome := by
  cases related with
  | none => rfl
  | some one => rfl

/-- Two results that are defined. -/
theorem Option.Rel.of_some {a : α} {b : β} (related : Option.Rel R (.some a) (.some b)) :
    R a b := by
  cases related with
  | some one => exact one

end Results

section Runs

/-- The same answer, and related states. -/
def SameAnswer {α σ τ : Type*} (Rel : σ → τ → Prop) (x : α × σ) (y : α × τ) : Prop :=
  y.1 = x.1 ∧ Rel x.2 y.2

variable {σ τ ι κ ρ : Type*} {step : σ → ι → σ → Prop} {other : τ → ι → τ → Prop}

/-- **Two runs of the same calls agree**, when every two steps do. -/
theorem Run.agree (Rel : σ → τ → Prop) (call : ι → κ) (answer : ι → ρ)
    (keeps : ∀ {s m i j t n}, Rel s m → call i = call j → step s i t → other m j n →
      answer i = answer j ∧ Rel t n)
    {s s' : σ} {m m' : τ} {is js : List ι} (run : Run step s is s') (run' : Run other m js m')
    (calls : is.map call = js.map call) (start : Rel s m) :
    is.map answer = js.map answer ∧ Rel s' m' := by
  induction run generalizing m js with
  | nil s =>
      cases run' with
      | nil => exact ⟨rfl, start⟩
      | cons => cases calls
  | cons one _ ih =>
      cases run' with
      | nil => cases calls
      | cons one' rest' =>
          rw [List.map_cons, List.map_cons, List.cons.injEq] at calls
          obtain ⟨same, related⟩ := keeps start calls.1 one one'
          obtain ⟨answers, related'⟩ := ih rest' calls.2 related
          exact ⟨by rw [List.map_cons, List.map_cons, same, answers], related'⟩

end Runs
