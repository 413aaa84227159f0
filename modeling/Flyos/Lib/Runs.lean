import Mathlib.Data.Set.Basic

/-!
# Runs of a labelled step relation

A system is a relation `step : σ → ι → σ → Prop`: from a state, under an input
(a call, an event, a choice), to a state.  `Run step s is s'` performs the
inputs `is` in order.  A claim about every reachable state is proved by
`Run.invariant`: what every step preserves holds at the end of every run that
starts with it.

`Guarded cond step` is the same system kept to the steps whose state and input
meet `cond`; it is how a result that holds only while a condition is observed
is stated about whole runs.
-/

variable {σ ι : Type*} {step step' : σ → ι → σ → Prop} {s s' s'' : σ}

/-- A run: the inputs of the list, one after the other. -/
inductive Run (step : σ → ι → σ → Prop) : σ → List ι → σ → Prop
  | nil (s : σ) : Run step s [] s
  | cons {s t u : σ} {i : ι} {is : List ι} :
      step s i t → Run step t is u → Run step s (i :: is) u

/-- The steps of `step` whose state and input meet `cond`. -/
def Guarded (cond : σ → ι → Prop) (step : σ → ι → σ → Prop) : σ → ι → σ → Prop :=
  fun s i t => cond s i ∧ step s i t

/-- What every step preserves, every run preserves. -/
theorem Run.invariant {is : List ι} (run : Run step s is s') (Inv : σ → Prop)
    (keeps : ∀ {s i t}, Inv s → step s i t → Inv t) (start : Inv s) : Inv s' := by
  induction run with
  | nil s => exact start
  | cons one _ ih => exact ih (keeps start one)

/-- A run of one step. -/
theorem Run.single {i : ι} (one : step s i s') : Run step s [i] s' :=
  .cons one (.nil s')

/-- Runs compose. -/
theorem Run.append {is js : List ι} (run : Run step s is s') (run' : Run step s' js s'') :
    Run step s (is ++ js) s'' := by
  induction run with
  | nil s => exact run'
  | cons one _ ih => exact .cons one (ih run')

/-- A run of a smaller step relation is a run of a larger one. -/
theorem Run.mono {is : List ι} (run : Run step s is s')
    (sub : ∀ {s i t}, step s i t → step' s i t) : Run step' s is s' := by
  induction run with
  | nil s => exact .nil s
  | cons one _ ih => exact .cons (sub one) ih

/-- Where a step is a partial function, a run is computed. -/
theorem Run.ofFold {next : σ → ι → Option σ} {is : List ι}
    (fold : is.foldlM next s = some s') : Run (fun s i t => next s i = some t) s is s' := by
  induction is generalizing s with
  | nil =>
      obtain rfl := Option.some.inj fold
      exact .nil s
  | cons i is ih =>
      rw [List.foldlM_cons] at fold
      obtain ⟨t, one, rest⟩ := Option.bind_eq_some_iff.mp fold
      exact .cons one (ih rest)

/-- A run that keeps to a condition is computed too. -/
theorem Run.guardedOfFold {next : σ → ι → Option σ} {cond : σ → ι → Prop}
    [∀ s i, Decidable (cond s i)] {is : List ι}
    (fold : is.foldlM (fun s i => if cond s i then next s i else none) s = some s') :
    Run (Guarded cond fun s i t => next s i = some t) s is s' := by
  refine (Run.ofFold fold).mono fun {s i t} one => ?_
  by_cases met : cond s i
  · exact ⟨met, by rwa [if_pos met] at one⟩
  · rw [if_neg met] at one
    cases one

/-- **Simulation.**  When every step of one system is matched by a step of another
under the same input, so is every run. -/
theorem Run.simulates {τ : Type*} {other : τ → ι → τ → Prop} {is : List ι}
    (run : Run step s is s') (Rel : σ → τ → Prop)
    (matched : ∀ {s i t m}, Rel s m → step s i t → ∃ m', other m i m' ∧ Rel t m') {m : τ}
    (start : Rel s m) : ∃ m', Run other m is m' ∧ Rel s' m' := by
  induction run generalizing m with
  | nil s => exact ⟨m, .nil m, start⟩
  | cons one _ ih =>
      obtain ⟨m₁, step₁, rel₁⟩ := matched start one
      obtain ⟨m', run', rel'⟩ := ih rel₁
      exact ⟨m', .cons step₁ run', rel'⟩

/-! ## On the way -/

/-- State `u` is passed by a run. -/
def Passes (step : σ → ι → σ → Prop) (s : σ) (is : List ι) (s' u : σ) : Prop :=
  ∃ js ks, is = js ++ ks ∧ Run step s js u ∧ Run step u ks s'

/-- The step from `u` to `u'` is one of a run. -/
def Takes (step : σ → ι → σ → Prop) (s : σ) (is : List ι) (s' u : σ) (i : ι) (u' : σ) : Prop :=
  ∃ js ks, is = js ++ i :: ks ∧ Run step s js u ∧ step u i u' ∧ Run step u' ks s'

/-- A run passes the state it starts with. -/
theorem Passes.start {is : List ι} (run : Run step s is s') : Passes step s is s' s :=
  ⟨[], is, rfl, .nil s, run⟩

theorem Passes.cons {i : ι} {is : List ι} {t u : σ} (one : step s i t)
    (later : Passes step t is s' u) : Passes step s (i :: is) s' u := by
  obtain ⟨js, ks, rfl, before, after⟩ := later
  exact ⟨i :: js, ks, rfl, .cons one before, after⟩

theorem Takes.cons {i j : ι} {is : List ι} {t u u' : σ} (one : step s i t)
    (later : Takes step t is s' u j u') : Takes step s (i :: is) s' u j u' := by
  obtain ⟨js, ks, rfl, before, there, after⟩ := later
  exact ⟨i :: js, ks, rfl, .cons one before, there, after⟩

/-- **What every step preserves or hits**: at the end of a run it still holds, unless the run
has a step that hits. -/
theorem Run.invariant_until {is : List ι} (run : Run step s is s') (Inv : σ → Prop)
    (Hit : σ → ι → σ → Prop)
    (keeps : ∀ {u i u'}, Passes step s is s' u → Inv u → step u i u' → Inv u' ∨ Hit u i u')
    (start : Inv s) : Inv s' ∨ ∃ u i u', Takes step s is s' u i u' ∧ Hit u i u' := by
  induction run with
  | nil s => exact .inl start
  | @cons s t v i is one rest ih =>
      rcases keeps (.start (.cons one rest)) start one with inv | hit
      · rcases ih (fun passed => keeps (passed.cons one)) inv with inv' | ⟨u, j, u', takes, hit⟩
        · exact .inl inv'
        · exact .inr ⟨u, j, u', takes.cons one, hit⟩
      · exact .inr ⟨s, i, t, ⟨[], is, rfl, .nil s, one, rest⟩, hit⟩
