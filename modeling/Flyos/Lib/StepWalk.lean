import Flyos.Lib.Counting
import Mathlib.Logic.Relation

/-!
# Walks whose steps come from what they read

A loop over records of different lengths stands at a position and goes on from the one that the
record there names.  `stepWalk` is that loop up to a limit: a turn may fail, end the walk, or
name the next position, which can be any, also the one where the walk stands.

`stepWalk_completes_iff` says when such a walk comes to its end: when every position it comes to
is a good one (a turn there succeeds) and names another.
-/

/-- The computation gives a result. -/
def Completes {ε α : Type*} (r : Except ε α) : Prop := ∃ a, r = .ok a

theorem completes_ok {ε α : Type*} (a : α) : Completes (Except.ok a : Except ε α) := ⟨a, rfl⟩

theorem not_completes_error {ε α : Type*} (e : ε) : ¬ Completes (Except.error e : Except ε α) :=
  fun ⟨_, eq⟩ => by cases eq

/-- One computation after another. -/
theorem bind_eq_ok_iff {ε α β : Type} {r : Except ε α} {f : α → Except ε β} {b : β} :
    r >>= f = .ok b ↔ ∃ a, r = .ok a ∧ f a = .ok b := by
  cases r with
  | error e =>
      constructor
      · intro eq
        cases eq
      · rintro ⟨_, eq, _⟩
        cases eq
  | ok a =>
      constructor
      · intro eq
        exact ⟨a, rfl, eq⟩
      · rintro ⟨c, eq, run⟩
        cases eq
        exact run

/-- It gives a result when both do. -/
theorem bind_completes_iff {ε α β : Type} {r : Except ε α} {f : α → Except ε β} :
    Completes (r >>= f) ↔ ∃ a, r = .ok a ∧ Completes (f a) := by
  constructor
  · rintro ⟨b, eq⟩
    obtain ⟨a, first, second⟩ := bind_eq_ok_iff.mp eq
    exact ⟨a, first, b, second⟩
  · rintro ⟨a, first, b, second⟩
    exact ⟨b, bind_eq_ok_iff.mpr ⟨a, first, second⟩⟩

section Walk

variable {σ ε : Type} (turn : Nat → σ → Except ε (σ × Option Nat)) (endless : ε) (limit : Nat)

/-- The walk from `p`, of fewer than `fuel` turns. -/
def stepWalk : Nat → Nat → σ → Except ε σ
  | 0, _, _ => .error endless
  | fuel + 1, p, s =>
      if p < limit then
        turn p s >>= fun r => match r.2 with
          | none => .ok r.1
          | some q => stepWalk fuel q r.1
      else .ok s

/-- The walk goes on from `p` to `q`. -/
def Onward (next : Nat → Option Nat) (limit p q : Nat) : Prop := p < limit ∧ next p = some q

/-- **What a turn does** at a position from `base` to the limit: whether it succeeds and where it
goes on is settled by the position alone, and it never goes back. -/
structure TurnSpec (base : Nat) (next : Nat → Option Nat) (Good : Nat → Prop)
    (Inv : σ → Prop) : Prop where
  completes : ∀ {p s}, base ≤ p → p < limit → Inv s → (Completes (turn p s) ↔ Good p)
  keeps : ∀ {p s t q}, Inv s → turn p s = .ok (t, q) → q = next p ∧ Inv t
  onward : ∀ {p q}, next p = some q → p ≤ q

variable {turn endless limit} {base : Nat} {next : Nat → Option Nat} {Good : Nat → Prop}
  {Inv : σ → Prop}

/-- A walk that starts behind the limit is at its end. -/
theorem stepWalk_behind {fuel p : Nat} {s : σ} (behind : ¬ p < limit) :
    stepWalk turn endless limit (fuel + 1) p s = .ok s := by
  rw [stepWalk, if_neg behind]

/-- One turn of the walk. -/
theorem stepWalk_turn {fuel p : Nat} {s : σ} {r : σ × Option Nat} (inside : p < limit)
    (one : turn p s = .ok r) :
    stepWalk turn endless limit (fuel + 1) p s = match r.2 with
      | none => .ok r.1
      | some q => stepWalk turn endless limit fuel q r.1 := by
  rw [stepWalk, if_pos inside, bind_of_ok one]

/-- From a position that names itself the walk does not come away. -/
theorem stepWalk_stuck (spec : TurnSpec turn limit base next Good Inv) {p : Nat}
    (inside : p < limit) (stuck : next p = some p) (fuel : Nat) {s : σ} (inv : Inv s) :
    ¬ Completes (stepWalk turn endless limit fuel p s) := by
  induction fuel generalizing s with
  | zero => exact not_completes_error endless
  | succ fuel ih =>
      intro completes
      rw [stepWalk, if_pos inside, bind_completes_iff] at completes
      obtain ⟨⟨t, q⟩, one, rest⟩ := completes
      obtain ⟨rfl, inv'⟩ := spec.keeps inv one
      rw [stuck] at rest
      exact ih inv' rest

/-- A walk that gives a result came to good positions only. -/
theorem stepWalk_good (spec : TurnSpec turn limit base next Good Inv) (fuel : Nat) {p : Nat}
    {s : σ} (low : base ≤ p) (inv : Inv s)
    (completes : Completes (stepWalk turn endless limit fuel p s)) {q : Nat}
    (reached : Relation.ReflTransGen (Onward next limit) p q) (inside : q < limit) :
    Good q ∧ next q ≠ some q := by
  induction fuel generalizing p s with
  | zero => exact absurd completes (not_completes_error endless)
  | succ fuel ih =>
      have whole := completes
      rcases reached.cases_head with rfl | ⟨p', ⟨before, onward⟩, rest⟩
      · rw [stepWalk, if_pos inside, bind_completes_iff] at completes
        obtain ⟨r, one, -⟩ := completes
        exact ⟨(spec.completes low inside inv).mp ⟨r, one⟩,
          fun stuck => stepWalk_stuck spec inside stuck _ inv whole⟩
      · rw [stepWalk, if_pos before, bind_completes_iff] at completes
        obtain ⟨⟨t, next'⟩, one, after⟩ := completes
        obtain ⟨rfl, inv'⟩ := spec.keeps inv one
        rw [onward] at after
        exact ih (Nat.le_trans low (spec.onward onward)) inv' after rest

/-- A walk that comes to good positions only gives a result, with as many turns as there are
positions. -/
theorem stepWalk_ok (spec : TurnSpec turn limit base next Good Inv) {fuel p : Nat} {s : σ}
    (low : base ≤ p) (inv : Inv s) (enough : limit - p < fuel)
    (good : ∀ q, Relation.ReflTransGen (Onward next limit) p q → q < limit →
      Good q ∧ next q ≠ some q) :
    ∃ t, stepWalk turn endless limit fuel p s = .ok t ∧ Inv t := by
  induction fuel generalizing p s with
  | zero => omega
  | succ fuel ih =>
      by_cases inside : p < limit
      swap
      · exact ⟨s, stepWalk_behind inside, inv⟩
      obtain ⟨here, moves⟩ := good p .refl inside
      obtain ⟨⟨t, q⟩, one⟩ := (spec.completes low inside inv).mpr here
      obtain ⟨rfl, inv'⟩ := spec.keeps inv one
      rw [stepWalk_turn inside one]
      rcases onward : next p with _ | q
      · exact ⟨t, rfl, inv'⟩
      · have forward := spec.onward onward
        have other : q ≠ p := fun eq => moves (eq ▸ onward)
        exact ih (Nat.le_trans low forward) inv' (by omega)
          fun q' reached => good q' (reached.head ⟨inside, onward⟩)

/-- **When the walk gives a result.** -/
theorem stepWalk_completes_iff (spec : TurnSpec turn limit base next Good Inv) {p : Nat} {s : σ}
    (low : base ≤ p) (inv : Inv s) :
    (∃ fuel, Completes (stepWalk turn endless limit fuel p s)) ↔
      ∀ q, Relation.ReflTransGen (Onward next limit) p q → q < limit →
        Good q ∧ next q ≠ some q := by
  constructor
  · rintro ⟨fuel, completes⟩ q reached inside
    exact stepWalk_good spec fuel low inv completes reached inside
  · intro good
    obtain ⟨t, run, -⟩ : ∃ t, stepWalk turn endless limit (limit - p + 1) p s = .ok t ∧ Inv t :=
      stepWalk_ok spec low inv (Nat.lt_succ_self _) good
    exact ⟨_, t, run⟩

end Walk
