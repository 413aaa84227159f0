import Flyos.Lib.Runs
import Flyos.Task.SchedStep
import Mathlib.Data.Finset.Card
import Mathlib.Order.Interval.Finset.Nat

/-!
# Runs of the scheduler

`Sys` is the scheduler with a record of the calls: in which wait a task stands that has
not returned yet (`pend`), and for each semaphore how often it was posted, how many waits
have returned, and who holds it.  A task that `schedule` switches to finishes the call it
blocked in before anything else can happen, so `Sys.resume` counts its return with the
switch.

`SysInv` ties the record to the queues: `count + pending + returned = start + posts`.
-/

namespace Flyos

/-- The scheduler and the record of its calls. -/
structure Sys where
  sched : Sched
  pend : Nat → Option WaitQueueId
  posts : Nat → Nat
  returns : Nat → Nat
  overflow : Nat → Bool
  holders : Nat → List Nat
  strays : Nat → Nat

namespace Sys

/-- Nothing has been called yet. -/
def boot (s : Sched) : Sys :=
  ⟨s, fun _ => none, fun _ => 0, fun _ => 0, fun _ => false, fun _ => [], fun _ => 0⟩

/-- A call is noted: a wait stands until it returns, a post counts and ends the holding of
its caller; a post of a task that does not hold the semaphore is a stray one. -/
def note (g : Sys) (c : SchedCall) : Sys :=
  let t := g.sched.current
  match c with
  | .semWait id => match g.sched.semIndex id with
      | none => g
      | some i =>
          let count := g.sched.semCount i - 1
          { g with
            pend := Function.update g.pend t (some (.sem i))
            overflow := Function.update g.overflow i (g.overflow i || int32 count != count) }
  | .semPost id => match g.sched.semIndex id with
      | none => g
      | some i =>
          let count := g.sched.semCount i + 1
          { g with
            posts := Function.update g.posts i (g.posts i + 1)
            overflow := Function.update g.overflow i (g.overflow i || int32 count != count)
            holders := Function.update g.holders i ((g.holders i).erase t)
            strays := Function.update g.strays i
              (if t ∈ g.holders i then g.strays i else g.strays i + 1) }
  | .wait => { g with pend := Function.update g.pend t (some .childExit) }
  | _ => g

/-- The current task returns from the wait it stood in. -/
def resume (g : Sys) : Sys :=
  let t := g.sched.current
  match g.pend t with
  | none => g
  | some .childExit => { g with pend := Function.update g.pend t none }
  | some (.sem i) =>
      { g with
        pend := Function.update g.pend t none
        returns := Function.update g.returns i (g.returns i + 1)
        holders := Function.update g.holders i (t :: g.holders i) }

@[simp] theorem resume_sched (g : Sys) : g.resume.sched = g.sched := by
  unfold resume
  dsimp only
  split <;> rfl

/-- One call. -/
def exec (g : Sys) (c : SchedCall) : Option Sys :=
  (schedExec g.sched c).map fun s => resume { g.note c with sched := s }

/-- How many tasks stand in a wait. -/
def pending (g : Sys) (q : WaitQueueId) : Nat :=
  g.sched.tasks.countP fun t => g.pend t = some q

end Sys

/-- What can happen, and what it does. -/
def SysStep (kmain : Nat) (g : Sys) (c : SchedCall) (g' : Sys) : Prop :=
  Enabled kmain g.sched c ∧ g.exec c = some g'

/-! ## Counting -/

/-- How often a function takes a value on a list, after an update at an element. -/
theorem countP_update {α β : Type*} [DecidableEq α] [DecidableEq β] {l : List α} (nodup : l.Nodup)
    {t : α} (mem : t ∈ l) (f : α → β) (v w : β) :
    (l.countP fun x => Function.update f t v x = w) + (if f t = w then 1 else 0) =
      (l.countP fun x => f x = w) + (if v = w then 1 else 0) := by
  induction l with
  | nil => simp at mem
  | cons x l ih =>
      obtain ⟨notMem, nodup⟩ := List.nodup_cons.mp nodup
      rw [List.countP_cons, List.countP_cons]
      by_cases here : x = t
      · subst here
        have rest : (l.countP fun y => Function.update f x v y = w) = l.countP fun y => f y = w := by
          refine List.countP_congr fun y mem => ?_
          have other : y ≠ x := fun same => notMem (same ▸ mem)
          rw [Function.update_of_ne other]
        rw [rest, Function.update_self]
        simp only [decide_eq_true_eq]
        omega
      · have later := ih nodup ((List.mem_cons.mp mem).resolve_left (Ne.symm here))
        rw [Function.update_of_ne here]
        omega

/-- There are fewer tasks than bytes in the heap. -/
theorem SchedCore.few {kmain : Nat} {s : Sched} {lists : Queues} (core : SchedCore kmain s lists) :
    s.tasks.length ≤ heapSize := by
  have sub : s.tasks.toFinset ⊆ Finset.Ico heapStart heapEnd := by
    intro t mem
    exact Finset.mem_Ico.mpr (core.heap t (List.mem_toFinset.mp mem))
  have card := Finset.card_le_card sub
  rw [List.toFinset_card_of_nodup core.nodup, Nat.card_Ico] at card
  exact Nat.le_trans card (by decide)

/-! ## The invariant -/

/-- What holds of one semaphore with `start` permits, as long as its count has not left the
range of `int`. -/
structure SemOk (start : Int) (g : Sys) (lists : Queues) (i : Nat) : Prop where
  balance : (g.returns i : Int) + g.pending (.sem i) + g.sched.semCount i = start + g.posts i
  length : ((lists (.sem i)).length : Int) = max 0 (-g.sched.semCount i)

/-- The invariant, before the current task has returned from its wait. -/
structure SysCore (kmain : Nat) (start : Nat → Int) (g : Sys) (lists : Queues) : Prop where
  inv : SchedInv kmain g.sched lists
  queued : ∀ q, ∀ t ∈ lists q, g.pend t = some q
  tasks : ∀ t q, g.pend t = some q → t ∈ g.sched.tasks
  sem : ∀ i, 0 ≤ start i → g.overflow i = false → SemOk (start i) g lists i
  fits : ∀ i, 0 ≤ start i → start i + g.posts i < 2 ^ 31 → g.overflow i = false
  held : ∀ i, (g.holders i).length + g.posts i = g.returns i + g.strays i

/-- The invariant between two calls. -/
structure SysInv (kmain : Nat) (start : Nat → Int) (g : Sys) (lists : Queues) : Prop
    extends SysCore kmain start g lists where
  returned : g.pend g.sched.current = none

variable {kmain : Nat} {start : Nat → Int} {g : Sys} {lists : Queues}

/-- The waiting tasks of a queue stand in the wait. -/
theorem SysCore.length_le (core : SysCore kmain start g lists) (q : WaitQueueId) :
    (lists q).length ≤ g.pending q := by
  rw [Sys.pending, List.countP_eq_length_filter]
  refine (List.subperm_of_subset (core.inv.queue q).chain.nodup fun t mem => ?_).length_le
  rw [List.mem_filter]
  exact ⟨(core.inv.queued q t mem).1, by simpa using core.queued q t mem⟩

/-- The count of a semaphore is bounded by the tasks on one side and the permits on the other. -/
theorem SysCore.count_range (core : SysCore kmain start g lists) {i : Nat}
    (ok : SemOk (start i) g lists i) :
    -(heapSize : Int) ≤ g.sched.semCount i ∧ g.sched.semCount i ≤ start i + g.posts i := by
  have few := core.inv.few
  have some := core.inv.length_le (.sem i)
  have length := ok.length
  have balance := ok.balance
  constructor <;> omega

/-- **Returning from a wait** keeps the balance: one task less stands in it. -/
theorem SysCore.resume (core : SysCore kmain start g lists) : SysInv kmain start g.resume lists := by
  unfold Sys.resume
  dsimp only
  have others : ∀ q, ∀ t ∈ lists q,
      Function.update g.pend g.sched.current none t = g.pend t := fun q t mem =>
    Function.update_of_ne (core.inv.ne_current mem) _ _
  have stands : ∀ t q, Function.update g.pend g.sched.current none t = some q →
      t ∈ g.sched.tasks := by
    intro t q waits
    by_cases here : t = g.sched.current
    · rw [here]
      exact core.inv.current
    · rw [Function.update_of_ne here] at waits
      exact core.tasks t q waits
  have counts := fun q => countP_update core.inv.nodup core.inv.current g.pend none (some q)
  cases waits : g.pend g.sched.current with
  | none => exact ⟨core, waits⟩
  | some q =>
      rw [waits] at counts
      cases q with
      | childExit =>
          refine ⟨⟨core.inv, fun q t mem => (others q t mem).trans (core.queued q t mem), stands,
            fun i natural steady => ⟨?_, (core.sem i natural steady).length⟩, core.fits, core.held⟩,
            Function.update_self _ _ _⟩
          have balance := (core.sem i natural steady).balance
          have count := counts (.sem i)
          simp only [Option.some.injEq, reduceCtorEq, if_false] at count
          simp only [Sys.pending] at balance ⊢
          omega
      | sem j =>
          refine ⟨⟨core.inv, fun q t mem => (others q t mem).trans (core.queued q t mem), stands,
            fun i natural steady => ⟨?_, (core.sem i natural steady).length⟩, core.fits, fun i => ?_⟩,
            Function.update_self _ _ _⟩
          · have balance := (core.sem i natural steady).balance
            have count := counts (.sem i)
            simp only [Sys.pending] at balance ⊢
            by_cases same : i = j
            · subst same
              simp only [if_true, reduceCtorEq, if_false] at count
              rw [Function.update_self]
              push_cast
              omega
            · have other : ¬ (some (WaitQueueId.sem j) = some (.sem i)) := by simpa using Ne.symm same
              simp only [other, if_false, reduceCtorEq] at count
              rw [Function.update_of_ne same]
              omega
          · have held := core.held i
            by_cases same : i = j
            · subst same
              simp only [Function.update_self, List.length_cons]
              omega
            · simp only [Function.update_of_ne same]
              exact held

/-- New tasks stand in no wait. -/
theorem SchedOutcome.countP {kmain : Nat} {s s' : Sched} {lists : Queues} {c : SchedCall}
    (o : SchedOutcome kmain s lists c s') {pend : Nat → Option WaitQueueId}
    (tasks : ∀ t q, pend t = some q → t ∈ s.tasks) (q : WaitQueueId) :
    (s'.tasks.countP fun t => pend t = some q) = s.tasks.countP fun t => pend t = some q := by
  rcases o.tasks with same | ⟨t, new, more⟩
  · rw [same]
  · have none : ¬ pend t = some q := fun waits => new (tasks t q waits)
    rw [more, List.countP_cons_of_neg (by simpa using none)]

/-- A call that is not noted and leaves the semaphores alone. -/
theorem SysInv.quiet {c : SchedCall} {s' : Sched} (inv : SysInv kmain start g lists)
    (o : SchedOutcome kmain g.sched lists c s') (unnoted : g.note c = g)
    (count : countAfter g.sched c = g.sched.semCount)
    (sems : ∀ i, queuesAfter g.sched lists c (.sem i) = lists (.sem i))
    (sub : ∀ q, ∀ t ∈ queuesAfter g.sched lists c q, t ∈ lists q) :
    SysCore kmain start { g.note c with sched := s' } (queuesAfter g.sched lists c) := by
  rw [unnoted]
  refine ⟨o.inv, fun q t mem => inv.queued q t (sub q t mem),
    fun t q waits => o.mem (inv.tasks t q waits), fun i natural steady => ?_, inv.fits, inv.held⟩
  have ok := inv.sem i natural steady
  refine ⟨?_, ?_⟩
  · rw [Sys.pending, o.countP inv.tasks, o.semCount, count]
    exact ok.balance
  · rw [sems, o.semCount, count]
    exact ok.length

section Wait

variable (inv : SysInv kmain start g lists) (q : WaitQueueId)

include inv

/-- The current task is a task, so it may stand in a wait. -/
theorem SysInv.stands (t : Nat) (q' : WaitQueueId)
    (waits : Function.update g.pend g.sched.current (some q) t = some q') : t ∈ g.sched.tasks := by
  by_cases here : t = g.sched.current
  · rw [here]
    exact inv.inv.current
  · rw [Function.update_of_ne here] at waits
    exact inv.tasks t q' waits

/-- A wait of the current task is one more task standing in it. -/
theorem SysInv.counts (q' : WaitQueueId) :
    (g.sched.tasks.countP fun t => Function.update g.pend g.sched.current (some q) t = some q') =
      g.pending q' + if q = q' then 1 else 0 := by
  have count := countP_update inv.inv.nodup inv.inv.current g.pend (some q) (some q')
  simp only [inv.returned, reduceCtorEq, if_false, add_zero, Option.some.injEq] at count
  exact count

/-- The current task joins the queue of its wait. -/
theorem SysInv.joins (q' : WaitQueueId) (t : Nat)
    (mem : t ∈ Function.update lists q (lists q ++ [g.sched.current]) q') :
    Function.update g.pend g.sched.current (some q) t = some q' := by
  by_cases same : q' = q
  · subst same
    rw [Function.update_self, List.mem_append, List.mem_singleton] at mem
    rcases mem with old | rfl
    · rw [Function.update_of_ne (inv.inv.ne_current old)]
      exact inv.queued q' t old
    · rw [Function.update_self]
  · rw [Function.update_of_ne same] at mem
    rw [Function.update_of_ne (inv.inv.ne_current mem)]
    exact inv.queued q' t mem

end Wait

/-- `SYS_WAIT`. -/
theorem SysInv.noteWait {s' : Sched} (inv : SysInv kmain start g lists)
    (o : SchedOutcome kmain g.sched lists .wait s') :
    SysCore kmain start { g.note .wait with sched := s' } (queuesAfter g.sched lists .wait) := by
  refine ⟨o.inv, inv.joins .childExit, fun t q waits => o.mem (inv.stands .childExit t q waits),
    fun i natural steady => ⟨?_, ?_⟩, inv.fits, inv.held⟩
  · have balance := (inv.sem i natural steady).balance
    have count := inv.counts .childExit (.sem i)
    simp only [reduceCtorEq, if_false, add_zero] at count
    dsimp only [Sys.note, Sys.pending]
    rw [o.countP (inv.stands .childExit), count, o.semCount]
    exact balance
  · rw [o.semCount]
    exact (inv.sem i natural steady).length

/-- `SYS_SEM_WAIT`: the count goes down, one task more stands in the wait, and it joins the
queue when the count is negative. -/
theorem SysInv.noteSemWait {id : Int} {j : Nat} {s' : Sched} (inv : SysInv kmain start g lists)
    (index : g.sched.semIndex id = some j)
    (o : SchedOutcome kmain g.sched lists (.semWait id) s') :
    SysCore kmain start { g.note (.semWait id) with sched := s' }
      (queuesAfter g.sched lists (.semWait id)) := by
  have inv' := o.inv
  have semCount := o.semCount
  simp only [queuesAfter, countAfter, Sys.note, index] at inv' semCount ⊢
  refine ⟨inv', fun q t mem => ?_, fun t q waits => o.mem (inv.stands (.sem j) t q waits),
    fun i natural steady => ?_, fun i natural few => ?_, inv.held⟩
  · dsimp only
    split at mem
    case isTrue => exact inv.joins (.sem j) q t mem
    case isFalse =>
      rw [Function.update_of_ne (inv.inv.ne_current mem)]
      exact inv.queued q t mem
  · dsimp only at steady
    have count := inv.counts (.sem j) (.sem i)
    by_cases same : i = j
    · subst same
      simp only [Function.update_self, Bool.or_eq_false_iff, bne_eq_false_iff_eq] at steady
      obtain ⟨before, exact_⟩ := steady
      have ok := inv.sem i natural before
      have balance := ok.balance
      have length := ok.length
      refine ⟨?_, ?_⟩
      · dsimp only [Sys.pending]
        rw [o.countP (inv.stands (.sem i)), count, semCount, Function.update_self, exact_]
        simp only [if_true]
        push_cast
        omega
      · dsimp only
        rw [semCount, Function.update_self, exact_]
        by_cases waits : g.sched.semCount i - 1 < 0
        · rw [if_pos waits, Function.update_self, List.length_append, List.length_singleton]
          push_cast
          omega
        · rw [if_neg waits]
          omega
    · rw [Function.update_of_ne same] at steady
      have ok := inv.sem i natural steady
      have other : ¬ WaitQueueId.sem j = .sem i := by simpa using Ne.symm same
      rw [if_neg other, add_zero] at count
      refine ⟨?_, ?_⟩
      · dsimp only [Sys.pending]
        rw [o.countP (inv.stands (.sem j)), count, semCount, Function.update_of_ne same]
        exact ok.balance
      · dsimp only
        rw [semCount, Function.update_of_ne same]
        split
        case isTrue =>
          rw [Function.update_of_ne (Ne.symm other)]
          exact ok.length
        case isFalse => exact ok.length
  · dsimp only at few ⊢
    by_cases same : i = j
    · subst same
      have before := inv.fits i natural few
      have range := inv.count_range (inv.sem i natural before)
      have kept : int32 (g.sched.semCount i - 1) = g.sched.semCount i - 1 :=
        int32_of_range (by simp only [heapSize, heapPages, pageSize] at range; omega) (by omega)
      simp [before, kept]
    · rw [Function.update_of_ne same]
      exact inv.fits i natural few

/-- `SYS_SEM_POST`: the count goes up, and the first of the queue is taken when it was
negative. -/
theorem SysInv.noteSemPost {id : Int} {j : Nat} {s' : Sched} (inv : SysInv kmain start g lists)
    (index : g.sched.semIndex id = some j)
    (o : SchedOutcome kmain g.sched lists (.semPost id) s') :
    SysCore kmain start { g.note (.semPost id) with sched := s' }
      (queuesAfter g.sched lists (.semPost id)) := by
  have inv' := o.inv
  have semCount := o.semCount
  simp only [queuesAfter, countAfter, Sys.note, index] at inv' semCount ⊢
  refine ⟨inv', fun q t mem => ?_, fun t q waits => o.mem (inv.tasks t q waits),
    fun i natural steady => ?_, fun i natural few => ?_, fun i => ?_⟩
  · refine inv.queued q t ?_
    split at mem
    case isTrue =>
      by_cases same : q = .sem j
      · subst same
        rw [Function.update_self] at mem
        exact List.mem_of_mem_tail mem
      · rwa [Function.update_of_ne same] at mem
    case isFalse => exact mem
  · dsimp only at steady
    by_cases same : i = j
    · subst same
      simp only [Function.update_self, Bool.or_eq_false_iff, bne_eq_false_iff_eq] at steady
      obtain ⟨before, exact_⟩ := steady
      have ok := inv.sem i natural before
      have balance := ok.balance
      have length := ok.length
      refine ⟨?_, ?_⟩
      · dsimp only [Sys.pending] at balance ⊢
        rw [o.countP inv.tasks, semCount, Function.update_self, Function.update_self, exact_]
        push_cast
        omega
      · dsimp only
        rw [semCount, Function.update_self, exact_]
        by_cases wakes : g.sched.semCount i + 1 ≤ 0
        · rw [if_pos wakes, Function.update_self, List.length_tail]
          omega
        · rw [if_neg wakes]
          omega
    · rw [Function.update_of_ne same] at steady
      have ok := inv.sem i natural steady
      have other : WaitQueueId.sem i ≠ .sem j := by simpa using same
      refine ⟨?_, ?_⟩
      · dsimp only [Sys.pending]
        rw [o.countP inv.tasks, semCount, Function.update_of_ne same, Function.update_of_ne same]
        exact ok.balance
      · dsimp only
        rw [semCount, Function.update_of_ne same]
        split
        case isTrue =>
          rw [Function.update_of_ne other]
          exact ok.length
        case isFalse => exact ok.length
  · dsimp only at few ⊢
    by_cases same : i = j
    · subst same
      rw [Function.update_self] at few
      push_cast at few
      have before := inv.fits i natural (by omega)
      have range := inv.count_range (inv.sem i natural before)
      have kept : int32 (g.sched.semCount i + 1) = g.sched.semCount i + 1 :=
        int32_of_range (by simp only [heapSize, heapPages, pageSize] at range; omega) (by omega)
      simp [before, kept]
    · rw [Function.update_of_ne same] at few ⊢
      exact inv.fits i natural few
  · have held := inv.held i
    by_cases same : i = j
    · subst same
      simp only [Function.update_self]
      by_cases holds : g.sched.current ∈ g.holders i
      · rw [if_pos holds, List.length_erase_of_mem holds]
        have some := List.length_pos_of_mem holds
        omega
      · rw [if_neg holds, List.erase_of_not_mem holds]
        omega
    · simp only [Function.update_of_ne same]
      exact held

/-- **A call keeps the invariant**, up to the return of the task it switches to. -/
theorem SysInv.note {c : SchedCall} {s' : Sched} (inv : SysInv kmain start g lists)
    (o : SchedOutcome kmain g.sched lists c s') :
    SysCore kmain start { g.note c with sched := s' } (queuesAfter g.sched lists c) := by
  cases c with
  | semWait id =>
      cases index : g.sched.semIndex id with
      | none =>
          refine inv.quiet o ?_ ?_ (fun i => ?_) fun q t mem => ?_
          · simp only [Sys.note, index]
          · simp only [countAfter, index]
          · simp only [queuesAfter, index]
          · simpa only [queuesAfter, index] using mem
      | some j => exact inv.noteSemWait index o
  | semPost id =>
      cases index : g.sched.semIndex id with
      | none =>
          refine inv.quiet o ?_ ?_ (fun i => ?_) fun q t mem => ?_
          · simp only [Sys.note, index]
          · simp only [countAfter, index]
          · simp only [queuesAfter, index]
          · simpa only [queuesAfter, index] using mem
      | some j => exact inv.noteSemPost index o
  | wait => exact inv.noteWait o
  | signalChildExit =>
      refine inv.quiet o rfl rfl (fun i => ?_) fun q t mem => ?_
      · rw [queuesAfter, Function.update_of_ne (by simp)]
      · by_cases same : q = .childExit
        · subst same
          rw [queuesAfter, Function.update_self] at mem
          cases mem
        · rwa [queuesAfter, Function.update_of_ne same] at mem
  | exit =>
      refine inv.quiet o rfl rfl (fun i => ?_) fun q t mem => ?_
      · rw [queuesAfter, Function.update_of_ne (by simp)]
      · by_cases same : q = .childExit
        · subst same
          rw [queuesAfter, Function.update_self] at mem
          cases mem
        · rwa [queuesAfter, Function.update_of_ne same] at mem
  | tick => exact inv.quiet o rfl rfl (fun _ => rfl) fun _ _ mem => mem
  | sleep ms => exact inv.quiet o rfl rfl (fun _ => rfl) fun _ _ mem => mem
  | read => exact inv.quiet o rfl rfl (fun _ => rfl) fun _ _ mem => mem
  | setForeground => exact inv.quiet o rfl rfl (fun _ => rfl) fun _ _ mem => mem
  | kill id => exact inv.quiet o rfl rfl (fun _ => rfl) fun _ _ mem => mem
  | fork t cloned => exact inv.quiet o rfl rfl (fun _ => rfl) fun _ _ mem => mem
  | spawn t loaded => exact inv.quiet o rfl rfl (fun _ => rfl) fun _ _ mem => mem

/-! ## Runs -/

/-- **Every call that can happen returns, and keeps the invariant.** -/
theorem SysInv.exec {c : SchedCall} (inv : SysInv kmain start g lists)
    (enabled : Enabled kmain g.sched c) :
    ∃ s', schedExec g.sched c = some s' ∧ SchedOutcome kmain g.sched lists c s' ∧
      g.exec c = some (Sys.resume { g.note c with sched := s' }) ∧
      SysInv kmain start (Sys.resume { g.note c with sched := s' })
        (queuesAfter g.sched lists c) := by
  obtain ⟨s', ran, o⟩ := schedExec_spec inv.inv enabled
  exact ⟨s', ran, o, by rw [Sys.exec, ran, Option.map_some], (inv.note o).resume⟩

/-- A step keeps the invariant. -/
theorem SysStep.inv {c : SchedCall} {g' : Sys} (step : SysStep kmain g c g')
    (inv : SysInv kmain start g lists) :
    SysInv kmain start g' (queuesAfter g.sched lists c) := by
  obtain ⟨s', -, -, ran, inv'⟩ := inv.exec step.1
  obtain rfl := Option.some.inj (step.2.symm.trans ran)
  exact inv'

/-- The invariant at the start. -/
theorem sysBoot_inv (m : TaskMemory) {kmain user : Nat} (records : BootRecords kmain user)
    (sems : List (Int × Int)) :
    SysInv kmain (schedBoot m kmain user sems).semCount
      (.boot (schedBoot m kmain user sems)) fun _ => [] := by
  have none : ∀ q, (Sys.boot (schedBoot m kmain user sems)).pending q = 0 := by
    intro q
    rw [Sys.pending, List.countP_eq_zero]
    simp [Sys.boot]
  refine ⟨⟨schedBoot_inv m records sems, by simp, by simp [Sys.boot], fun i natural _ => ⟨?_, ?_⟩,
    fun _ _ _ => rfl, fun _ => rfl⟩, rfl⟩
  · rw [none]
    simp [Sys.boot]
  · rw [List.length_nil]
    change (0 : Int) = max 0 (-(schedBoot m kmain user sems).semCount i)
    omega

/-- **The invariant holds in every run.** -/
theorem sysRun_inv {m : TaskMemory} {kmain user : Nat} (records : BootRecords kmain user)
    {sems : List (Int × Int)} {cs : List SchedCall}
    (run : Run (SysStep kmain) (.boot (schedBoot m kmain user sems)) cs g) :
    ∃ lists, SysInv kmain (schedBoot m kmain user sems).semCount g lists :=
  run.invariant (fun g => ∃ lists, SysInv kmain (schedBoot m kmain user sems).semCount g lists)
    (fun ⟨_, inv⟩ step => ⟨_, step.inv inv⟩) ⟨_, sysBoot_inv m records sems⟩

/-- The calls of a list, one after the other, as long as they can happen and pass a test. -/
def Sys.callsWhile (kmain : Nat) (test : Sys → SchedCall → Bool) : Sys → List SchedCall → Option Sys
  | g, [] => some g
  | g, c :: cs =>
      if Enabled kmain g.sched c ∧ test g c = true then
        (g.exec c).bind fun g' => g'.callsWhile kmain test cs
      else none

/-- Calls that could happen and passed a test for a condition are a guarded run. -/
theorem Sys.callsWhile_run {test : Sys → SchedCall → Bool} {cond : Sys → SchedCall → Prop}
    (sound : ∀ g c, test g c = true → cond g c) {cs : List SchedCall} {g' : Sys}
    (done : g.callsWhile kmain test cs = some g') : Run (Guarded cond (SysStep kmain)) g cs g' := by
  induction cs generalizing g with
  | nil => exact Option.some.inj done ▸ .nil g
  | cons c cs ih =>
      rw [Sys.callsWhile] at done
      split at done
      case isTrue allowed =>
        obtain ⟨g₁, ran, rest⟩ := Option.bind_eq_some_iff.mp done
        exact .cons ⟨sound g c allowed.2, allowed.1, ran⟩ (ih rest)
      case isFalse => cases done

/-- A run of given calls to a state with a property that can be computed. -/
theorem Sys.callsWhile_any {test : Sys → SchedCall → Bool} {cond : Sys → SchedCall → Prop}
    (sound : ∀ g c, test g c = true → cond g c) {cs : List SchedCall} {p : Sys → Bool}
    (done : (g.callsWhile kmain test cs).any p = true) :
    ∃ g', Run (Guarded cond (SysStep kmain)) g cs g' ∧ p g' = true := by
  obtain ⟨g', ran, holds⟩ := (Option.any_eq_true _ _).mp done
  exact ⟨g', callsWhile_run sound ran, holds⟩

/-- A run of given calls without a test. -/
theorem Sys.calls_any {cs : List SchedCall} {p : Sys → Bool}
    (done : (g.callsWhile kmain (fun _ _ => true) cs).any p = true) :
    ∃ g', Run (SysStep kmain) g cs g' ∧ p g' = true := by
  obtain ⟨g', run, holds⟩ := callsWhile_any (fun _ _ _ => trivial : ∀ _ _, true = true → (fun (_ : Sys) (_ : SchedCall) => True) _ _) done
  exact ⟨g', run.mono And.right, holds⟩

end Flyos
