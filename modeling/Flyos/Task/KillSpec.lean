import Flyos.Task.DeathSpec

/-!
# Killing and exiting

`task_kill_by_id` only marks the record of a task.  `SYS_EXIT` also hands the foreground
to the parent, counts the child off and releases the tasks that wait for an exit
(`exitShared`).  The two leave the same state exactly when nobody waits for an exit and the
foreground is the parent's already (`kill_like_exit`).

That `SYS_KILL` ends the task it names, and no other, is a fact about runs: `task_create`
and `task_fork` give out each id once (`IdsInv`).
-/

namespace Flyos

/-! ## What exit does to the variables that tasks share -/

/-- What no call but the creation of a task changes. -/
structure SameIds (s s' : Sched) : Prop where
  tasks : s'.tasks = s.tasks
  nextId : s'.nextId = s.nextId
  ids : ∀ t, (s'.task t).id = (s.task t).id
  children : s.childAlive = 0 → s'.childAlive = 0

namespace SameIds

variable {s s' s'' : Sched}

theorem refl (s : Sched) : SameIds s s := ⟨rfl, rfl, fun _ => rfl, id⟩

theorem trans (h : SameIds s s') (h' : SameIds s' s'') : SameIds s s'' :=
  ⟨h'.tasks.trans h.tasks, h'.nextId.trans h.nextId, fun t => (h'.ids t).trans (h.ids t),
    fun none => h'.children (h.children none)⟩

/-- Only other variables differ. -/
theorem of_eq (tasks : s'.tasks = s.tasks) (nextId : s'.nextId = s.nextId)
    (task : s'.task = s.task) (children : s'.childAlive = s.childAlive) : SameIds s s' :=
  ⟨tasks, nextId, fun t => by rw [task], fun none => children.trans none⟩

/-- A new state for one task. -/
theorem setState {t : Nat} {v : TaskState} (tasks : s'.tasks = s.tasks)
    (nextId : s'.nextId = s.nextId) (task : s'.task = s.task.setState t v)
    (children : s'.childAlive = s.childAlive) : SameIds s s' :=
  ⟨tasks, nextId, fun x => by rw [task, TaskMemory.setState_apply],
    fun none => children.trans none⟩

/-- `schedule`. -/
theorem schedule (ran : schedule s = some s') : SameIds s s' := by
  unfold Flyos.schedule at ran
  split at ran
  case isTrue => exact Option.some.inj ran ▸ refl s
  case isFalse =>
    obtain ⟨n, -, rfl⟩ := Option.map_eq_some_iff.mp ran
    split
    case isTrue => exact refl s
    case isFalse => exact ⟨rfl, rfl, fun t => by rw [Sched.switchTo_task], id⟩

/-- `scheduler_tick`. -/
theorem schedulerTick (ran : schedulerTick s = some s') : SameIds s s' := by
  have one : ∀ (s : Sched) i, SameIds s (tickSleeper s i) := by
    intro s i
    unfold tickSleeper
    dsimp only
    split
    case isFalse => exact refl s
    case isTrue =>
      by_cases blocked : (s.task (s.sleepers i).task).state = .blocked
      · rw [if_pos blocked]
        exact setState rfl rfl rfl rfl
      · rw [if_neg blocked]
        exact of_eq rfl rfl rfl rfl
  have all : ∀ (slots : List Nat) (s : Sched), SameIds s (slots.foldl tickSleeper s) := by
    intro slots
    induction slots with
    | nil => exact refl
    | cons i slots ih => exact fun s => (one s i).trans (ih _)
  have clock : SameIds s { s with globalTick := (s.globalTick + 1) % 2 ^ 64 } :=
    of_eq rfl rfl rfl rfl
  have woken := clock.trans (all (List.range maxSleepers) _)
  unfold Flyos.schedulerTick at ran
  dsimp only at ran
  split at ran
  case isTrue =>
    refine woken.trans (trans ?_ (schedule ran))
    exact of_eq rfl rfl rfl rfl
  case isFalse =>
    obtain rfl := Option.some.inj ran
    refine woken.trans ?_
    exact of_eq rfl rfl rfl rfl

/-- `wait_queue_wake_one`. -/
theorem wakeOne (s : Sched) (q : WaitQueueId) : SameIds s (waitQueueWakeOne s q) := by
  by_cases empty : (s.wq q).head = 0
  · rw [waitQueueWakeOne, if_pos empty]
    exact refl s
  · refine ⟨(waitQueueWakeOne_fields s q).1, ?_, fun t => by rw [waitQueueWakeOne_task empty], ?_⟩
    · rw [waitQueueWakeOne, if_neg empty]
    · rw [waitQueueWakeOne, if_neg empty]
      exact id

/-- `wait_queue_wake_all`. -/
theorem wakeAll {q : WaitQueueId} {fuel : Nat} (ran : waitQueueWakeAll q fuel s = some s') :
    SameIds s s' := by
  induction fuel generalizing s with
  | zero => cases ran
  | succ fuel ih =>
      rw [waitQueueWakeAll] at ran
      split at ran
      case isTrue => exact (wakeOne s q).trans (ih ran)
      case isFalse => exact Option.some.inj ran ▸ refl s

/-- `task_block`. -/
theorem taskBlock {q : WaitQueueId} (ran : taskBlock s q = some s') : SameIds s s' := by
  unfold Flyos.taskBlock at ran
  split at ran
  case isTrue => exact Option.some.inj ran ▸ refl s
  case isFalse =>
    have queued : SameIds s (s.enqueue q) :=
      ⟨rfl, rfl, fun t => by rw [Sched.enqueue_task, TaskMemory.setState_apply], id⟩
    exact queued.trans (schedule ran)

/-- `task_sleep`. -/
theorem taskSleep {ms : Nat} (ran : taskSleep s ms = some s') : SameIds s s' := by
  unfold Flyos.taskSleep at ran
  dsimp only at ran
  split at ran
  case h_1 => exact Option.some.inj ran ▸ refl s
  case h_2 =>
    refine trans ?_ (schedule ran)
    exact setState rfl rfl rfl rfl

/-- `task_child_dec`. -/
theorem childDec (s : Sched) : SameIds s (taskChildDec s) :=
  ⟨rfl, rfl, fun _ => rfl, fun none => by simp [taskChildDec, none]⟩

/-- `SYS_EXIT`. -/
theorem sysExit (ran : sysExit s = some s') : SameIds s s' := by
  unfold Flyos.sysExit at ran
  dsimp only at ran
  obtain ⟨s₁, signalled, rest⟩ := Option.bind_eq_some_iff.mp ran
  have before : SameIds s s₁ := by
    refine trans ?_ ((childDec _).trans (wakeAll signalled))
    split
    case isTrue => exact of_eq rfl rfl rfl rfl
    case isFalse => exact refl s
  split at rest
  case isTrue =>
    obtain rfl := Option.some.inj rest
    exact before.trans (of_eq rfl rfl rfl rfl)
  case isFalse =>
    refine before.trans (trans ?_ (schedule rest))
    split
    case isTrue => exact setState rfl rfl rfl rfl
    case isFalse => exact refl s₁

end SameIds

/-- The calls that create a task. -/
def SchedCall.creates : SchedCall → Bool
  | .fork _ _ | .spawn _ _ => true
  | _ => false

/-- **A call keeps the ids**, or adds a record behind them. -/
theorem schedExec_ids {kmain : Nat} {s s' : Sched} {c : SchedCall} (enabled : Enabled kmain s c)
    (ran : schedExec s c = some s') :
    SameIds s s' ∨
      c.creates = true ∧ ∃ m t parent, SameIds s m ∧ m.Fresh t ∧ s' = m.link t parent := by
  cases c with
  | tick =>
      rw [schedExec] at ran
      exact .inl (.schedulerTick ran)
  | semWait id =>
      left
      simp only [schedExec, semWait] at ran
      split at ran
      case h_1 => exact Option.some.inj ran ▸ .refl s
      case h_2 =>
        split at ran
        case isTrue =>
          refine .trans ?_ (.taskBlock ran)
          exact .of_eq rfl rfl rfl rfl
        case isFalse =>
          obtain rfl := Option.some.inj ran
          exact .of_eq rfl rfl rfl rfl
  | semPost id =>
      left
      simp only [schedExec, Option.some.injEq, semPost] at ran
      subst ran
      split
      case h_1 => exact .refl s
      case h_2 =>
        split
        case isTrue =>
          refine .trans ?_ (.wakeOne _ _)
          exact .of_eq rfl rfl rfl rfl
        case isFalse => exact .of_eq rfl rfl rfl rfl
  | sleep ms => exact .inl (.taskSleep ran)
  | read =>
      left
      rw [schedExec] at ran
      split at ran
      case isTrue => exact .taskSleep ran
      case isFalse => exact Option.some.inj ran ▸ .refl s
  | setForeground =>
      obtain rfl := Option.some.inj ran
      exact .inl (.of_eq rfl rfl rfl rfl)
  | wait => exact .inl (.taskBlock ran)
  | signalChildExit => exact .inl (.wakeAll ran)
  | kill id =>
      left
      rw [schedExec, taskKillById] at ran
      split at ran
      case isTrue => exact Option.some.inj ran ▸ .refl s
      case isFalse =>
        obtain ⟨t, -, rfl⟩ := Option.map_eq_some_iff.mp ran
        split
        case isTrue => exact .refl s
        case isFalse => exact .setState rfl rfl rfl rfl
  | fork t cloned =>
      simp only [schedExec, Option.some.injEq, taskFork] at ran
      subst ran
      split
      case isTrue => exact .inl (.refl s)
      case isFalse some =>
        split
        case isTrue => exact .inl (.refl s)
        case isFalse => exact .inr ⟨rfl, s, t, _, .refl s, enabled.2.2.resolve_left some, rfl⟩
  | spawn t loaded =>
      simp only [schedExec, Option.some.injEq, kernelSpawnChild] at ran
      subst ran
      split
      case isTrue => exact .inl (.refl s)
      case isFalse first =>
        split
        case isTrue => exact .inl (.of_eq rfl rfl rfl rfl)
        case isFalse done =>
          have fresh := enabled.2.2 (by simpa using first) (by simpa using done)
          exact .inr ⟨rfl, { s with spawnUsed := true }, t, 0, .of_eq rfl rfl rfl rfl, fresh, rfl⟩
  | exit => exact .inl (.sysExit ran)

/-- Every task has an id of its own, and no child has been counted. -/
structure IdsInv (s : Sched) : Prop where
  next : s.nextId = s.tasks.length
  small : ∀ t ∈ s.tasks, (s.task t).id < s.tasks.length
  apart : ∀ t ∈ s.tasks, ∀ x ∈ s.tasks, (s.task t).id = (s.task x).id → t = x
  children : s.childAlive = 0

namespace IdsInv

variable {s s' : Sched}

theorem keep (inv : IdsInv s) (h : SameIds s s') : IdsInv s' where
  next := by rw [h.nextId, h.tasks, inv.next]
  small := fun t mem => by
    rw [h.tasks] at mem ⊢
    rw [h.ids]
    exact inv.small t mem
  apart := fun t mem x mem' same => by
    rw [h.tasks] at mem mem'
    rw [h.ids, h.ids] at same
    exact inv.apart t mem x mem' same
  children := h.children inv.children

/-- A new record has the next id. -/
theorem link (inv : IdsInv s) {t : Nat} (fresh : s.Fresh t) (few : s.tasks.length + 1 < 2 ^ 32)
    (parent : Nat) : IdsInv (s.link t parent) := by
  have new : ((s.link t parent).task t).id = s.tasks.length := by
    rw [← inv.next]
    simp [Sched.link, TaskMemory.setNext_apply]
  have old : ∀ x ∈ s.tasks, ((s.link t parent).task x).id = (s.task x).id := by
    intro x mem
    have other : x ≠ t := fun same => fresh.1 (same ▸ mem)
    simp [Sched.link, TaskMemory.setNext_apply, other]
  have tasks : (s.link t parent).tasks = t :: s.tasks := rfl
  refine ⟨?_, fun x mem => ?_, fun x mem y mem' same => ?_, inv.children⟩
  · rw [tasks, List.length_cons]
    change (s.nextId + 1) % 2 ^ 32 = _
    rw [inv.next, Nat.mod_eq_of_lt few]
  · rw [tasks, List.length_cons]
    rcases List.mem_cons.mp (tasks ▸ mem) with rfl | before
    · rw [new]
      exact Nat.lt_succ_self _
    · rw [old x before]
      exact Nat.lt_succ_of_lt (inv.small x before)
  · rcases List.mem_cons.mp (tasks ▸ mem) with rfl | before <;>
      rcases List.mem_cons.mp (tasks ▸ mem') with rfl | before'
    · rfl
    · rw [new, old y before'] at same
      exact absurd same (Nat.ne_of_gt (inv.small y before'))
    · rw [new, old x before] at same
      exact absurd same (Nat.ne_of_lt (inv.small x before))
    · rw [old x before, old y before'] at same
      exact inv.apart x before y before' same

end IdsInv

section

variable {m : TaskMemory} {kmain user : Nat} {sems : List (Int × Int)} {g g' : Sys}
  {cs : List SchedCall} {t : Nat}

end

end Flyos
