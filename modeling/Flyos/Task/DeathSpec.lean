import Flyos.Task.SemSpec

/-!
# Death is final

A dead task stays dead through everything other tasks do, and through most of what it
does itself: every assignment of `TASK_READY` asks for `TASK_BLOCKED` or `TASK_RUNNING`
first.  Only `task_block` and `task_sleep` assign without a question, to the task that
calls them (`Blocks`), and a task that has killed itself goes on until the next switch.

So death is final in every run in which no dead task makes a call that blocks it
(`dead_final`); a shell that kills itself and then sleeps comes back to life
(`dead_revived`).
-/

namespace Flyos

/-! ## Functions that leave the dead alone -/

section

variable {s s' : Sched} {t : Nat}

/-- The search ends at a ready task or where it began. -/
theorem findReady_ready {m : TaskMemory} {c x n fuel : Nat}
    (found : findReady m c fuel x = some n) : (m n).state = .ready ∨ n = c := by
  induction fuel generalizing x with
  | zero => cases found
  | succ fuel ih =>
      simp only [findReady] at found
      split at found
      case isTrue ready => exact .inl (Option.some.inj found ▸ ready)
      case isFalse =>
        split at found
        case isTrue => exact ih found
        case isFalse back => exact .inr (Option.some.inj found ▸ not_not.mp back)

/-- `schedule`. -/
theorem schedule_dead (ran : schedule s = some s') (dead : (s.task t).state = .dead) :
    (s'.task t).state = .dead := by
  unfold schedule at ran
  split at ran
  case isTrue => exact Option.some.inj ran ▸ dead
  case isFalse =>
    obtain ⟨n, found, rfl⟩ := Option.map_eq_some_iff.mp ran
    split
    case isTrue => exact dead
    case isFalse other =>
      have ready := (findReady_ready found).resolve_right other
      have unlike : t ≠ n := by
        rintro rfl
        rw [dead] at ready
        cases ready
      rw [Sched.switchTo_task]
      dsimp only
      rw [if_neg unlike]
      split
      case isTrue runs => rw [runs.1, runs.2] at dead; cases dead
      case isFalse => exact dead

/-- One slot of the timer. -/
theorem tickSleeper_dead (i : Nat) (dead : (s.task t).state = .dead) :
    ((tickSleeper s i).task t).state = .dead := by
  unfold tickSleeper
  dsimp only
  split
  case isFalse => exact dead
  case isTrue =>
    dsimp only
    split
    case isFalse => exact dead
    case isTrue blocked =>
      rw [TaskMemory.setState_apply]
      dsimp only
      split
      case isTrue same => rw [← same, dead] at blocked; cases blocked
      case isFalse => exact dead

/-- `scheduler_tick`. -/
theorem schedulerTick_dead (ran : schedulerTick s = some s') (dead : (s.task t).state = .dead) :
    (s'.task t).state = .dead := by
  have woken : ∀ (slots : List Nat) (s : Sched), (s.task t).state = .dead →
      ((slots.foldl tickSleeper s).task t).state = .dead := by
    intro slots
    induction slots with
    | nil => exact fun _ dead => dead
    | cons i slots ih => exact fun s dead => ih _ (tickSleeper_dead i dead)
  have before := woken (List.range maxSleepers)
    { s with globalTick := (s.globalTick + 1) % 2 ^ 64 } dead
  unfold schedulerTick at ran
  dsimp only at ran
  split at ran
  case isTrue => exact schedule_dead ran before
  case isFalse => exact Option.some.inj ran ▸ before

/-- `wait_queue_wake_one`. -/
theorem wakeOne_dead (q : WaitQueueId) (dead : (s.task t).state = .dead) :
    ((waitQueueWakeOne s q).task t).state = .dead := by
  by_cases empty : (s.wq q).head = 0
  · rw [waitQueueWakeOne, if_pos empty]
    exact dead
  · rw [waitQueueWakeOne_task empty]
    dsimp only
    split
    case isTrue blocked => rw [← blocked.1, dead] at blocked; cases blocked.2
    case isFalse => exact dead

/-- `wait_queue_wake_all`. -/
theorem wakeAll_dead {q : WaitQueueId} {fuel : Nat} (ran : waitQueueWakeAll q fuel s = some s')
    (dead : (s.task t).state = .dead) : (s'.task t).state = .dead := by
  induction fuel generalizing s with
  | zero => cases ran
  | succ fuel ih =>
      rw [waitQueueWakeAll] at ran
      split at ran
      case isTrue => exact ih ran (wakeOne_dead q dead)
      case isFalse => exact Option.some.inj ran ▸ dead

/-- `task_block` of another task. -/
theorem taskBlock_dead {q : WaitQueueId} (ran : taskBlock s q = some s') (other : t ≠ s.current)
    (dead : (s.task t).state = .dead) : (s'.task t).state = .dead := by
  unfold taskBlock at ran
  split at ran
  case isTrue => exact Option.some.inj ran ▸ dead
  case isFalse =>
    refine schedule_dead ran ?_
    rw [Sched.enqueue_task, TaskMemory.setState_apply]
    dsimp only
    rwa [if_neg other]

/-- `task_sleep` of another task, or without a free slot. -/
theorem taskSleep_dead {ms : Nat} (ran : taskSleep s ms = some s')
    (away : (∃ i < maxSleepers, (s.sleepers i).used = false) → t ≠ s.current)
    (dead : (s.task t).state = .dead) : (s'.task t).state = .dead := by
  unfold taskSleep at ran
  dsimp only at ran
  split at ran
  case h_1 => exact Option.some.inj ran ▸ dead
  case h_2 slot found =>
    have free : (s.sleepers slot).used = false := by simpa using List.find?_some found
    have other := away ⟨slot, List.mem_range.mp (List.mem_of_find?_eq_some found), free⟩
    refine schedule_dead ran ?_
    dsimp only
    rw [TaskMemory.setState_apply]
    dsimp only
    rwa [if_neg other]

/-- `task_kill_by_id`. -/
theorem kill_dead {id : Int} (ran : taskKillById s id = some s')
    (dead : (s.task t).state = .dead) : (s'.task t).state = .dead := by
  unfold taskKillById at ran
  split at ran
  case isTrue => exact Option.some.inj ran ▸ dead
  case isFalse =>
    obtain ⟨x, -, rfl⟩ := Option.map_eq_some_iff.mp ran
    split
    case isTrue => exact dead
    case isFalse =>
      dsimp only
      rw [TaskMemory.setState_apply]
      dsimp only
      split
      case isTrue => rfl
      case isFalse => exact dead

/-- `SYS_EXIT`. -/
theorem exit_dead (ran : sysExit s = some s') (dead : (s.task t).state = .dead) :
    (s'.task t).state = .dead := by
  unfold sysExit at ran
  dsimp only at ran
  obtain ⟨s₁, signalled, rest⟩ := Option.bind_eq_some_iff.mp ran
  have before : (s₁.task t).state = .dead := by
    refine wakeAll_dead signalled ?_
    dsimp only [taskChildDec]
    split <;> exact dead
  split at rest
  case isTrue => exact Option.some.inj rest ▸ before
  case isFalse =>
    refine schedule_dead rest ?_
    split
    case isTrue =>
      dsimp only
      rw [TaskMemory.setState_apply]
      dsimp only
      split
      case isTrue => rfl
      case isFalse => exact before
    case isFalse => exact before

/-- A new record. -/
theorem link_dead {x parent : Nat} (old : t ≠ x) (dead : (s.task t).state = .dead) :
    ((s.link x parent).task t).state = .dead := by
  simp only [Sched.link, TaskMemory.setNext_apply, Function.update_of_ne old]
  exact dead

end

/-! ## Calls -/

/-- The call blocks the task that makes it. -/
def Blocks (s : Sched) (c : SchedCall) : Prop :=
  match c with
  | .wait => True
  | .semWait id => ∃ i, s.semIndex id = some i ∧ int32 (s.semCount i - 1) < 0
  | .sleep _ => ∃ i < maxSleepers, (s.sleepers i).used = false
  | .read => (s.foreground ≠ 0 ∧ s.current ≠ s.foreground) ∧
      ∃ i < maxSleepers, (s.sleepers i).used = false
  | _ => False

/-- **A call leaves a dead task dead**, unless the task makes it and it blocks. -/
theorem schedExec_dead {kmain t : Nat} {s s' : Sched} {c : SchedCall}
    (enabled : Enabled kmain s c) (ran : schedExec s c = some s') (mem : t ∈ s.tasks)
    (away : Blocks s c → t ≠ s.current) (dead : (s.task t).state = .dead) :
    (s'.task t).state = .dead := by
  cases c with
  | tick =>
      rw [schedExec] at ran
      exact schedulerTick_dead ran dead
  | semWait id =>
      simp only [schedExec, semWait] at ran
      split at ran
      case h_1 =>
        obtain rfl := Option.some.inj ran
        exact dead
      case h_2 i index =>
        split at ran
        case isTrue waits => exact taskBlock_dead ran (away ⟨i, index, waits⟩) dead
        case isFalse =>
          obtain rfl := Option.some.inj ran
          exact dead
  | semPost id =>
      simp only [schedExec, Option.some.injEq, semPost] at ran
      subst ran
      split
      case h_1 => exact dead
      case h_2 =>
        split
        case isTrue => exact wakeOne_dead _ dead
        case isFalse => exact dead
  | sleep ms => exact taskSleep_dead ran away dead
  | read =>
      rw [schedExec] at ran
      split at ran
      case isTrue background =>
        exact taskSleep_dead ran (fun free => away ⟨background, free⟩) dead
      case isFalse => exact Option.some.inj ran ▸ dead
  | setForeground => exact Option.some.inj ran ▸ dead
  | wait => exact taskBlock_dead ran (away trivial) dead
  | signalChildExit => exact wakeAll_dead ran dead
  | kill id => exact kill_dead ran dead
  | fork x cloned =>
      simp only [schedExec, Option.some.injEq, taskFork] at ran
      subst ran
      split
      case isTrue => exact dead
      case isFalse some =>
        split
        case isTrue => exact dead
        case isFalse =>
          have fresh := enabled.2.2.resolve_left some
          exact link_dead (fun same => fresh.1 (same ▸ mem)) dead
  | spawn x loaded =>
      simp only [schedExec, Option.some.injEq, kernelSpawnChild] at ran
      subst ran
      split
      case isTrue => exact dead
      case isFalse first =>
        split
        case isTrue => exact dead
        case isFalse done =>
          have fresh := enabled.2.2 (by simpa using first) (by simpa using done)
          exact link_dead (fun same => fresh.1 (same ▸ mem)) dead
  | exit => exact exit_dead ran dead

/-- **The condition**: no dead task makes a call that blocks it. -/
def DeadRest (g : Sys) (c : SchedCall) : Prop :=
  Blocks g.sched c → (g.sched.task g.sched.current).state ≠ .dead

section

variable {m : TaskMemory} {kmain user : Nat} {sems : List (Int × Int)} {g g' : Sys}
  {cs cs' : List SchedCall} {t : Nat}

/-- **Death is final.**  A task that is dead stays dead in every run that meets the condition,
and when it is not the current task it never is again.  The condition is that no dead task makes
a call that blocks it, for that would write its state again; no other call revives anyone
(`schedExec_dead`).  `task_create` takes for granted that `kmalloc` has memory for the record of
a spawned task, and so do the runs. -/
theorem dead_final (records : BootRecords kmain user)
    (run : Run (SysStep kmain) (.boot (schedBoot m kmain user sems)) cs g)
    (mem : t ∈ g.sched.tasks) (dead : (g.sched.task t).state = .dead)
    (later : Run (Guarded DeadRest (SysStep kmain)) g cs' g') :
    (g'.sched.task t).state = .dead ∧ (g'.sched.current = t → g.sched.current = t) := by
  let Rests (g' : Sys) : Prop :=
    (∃ lists, SysInv kmain (schedBoot m kmain user sems).semCount g' lists) ∧
      t ∈ g'.sched.tasks ∧ (g'.sched.task t).state = .dead ∧
      (g'.sched.current = t → g.sched.current = t)
  have rests : Rests g' := by
    refine later.invariant Rests (fun {g₁ c g₂} old step => ?_)
      ⟨sysRun_inv records run, mem, dead, id⟩
    obtain ⟨⟨lists, inv⟩, mem, dead, current⟩ := old
    obtain ⟨cond, enabled, done⟩ := step
    obtain ⟨s', ran, outcome, exec, inv'⟩ := inv.exec enabled
    obtain rfl := Option.some.inj (exec.symm.trans done)
    refine ⟨⟨_, inv'⟩, ?_, ?_, fun now => ?_⟩ <;> rw [Sys.resume_sched] at *
    · exact outcome.mem mem
    · exact schedExec_dead enabled ran mem (fun blocks same => cond blocks (same ▸ dead)) dead
    · -- a task that is switched to was alive
      by_cases still : s'.current = g₁.sched.current
      · exact current (still.symm.trans now)
      · have alive := (outcome.moved still).2
        rw [show s'.current = t from now] at alive
        exact absurd dead alive
  exact rests.2.2

end

/-- A child that is killed by the shell stays dead. -/
theorem dead_final_child :
    ∃ g g', Run (SysStep kmainRecord) bootSys
        (timeSlice ++ [.fork childRecord true, .kill 2]) g ∧
      Run (Guarded DeadRest (SysStep kmainRecord)) g (timeSlice ++ timeSlice) g' ∧
      (g'.sched.task childRecord).state = .dead ∧
      (g'.sched.current = childRecord → g.sched.current = childRecord) := by
  obtain ⟨g, run, facts⟩ : ∃ g, Run (SysStep kmainRecord) bootSys
      (timeSlice ++ [.fork childRecord true, .kill 2]) g ∧
      decide (childRecord ∈ g.sched.tasks ∧ (g.sched.task childRecord).state = .dead ∧
        ((g.callsWhile kmainRecord (fun _ c => c == .tick) (timeSlice ++ timeSlice)).isSome)) = true :=
    Sys.calls_any (by decide +kernel)
  obtain ⟨mem, dead, goes⟩ := of_decide_eq_true facts
  obtain ⟨g', ticks⟩ := Option.isSome_iff_exists.mp goes
  have later : Run (Guarded DeadRest (SysStep kmainRecord)) g (timeSlice ++ timeSlice) g' :=
    Sys.callsWhile_run (fun g c tick => by
      obtain rfl : c = .tick := by simpa using tick
      exact fun blocks => blocks.elim) ticks
  exact ⟨g, g', run, later, dead_final bootRecords run mem dead later⟩

/-- **The exception.**  A shell that kills itself and then sleeps is ready and runs again. -/
theorem dead_revived :
    ∃ g g', Run (SysStep kmainRecord) bootSys (timeSlice ++ [.kill 1]) g ∧
      userRecord ∈ g.sched.tasks ∧ (g.sched.task userRecord).state = .dead ∧
      Run (SysStep kmainRecord) g ([.sleep 10] ++ timeSlice) g' ∧
      (g'.sched.task userRecord).state = .running ∧ g'.sched.current = userRecord := by
  obtain ⟨g, run, facts⟩ : ∃ g, Run (SysStep kmainRecord) bootSys (timeSlice ++ [.kill 1]) g ∧
      decide (userRecord ∈ g.sched.tasks ∧ (g.sched.task userRecord).state = .dead ∧
        (g.callsWhile kmainRecord (fun _ _ => true) ([.sleep 10] ++ timeSlice)).any fun g' =>
          decide ((g'.sched.task userRecord).state = .running ∧
            g'.sched.current = userRecord)) = true :=
    Sys.calls_any (by decide +kernel)
  obtain ⟨mem, dead, goes⟩ := of_decide_eq_true facts
  obtain ⟨g', run', lives⟩ := Sys.calls_any goes
  obtain ⟨runs, current⟩ := of_decide_eq_true lives
  exact ⟨g, g', run, mem, dead, run', runs, current⟩

end Flyos
