import Flyos.Task.SchedSpec
import Flyos.Task.SchedStep

/-!
# The functions of the scheduler in any order

`TaskStep` calls the functions of `task.c` one by one, with any arguments the kernel may
give them.  Everything they do is a change of records that leaves the ring as it is
(`Prepares`), then perhaps a switch; or a new record behind the current task
(`taskOp_cases`).

From this and the invariant of the queues follows the state of the scheduler after any
calls (`scheduler_run`): one ring with every task ever created, at most one running task,
which is current, an idle task that can always run, and a sleeper slot of its own for
every sleeping task.

All of it needs records of their own.  `task_create` does not check its `kmalloc`, and where that
fails the record lies at address 0 (`records_at_zero`).
-/

namespace Flyos

/-- The functions of `task.c`. -/
inductive TaskOp where
  | create (t : Nat)
  | fork (t : Nat) (cloned : Bool)
  | schedule
  | tick
  | block (q : WaitQueueId)
  | sleep (ms : Nat)
  | wakeOne (q : WaitQueueId)
  | wakeAll (q : WaitQueueId)
  | kill (id : Int)
  | killAll

/-- One call. -/
def taskOp (s : Sched) : TaskOp → Option Sched
  | .create t => some (taskCreate s t)
  | .fork t cloned => some (taskFork s t cloned)
  | .schedule => schedule s
  | .tick => schedulerTick s
  | .block q => taskBlock s q
  | .sleep ms => taskSleep s ms
  | .wakeOne q => some (waitQueueWakeOne s q)
  | .wakeAll q => waitQueueWakeAll q (s.tasks.length + 1) s
  | .kill id => taskKillById s id
  | .killAll => taskKillAllChildren s

/-- The state in which a call gets to `schedule`, if it does. -/
def TaskOp.prepared (s : Sched) : TaskOp → Option Sched
  | .schedule => some s
  | .tick =>
      let s := { s with globalTick := (s.globalTick + 1) % 2 ^ 64 }
      let s := (List.range maxSleepers).foldl tickSleeper s
      if timeslice ≤ s.tickInSlice + 1 then some { s with tickInSlice := 0 } else none
  | .block q => if s.current = 0 then none else some (s.enqueue q)
  | .sleep ms =>
      let ticks := (ms + 9) % 2 ^ 64 / 10
      let ticks := if ticks = 0 then 1 else ticks
      ((List.range maxSleepers).find? fun i => !(s.sleepers i).used).map fun slot => { s with
        sleepers := Function.update s.sleepers slot
          ⟨s.current, (s.globalTick + ticks) % 2 ^ 64, true⟩
        task := s.task.setState s.current .blocked }
  | _ => none

/-- What may be called: `kmain` does not block, ids are of type `int`, and `kmalloc` answers with a
block that is not in use.  `task_fork` checks whether it answers at all; `task_create` does not, and
it is assumed here that it does.  `TaskOp.Called` is without that assumption. -/
def TaskOp.Allowed (kmain : Nat) (s : Sched) : TaskOp → Prop
  | .create t => s.Fresh t
  | .fork t _ => t = 0 ∨ s.Fresh t
  | .block _ => s.current ≠ kmain
  | .sleep _ => s.current ≠ kmain
  | .kill id => IsInt id
  | _ => True

/-- What may be called when `kmalloc` may fail: `task_create` then goes on with a record at
address 0. -/
def TaskOp.Called (kmain : Nat) (s : Sched) : TaskOp → Prop
  | .create t => t = 0 ∨ s.Fresh t
  | op => op.Allowed kmain s

/-- The `kmalloc` of `task_create` answers with a block for the record. -/
def TaskOp.RecordMade : TaskOp → Prop
  | .create t => t ≠ 0
  | _ => True

/-- The record that a call adds. -/
def TaskOp.created : TaskOp → List Nat
  | .create t => [t]
  | .fork t cloned => if t = 0 then [] else if cloned = false then [] else [t]
  | _ => []

/-- A call that may happen, and what it does. -/
def TaskStep (kmain : Nat) (s : Sched) (op : TaskOp) (s' : Sched) : Prop :=
  op.Allowed kmain s ∧ taskOp s op = some s'

/-- A call with any answers of `kmalloc`, and what it does. -/
def AnyTaskStep (kmain : Nat) (s : Sched) (op : TaskOp) (s' : Sched) : Prop :=
  op.Called kmain s ∧ taskOp s op = some s'

/-- What may be called is the same when the record is made. -/
theorem TaskOp.called_iff {kmain : Nat} {s : Sched} {op : TaskOp} :
    op.RecordMade ∧ op.Called kmain s ↔ op.Allowed kmain s := by
  cases op with
  | create t =>
      constructor
      · rintro ⟨made, called⟩
        exact called.resolve_left made
      · rintro ⟨new, low, high⟩
        exact ⟨(Nat.lt_of_lt_of_le (by decide) low).ne', .inr ⟨new, low, high⟩⟩
  | _ => exact and_iff_right trivial

/-! ## What a call does to the ring -/

/-- A change of records that leaves the ring alone and makes no task run. -/
structure Prepares (s m : Sched) : Prop where
  current : m.current = s.current
  tasks : m.tasks = s.tasks
  next : ∀ t, (m.task t).next = (s.task t).next
  runs : ∀ t, (m.task t).state = .running → (s.task t).state = .running

/-- Ready tasks stay ready, but perhaps the current one. -/
def KeepsReady (s m : Sched) : Prop :=
  ∀ t, t ≠ s.current → (s.task t).state = .ready → (m.task t).state = .ready

theorem KeepsReady.refl (s : Sched) : KeepsReady s s := fun _ _ ready => ready

namespace Prepares

variable {s m n : Sched}

theorem refl (s : Sched) : Prepares s s := ⟨rfl, rfl, fun _ => rfl, fun _ => id⟩

theorem trans (h : Prepares s m) (h' : Prepares m n) : Prepares s n where
  current := h'.current.trans h.current
  tasks := h'.tasks.trans h.tasks
  next := fun t => (h'.next t).trans (h.next t)
  runs := fun t runs => h.runs t (h'.runs t runs)

/-- Only other variables differ. -/
theorem of_eq (task : m.task = s.task) (current : m.current = s.current)
    (tasks : m.tasks = s.tasks) : Prepares s m :=
  ⟨current, tasks, fun t => by rw [task], fun t runs => by rwa [task] at runs⟩

/-- A new state for one task. -/
theorem setState {t : Nat} {v : TaskState} (other : v ≠ .running)
    (task : m.task = s.task.setState t v) (current : m.current = s.current)
    (tasks : m.tasks = s.tasks) : Prepares s m := by
  refine ⟨current, tasks, fun x => ?_, fun x runs => ?_⟩
  · rw [task, TaskMemory.setState_apply]
  · rw [task, TaskMemory.setState_apply] at runs
    dsimp only at runs
    split at runs
    case isTrue => exact absurd runs other
    case isFalse => exact runs

/-- `task_block` up to `schedule`. -/
theorem enqueue (s : Sched) (q : WaitQueueId) : Prepares s (s.enqueue q) := by
  refine ⟨rfl, rfl, fun t => ?_, fun t runs => ?_⟩
  · rw [Sched.enqueue_task, TaskMemory.setState_apply]
  · rw [Sched.enqueue_task, TaskMemory.setState_apply] at runs
    dsimp only at runs
    split at runs
    case isTrue => cases runs
    case isFalse => exact runs

/-- `wait_queue_wake_one`. -/
theorem wakeOne (s : Sched) (q : WaitQueueId) : Prepares s (waitQueueWakeOne s q) := by
  by_cases empty : (s.wq q).head = 0
  · rw [waitQueueWakeOne, if_pos empty]
    exact .refl s
  obtain ⟨tasks, current, -⟩ := waitQueueWakeOne_fields s q
  refine ⟨current, tasks, fun t => by rw [waitQueueWakeOne_task empty], fun t runs => ?_⟩
  rw [waitQueueWakeOne_task empty] at runs
  dsimp only at runs
  split at runs
  case isTrue => cases runs
  case isFalse => exact runs

/-- `wait_queue_wake_all`. -/
theorem wakeAll {q : WaitQueueId} {fuel : Nat} (ran : waitQueueWakeAll q fuel s = some m) :
    Prepares s m := by
  induction fuel generalizing s with
  | zero => cases ran
  | succ fuel ih =>
      rw [waitQueueWakeAll] at ran
      split at ran
      case isTrue => exact (wakeOne s q).trans (ih ran)
      case isFalse => exact Option.some.inj ran ▸ .refl s

/-- One slot of the timer. -/
theorem tickSleeper (s : Sched) (i : Nat) :
    Prepares s (tickSleeper s i) ∧
      ∀ t, (s.task t).state = .ready → ((Flyos.tickSleeper s i).task t).state = .ready := by
  unfold Flyos.tickSleeper
  dsimp only
  split
  case isFalse => exact ⟨.refl s, fun _ => id⟩
  case isTrue =>
    by_cases blocked : (s.task (s.sleepers i).task).state = .blocked
    · rw [if_pos blocked]
      refine ⟨.setState (by decide) rfl rfl rfl, fun t ready => ?_⟩
      dsimp only
      rw [TaskMemory.setState_apply]
      dsimp only
      split
      case isTrue => rfl
      case isFalse => exact ready
    · rw [if_neg blocked]
      exact ⟨.of_eq rfl rfl rfl, fun _ => id⟩

/-- All slots. -/
theorem tickSleepers (slots : List Nat) (s : Sched) :
    Prepares s (slots.foldl Flyos.tickSleeper s) ∧
      ∀ t, (s.task t).state = .ready →
        ((slots.foldl Flyos.tickSleeper s).task t).state = .ready := by
  induction slots generalizing s with
  | nil => exact ⟨.refl s, fun _ => id⟩
  | cons i slots ih =>
      obtain ⟨first, ready₁⟩ := tickSleeper s i
      obtain ⟨rest, ready₂⟩ := ih (Flyos.tickSleeper s i)
      exact ⟨first.trans rest, fun t ready => ready₂ t (ready₁ t ready)⟩

/-- `task_kill_all_children`. -/
theorem killOthers {fuel t : Nat} {r : TaskMemory}
    (ran : Flyos.killOthers s.current fuel s.task t = some r) : Prepares s { s with task := r } := by
  induction fuel generalizing s t with
  | zero => cases ran
  | succ fuel ih =>
      rw [Flyos.killOthers] at ran
      split at ran
      case isTrue =>
        by_cases other : (s.task t).id ≠ 0
        · rw [if_pos other] at ran
          let killed : Sched := { s with task := s.task.setState t .dead }
          exact (setState (m := killed) (by decide) rfl rfl rfl).trans (ih (s := killed) ran)
        · rw [if_neg other] at ran
          exact ih ran
      case isFalse => exact .of_eq (Option.some.inj ran).symm rfl rfl

end Prepares

variable {kmain : Nat} {s s' : Sched} {op : TaskOp}

/-- **What a call does**: it prepares and switches, or only prepares, or adds a record. -/
theorem taskOp_cases (step : TaskStep kmain s op s') :
    (op.created = [] ∧ ∃ m, op.prepared s = some m ∧ Prepares s m ∧ KeepsReady s m ∧
        schedule m = some s') ∨
      (op.created = [] ∧ op.prepared s = none ∧ Prepares s s') ∨
      ∃ t parent, op.created = [t] ∧ op.prepared s = none ∧ s.Fresh t ∧ s' = s.link t parent := by
  obtain ⟨allowed, ran⟩ := step
  cases op with
  | create t => exact .inr (.inr ⟨t, 0, rfl, rfl, allowed, (Option.some.inj ran).symm⟩)
  | fork t cloned =>
      obtain rfl : taskFork s t cloned = s' := Option.some.inj ran
      unfold taskFork
      by_cases null : t = 0
      · simp only [TaskOp.created, null, if_true]
        exact .inr (.inl ⟨trivial, rfl, .refl s⟩)
      by_cases failed : cloned = false
      · simp only [TaskOp.created, null, failed, if_true, if_false]
        exact .inr (.inl ⟨trivial, rfl, .refl s⟩)
      · simp only [TaskOp.created, null, failed, if_false]
        exact .inr (.inr ⟨t, _, rfl, rfl, allowed.resolve_left null, rfl⟩)
  | schedule => exact .inl ⟨rfl, s, rfl, .refl s, .refl s, ran⟩
  | tick =>
      obtain ⟨slots, ready⟩ := Prepares.tickSleepers (List.range maxSleepers)
        { s with globalTick := (s.globalTick + 1) % 2 ^ 64 }
      rw [taskOp, schedulerTick] at ran
      rw [TaskOp.prepared]
      generalize (List.range maxSleepers).foldl tickSleeper
        { s with globalTick := (s.globalTick + 1) % 2 ^ 64 } = r at slots ready ran
      have counted : Prepares s { s with globalTick := (s.globalTick + 1) % 2 ^ 64 } :=
        .of_eq rfl rfl rfl
      have clock : Prepares s r := counted.trans slots
      split at ran
      case isTrue due =>
        have reset : Prepares s { r with tickInSlice := 0 } := clock.trans (.of_eq rfl rfl rfl)
        exact .inl ⟨rfl, _, if_pos due, reset, fun t _ => ready t, ran⟩
      case isFalse early =>
        obtain rfl := Option.some.inj ran
        exact .inr (.inl ⟨rfl, if_neg early, clock.trans (.of_eq rfl rfl rfl)⟩)
  | block q =>
      rw [taskOp, taskBlock] at ran
      split at ran
      case isTrue null => exact .inr (.inl ⟨rfl, if_pos null, Option.some.inj ran ▸ .refl s⟩)
      case isFalse some =>
        refine .inl ⟨rfl, _, if_neg some, .enqueue s q, fun t other ready => ?_, ran⟩
        rw [Sched.enqueue_task, TaskMemory.setState_apply]
        dsimp only
        rwa [if_neg other]
  | sleep ms =>
      rw [taskOp, taskSleep] at ran
      rw [TaskOp.prepared]
      split at ran
      case h_1 full => exact .inr (.inl ⟨rfl, by rw [full]; rfl, Option.some.inj ran ▸ .refl s⟩)
      case h_2 slot found =>
        refine .inl ⟨rfl, _, by rw [found]; rfl, ?_, fun t other ready => ?_, ran⟩
        · exact .setState (t := s.current) (v := .blocked) (by decide) rfl rfl rfl
        dsimp only
        rw [TaskMemory.setState_apply]
        dsimp only
        rwa [if_neg other]
  | wakeOne q => exact .inr (.inl ⟨rfl, rfl, Option.some.inj ran ▸ .wakeOne s q⟩)
  | wakeAll q => exact .inr (.inl ⟨rfl, rfl, .wakeAll ran⟩)
  | kill id =>
      rw [taskOp, taskKillById] at ran
      split at ran
      case isTrue => exact .inr (.inl ⟨rfl, rfl, Option.some.inj ran ▸ .refl s⟩)
      case isFalse =>
        obtain ⟨t, -, rfl⟩ := Option.map_eq_some_iff.mp ran
        split
        case isTrue => exact .inr (.inl ⟨rfl, rfl, .refl s⟩)
        case isFalse => exact .inr (.inl ⟨rfl, rfl, .setState (by decide) rfl rfl rfl⟩)
  | killAll =>
      rw [taskOp, taskKillAllChildren] at ran
      split at ran
      case isTrue => exact .inr (.inl ⟨rfl, rfl, Option.some.inj ran ▸ .refl s⟩)
      case isFalse =>
        obtain ⟨m, killed, rfl⟩ := Option.map_eq_some_iff.mp ran
        exact .inr (.inl ⟨rfl, rfl, .killOthers killed⟩)

/-! ## The invariant -/

/-- A task that runs is current. -/
def OneRuns (s : Sched) : Prop := ∀ t ∈ s.tasks, (s.task t).state = .running → t = s.current

theorem Prepares.oneRuns {m : Sched} (h : Prepares s m) (old : OneRuns s) : OneRuns m := by
  intro t mem runs
  rw [h.current]
  exact old t (h.tasks ▸ mem) (h.runs t runs)

/-- `schedule` stops the task before. -/
theorem schedule_oneRuns (ran : schedule s = some s') (old : OneRuns s) : OneRuns s' := by
  unfold schedule at ran
  split at ran
  case isTrue => exact Option.some.inj ran ▸ old
  case isFalse =>
    obtain ⟨n, -, rfl⟩ := Option.map_eq_some_iff.mp ran
    split
    case isTrue => exact old
    case isFalse =>
      intro t mem runs
      rw [Sched.switchTo_task] at runs
      dsimp only at runs
      split at runs
      case isTrue same => exact same
      case isFalse =>
        split at runs
        case isTrue => cases runs
        case isFalse before =>
          obtain rfl := old t mem runs
          exact absurd ⟨rfl, runs⟩ before

/-- `schedule` creates no task. -/
theorem schedule_tasks (ran : schedule s = some s') : s'.tasks = s.tasks := by
  unfold schedule at ran
  split at ran
  case isTrue => exact Option.some.inj ran ▸ rfl
  case isFalse =>
    obtain ⟨n, -, rfl⟩ := Option.map_eq_some_iff.mp ran
    split <;> rfl

/-- A call keeps the running task the current one, and adds the record it creates. -/
theorem TaskStep.oneRuns {lists : Queues} (step : TaskStep kmain s op s')
    (inv : SchedInv kmain s lists) (old : OneRuns s) :
    OneRuns s' ∧ s'.tasks = op.created ++ s.tasks := by
  rcases taskOp_cases step with ⟨none, m, -, prepares, -, ran⟩ | ⟨none, -, prepares⟩ |
    ⟨t, parent, one, -, fresh, rfl⟩
  · refine ⟨schedule_oneRuns ran (prepares.oneRuns old), ?_⟩
    rw [none, schedule_tasks ran, prepares.tasks]
    rfl
  · refine ⟨prepares.oneRuns old, ?_⟩
    rw [none, prepares.tasks]
    rfl
  · refine ⟨fun x mem runs => ?_, by rw [one]; rfl⟩
    have other : s.current ≠ t := fun same => fresh.1 (same ▸ inv.current)
    rcases List.mem_cons.mp mem with rfl | before
    · simp [Sched.link, TaskMemory.setNext_apply] at runs
    · rw [((inv.link fresh parent).2 x before).2] at runs
      exact old x before runs

/-- The loop of `task_kill_all_children` returns and keeps the invariant. -/
theorem killOthers_spec {lists : Queues} (inv : SchedInv kmain s lists) {l : List Nat} {x fuel : Nat}
    (chain : LinkChain (fun t => (s.task t).next) (· = s.current) x l) (sub : l ⊆ s.tasks)
    (few : l.length < fuel) :
    ∃ m, killOthers s.current fuel s.task x = some m ∧
      SchedInv kmain { s with task := m } lists := by
  induction l generalizing s x fuel with
  | nil =>
      obtain ⟨fuel, rfl⟩ := Nat.exists_eq_add_one.mpr few
      refine ⟨s.task, ?_, inv⟩
      rw [killOthers, if_neg fun h => h.2 chain]
  | cons y l ih =>
      obtain ⟨fuel, rfl⟩ := Nat.exists_eq_add_one.mpr (Nat.zero_lt_of_lt few)
      obtain ⟨rfl, other, rest⟩ := chain
      have task : y ∈ s.tasks := sub List.mem_cons_self
      have fewer : l.length < fuel := Nat.lt_of_succ_lt_succ few
      have sub' : l ⊆ s.tasks := fun t mem => sub (List.mem_cons_of_mem _ mem)
      rw [killOthers, if_pos ⟨inv.ne_zero task, other⟩]
      by_cases idle : (s.task y).id ≠ 0
      · have alive : y ≠ kmain := fun same => idle (same ▸ inv.idle_id)
        have core := inv.toSchedCore.setState alive (v := .dead) (.inl (.inr rfl))
        let killed : Sched := { s with task := s.task.setState y .dead }
        rw [if_pos idle]
        refine ih (s := killed) ⟨core, inv.free, inv.awake⟩ ?_ sub' fewer
        refine rest.congr fun t _ => ?_
        simp only [killed, TaskMemory.setState_apply]
      · rw [if_neg idle]
        exact ih inv rest sub' fewer

/-- **Every call that may happen returns** and keeps the invariant of the queues. -/
theorem taskOp_spec {lists : Queues} (inv : SchedInv kmain s lists)
    (allowed : op.Allowed kmain s) :
    ∃ s' lists', taskOp s op = some s' ∧ SchedInv kmain s' lists' := by
  cases op with
  | create t => exact ⟨_, lists, rfl, (inv.link allowed 0).1⟩
  | fork t cloned =>
      rw [taskOp, taskFork]
      split
      case isTrue => exact ⟨s, lists, rfl, inv⟩
      case isFalse some =>
        split
        case isTrue => exact ⟨s, lists, rfl, inv⟩
        case isFalse => exact ⟨_, lists, rfl, (inv.link (allowed.resolve_left some) _).1⟩
  | schedule =>
      obtain ⟨s', ran, inv', -⟩ := schedule_spec inv.toSchedCore
      exact ⟨s', lists, ran, inv'⟩
  | tick =>
      obtain ⟨s', ran, inv', -⟩ := inv.tick
      exact ⟨s', lists, ran, inv'⟩
  | block q =>
      obtain ⟨s', ran, inv', -⟩ := inv.taskBlock allowed q
      exact ⟨s', _, ran, inv'⟩
  | sleep ms =>
      obtain ⟨s', ran, inv', -⟩ := inv.sleep allowed ms
      exact ⟨s', lists, ran, inv'⟩
  | wakeOne q => exact ⟨_, _, rfl, inv.wakeOne q⟩
  | wakeAll q =>
      obtain ⟨s', ran, inv', -⟩ := inv.wakeAll q (Nat.lt_succ_of_le (inv.length_le q))
      exact ⟨s', _, ran, inv'⟩
  | kill id =>
      obtain ⟨s', ran, outcome⟩ := inv.kill allowed
      exact ⟨s', _, ran, outcome.inv⟩
  | killAll =>
      obtain ⟨l, ring, all⟩ := inv.ring
      have sub : l ⊆ s.tasks := fun t mem => (all t).mpr (.inr mem)
      have few : l.length < s.tasks.length + 1 :=
        Nat.lt_succ_of_le (List.subperm_of_subset ring.nodup sub).length_le
      obtain ⟨m, killed, inv'⟩ := killOthers_spec inv ring sub few
      refine ⟨{ s with task := m }, lists, ?_, inv'⟩
      rw [taskOp, taskKillAllChildren, if_neg (inv.ne_zero inv.current), killed, Option.map_some]

/-- **The state of the scheduler**, with the tasks created so far. -/
structure SchedulerOk (kmain : Nat) (created : List Nat) (s : Sched) : Prop where
  /-- From the current task on, `next` visits every task once and is back. -/
  ring : ∃ l, LinkRing (fun t => (s.task t).next) s.current l ∧ (s.current :: l).Perm created
  once : created.Nodup
  running : ∀ t ∈ created, (s.task t).state = .running → t = s.current
  idle_id : (s.task kmain).id = 0
  idle : (s.task kmain).state = .ready ∨ (s.task kmain).state = .running
  asleep : ∀ i, (s.sleepers i).used = true → (s.sleepers i).task ∈ created ∧
    ((s.task (s.sleepers i).task).state = .blocked ∨ (s.task (s.sleepers i).task).state = .dead)
  slots : ∀ i j, (s.sleepers i).used = true → (s.sleepers j).used = true →
    (s.sleepers i).task = (s.sleepers j).task → i = j

/-- `task_init` gives a state of the invariant. -/
theorem taskInit_inv (m : TaskMemory) {kmain : Nat} (record : heapStart ≤ kmain ∧ kmain < heapEnd) :
    SchedInv kmain (taskInit m kmain) (fun _ => []) ∧ OneRuns (taskInit m kmain) := by
  have self : (taskInit m kmain).task kmain = ⟨0, .running, kmain, 0, 0⟩ := Function.update_self _ _ _
  have inv : SchedCore kmain (taskInit m kmain) fun _ => [] := by
    refine ⟨List.nodup_singleton kmain, fun t mem => ?_, List.mem_singleton_self _, ?_, ?_,
      List.mem_singleton_self _, ⟨[], ?_, fun t => ?_⟩, fun q => .nil _ _, fun _ _ _ => nofun,
      fun _ _ => nofun, fun _ => nofun, fun _ _ => nofun⟩
    · exact List.mem_singleton.mp mem ▸ record
    · rw [self]
    · rw [self]
      exact (if_pos rfl).symm
    · change ((taskInit m kmain).task kmain).next = kmain
      rw [self]
    · simp [taskInit]
  exact ⟨inv.inv_of_idle rfl, fun t mem _ => List.mem_singleton.mp mem⟩

/-- The invariant after any calls. -/
theorem taskRun_inv {m : TaskMemory} (record : heapStart ≤ kmain ∧ kmain < heapEnd)
    {ops : List TaskOp} (run : Run (TaskStep kmain) (taskInit m kmain) ops s) :
    (∃ lists, SchedInv kmain s lists) ∧ OneRuns s := by
  obtain ⟨start, one⟩ := taskInit_inv m record
  refine run.invariant (fun s => (∃ lists, SchedInv kmain s lists) ∧ OneRuns s)
    (fun {s op s'} old step => ?_) ⟨⟨_, start⟩, one⟩
  obtain ⟨⟨lists, inv⟩, one⟩ := old
  obtain ⟨t, lists', ran, inv'⟩ := taskOp_spec inv step.1
  obtain rfl := Option.some.inj (ran.symm.trans step.2)
  exact ⟨⟨lists', inv'⟩, (step.oneRuns inv one).1⟩

/-- The tasks after any calls. -/
theorem taskRun_tasks {lists : Queues} (inv : SchedInv kmain s lists) (one : OneRuns s)
    {ops : List TaskOp} (run : Run (TaskStep kmain) s ops s') :
    s'.tasks.Perm (s.tasks ++ ops.flatMap TaskOp.created) := by
  induction run generalizing lists with
  | nil s => simp
  | @cons s t u op ops step rest ih =>
      obtain ⟨one', tasks⟩ := step.oneRuns inv one
      obtain ⟨t', lists', ran, inv'⟩ := taskOp_spec inv step.1
      obtain rfl := Option.some.inj (ran.symm.trans step.2)
      have later := ih inv' one'
      rw [tasks] at later
      refine later.trans ?_
      rw [List.flatMap_cons, ← List.append_assoc]
      exact List.Perm.append_right _ List.perm_append_comm

/-- The scheduler when every record is made: its state is as it should be, and every call that may
happen next returns. -/
theorem taskRun_ok {m : TaskMemory} (record : heapStart ≤ kmain ∧ kmain < heapEnd)
    {ops : List TaskOp} (run : Run (TaskStep kmain) (taskInit m kmain) ops s) :
    SchedulerOk kmain (kmain :: ops.flatMap TaskOp.created) s ∧
      ∀ op : TaskOp, op.Allowed kmain s → ∃ s', taskOp s op = some s' := by
  obtain ⟨⟨lists, inv⟩, one⟩ := taskRun_inv record run
  obtain ⟨start, first⟩ := taskInit_inv m record
  have tasks : s.tasks.Perm (kmain :: ops.flatMap TaskOp.created) := taskRun_tasks start first run
  obtain ⟨l, ring, all⟩ := inv.ring
  have nodup : (s.current :: l).Nodup := List.nodup_cons.mpr ⟨ring.notMem, ring.nodup⟩
  refine ⟨⟨⟨l, ring, ?_⟩, tasks.nodup_iff.mp inv.nodup, fun t mem => one t (tasks.mem_iff.mpr mem),
    inv.idle_id, ?_, fun i used => ?_, inv.slots⟩, fun op allowed => ?_⟩
  · refine List.Perm.trans ?_ tasks
    exact (List.perm_ext_iff_of_nodup nodup inv.nodup).mpr fun t => by
      rw [List.mem_cons, all t]
  · rw [inv.idle_state]
    split
    case isTrue => exact .inr rfl
    case isFalse => exact .inl rfl
  · obtain ⟨task, parked, -⟩ := inv.asleep i used
    exact ⟨tasks.mem_iff.mp task, parked⟩
  · obtain ⟨s', -, ran, -⟩ := taskOp_spec inv allowed
    exact ⟨s', ran⟩

/-- **The scheduler in any run** from `task_init` in which the `kmalloc` of every `task_create`
answers: its state is as it should be, and every call that may happen next returns.  It rests on the
invariant of the queues (`taskRun_inv`): the ring stays whole since a new record is a new address,
and a task keeps one sleeper slot since `schedule` leaves a task that has gone to sleep. -/
theorem scheduler_run {m : TaskMemory} (record : heapStart ≤ kmain ∧ kmain < heapEnd)
    {ops : List TaskOp}
    (run : Run (Guarded (fun _ op => op.RecordMade) (AnyTaskStep kmain)) (taskInit m kmain) ops s) :
    SchedulerOk kmain (kmain :: ops.flatMap TaskOp.created) s ∧
      ∀ op : TaskOp, op.Called kmain s → op.RecordMade → ∃ s', taskOp s op = some s' := by
  have made : Run (TaskStep kmain) (taskInit m kmain) ops s :=
    run.mono fun one => ⟨TaskOp.called_iff.mp ⟨one.1, one.2.1⟩, one.2.2⟩
  obtain ⟨ok, returns⟩ := taskRun_ok record made
  exact ⟨ok, fun op called made => returns op (TaskOp.called_iff.mp ⟨made, called⟩)⟩

/-! ## A run -/

instance (kmain : Nat) (s : Sched) (op : TaskOp) : Decidable (op.Allowed kmain s) := by
  unfold TaskOp.Allowed
  cases op <;> infer_instance

/-- The calls of a list, one after the other, as long as they may happen. -/
def taskOps (kmain : Nat) : List TaskOp → Sched → Option Sched
  | [], s => some s
  | op :: ops, s =>
      if op.Allowed kmain s then (taskOp s op).bind (taskOps kmain ops) else none

theorem taskOps_run {ops : List TaskOp} (done : taskOps kmain ops s = some s') :
    Run (TaskStep kmain) s ops s' := by
  induction ops generalizing s with
  | nil => exact Option.some.inj done ▸ .nil s
  | cons op ops ih =>
      rw [taskOps] at done
      split at done
      case isTrue allowed =>
        obtain ⟨t, ran, rest⟩ := Option.bind_eq_some_iff.mp done
        exact .cons ⟨allowed, ran⟩ (ih rest)
      case isFalse => cases done

/-- Two tasks, of which one sleeps and one waits. -/
theorem scheduler_run_two :
    ∃ s, Run (Guarded (fun _ op => op.RecordMade) (AnyTaskStep heapStart))
        (taskInit (fun _ => ⟨0, .ready, 0, 0, 0⟩) heapStart)
        [.create (heapStart + 64), .fork (heapStart + 128) true, .schedule, .sleep 20,
          .block .childExit, .tick, .wakeAll .childExit, .kill 1] s ∧
      SchedulerOk heapStart [heapStart, heapStart + 64, heapStart + 128] s := by
  have goes : (taskOps heapStart [.create (heapStart + 64), .fork (heapStart + 128) true,
      .schedule, .sleep 20, .block .childExit, .tick, .wakeAll .childExit, .kill 1]
      (taskInit (fun _ => ⟨0, .ready, 0, 0, 0⟩) heapStart)).isSome = true := by decide +kernel
  obtain ⟨s, done⟩ := Option.isSome_iff_exists.mp goes
  have run : Run (Guarded (fun _ op => op.RecordMade) (AnyTaskStep heapStart)) _ _ s :=
    (taskOps_run done).mono fun one =>
      have both := TaskOp.called_iff.mpr one.1
      ⟨both.1, both.2, one.2⟩
  exact ⟨s, run, (scheduler_run (by decide) run).1⟩

/-! ## A record that is not made -/

/-- Two failures of `kmalloc` give two tasks one record, and the ring leads past `kmain`; after one,
the task at address 0 does not leave the processor when it sleeps, and takes a slot each time. -/
theorem records_at_zero :
    (∃ s, Run (AnyTaskStep heapStart) (taskInit (fun _ => ⟨0, .ready, 0, 0, 0⟩) heapStart)
        [.create 0, .create 0] s ∧ ¬ ∃ l, LinkRing (fun t => (s.task t).next) s.current l) ∧
      ∃ s, Run (AnyTaskStep heapStart) (taskInit (fun _ => ⟨0, .ready, 0, 0, 0⟩) heapStart)
        [.create 0, .schedule, .sleep 10, .sleep 10] s ∧
        (s.sleepers 0).used = true ∧ (s.sleepers 1).used = true ∧
          (s.sleepers 0).task = (s.sleepers 1).task := by
  refine ⟨⟨_, .cons ⟨.inl rfl, rfl⟩ (.single ⟨.inl rfl, rfl⟩), ?_⟩,
    _, .cons ⟨.inl rfl, rfl⟩ (.cons ⟨trivial, rfl⟩ (.cons ⟨?_, rfl⟩ (.single ⟨?_, rfl⟩))),
      rfl, rfl, rfl⟩
  · rintro ⟨l, ring⟩
    exact LinkChain.not_of_fixed (by decide) (by decide) ring
  · change Sched.current _ ≠ heapStart
    decide
  · change Sched.current _ ≠ heapStart
    decide

end Flyos
