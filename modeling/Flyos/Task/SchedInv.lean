import Flyos.Lib.LinkQueue
import Flyos.Task.Sched

/-!
# The invariant of the scheduler

`SchedCore kmain s lists` says that the task records form one ring, that every wait queue
`q` is an intrusive queue holding `lists q`, and that waiting and sleeping tasks are
blocked or dead, each in one place.  `SchedInv` adds that the current task waits nowhere.
Between `task_block` putting the current task in a queue and `schedule` leaving it only
the core holds; that `schedule` does leave it rests on `kmain`, which is ready whenever it
is not current.
-/

namespace Flyos

namespace TaskMemory

variable (m : TaskMemory) (t v x : Nat) (w : TaskState)

theorem setState_apply :
    m.setState t w x = { m x with state := if x = t then w else (m x).state } := by
  unfold setState
  by_cases same : x = t
  · subst same
    rw [Function.update_self, if_pos rfl]
  · rw [Function.update_of_ne same, if_neg same]

theorem setNext_apply : m.setNext t v x = { m x with next := if x = t then v else (m x).next } := by
  unfold setNext
  by_cases same : x = t
  · subst same
    rw [Function.update_self, if_pos rfl]
  · rw [Function.update_of_ne same, if_neg same]

theorem setWqNext_apply :
    m.setWqNext t v x = { m x with wqNext := if x = t then v else (m x).wqNext } := by
  unfold setWqNext
  by_cases same : x = t
  · subst same
    rw [Function.update_self, if_pos rfl]
  · rw [Function.update_of_ne same, if_neg same]

end TaskMemory

/-- The records after `task_block` up to `schedule`: the current task is blocked, and only
its queue field and that of the old tail differ. -/
theorem Sched.enqueue_task (s : Sched) (q : WaitQueueId) (x : Nat) :
    (s.enqueue q).task x =
      { s.task.setState s.current .blocked x with
        wqNext := if (s.wq q).tail ≠ 0 ∧ x = (s.wq q).tail then s.current
          else if x = s.current then 0 else (s.task x).wqNext } := by
  simp only [Sched.enqueue]
  by_cases empty : (s.wq q).tail = 0
  · simp [empty, TaskMemory.setWqNext_apply, TaskMemory.setState_apply]
  · simp [empty, TaskMemory.setWqNext_apply, TaskMemory.setState_apply]

/-- The records after `wait_queue_wake_one` of a queue that is not empty. -/
theorem waitQueueWakeOne_task {s : Sched} {q : WaitQueueId} (some : (s.wq q).head ≠ 0) (x : Nat) :
    (waitQueueWakeOne s q).task x =
      { s.task x with
        state := if x = (s.wq q).head ∧ (s.task (s.wq q).head).state = .blocked then .ready
          else (s.task x).state
        wqNext := if x = (s.wq q).head then 0 else (s.task x).wqNext } := by
  simp only [waitQueueWakeOne, if_neg some, TaskMemory.setWqNext_apply]
  by_cases blocked : (s.task (s.wq q).head).state = .blocked
  · simp [blocked, TaskMemory.setWqNext_apply, TaskMemory.setState_apply]
  · simp [blocked, TaskMemory.setWqNext_apply]

/-- The variables that `wait_queue_wake_one` leaves alone. -/
theorem waitQueueWakeOne_fields (s : Sched) (q : WaitQueueId) :
    (waitQueueWakeOne s q).tasks = s.tasks ∧ (waitQueueWakeOne s q).current = s.current ∧
      (waitQueueWakeOne s q).sleepers = s.sleepers ∧
      (waitQueueWakeOne s q).semCount = s.semCount ∧
      (waitQueueWakeOne s q).semUsed = s.semUsed ∧
      (waitQueueWakeOne s q).halted = s.halted := by
  simp only [waitQueueWakeOne]
  split <;> exact ⟨rfl, rfl, rfl, rfl, rfl, rfl⟩

/-- The records after a switch. -/
theorem Sched.switchTo_task (s : Sched) (n x : Nat) :
    (s.switchTo n).task x =
      { s.task x with
        state := if x = n then .running
          else if x = s.current ∧ (s.task s.current).state = .running then .ready
          else (s.task x).state } := by
  simp only [Sched.switchTo]
  by_cases runs : (s.task s.current).state = .running
  · simp [runs, TaskMemory.setState_apply]
  · simp [runs, TaskMemory.setState_apply]

/-- The task waits, or never runs again. -/
def Task.Parked (t : Task) : Prop := t.state = .blocked ∨ t.state = .dead

/-- The wait queues as lists. -/
abbrev Queues := WaitQueueId → List Nat

/-- The shape of the task records, the ring and the queues. -/
structure SchedCore (kmain : Nat) (s : Sched) (lists : Queues) : Prop where
  nodup : s.tasks.Nodup
  heap : ∀ t ∈ s.tasks, heapStart ≤ t ∧ t < heapEnd
  idle : kmain ∈ s.tasks
  idle_id : (s.task kmain).id = 0
  idle_state : (s.task kmain).state = if s.current = kmain then .running else .ready
  current : s.current ∈ s.tasks
  ring : ∃ l, LinkRing (fun t => (s.task t).next) s.current l ∧
    ∀ t, t ∈ s.tasks ↔ t = s.current ∨ t ∈ l
  queue : ∀ q, LinkQueue (fun t => (s.task t).wqNext) 0 (s.wq q).head (s.wq q).tail (lists q)
  apart : ∀ q q' t, t ∈ lists q → t ∈ lists q' → q = q'
  queued : ∀ q, ∀ t ∈ lists q, t ∈ s.tasks ∧ (s.task t).Parked
  asleep : ∀ i, (s.sleepers i).used = true → (s.sleepers i).task ∈ s.tasks ∧
    (s.task (s.sleepers i).task).Parked ∧ ∀ q, (s.sleepers i).task ∉ lists q
  slots : ∀ i j, (s.sleepers i).used = true → (s.sleepers j).used = true →
    (s.sleepers i).task = (s.sleepers j).task → i = j

/-- The invariant: besides, the current task waits nowhere. -/
structure SchedInv (kmain : Nat) (s : Sched) (lists : Queues) : Prop
    extends SchedCore kmain s lists where
  free : ∀ q, s.current ∉ lists q
  awake : ∀ i, (s.sleepers i).used = true → (s.sleepers i).task ≠ s.current

namespace SchedCore

variable {kmain : Nat} {s s' : Sched} {lists : Queues}

/-- The other variables do not matter. -/
theorem congr (core : SchedCore kmain s lists) (tasks : s'.tasks = s.tasks)
    (task : s'.task = s.task) (current : s'.current = s.current)
    (sleepers : s'.sleepers = s.sleepers) (wq : s'.wq = s.wq) : SchedCore kmain s' lists := by
  cases s
  cases s'
  dsimp only at tasks task current sleepers wq
  subst tasks task current sleepers wq
  exact ⟨core.nodup, core.heap, core.idle, core.idle_id, core.idle_state, core.current, core.ring,
    core.queue, core.apart, core.queued, core.asleep, core.slots⟩

theorem ne_zero (core : SchedCore kmain s lists) {t : Nat} (mem : t ∈ s.tasks) : t ≠ 0 := by
  rintro rfl
  exact absurd (core.heap 0 mem).1 (by decide)

/-- `kmain` is not parked. -/
theorem not_parked (core : SchedCore kmain s lists) : ¬ (s.task kmain).Parked := by
  rw [Task.Parked, core.idle_state]
  split <;> simp

/-- A waiting task is not `kmain`. -/
theorem queued_ne (core : SchedCore kmain s lists) {q : WaitQueueId} {t : Nat}
    (mem : t ∈ lists q) : t ≠ kmain := by
  rintro rfl
  exact core.not_parked (core.queued q t mem).2

/-- When `kmain` is current the core is all there is to show. -/
theorem inv_of_idle (core : SchedCore kmain s lists) (idle : s.current = kmain) :
    SchedInv kmain s lists := by
  refine ⟨core, fun q mem => core.queued_ne mem idle, fun i used same => ?_⟩
  have parked := (core.asleep i used).2.1
  rw [same, idle] at parked
  exact core.not_parked parked

/-- Changing the state of a task: any task but `kmain` may be parked, and one that waits
nowhere may get any state. -/
theorem setState (core : SchedCore kmain s lists) {t : Nat} {v : TaskState} (other : t ≠ kmain)
    (fits : (v = .blocked ∨ v = .dead) ∨
      (∀ q, t ∉ lists q) ∧ ∀ i, (s.sleepers i).used = true → (s.sleepers i).task ≠ t) :
    SchedCore kmain { s with task := s.task.setState t v } lists := by
  have parked : ∀ x, (s.task x).Parked → (x = t → v = .blocked ∨ v = .dead) →
      (s.task.setState t v x).Parked := by
    intro x old new
    rw [Task.Parked, TaskMemory.setState_apply]
    dsimp only
    split
    case isTrue same => exact new same
    case isFalse => exact old
  refine ⟨core.nodup, core.heap, core.idle, ?_, ?_, core.current, ?_, ?_, core.apart, ?_, ?_,
    core.slots⟩
  · simpa only [TaskMemory.setState_apply] using core.idle_id
  · simpa only [TaskMemory.setState_apply, if_neg other.symm] using core.idle_state
  · simpa only [TaskMemory.setState_apply] using core.ring
  · simpa only [TaskMemory.setState_apply] using core.queue
  · intro q x mem
    obtain ⟨task, old⟩ := core.queued q x mem
    refine ⟨task, parked x old fun same => ?_⟩
    exact fits.elim id fun nowhere => absurd (same ▸ mem) (nowhere.1 q)
  · intro i used
    obtain ⟨task, old, out⟩ := core.asleep i used
    refine ⟨task, parked _ old fun same => ?_, out⟩
    exact fits.elim id fun nowhere => absurd same (nowhere.2 i used)

end SchedCore

namespace SchedInv

variable {kmain : Nat} {s s' : Sched} {lists : Queues}

/-- The other variables do not matter. -/
theorem congr (inv : SchedInv kmain s lists) (tasks : s'.tasks = s.tasks)
    (task : s'.task = s.task) (current : s'.current = s.current)
    (sleepers : s'.sleepers = s.sleepers) (wq : s'.wq = s.wq) : SchedInv kmain s' lists :=
  ⟨inv.toSchedCore.congr tasks task current sleepers wq, by rw [current]; exact inv.free,
    by rw [current, sleepers]; exact inv.awake⟩

/-- A task in a queue is not the current one. -/
theorem ne_current (inv : SchedInv kmain s lists) {q : WaitQueueId} {t : Nat}
    (mem : t ∈ lists q) : t ≠ s.current := fun same => inv.free q (same ▸ mem)

/-- **Joining a queue.** -/
theorem enqueue (inv : SchedInv kmain s lists) (busy : s.current ≠ kmain) (q : WaitQueueId) :
    SchedCore kmain (s.enqueue q) (Function.update lists q (lists q ++ [s.current])) := by
  have core := inv.toSchedCore.setState busy (v := .blocked) (.inl (.inl rfl))
  have record := s.enqueue_task q
  have parked : ∀ x, (s.task.setState s.current .blocked x).Parked →
      ((s.enqueue q).task x).Parked := by
    intro x old
    rw [record]
    exact old
  have mem_lists : ∀ q' x, x ∈ Function.update lists q (lists q ++ [s.current]) q' →
      x ∈ lists q' ∨ q' = q ∧ x = s.current := by
    intro q' x mem
    by_cases same : q' = q
    · subst same
      rw [Function.update_self, List.mem_append, List.mem_singleton] at mem
      exact mem.imp id fun eq => ⟨rfl, eq⟩
    · rw [Function.update_of_ne same] at mem
      exact .inl mem
  refine ⟨core.nodup, core.heap, core.idle, ?_, ?_, core.current, ?_, ?_, ?_, ?_, ?_, core.slots⟩
  · rw [record]
    exact core.idle_id
  · rw [record]
    exact core.idle_state
  · simp only [record]
    exact core.ring
  · intro q'
    by_cases same : q' = q
    · subst same
      have wq : (s.enqueue q').wq q' =
          ⟨if (s.wq q').tail ≠ 0 then (s.wq q').head else s.current, s.current⟩ :=
        Function.update_self _ _ _
      rw [Function.update_self, wq]
      refine (inv.queue q').push (inv.free q') (inv.ne_zero inv.current) ?_ ?_ ?_
      · rw [record]
        refine (if_neg ?_).trans (if_pos rfl)
        rintro ⟨some, eq⟩
        exact inv.free q' (eq ▸ (inv.queue q').tail_mem some)
      · intro some
        rw [record]
        exact if_pos ⟨some, rfl⟩
      · intro x mem tail
        rw [record]
        exact (if_neg fun h => tail h.2).trans (if_neg (inv.ne_current mem))
    · have wq : (s.enqueue q).wq q' = s.wq q' := Function.update_of_ne same _ _
      rw [Function.update_of_ne same, wq]
      refine (inv.queue q').congr fun x mem => ?_
      rw [record]
      refine (Eq.trans (if_neg ?_) (if_neg (inv.ne_current mem))).symm
      -- the old tail of `q` is in `q` and in no other queue
      rintro ⟨some, eq⟩
      exact same (inv.apart q' q x mem (eq ▸ (inv.queue q).tail_mem some))
  · intro q₁ q₂ x mem₁ mem₂
    rcases mem_lists q₁ x mem₁ with old₁ | ⟨rfl, new₁⟩
    · rcases mem_lists q₂ x mem₂ with old₂ | ⟨rfl, new₂⟩
      · exact inv.apart q₁ q₂ x old₁ old₂
      · exact absurd (new₂ ▸ old₁) (inv.free q₁)
    · rcases mem_lists q₂ x mem₂ with old₂ | ⟨rfl, -⟩
      · exact absurd (new₁ ▸ old₂) (inv.free q₂)
      · rfl
  · intro q' x mem
    rcases mem_lists q' x mem with old | ⟨-, rfl⟩
    · obtain ⟨task, park⟩ := core.queued q' x old
      exact ⟨task, parked x park⟩
    · exact ⟨inv.current, parked _ (.inl (by rw [TaskMemory.setState_apply]; exact if_pos rfl))⟩
  · intro i used
    obtain ⟨task, park, out⟩ := core.asleep i used
    refine ⟨task, parked _ park, fun q' mem => ?_⟩
    rcases mem_lists q' _ mem with old | ⟨-, same⟩
    · exact out q' old
    · exact inv.awake i used same

/-- **Waking the first of a queue.**  A task that was killed in the meantime leaves the queue
all the same. -/
theorem wakeOne (inv : SchedInv kmain s lists) (q : WaitQueueId) :
    SchedInv kmain (waitQueueWakeOne s q) (Function.update lists q (lists q).tail) := by
  by_cases empty : (s.wq q).head = 0
  · have nil : lists q = [] := by
      have queue := inv.queue q
      rw [empty] at queue
      exact queue.eq_nil
    rw [waitQueueWakeOne, if_pos empty, nil, List.tail_nil, ← nil, Function.update_eq_self]
    exact inv
  obtain ⟨rest, split⟩ := (inv.queue q).exists_cons empty
  have record := waitQueueWakeOne_task empty
  obtain ⟨tasks, current, sleepers, -⟩ := waitQueueWakeOne_fields s q
  generalize first : (s.wq q).head = t at empty split record
  have mem : t ∈ lists q := by rw [split]; exact List.mem_cons_self
  have nodup := (inv.queue q).chain.nodup
  rw [split] at nodup
  have notMem := (List.nodup_cons.mp nodup).1
  have mem_lists : ∀ q' x, x ∈ Function.update lists q (lists q).tail q' →
      x ∈ lists q' ∧ x ≠ t := by
    intro q' x later
    by_cases same : q' = q
    · subst same
      rw [Function.update_self, split, List.tail_cons] at later
      refine ⟨by rw [split]; exact List.mem_cons_of_mem _ later, ?_⟩
      rintro rfl
      exact notMem later
    · rw [Function.update_of_ne same] at later
      refine ⟨later, ?_⟩
      rintro rfl
      exact same (inv.apart q' q x later mem)
  have parked : ∀ x, x ≠ t → (s.task x).Parked → ((waitQueueWakeOne s q).task x).Parked := by
    intro x other old
    rw [record]
    refine old.imp (fun state => ?_) fun state => ?_ <;>
      exact (if_neg fun h => other h.1).trans state
  have other : kmain ≠ t := (inv.queued_ne mem).symm
  refine ⟨⟨by rw [tasks]; exact inv.nodup, by rw [tasks]; exact inv.heap,
    by rw [tasks]; exact inv.idle, ?_, ?_, by rw [tasks, current]; exact inv.current, ?_, ?_, ?_,
    ?_, ?_, by rw [sleepers]; exact inv.slots⟩, ?_, by rw [sleepers, current]; exact inv.awake⟩
  · rw [record]
    exact inv.idle_id
  · rw [record, current]
    exact (if_neg fun h => other h.1).trans inv.idle_state
  · simpa only [record, tasks, current] using inv.ring
  · intro q'
    by_cases same : q' = q
    · subst same
      have wq : (waitQueueWakeOne s q').wq q' =
          ⟨(s.task t).wqNext, if (s.task t).wqNext = 0 then 0 else (s.wq q').tail⟩ := by
        rw [waitQueueWakeOne, first, if_neg empty]
        exact Function.update_self _ _ _
      have queue := inv.queue q'
      rw [split] at queue
      rw [Function.update_self, wq, split, List.tail_cons]
      refine queue.pop fun x later => ?_
      rw [record]
      refine (if_neg ?_).symm
      rintro rfl
      exact notMem later
    · have wq : (waitQueueWakeOne s q).wq q' = s.wq q' := by
        rw [waitQueueWakeOne, first, if_neg empty]
        exact Function.update_of_ne same _ _
      rw [Function.update_of_ne same, wq]
      refine (inv.queue q').congr fun x later => ?_
      rw [record]
      refine (if_neg ?_).symm
      rintro rfl
      exact same (inv.apart q' q x later mem)
  · intro q₁ q₂ x mem₁ mem₂
    exact inv.apart q₁ q₂ x (mem_lists q₁ x mem₁).1 (mem_lists q₂ x mem₂).1
  · intro q' x later
    obtain ⟨old, other⟩ := mem_lists q' x later
    rw [tasks]
    exact ⟨(inv.queued q' x old).1, parked x other (inv.queued q' x old).2⟩
  · intro i used
    rw [sleepers] at used ⊢
    obtain ⟨task, park, out⟩ := inv.asleep i used
    rw [tasks]
    refine ⟨task, parked _ (fun same => out q (same ▸ mem)) park, fun q' later => ?_⟩
    exact out q' (mem_lists q' _ later).1
  · intro q' later
    rw [current] at later
    exact inv.free q' (mem_lists q' _ later).1

end SchedInv

end Flyos
