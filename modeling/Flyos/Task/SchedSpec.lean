import Flyos.Task.SchedInv
import Mathlib.Data.List.Perm.Subperm

/-!
# What the scheduler's functions do

One lemma for each function of `task.c` that keeps the invariant, with its effect on the
queues and a `Frame`: no task dies, and a dead one stays dead unless it is the current
task, which may block.
-/

namespace Flyos

/-- What the scheduler and the wait queues leave alone. -/
structure Frame (s s' : Sched) : Prop where
  tasks : s'.tasks = s.tasks
  parent : ∀ t, (s'.task t).parent = (s.task t).parent
  ids : ∀ t, (s'.task t).id = (s.task t).id
  dead : ∀ t, t ≠ s.current → ((s'.task t).state = .dead ↔ (s.task t).state = .dead)
  alive : (s'.task s.current).state = .dead → (s.task s.current).state = .dead
  moved : s'.current ≠ s.current → s'.current ∈ s.tasks ∧ (s.task s'.current).state ≠ .dead
  semCount : s'.semCount = s.semCount
  semUsed : s'.semUsed = s.semUsed
  halted : s'.halted = s.halted

namespace Frame

variable {s s' s'' : Sched}

theorem refl (s : Sched) : Frame s s :=
  ⟨rfl, fun _ => rfl, fun _ => rfl, fun _ _ => Iff.rfl, id, fun no => absurd rfl no, rfl, rfl, rfl⟩

/-- Frames compose while the current task stays. -/
theorem trans (f : Frame s s') (still : s'.current = s.current) (g : Frame s' s'') :
    Frame s s'' := by
  have dead : ∀ t, t ≠ s.current → ((s''.task t).state = .dead ↔ (s.task t).state = .dead) :=
    fun t other => (g.dead t (still ▸ other)).trans (f.dead t other)
  refine ⟨g.tasks.trans f.tasks, fun t => (g.parent t).trans (f.parent t),
    fun t => (g.ids t).trans (f.ids t), dead, fun gone => ?_, fun moves => ?_,
    g.semCount.trans f.semCount, g.semUsed.trans f.semUsed, g.halted.trans f.halted⟩
  · have before := g.alive (by rw [still]; exact gone)
    rw [still] at before
    exact f.alive before
  · obtain ⟨task, state⟩ := g.moved (by rw [still]; exact moves)
    rw [f.tasks] at task
    exact ⟨task, fun gone => state ((f.dead _ moves).mpr gone)⟩

/-- Only variables outside the frame differ. -/
theorem of_eq (tasks : s'.tasks = s.tasks) (task : s'.task = s.task)
    (current : s'.current = s.current) (semCount : s'.semCount = s.semCount)
    (semUsed : s'.semUsed = s.semUsed) (halted : s'.halted = s.halted) : Frame s s' :=
  ⟨tasks, fun _ => by rw [task], fun _ => by rw [task], fun _ _ => by rw [task],
    fun gone => by rwa [task] at gone, fun moves => absurd current moves, semCount, semUsed, halted⟩

end Frame

variable {kmain : Nat} {s : Sched} {lists : Queues}

/-! ## Switching -/

/-- The search over the ring finds the first ready task of `l`, or is back at `c`. -/
theorem findReady_spec {m : TaskMemory} {c x : Nat} {l : List Nat} {fuel : Nat}
    (chain : LinkChain (fun t => (m t).next) (· = c) (m x).next l) (enough : l.length < fuel) :
    findReady m c fuel x = some ((l.find? fun t => (m t).state = .ready).getD c) := by
  induction l generalizing x fuel with
  | nil =>
      obtain ⟨fuel, rfl⟩ : ∃ n, fuel = n + 1 := ⟨fuel - 1, by simp at enough; omega⟩
      have back : (m x).next = c := chain
      simp [findReady, back]
  | cons y l ih =>
      obtain ⟨fuel, rfl⟩ : ∃ n, fuel = n + 1 := ⟨fuel - 1, by simp at enough; omega⟩
      obtain ⟨first, other, rest⟩ := chain
      rw [← first] at other rest
      rw [findReady, ← first, List.find?_cons]
      by_cases ready : (m y).state = .ready
      · simp [ready]
      · simp only [ready, if_false, decide_false]
        rw [if_pos other]
        exact ih rest (by simp at enough; omega)

/-- Switching to a ready task. -/
theorem SchedCore.switchTo (core : SchedCore kmain s lists) {n : Nat} (task : n ∈ s.tasks)
    (other : n ≠ s.current) (ready : (s.task n).state = .ready) :
    SchedInv kmain (s.switchTo n) lists ∧ Frame s (s.switchTo n) ∧
      ∀ x, ((s.switchTo n).task x).state = .dead ↔ (s.task x).state = .dead := by
  have record := s.switchTo_task n
  have not_parked : ¬ (s.task n).Parked := by
    rw [Task.Parked, ready]
    simp
  have parked : ∀ x, (s.task x).Parked → ((s.switchTo n).task x).Parked := by
    intro x old
    have same : ((s.switchTo n).task x).state = (s.task x).state := by
      rw [record]
      refine (if_neg ?_).trans (if_neg ?_)
      · rintro rfl
        exact not_parked old
      · rintro ⟨rfl, runs⟩
        rw [Task.Parked, runs] at old
        simp at old
    rw [Task.Parked, same]
    exact old
  have dead : ∀ x, ((s.switchTo n).task x).state = .dead ↔ (s.task x).state = .dead := by
    intro x
    rw [record]
    dsimp only
    split
    case isTrue same => simp [same, ready]
    case isFalse =>
      split
      case isTrue runs => simp [runs.1, runs.2]
      case isFalse => rfl
  obtain ⟨l, ring, all⟩ := core.ring
  have mem : n ∈ l := ((all n).mp task).resolve_left other
  obtain ⟨before, after, rfl⟩ := List.append_of_mem mem
  refine ⟨⟨⟨core.nodup, core.heap, core.idle, ?_, ?_, task, ?_, ?_, core.apart, ?_, ?_, core.slots⟩,
    ?_, ?_⟩, ⟨rfl, fun t => by rw [record], fun t => by rw [record], fun t _ => dead t,
    (dead s.current).mp, fun _ => ⟨task, ?_⟩, rfl, rfl, rfl⟩, dead⟩
  · rw [record]
    exact core.idle_id
  · rw [record]
    have idle := core.idle_state
    change (if kmain = n then _ else _) = if n = kmain then TaskState.running else .ready
    by_cases same : kmain = n
    · rw [if_pos same, if_pos same.symm]
    · rw [if_neg same, if_neg (Ne.symm same)]
      by_cases here : s.current = kmain
      · rw [if_pos here] at idle
        rw [here, if_pos ⟨rfl, idle⟩]
      · rw [if_neg here] at idle
        rw [if_neg fun h => here h.1.symm, idle]
  · refine ⟨after ++ s.current :: before, ?_, fun t => ?_⟩
    · simp only [record]
      exact ring.rotate
    · change t ∈ s.tasks ↔ t = n ∨ t ∈ after ++ s.current :: before
      rw [all t]
      simp only [List.mem_append, List.mem_cons]
      tauto
  · simp only [record]
    exact core.queue
  · intro q x mem
    exact ⟨(core.queued q x mem).1, parked x (core.queued q x mem).2⟩
  · intro i used
    obtain ⟨mem, park, out⟩ := core.asleep i used
    exact ⟨mem, parked _ park, out⟩
  · intro q mem
    exact not_parked (core.queued q n mem).2
  · intro i used same
    have park := (core.asleep i used).2.1
    have sleeps : (s.sleepers i).task = n := same
    rw [sleeps] at park
    exact not_parked park
  · change (s.task n).state ≠ .dead
    rw [ready]
    decide

/-- **`schedule`** switches to a ready task; it stays at `kmain` when there is none, and never
at another task. -/
theorem schedule_spec (core : SchedCore kmain s lists) :
    ∃ s', schedule s = some s' ∧ SchedInv kmain s' lists ∧ Frame s s' ∧
      (s'.current = s.current → s.current = kmain) ∧
      ∀ t, (s'.task t).state = .dead ↔ (s.task t).state = .dead := by
  obtain ⟨l, ring, all⟩ := core.ring
  have few : l.length < s.tasks.length + 1 := by
    have sub : l ⊆ s.tasks := fun t mem => (all t).mpr (.inr mem)
    exact Nat.lt_succ_of_le (List.subperm_of_subset ring.nodup sub).length_le
  rw [schedule, if_neg (core.ne_zero core.current), findReady_spec ring few, Option.map_some]
  cases found : l.find? fun t => (s.task t).state = .ready with
  | none =>
      have idle : s.current = kmain := by
        by_contra busy
        have mem : kmain ∈ l := ((all kmain).mp core.idle).resolve_left (Ne.symm busy)
        have ready := core.idle_state
        rw [if_neg busy] at ready
        exact absurd ready (by simpa using List.find?_eq_none.mp found kmain mem)
      rw [Option.getD_none, if_pos rfl]
      exact ⟨s, rfl, core.inv_of_idle idle, .refl s, fun _ => idle, fun _ => Iff.rfl⟩
  | some n =>
      have ready : (s.task n).state = .ready := by simpa using List.find?_some found
      have mem : n ∈ l := List.mem_of_find?_eq_some found
      have other : n ≠ s.current := fun same => ring.notMem (same ▸ mem)
      obtain ⟨inv, frame, deaths⟩ := core.switchTo ((all n).mpr (.inr mem)) other ready
      rw [Option.getD_some, if_neg other]
      exact ⟨_, rfl, inv, frame, fun same => absurd same other, deaths⟩

/-! ## Blocking and waking -/

namespace SchedInv

/-- `task_block` up to `schedule` changes the state of the current task only. -/
theorem enqueue_frame (s : Sched) (q : WaitQueueId) : Frame s (s.enqueue q) := by
  have record : ∀ x, ((s.enqueue q).task x).parent = (s.task x).parent ∧
      ((s.enqueue q).task x).id = (s.task x).id ∧
      ((s.enqueue q).task x).state = if x = s.current then .blocked else (s.task x).state := by
    intro x
    simp only [Sched.enqueue]
    split <;> simp [TaskMemory.setWqNext_apply, TaskMemory.setState_apply]
  refine ⟨rfl, fun t => (record t).1, fun t => (record t).2.1, fun t other => ?_, fun gone => ?_,
    fun moves => absurd rfl moves, rfl, rfl, rfl⟩
  · rw [(record t).2.2, if_neg other]
  · rw [(record s.current).2.2, if_pos rfl] at gone
    cases gone

/-- **`task_block`** leaves the current task at the end of the queue and runs another. -/
theorem taskBlock (inv : SchedInv kmain s lists) (busy : s.current ≠ kmain) (q : WaitQueueId) :
    ∃ s', taskBlock s q = some s' ∧
      SchedInv kmain s' (Function.update lists q (lists q ++ [s.current])) ∧ Frame s s' ∧
      s'.current ≠ s.current := by
  obtain ⟨s', ran, inv', frame, stays, -⟩ := schedule_spec (inv.enqueue busy q)
  rw [Flyos.taskBlock, if_neg (inv.ne_zero inv.current)]
  exact ⟨s', ran, inv', (enqueue_frame s q).trans rfl frame, fun same => busy (stays same)⟩

/-- `wait_queue_wake_one` makes a blocked task ready. -/
theorem wakeOne_frame (s : Sched) (q : WaitQueueId) : Frame s (waitQueueWakeOne s q) := by
  by_cases empty : (s.wq q).head = 0
  · rw [waitQueueWakeOne, if_pos empty]
    exact .refl s
  have record := waitQueueWakeOne_task empty
  obtain ⟨tasks, current, -, semCount, semUsed, halted⟩ := waitQueueWakeOne_fields s q
  have dead : ∀ x, ((waitQueueWakeOne s q).task x).state = .dead ↔ (s.task x).state = .dead := by
    intro x
    rw [record]
    dsimp only
    split
    case isTrue blocked => simp [blocked.1, blocked.2]
    case isFalse => rfl
  exact ⟨tasks, fun t => by rw [record], fun t => by rw [record], fun t _ => dead t,
    (dead s.current).mp, fun moves => absurd current moves, semCount, semUsed, halted⟩

/-- **`wait_queue_wake_all`** empties the queue. -/
theorem wakeAll (inv : SchedInv kmain s lists) (q : WaitQueueId) {fuel : Nat}
    (enough : (lists q).length < fuel) :
    ∃ s', waitQueueWakeAll q fuel s = some s' ∧
      SchedInv kmain s' (Function.update lists q []) ∧ Frame s s' ∧ s'.current = s.current := by
  induction fuel generalizing s lists with
  | zero => omega
  | succ fuel ih =>
      rw [waitQueueWakeAll]
      by_cases empty : (s.wq q).head = 0
      · have nil : lists q = [] := by
          have queue := inv.queue q
          rw [empty] at queue
          exact queue.eq_nil
        rw [if_neg (not_not.mpr empty), ← nil, Function.update_eq_self]
        exact ⟨s, rfl, inv, .refl s, rfl⟩
      · obtain ⟨rest, split⟩ := (inv.queue q).exists_cons empty
        have still := (waitQueueWakeOne_fields s q).2.1
        obtain ⟨s', ran, inv', frame, current⟩ := ih (inv.wakeOne q) (by
          rw [Function.update_self, split, List.tail_cons]
          rw [split, List.length_cons] at enough
          omega)
        rw [Function.update_idem] at inv'
        rw [if_pos empty]
        exact ⟨s', ran, inv', (wakeOne_frame s q).trans still frame, current.trans still⟩

/-- The tasks of a queue are among the tasks, each once. -/
theorem length_le (inv : SchedInv kmain s lists) (q : WaitQueueId) :
    (lists q).length ≤ s.tasks.length :=
  (List.subperm_of_subset (inv.queue q).chain.nodup fun t mem => (inv.queued q t mem).1).length_le

/-- `task_signal_child_exit`. -/
theorem signal (inv : SchedInv kmain s lists) :
    ∃ s', taskSignalChildExit s = some s' ∧
      SchedInv kmain s' (Function.update lists .childExit []) ∧ Frame s s' ∧
      s'.current = s.current :=
  inv.wakeAll .childExit (Nat.lt_succ_of_le (inv.length_le .childExit))

/-! ## Sleeping -/

/-- One slot of the timer: a task whose time has come is ready, and nothing waits for it. -/
theorem tickSleeper (inv : SchedInv kmain s lists) (i : Nat) :
    SchedInv kmain (tickSleeper s i) lists ∧ Frame s (tickSleeper s i) ∧
      (tickSleeper s i).current = s.current := by
  unfold Flyos.tickSleeper
  by_cases due : (s.sleepers i).used = true ∧ (s.sleepers i).wakeAt ≤ s.globalTick
  swap
  · dsimp only
    rw [if_neg due]
    exact ⟨inv, .refl s, rfl⟩
  dsimp only
  rw [if_pos due]
  obtain ⟨task, park, out⟩ := inv.asleep i due.1
  have other : (s.sleepers i).task ≠ kmain := fun same => inv.not_parked (same ▸ park)
  -- the slot is given up first; then nothing refers to its task
  have released : SchedInv kmain { s with
      sleepers := Function.update s.sleepers i { s.sleepers i with used := false } } lists := by
    have old : ∀ j, (Function.update s.sleepers i { s.sleepers i with used := false } j).used = true →
        j ≠ i ∧ (s.sleepers j).used = true ∧
        Function.update s.sleepers i { s.sleepers i with used := false } j = s.sleepers j := by
      intro j used
      by_cases same : j = i
      · subst same
        rw [Function.update_self] at used
        cases used
      · rw [Function.update_of_ne same] at used
        exact ⟨same, used, Function.update_of_ne same _ _⟩
    refine ⟨⟨inv.nodup, inv.heap, inv.idle, inv.idle_id, inv.idle_state, inv.current, inv.ring,
      inv.queue, inv.apart, inv.queued, fun j used => ?_, fun j k usedj usedk same => ?_⟩,
      inv.free, fun j used => ?_⟩
    · obtain ⟨-, was, eq⟩ := old j used
      change (Function.update s.sleepers i _ j).task ∈ s.tasks ∧ _
      dsimp only
      rw [eq]
      exact inv.asleep j was
    · obtain ⟨-, wasj, eqj⟩ := old j usedj
      obtain ⟨-, wask, eqk⟩ := old k usedk
      dsimp only at same
      rw [eqj, eqk] at same
      exact inv.slots j k wasj wask same
    · obtain ⟨-, was, eq⟩ := old j used
      dsimp only
      rw [eq]
      exact inv.awake j was
  have nowhere : ∀ j, (Function.update s.sleepers i
      { s.sleepers i with used := false } j).used = true →
      (Function.update s.sleepers i { s.sleepers i with used := false } j).task ≠
        (s.sleepers i).task := by
    intro j used same
    by_cases here : j = i
    · subst here
      rw [Function.update_self] at used
      cases used
    · rw [Function.update_of_ne here] at used same
      exact here (inv.slots j i used due.1 same)
  by_cases blocked : (s.task (s.sleepers i).task).state = .blocked
  · rw [if_pos blocked]
    have core := released.toSchedCore.setState other (v := .ready) (.inr ⟨out, nowhere⟩)
    have dead : ∀ x, (s.task.setState (s.sleepers i).task .ready x).state = .dead ↔
        (s.task x).state = .dead := by
      intro x
      rw [TaskMemory.setState_apply]
      dsimp only
      split
      case isTrue same => simp [same, blocked]
      case isFalse => rfl
    refine ⟨⟨core, released.free, released.awake⟩, ⟨rfl, fun t => ?_, fun t => ?_,
      fun t _ => dead t, (dead s.current).mp, fun moves => absurd rfl moves, rfl, rfl, rfl⟩, ?_⟩
    · simp only [TaskMemory.setState_apply]
    · simp only [TaskMemory.setState_apply]
    · rfl
  · rw [if_neg blocked]
    exact ⟨released, .of_eq rfl rfl rfl rfl rfl rfl, rfl⟩

/-- The timer's loop over the slots. -/
theorem tickSleepers (inv : SchedInv kmain s lists) (slots : List Nat) :
    SchedInv kmain (slots.foldl Flyos.tickSleeper s) lists ∧
      Frame s (slots.foldl Flyos.tickSleeper s) ∧
      (slots.foldl Flyos.tickSleeper s).current = s.current := by
  induction slots generalizing s with
  | nil => exact ⟨inv, .refl s, rfl⟩
  | cons i slots ih =>
      obtain ⟨inv₁, frame₁, still₁⟩ := inv.tickSleeper i
      obtain ⟨inv₂, frame₂, still₂⟩ := ih inv₁
      exact ⟨inv₂, frame₁.trans still₁ frame₂, still₂.trans still₁⟩

/-- **`scheduler_tick`.** -/
theorem tick (inv : SchedInv kmain s lists) :
    ∃ s', schedulerTick s = some s' ∧ SchedInv kmain s' lists ∧ Frame s s' := by
  have counted : SchedInv kmain { s with globalTick := (s.globalTick + 1) % 2 ^ 64 } lists :=
    inv.congr rfl rfl rfl rfl rfl
  have clock : Frame s { s with globalTick := (s.globalTick + 1) % 2 ^ 64 } :=
    .of_eq rfl rfl rfl rfl rfl rfl
  obtain ⟨inv₁, frame₁, still⟩ := counted.tickSleepers (List.range maxSleepers)
  have frame := clock.trans rfl frame₁
  rw [schedulerTick]
  generalize (List.range maxSleepers).foldl Flyos.tickSleeper
    { s with globalTick := (s.globalTick + 1) % 2 ^ 64 } = r at inv₁ frame still
  have still : r.current = s.current := still
  split
  case isTrue =>
    have reset : Frame r { r with tickInSlice := 0 } := .of_eq rfl rfl rfl rfl rfl rfl
    have core : SchedCore kmain { r with tickInSlice := 0 } lists :=
      inv₁.toSchedCore.congr rfl rfl rfl rfl rfl
    obtain ⟨s', ran, inv₂, frame₂, -⟩ := schedule_spec core
    exact ⟨s', ran, inv₂, frame.trans still (reset.trans rfl frame₂)⟩
  case isFalse =>
    have count : Frame r { r with tickInSlice := r.tickInSlice + 1 } :=
      .of_eq rfl rfl rfl rfl rfl rfl
    exact ⟨_, rfl, inv₁.congr rfl rfl rfl rfl rfl, frame.trans still count⟩

/-- **`task_sleep`** returns at once when all slots are in use, and else runs another task. -/
theorem sleep (inv : SchedInv kmain s lists) (busy : s.current ≠ kmain) (ms : Nat) :
    ∃ s', taskSleep s ms = some s' ∧ SchedInv kmain s' lists ∧ Frame s s' := by
  rw [taskSleep]
  split
  case h_1 => exact ⟨s, rfl, inv, .refl s⟩
  case h_2 slot found =>
    have unused : (s.sleepers slot).used = false := by simpa using List.find?_some found
    generalize until_eq : (s.globalTick + _) % 2 ^ 64 = wakeAt
    have core := inv.toSchedCore.setState busy (v := .blocked) (.inl (.inl rfl))
    have lookup : ∀ j, (Function.update s.sleepers slot ⟨s.current, wakeAt, true⟩ j).used = true →
        j = slot ∧ (Function.update s.sleepers slot ⟨s.current, wakeAt, true⟩ j).task = s.current ∨
        j ≠ slot ∧ (s.sleepers j).used = true ∧
          Function.update s.sleepers slot ⟨s.current, wakeAt, true⟩ j = s.sleepers j := by
      intro j used
      by_cases same : j = slot
      · subst same
        exact .inl ⟨rfl, by rw [Function.update_self]⟩
      · rw [Function.update_of_ne same] at used
        exact .inr ⟨same, used, Function.update_of_ne same _ _⟩
    have sleeping : SchedCore kmain { s with
        sleepers := Function.update s.sleepers slot ⟨s.current, wakeAt, true⟩
        task := s.task.setState s.current .blocked } lists := by
      refine ⟨core.nodup, core.heap, core.idle, core.idle_id, core.idle_state, core.current,
        core.ring, core.queue, core.apart, core.queued, fun j used => ?_,
        fun j k usedj usedk same => ?_⟩
      · dsimp only
        rcases lookup j used with ⟨-, eq⟩ | ⟨-, was, eq⟩
        · rw [eq]
          exact ⟨inv.current, .inl (by rw [TaskMemory.setState_apply]; exact if_pos rfl), inv.free⟩
        · rw [eq]
          exact core.asleep j was
      · dsimp only at same
        rcases lookup j usedj with ⟨rfl, eqj⟩ | ⟨-, wasj, eqj⟩
        · rcases lookup k usedk with ⟨rfl, -⟩ | ⟨-, wask, eqk⟩
          · rfl
          · rw [eqj, eqk] at same
            exact absurd same.symm (inv.awake k wask)
        · rcases lookup k usedk with ⟨rfl, eqk⟩ | ⟨-, wask, eqk⟩
          · rw [eqj, eqk] at same
            exact absurd same (inv.awake j wasj)
          · rw [eqj, eqk] at same
            exact inv.slots j k wasj wask same
    have frame : Frame s { s with
        sleepers := Function.update s.sleepers slot ⟨s.current, wakeAt, true⟩
        task := s.task.setState s.current .blocked } := by
      refine ⟨rfl, fun t => ?_, fun t => ?_, fun t other => ?_, fun gone => ?_,
        fun moves => absurd rfl moves, rfl, rfl, rfl⟩
      · simp only [TaskMemory.setState_apply]
      · simp only [TaskMemory.setState_apply]
      · simp only [TaskMemory.setState_apply, if_neg other]
      · simp [TaskMemory.setState_apply] at gone
    obtain ⟨s', ran, inv', frame', -⟩ := schedule_spec sleeping
    exact ⟨s', ran, inv', frame.trans rfl frame'⟩

end SchedInv

end Flyos
