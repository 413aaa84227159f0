import Flyos.Task.SchedRun

/-!
# Semaphores over whole runs

From boot, under every interleaving of calls and ticks: the wait queues are well formed
and as long as the counts say (`waitQueues_run`), a semaphore lets no more waits return
than it has permits (`sem_safety`), and a post wakes a live waiter unless a killed task
stands first in the queue (`semPost_wakes_iff`).
-/

namespace Flyos

/-- The wait queue `q` holds the tasks `l`, in order. -/
def Sched.Waiting (s : Sched) (q : WaitQueueId) (l : List Nat) : Prop :=
  LinkQueue (fun t => (s.task t).wqNext) 0 (s.wq q).head (s.wq q).tail l

/-- What a queue holds is determined by its links. -/
theorem Sched.Waiting.unique {s : Sched} {q : WaitQueueId} {l l' : List Nat} (h : s.Waiting q l)
    (h' : s.Waiting q l') : l = l' :=
  LinkChain.unique h.chain h'.chain

/-! ## The queues -/

/-- **The wait queues are in order**: every queue is a finite list from its head to its
tail, a task stands in one queue at most and once, and the queue of a semaphore in use is
as long as the count is below zero. -/
structure WaitQueuesOk (s : Sched) (lists : Queues) : Prop where
  waiting : ∀ q, s.Waiting q (lists q)
  nodup : ∀ q, (lists q).Nodup
  apart : ∀ q q' t, t ∈ lists q → t ∈ lists q' → q = q'
  length : ∀ i, s.semUsed i = true → ((lists (.sem i)).length : Int) = max 0 (-s.semCount i)

variable {m : TaskMemory} {kmain user : Nat} {sems : List (Int × Int)} {cs : List SchedCall}
  {g : Sys}

/-- No call initialises a semaphore. -/
theorem sysRun_semUsed (records : BootRecords kmain user)
    (run : Run (SysStep kmain) (.boot (schedBoot m kmain user sems)) cs g) :
    g.sched.semUsed = (schedBoot m kmain user sems).semUsed := by
  refine (run.invariant (fun g => (∃ lists, SysInv kmain (schedBoot m kmain user sems).semCount g
    lists) ∧ g.sched.semUsed = (schedBoot m kmain user sems).semUsed) ?_
    ⟨⟨_, sysBoot_inv m records sems⟩, rfl⟩).2
  rintro g c g' ⟨⟨lists, inv⟩, used⟩ step
  refine ⟨⟨_, step.inv inv⟩, ?_⟩
  obtain ⟨s', -, o, ran, -⟩ := inv.exec step.1
  obtain rfl := Option.some.inj (step.2.symm.trans ran)
  rw [Sys.resume_sched]
  exact o.semUsed.trans used

/-- **Wait queues over whole runs.**  In every state reached from boot the wait queues are in
order, and every call that can happen there returns — as long as the permits of a semaphore,
those it starts with and those posted, stay below `2 ^ 31`.  The queues are lists that the links
in memory represent: a call that blocks adds at the end, one that wakes takes from the front, and
the scheduler touches neither (`sysRun_inv`).  `task_create` takes for granted that `kmalloc` has
memory for the record of a spawned task, and so do the runs. -/
theorem waitQueues_run (records : BootRecords kmain user)
    (run : Run (SysStep kmain) (.boot (schedBoot m kmain user sems)) cs g)
    (permits : ∀ i, (schedBoot m kmain user sems).semUsed i = true →
      0 ≤ (schedBoot m kmain user sems).semCount i ∧
      (schedBoot m kmain user sems).semCount i + g.posts i < 2 ^ 31) :
    (∃ lists, WaitQueuesOk g.sched lists) ∧
      ∀ c, Enabled kmain g.sched c → ∃ s', schedExec g.sched c = some s' := by
  obtain ⟨lists, inv⟩ := sysRun_inv records run
  refine ⟨⟨lists, inv.inv.queue, fun q => (inv.inv.queue q).chain.nodup, inv.inv.apart,
    fun i used => ?_⟩, fun c enabled => ?_⟩
  · rw [sysRun_semUsed records run] at used
    obtain ⟨natural, few⟩ := permits i used
    exact (inv.sem i natural (inv.fits i natural few)).length
  · obtain ⟨s', ran, -⟩ := inv.exec enabled
    exact ⟨s', ran⟩

/-! ## The kernel's own boot -/

/-- The record of `kmain`. -/
def kmainRecord : Nat := heapStart + 0x20

/-- The record of the first task. -/
def userRecord : Nat := heapStart + 0x100

/-- The record of a task that is forked. -/
def childRecord : Nat := heapStart + 0x200

/-- The record of another one. -/
def otherRecord : Nat := heapStart + 0x300

/-- The kernel after boot. -/
def bootSys : Sys :=
  .boot (schedBoot (fun _ => ⟨0, .ready, 0, 0, 0⟩) kmainRecord userRecord kernelSems)

/-- A time slice passes. -/
def timeSlice : List SchedCall := List.replicate timeslice .tick

theorem bootRecords : BootRecords kmainRecord userRecord := by
  refine ⟨?_, ?_, ?_, ?_, ?_⟩ <;> decide

/-- The lock of the standard output is the only semaphore. -/
theorem bootSys_used {i : Nat} (used : bootSys.sched.semUsed i = true) : i = 0 := by
  by_contra other
  have unused : bootSys.sched.semUsed i = false := Function.update_of_ne other _ _
  rw [unused] at used
  cases used

/-- Two tasks wait for the lock that a third one holds. -/
theorem waitQueues_run_two :
    ∃ g, Run (SysStep kmainRecord) bootSys (timeSlice ++
        [.fork childRecord true, .fork otherRecord true, .semWait 0] ++ timeSlice ++
        [.semWait 0, .semWait 0]) g ∧
      (∃ lists, WaitQueuesOk g.sched lists) ∧
      ∀ c, Enabled kmainRecord g.sched c → ∃ s', schedExec g.sched c = some s' := by
  obtain ⟨g, run, posts⟩ : ∃ g, Run (SysStep kmainRecord) bootSys (timeSlice ++
      [.fork childRecord true, .fork otherRecord true, .semWait 0] ++ timeSlice ++
      [.semWait 0, .semWait 0]) g ∧ decide (g.posts 0 = 0) = true :=
    Sys.calls_any (by decide +kernel)
  refine ⟨g, run, waitQueues_run bootRecords run fun i used => ?_⟩
  obtain rfl := bootSys_used used
  rw [of_decide_eq_true posts]
  exact ⟨by decide, by decide⟩

/-- A task that may post the lock, while nobody waits for it. -/
structure Posting (g : Sys) (count : Int) (posts : Nat) : Prop where
  running : g.sched.halted = false
  busy : g.sched.current ≠ kmainRecord
  used : g.sched.semUsed 0 = true
  returned : g.pend g.sched.current = none
  empty : (g.sched.wq (.sem 0)).head = 0
  count : g.sched.semCount 0 = count
  posts : g.posts 0 = posts

/-- One post. -/
theorem Posting.step {count : Int} {posts : Nat} (h : Posting g count posts) :
    ∃ g', SysStep kmainRecord g (.semPost 0) g' ∧ Posting g' (int32 (count + 1)) (posts + 1) := by
  have index : g.sched.semIndex 0 = some 0 := by
    rw [Sched.semIndex, if_pos ⟨le_rfl, by decide, h.used⟩]
    rfl
  have ran : schedExec g.sched (.semPost 0) = some { g.sched with
      semCount := Function.update g.sched.semCount 0 (int32 (count + 1)) } := by
    rw [schedExec, semPost, index]
    dsimp only
    rw [waitQueueWakeOne, if_pos h.empty, ite_self, h.count]
  refine ⟨_, ⟨⟨h.running, h.busy, by decide, by decide⟩, by rw [Sys.exec, ran, Option.map_some]⟩, ?_⟩
  have stays : Sys.resume { g.note (.semPost 0) with sched := { g.sched with
      semCount := Function.update g.sched.semCount 0 (int32 (count + 1)) } } =
      { g.note (.semPost 0) with sched := { g.sched with
        semCount := Function.update g.sched.semCount 0 (int32 (count + 1)) } } := by
    simp only [Sys.resume, Sys.note, index, h.returned]
  rw [stays]
  simp only [Sys.note, index]
  exact ⟨h.running, h.busy, h.used, h.returned, h.empty,
    by dsimp only; rw [Function.update_self], by dsimp only; rw [Function.update_self, h.posts]⟩

/-- Many posts. -/
theorem Posting.steps {count : Int} {posts : Nat} (n : Nat) (h : Posting g count posts)
    (low : -2 ^ 31 ≤ count) (high : count + n < 2 ^ 31) :
    ∃ g', Run (SysStep kmainRecord) g (List.replicate n (.semPost 0)) g' ∧
      Posting g' (count + n) (posts + n) := by
  induction n generalizing g count posts with
  | zero => exact ⟨g, .nil g, by simpa using h⟩
  | succ n ih =>
      obtain ⟨g₁, step, h₁⟩ := h.step
      rw [int32_of_range (by omega) (by push_cast at high; omega)] at h₁
      obtain ⟨g₂, run, h₂⟩ := ih h₁ (by omega) (by push_cast at high; omega)
      refine ⟨g₂, .cons step run, ?_⟩
      have sum : count + 1 + n = count + (n + 1 : Nat) := by push_cast; omega
      have sum' : posts + 1 + n = posts + (n + 1) := by omega
      rw [← sum, ← sum']
      exact h₂

/-- **The exception.**  `2 ^ 31 - 1` posts of the lock, which starts with one permit: the
count wraps below zero, and nobody waits. -/
theorem waitQueues_overflow :
    ∃ cs g, Run (SysStep kmainRecord) bootSys cs g ∧ g.posts 0 < 2 ^ 31 ∧
      ¬ ∃ lists, WaitQueuesOk g.sched lists := by
  obtain ⟨g, run, start⟩ : ∃ g, Run (SysStep kmainRecord) bootSys timeSlice g ∧
      decide (g.sched.halted = false ∧ g.sched.current ≠ kmainRecord ∧
        g.sched.semUsed 0 = true ∧ g.pend g.sched.current = none ∧
        (g.sched.wq (.sem 0)).head = 0 ∧ g.sched.semCount 0 = 1 ∧ g.posts 0 = 0) = true :=
    Sys.calls_any (by decide +kernel)
  obtain ⟨running, busy, used, returned, empty, count, posts⟩ := of_decide_eq_true start
  obtain ⟨g₁, run₁, h₁⟩ :=
    Posting.steps (2 ^ 31 - 2) ⟨running, busy, used, returned, empty, count, posts⟩
      (by decide) (by decide)
  obtain ⟨g₂, step, h₂⟩ := h₁.step
  have wraps : int32 (1 + (2 ^ 31 - 2 : Nat) + 1) = -2 ^ 31 := by decide +kernel
  rw [wraps] at h₂
  refine ⟨_, g₂, run.append (run₁.append (.single step)), by rw [h₂.posts]; decide, ?_⟩
  rintro ⟨lists, ok⟩
  have waiting := ok.waiting (.sem 0)
  rw [Sched.Waiting, h₂.empty] at waiting
  have length := ok.length 0 h₂.used
  rw [waiting.eq_nil, h₂.count] at length
  exact absurd length (by decide)

/-! ## Safety -/

/-- **No wait returns without a permit.**  In every state reached from boot, as long as the count
of a semaphore has not left the range of `int`, no more waits for it have returned than it had
permits at the start and posts since.  When all posts come from holders, as in the output
functions of the user library, there are never more holders than permits: one for the lock of the
standard output.  The balance of permits, waiting tasks and returns is part of the invariant of
every run, tasks that are killed or preempted in between included (`sysRun_inv`).  `task_create`
takes for granted that `kmalloc` has memory for the record of a spawned task, and so do the runs.
-/
theorem sem_safety (records : BootRecords kmain user)
    (run : Run (SysStep kmain) (.boot (schedBoot m kmain user sems)) cs g) {i : Nat}
    (natural : 0 ≤ (schedBoot m kmain user sems).semCount i) (range : g.overflow i = false) :
    (g.returns i : Int) ≤ (schedBoot m kmain user sems).semCount i + g.posts i ∧
      (g.strays i = 0 →
        ((g.holders i).length : Int) ≤ (schedBoot m kmain user sems).semCount i) := by
  obtain ⟨lists, inv⟩ := sysRun_inv records run
  have ok := inv.sem i natural range
  have balance := ok.balance
  have length := ok.length
  have stand := inv.length_le (.sem i)
  have held := inv.held i
  constructor
  · omega
  · intro none
    omega

/-- The lock of the standard output: one of three tasks that wait for it holds it. -/
theorem sem_safety_lock :
    ∃ g, Run (SysStep kmainRecord) bootSys (timeSlice ++
        [.fork childRecord true, .fork otherRecord true, .semWait 0] ++ timeSlice ++
        [.semWait 0, .semWait 0]) g ∧
      (g.returns 0 : Int) ≤ 1 + g.posts 0 ∧ (g.strays 0 = 0 → ((g.holders 0).length : Int) ≤ 1) := by
  obtain ⟨g, run, range⟩ : ∃ g, Run (SysStep kmainRecord) bootSys (timeSlice ++
      [.fork childRecord true, .fork otherRecord true, .semWait 0] ++ timeSlice ++
      [.semWait 0, .semWait 0]) g ∧ (!g.overflow 0) = true :=
    Sys.calls_any (by decide +kernel)
  exact ⟨g, run, sem_safety bootRecords run (by decide) (by simpa using range)⟩

/-! ## Permits and killed waiters -/

/-- A call leaves counts of type `int`. -/
theorem countAfter_isInt {s : Sched} (old : ∀ i, IsInt (s.semCount i)) (c : SchedCall) (i : Nat) :
    IsInt (countAfter s c i) := by
  have update : ∀ j x, IsInt (Function.update s.semCount j (int32 x) i) := by
    intro j x
    by_cases here : i = j
    · rw [here, Function.update_self]
      exact int32_range x
    · rw [Function.update_of_ne here]
      exact old i
  cases c with
  | semWait id =>
      rw [countAfter]
      cases s.semIndex id with
      | none => exact old i
      | some j => exact update j _
  | semPost id =>
      rw [countAfter]
      cases s.semIndex id with
      | none => exact old i
      | some j => exact update j _
  | _ => exact old i

/-- `sem_init` with counts of type `int`. -/
theorem semInits_isInt {s : Sched} (old : ∀ i, IsInt (s.semCount i))
    (counts : ∀ p ∈ sems, IsInt p.2) (i : Nat) :
    IsInt ((sems.foldl (fun s p => semInit s p.1 p.2) s).semCount i) := by
  induction sems generalizing s with
  | nil => exact old i
  | cons p sems ih =>
      rw [List.foldl_cons]
      refine ih (fun i => ?_) fun q mem => counts q (List.mem_cons_of_mem _ mem)
      rw [semInit]
      split
      case isTrue => exact old i
      case isFalse =>
        dsimp only
        by_cases here : i = p.1.toNat
        · rw [here, Function.update_self]
          exact counts p List.mem_cons_self
        · rw [Function.update_of_ne here]
          exact old i

/-- The counts are values of type `int`. -/
theorem sysRun_isInt (records : BootRecords kmain user) (counts : ∀ p ∈ sems, IsInt p.2)
    (run : Run (SysStep kmain) (.boot (schedBoot m kmain user sems)) cs g) (i : Nat) :
    IsInt (g.sched.semCount i) := by
  have zero : ∀ i, IsInt ((taskInit m kmain).semCount i) := fun _ => (by decide : IsInt 0)
  refine (run.invariant (fun g => (∃ lists, SysInv kmain (schedBoot m kmain user sems).semCount g
    lists) ∧ ∀ i, IsInt (g.sched.semCount i)) ?_ ⟨⟨_, sysBoot_inv m records sems⟩,
      semInits_isInt zero counts⟩).2 i
  rintro g c g' ⟨⟨lists, inv⟩, old⟩ step
  refine ⟨⟨_, step.inv inv⟩, ?_⟩
  obtain ⟨s', -, o, ran, -⟩ := inv.exec step.1
  obtain rfl := Option.some.inj (step.2.symm.trans ran)
  rw [Sys.resume_sched]
  dsimp only
  rw [o.semCount]
  exact countAfter_isInt old c

/-- An increment is not above zero. -/
theorem int32_succ_le_iff {x : Int} (range : IsInt x) :
    int32 (x + 1) ≤ 0 ↔ x < 0 ∨ x = 2 ^ 31 - 1 := by
  obtain ⟨low, high⟩ := range
  by_cases top : x = 2 ^ 31 - 1
  · subst top
    exact iff_of_true (by decide) (.inr rfl)
  · rw [int32_of_range (by omega) (by omega)]
    omega

/-- What a post is for: when a task that is not dead waits, one that is not dead leaves the
queue and is ready. -/
def PostWakes (s : Sched) (l : List Nat) (s' : Sched) (l' : List Nat) : Prop :=
  (∃ t ∈ l, (s.task t).state ≠ .dead) →
    ∃ t ∈ l, (s.task t).state ≠ .dead ∧ t ∉ l' ∧ (s'.task t).state = .ready

/-- Nobody waits but dead tasks, or the first of the queue is alive and the count says that
somebody waits (it does unless it has overflowed; at its maximum the increment wraps). -/
def FirstAlive (s : Sched) (i : Nat) (l : List Nat) : Prop :=
  (∀ t ∈ l, (s.task t).state = .dead) ∨
    (∃ t, l.head? = some t ∧ (s.task t).state ≠ .dead) ∧
      (s.semCount i < 0 ∨ s.semCount i = 2 ^ 31 - 1)

/-- **A post wakes a live waiter exactly when the first of the queue is alive.**  In every state
reached from boot, for every post of a semaphore: `l` is its queue before the call and `l'` after
it.  `sem_post` takes the first of the queue without looking at its state, so a dead waiter uses
up the post.  `task_create` takes for granted that `kmalloc` has memory for the record of a
spawned task, and so do the runs. -/
theorem semPost_wakes_iff (records : BootRecords kmain user) (counts : ∀ p ∈ sems, IsInt p.2)
    (run : Run (SysStep kmain) (.boot (schedBoot m kmain user sems)) cs g) {id : Int} {i : Nat}
    (index : g.sched.semIndex id = some i) {l l' : List Nat} (before : g.sched.Waiting (.sem i) l)
    (after : (semPost g.sched id).Waiting (.sem i) l') :
    PostWakes g.sched l (semPost g.sched id) l' ↔ FirstAlive g.sched i l := by
  obtain ⟨lists, inv⟩ := sysRun_inv records run
  have range := sysRun_isInt records counts run i
  obtain rfl := before.unique (inv.inv.queue (.sem i))
  have o := inv.inv.semPost id
  obtain rfl := after.unique (o.inv.queue (.sem i))
  rw [FirstAlive, ← int32_succ_le_iff range]
  simp only [queuesAfter, index]
  by_cases wakes : int32 (g.sched.semCount i + 1) ≤ 0
  swap
  · -- nobody is taken from the queue
    simp only [wakes, if_false, and_false, or_false]
    constructor
    · intro woken t mem
      by_contra alive
      obtain ⟨u, mem, -, out, -⟩ := woken ⟨t, mem, alive⟩
      exact out mem
    · rintro dead ⟨t, mem, alive⟩
      exact absurd (dead t mem) alive
  simp only [wakes, if_true, and_true, Function.update_self]
  have post : semPost g.sched id = waitQueueWakeOne { g.sched with
      semCount := Function.update g.sched.semCount i (int32 (g.sched.semCount i + 1)) } (.sem i) := by
    rw [semPost, index]
    exact if_pos wakes
  have queue := inv.inv.queue (.sem i)
  cases split : lists (.sem i) with
  | nil =>
      refine iff_of_true ?_ (.inl (by simp))
      rintro ⟨t, mem, -⟩
      cases mem
  | cons t rest =>
      rw [split] at queue
      have first := queue.head_eq
      have nodup := queue.chain.nodup
      have head : ((g.sched.wq (.sem i)).head) ≠ 0 := by
        rw [first]
        exact queue.ne_null List.mem_cons_self
      have park := (inv.inv.queued (.sem i) t (by rw [split]; exact List.mem_cons_self)).2
      rw [List.tail_cons, List.head?_cons]
      constructor
      · intro woken
        by_cases some : ∃ u ∈ t :: rest, (g.sched.task u).state ≠ .dead
        · obtain ⟨u, mem, alive, out, -⟩ := woken some
          rcases List.mem_cons.mp mem with rfl | later
          · exact .inr ⟨u, rfl, alive⟩
          · exact absurd later out
        · refine .inl fun u mem => ?_
          by_contra alive
          exact some ⟨u, mem, alive⟩
      · rintro (dead | ⟨u, eq, alive⟩) some
        · obtain ⟨u, mem, alive⟩ := some
          exact absurd (dead u mem) alive
        · obtain rfl := Option.some.inj eq
          refine ⟨t, List.mem_cons_self, alive, (List.nodup_cons.mp nodup).1, ?_⟩
          have blocked := park.resolve_right alive
          rw [post]
          refine (congrArg Task.state (waitQueueWakeOne_task ?_ t)).trans (if_pos ⟨?_, ?_⟩)
          · exact head
          · exact first.symm
          · dsimp only
            rw [first]
            exact blocked

/-- A post of the lock while one task waits for it and is alive. -/
theorem semPost_wakes_iff_one :
    ∃ g, Run (SysStep kmainRecord) bootSys (timeSlice ++
        [.fork childRecord true, .semWait 0] ++ timeSlice ++ [.semWait 0] ++ timeSlice) g ∧
      PostWakes g.sched [childRecord] (semPost g.sched 0) [] := by
  obtain ⟨g, run, facts⟩ : ∃ g, Run (SysStep kmainRecord) bootSys (timeSlice ++
      [.fork childRecord true, .semWait 0] ++ timeSlice ++ [.semWait 0] ++ timeSlice) g ∧
      decide (g.sched.semIndex 0 = some 0 ∧ (g.sched.wq (.sem 0)).head = childRecord ∧
        (g.sched.task childRecord).wqNext = 0 ∧ (g.sched.wq (.sem 0)).tail = childRecord ∧
        (g.sched.task childRecord).state = .blocked ∧ g.sched.semCount 0 = -1 ∧
        ((semPost g.sched 0).wq (.sem 0)).head = 0 ∧
        ((semPost g.sched 0).wq (.sem 0)).tail = 0) = true :=
    Sys.calls_any (by decide +kernel)
  obtain ⟨index, head, next, tail, state, count, head', tail'⟩ := of_decide_eq_true facts
  have nonzero : childRecord ≠ 0 := by decide
  have before : g.sched.Waiting (.sem 0) [childRecord] := by
    rw [Sched.Waiting, head, tail]
    exact ⟨⟨rfl, nonzero, next⟩, rfl⟩
  have after : (semPost g.sched 0).Waiting (.sem 0) [] := by
    rw [Sched.Waiting, head', tail']
    exact .nil _ _
  refine ⟨g, run, (semPost_wakes_iff bootRecords (by decide) run index before after).mpr (.inr ?_)⟩
  exact ⟨⟨_, rfl, by rw [state]; decide⟩, .inl (by rw [count]; decide)⟩

/-- **The exception.**  Two tasks wait for the lock and the first is killed: the post of the
third takes the dead one from the queue, and the other waits on. -/
theorem semPost_wakes_killed :
    ∃ g, Run (SysStep kmainRecord) bootSys (timeSlice ++
        [.fork childRecord true, .fork otherRecord true, .semWait 0] ++ timeSlice ++
        [.semWait 0, .semWait 0] ++ timeSlice ++ [.kill 3]) g ∧
      Enabled kmainRecord g.sched (.semPost 0) ∧ g.sched.semIndex 0 = some 0 ∧
      g.sched.Waiting (.sem 0) [otherRecord, childRecord] ∧
      (semPost g.sched 0).Waiting (.sem 0) [childRecord] ∧
      ¬ PostWakes g.sched [otherRecord, childRecord] (semPost g.sched 0) [childRecord] := by
  obtain ⟨g, run, facts⟩ : ∃ g, Run (SysStep kmainRecord) bootSys (timeSlice ++
      [.fork childRecord true, .fork otherRecord true, .semWait 0] ++ timeSlice ++
      [.semWait 0, .semWait 0] ++ timeSlice ++ [.kill 3]) g ∧
      decide (Enabled kmainRecord g.sched (.semPost 0) ∧ g.sched.semIndex 0 = some 0 ∧
        (g.sched.wq (.sem 0)).head = otherRecord ∧
        (g.sched.task otherRecord).wqNext = childRecord ∧
        (g.sched.task childRecord).wqNext = 0 ∧ (g.sched.wq (.sem 0)).tail = childRecord ∧
        (g.sched.task otherRecord).state = .dead ∧
        (g.sched.task childRecord).state = .blocked ∧
        ((semPost g.sched 0).wq (.sem 0)).head = childRecord ∧
        ((semPost g.sched 0).task childRecord).wqNext = 0 ∧
        ((semPost g.sched 0).wq (.sem 0)).tail = childRecord) = true :=
    Sys.calls_any (by decide +kernel)
  obtain ⟨enabled, index, head, next, next', tail, dead, blocked, head', last, tail'⟩ :=
    of_decide_eq_true facts
  have nonzero : childRecord ≠ 0 := by decide
  have nonzero' : otherRecord ≠ 0 := by decide
  refine ⟨g, run, enabled, index, ?_, ?_, fun wakes => ?_⟩
  · rw [Sched.Waiting, head, tail]
    refine ⟨⟨rfl, nonzero', ?_⟩, rfl⟩
    dsimp only
    rw [next]
    exact ⟨rfl, nonzero, next'⟩
  · rw [Sched.Waiting, head', tail']
    exact ⟨⟨rfl, nonzero, last⟩, rfl⟩
  · obtain ⟨t, mem, alive, out, -⟩ :=
      wakes ⟨childRecord, by simp, by rw [blocked]; decide⟩
    rcases List.mem_cons.mp mem with rfl | rest
    · exact alive dead
    · exact out rest

end Flyos
