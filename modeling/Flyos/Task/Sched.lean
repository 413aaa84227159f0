import Flyos.Lib.CInt
import Flyos.Mm.Heap
import Mathlib.Logic.Function.Basic

/-!
# Tasks, wait queues and semaphores

`kernel/task/task.c`, `kernel/task/sem.c` and the system calls that use them.  Tasks
are `task_t` records at heap addresses, threaded twice: by `next` into the ring that the
scheduler walks, and by `wq_next` into at most one wait queue.  System calls run with
interrupts off, so a `SchedCall` is atomic up to the switch to another task; a timer tick
comes between any two.

A walk over the ring or a queue is given as many steps as there are tasks; `none` would
be a walk that does not end.
-/

namespace Flyos

/-- `TASK_STACK_SIZE`. -/
abbrev taskStackSize : Nat := 8192

/-- `TIMESLICE`. -/
abbrev timeslice : Nat := 5

/-- `MAX_SLEEPERS`. -/
abbrev maxSleepers : Nat := 32

/-- `SEM_MAX`. -/
abbrev semMax : Nat := 16

/-- `task_state_t`. -/
inductive TaskState where
  | ready
  | running
  | blocked
  | dead
  deriving DecidableEq

/-- `struct task`: what the scheduler and the wait queues use of it. -/
structure Task where
  id : Nat
  state : TaskState
  next : Nat
  wqNext : Nat
  parent : Nat

/-- The wait queues of the kernel: `child_exit_wq` and `sems[id].wq`. -/
inductive WaitQueueId where
  | childExit
  | sem (id : Nat)
  deriving DecidableEq

/-- `struct wait_queue`. -/
structure WaitQueue where
  head : Nat
  tail : Nat

/-- `sleeper_t`. -/
structure Sleeper where
  task : Nat
  wakeAt : Nat
  used : Bool

/-- The task records in memory. -/
abbrev TaskMemory := Nat → Task

namespace TaskMemory

/-- `t->state = v`. -/
def setState (m : TaskMemory) (t : Nat) (v : TaskState) : TaskMemory :=
  Function.update m t { m t with state := v }

/-- `t->next = v`. -/
def setNext (m : TaskMemory) (t v : Nat) : TaskMemory :=
  Function.update m t { m t with next := v }

/-- `t->wq_next = v`. -/
def setWqNext (m : TaskMemory) (t v : Nat) : TaskMemory :=
  Function.update m t { m t with wqNext := v }

end TaskMemory

/-- The static variables of `task.c` and `sem.c` with the task records.  `tasks` lists the
addresses of the records; no code reads it. -/
structure Sched where
  tasks : List Nat
  task : TaskMemory
  current : Nat
  nextId : Nat
  tickInSlice : Nat
  sleepers : Nat → Sleeper
  globalTick : Nat
  childAlive : Int
  foreground : Nat
  wq : WaitQueueId → WaitQueue
  semCount : Nat → Int
  semUsed : Nat → Bool
  spawnUsed : Bool
  halted : Bool

/-! ## The scheduler -/

/-- `do { next = next->next; if (next->state == TASK_READY) break; } while (next != current)`. -/
def findReady (m : TaskMemory) (current : Nat) : Nat → Nat → Option Nat
  | 0, _ => none
  | fuel + 1, t =>
      let next := (m t).next
      if (m next).state = .ready then some next
      else if next ≠ current then findReady m current fuel next
      else some next

/-- A task takes over the processor. -/
def Sched.switchTo (s : Sched) (next : Nat) : Sched :=
  let m := if (s.task s.current).state = .running then s.task.setState s.current .ready else s.task
  { s with task := m.setState next .running, current := next }

/-- `schedule`. -/
def schedule (s : Sched) : Option Sched :=
  if s.current = 0 then some s
  else (findReady s.task s.current (s.tasks.length + 1) s.current).map fun next =>
    if next = s.current then s else s.switchTo next

/-- `scheduler_tick`: one slot of `sleepers`. -/
def tickSleeper (s : Sched) (i : Nat) : Sched :=
  let e := s.sleepers i
  if e.used = true ∧ e.wakeAt ≤ s.globalTick then
    { s with
      task := if (s.task e.task).state = .blocked then s.task.setState e.task .ready else s.task
      sleepers := Function.update s.sleepers i { e with used := false } }
  else s

/-- `scheduler_tick`. -/
def schedulerTick (s : Sched) : Option Sched :=
  let s := { s with globalTick := (s.globalTick + 1) % 2 ^ 64 }
  let s := (List.range maxSleepers).foldl tickSleeper s
  if timeslice ≤ s.tickInSlice + 1 then schedule { s with tickInSlice := 0 }
  else some { s with tickInSlice := s.tickInSlice + 1 }

/-! ## Wait queues -/

/-- `task_block` up to `schedule`: the current task goes to the end of a queue. -/
def Sched.enqueue (s : Sched) (q : WaitQueueId) : Sched :=
  let t := s.current
  let tail := (s.wq q).tail
  let m := (s.task.setState t .blocked).setWqNext t 0
  { s with
    task := if tail ≠ 0 then m.setWqNext tail t else m
    wq := Function.update s.wq q ⟨if tail ≠ 0 then (s.wq q).head else t, t⟩ }

/-- `task_block`. -/
def taskBlock (s : Sched) (q : WaitQueueId) : Option Sched :=
  if s.current = 0 then some s else schedule (s.enqueue q)

/-- `wait_queue_wake_one`. -/
def waitQueueWakeOne (s : Sched) (q : WaitQueueId) : Sched :=
  let t := (s.wq q).head
  if t = 0 then s
  else
    let head := (s.task t).wqNext
    let m := s.task.setWqNext t 0
    { s with
      task := if (m t).state = .blocked then m.setState t .ready else m
      wq := Function.update s.wq q ⟨head, if head = 0 then 0 else (s.wq q).tail⟩ }

/-- `wait_queue_wake_all`. -/
def waitQueueWakeAll (q : WaitQueueId) : Nat → Sched → Option Sched
  | 0, _ => none
  | fuel + 1, s =>
      if (s.wq q).head ≠ 0 then waitQueueWakeAll q fuel (waitQueueWakeOne s q) else some s

/-- `task_sleep`. -/
def taskSleep (s : Sched) (ms : Nat) : Option Sched :=
  let ticks := (ms + 9) % 2 ^ 64 / 10
  let ticks := if ticks = 0 then 1 else ticks
  match (List.range maxSleepers).find? fun i => !(s.sleepers i).used with
  | none => some s
  | some slot => schedule { s with
      sleepers := Function.update s.sleepers slot
        ⟨s.current, (s.globalTick + ticks) % 2 ^ 64, true⟩
      task := s.task.setState s.current .blocked }

/-- `task_wait_child`. -/
def taskWaitChild (s : Sched) : Option Sched := taskBlock s .childExit

/-- `task_signal_child_exit`. -/
def taskSignalChildExit (s : Sched) : Option Sched :=
  waitQueueWakeAll .childExit (s.tasks.length + 1) s

/-! ## Semaphores -/

/-- `id < 0 || id >= SEM_MAX || !sems[id].used` is false: the index of the semaphore. -/
def Sched.semIndex (s : Sched) (id : Int) : Option Nat :=
  if 0 ≤ id ∧ id < semMax ∧ s.semUsed id.toNat = true then some id.toNat else none

/-- `sem_init`. -/
def semInit (s : Sched) (id count : Int) : Sched :=
  if id < 0 ∨ semMax ≤ id then s
  else { s with
    semCount := Function.update s.semCount id.toNat count
    semUsed := Function.update s.semUsed id.toNat true
    wq := Function.update s.wq (.sem id.toNat) ⟨0, 0⟩ }

/-- `sem_wait`. -/
def semWait (s : Sched) (id : Int) : Option Sched :=
  match s.semIndex id with
  | none => some s
  | some i =>
      let count := int32 (s.semCount i - 1)
      let s := { s with semCount := Function.update s.semCount i count }
      if count < 0 then taskBlock s (.sem i) else some s

/-- `sem_post`. -/
def semPost (s : Sched) (id : Int) : Sched :=
  match s.semIndex id with
  | none => s
  | some i =>
      let count := int32 (s.semCount i + 1)
      let s := { s with semCount := Function.update s.semCount i count }
      if count ≤ 0 then waitQueueWakeOne s (.sem i) else s

/-! ## Creating and ending tasks -/

/-- A new record behind the current task in the ring. -/
def Sched.link (s : Sched) (t parent : Nat) : Sched :=
  let m : TaskMemory := Function.update s.task t ⟨s.nextId, .ready, (s.task s.current).next, 0, parent⟩
  { s with
    tasks := t :: s.tasks
    task := m.setNext s.current t
    nextId := (s.nextId + 1) % 2 ^ 32 }

/-- `task_create`, with the record that `kmalloc` answered. -/
def taskCreate (s : Sched) (t : Nat) : Sched := s.link t 0

/-- `task_fork`, with the answers of `kmalloc` and of `vmm_clone_pml4_deep`. -/
def taskFork (s : Sched) (t : Nat) (cloned : Bool) : Sched :=
  if t = 0 then s else if cloned = false then s else s.link t s.current

/-- `kernel_spawn_child`, with the answers of `user_load_elf` and of `kmalloc`. -/
def kernelSpawnChild (s : Sched) (t : Nat) (loaded : Bool) : Sched :=
  if s.spawnUsed = true then s
  else
    let s := { s with spawnUsed := true }
    if loaded = false then s else taskCreate s t

/-- The loop of `task_kill_by_id`: the task with an id, 0 when there is none. -/
def findTask (m : TaskMemory) (current id : Nat) : Nat → Nat → Option Nat
  | 0, _ => none
  | fuel + 1, t =>
      if (m t).id = id then some t
      else if (m t).next ≠ 0 ∧ (m t).next ≠ current then findTask m current id fuel (m t).next
      else some 0

/-- `task_kill_by_id`. -/
def taskKillById (s : Sched) (id : Int) : Option Sched :=
  if s.current = 0 ∨ id = 0 then some s
  else (findTask s.task s.current (id % 2 ^ 32).toNat (s.tasks.length + 1) s.current).map fun t =>
    if t = 0 then s else { s with task := s.task.setState t .dead }

/-- `task_child_dec`. -/
def taskChildDec (s : Sched) : Sched :=
  { s with childAlive := if 0 < s.childAlive then s.childAlive - 1 else s.childAlive }

/-- The loop of `task_kill_all_children`. -/
def killOthers (current : Nat) : Nat → TaskMemory → Nat → Option TaskMemory
  | 0, _, _ => none
  | fuel + 1, m, t =>
      if t ≠ 0 ∧ t ≠ current then
        killOthers current fuel (if (m t).id ≠ 0 then m.setState t .dead else m) (m t).next
      else some m

/-- `task_kill_all_children`: every other task but `kmain`. -/
def taskKillAllChildren (s : Sched) : Option Sched :=
  if s.current = 0 then some s
  else (killOthers s.current (s.tasks.length + 1) s.task (s.task s.current).next).map fun m =>
    { s with task := m }

/-- `SYS_EXIT`.  The exit of the shell, task 1, stops the machine. -/
def sysExit (s : Sched) : Option Sched :=
  let parent := (s.task s.current).parent
  let s := if s.current ≠ 0 ∧ parent ≠ 0 then { s with foreground := parent } else s
  (taskSignalChildExit (taskChildDec s)).bind fun s =>
    if s.current ≠ 0 ∧ (s.task s.current).id = 1 then some { s with halted := true }
    else schedule (if s.current ≠ 0 then { s with task := s.task.setState s.current .dead } else s)

/-! ## The start and the calls -/

/-- `task_init`, with the record of `kmain`. -/
def taskInit (m : TaskMemory) (kmain : Nat) : Sched where
  tasks := [kmain]
  task := Function.update m kmain ⟨0, .running, kmain, 0, 0⟩
  current := kmain
  nextId := 1
  tickInSlice := 0
  sleepers := fun _ => ⟨0, 0, false⟩
  globalTick := 0
  childAlive := 0
  foreground := 0
  wq := fun _ => ⟨0, 0⟩
  semCount := fun _ => 0
  semUsed := fun _ => false
  spawnUsed := false
  halted := false

/-- `kmain` from `task_init` on, with the semaphores it initialises. -/
def schedBoot (m : TaskMemory) (kmain user : Nat) (sems : List (Int × Int)) : Sched :=
  let s := sems.foldl (fun s p => semInit s p.1 p.2) (taskInit m kmain)
  { taskCreate s user with foreground := user }

/-- The semaphores that `kmain` initialises: the lock of the standard output. -/
def kernelSems : List (Int × Int) := [(0, 1)]

/-- What happens: a timer tick, or a call of the current task.  The system calls are
`SYS_SEM_WAIT`, `SYS_SEM_POST`, `SYS_SLEEP`, `SYS_READ` from the terminal, `SYS_SET_FG`,
`SYS_WAIT`, `SYS_KILL`, `SYS_FORK`, `SYS_SPAWN` and `SYS_EXIT`. -/
inductive SchedCall where
  | tick
  | semWait (id : Int)
  | semPost (id : Int)
  | sleep (ms : Nat)
  | read
  | setForeground
  | wait
  | signalChildExit
  | kill (id : Int)
  | fork (t : Nat) (cloned : Bool)
  | spawn (t : Nat) (loaded : Bool)
  | exit
  deriving DecidableEq

/-- One call. -/
def schedExec (s : Sched) : SchedCall → Option Sched
  | .tick => schedulerTick s
  | .semWait id => semWait s id
  | .semPost id => some (semPost s id)
  | .sleep ms => taskSleep s ms
  | .read => if s.foreground ≠ 0 ∧ s.current ≠ s.foreground then taskSleep s 50 else some s
  | .setForeground => some { s with foreground := s.current }
  | .wait => taskWaitChild s
  | .signalChildExit => taskSignalChildExit s
  | .kill id => taskKillById s id
  | .fork t cloned => some (taskFork s t cloned)
  | .spawn t loaded => some (kernelSpawnChild s t loaded)
  | .exit => sysExit s

/-- A block that `kmalloc` may answer for a new record. -/
def Sched.Fresh (s : Sched) (t : Nat) : Prop := t ∉ s.tasks ∧ heapStart ≤ t ∧ t < heapEnd

/-- What can happen: ticks, while the machine runs, and calls of tasks other than `kmain`,
which only idles.  `SYS_SPAWN` is taken to get its record from `kmalloc`, whose answer
`task_create` does not check; a fork may fail to. -/
def Enabled (kmain : Nat) (s : Sched) (c : SchedCall) : Prop :=
  s.halted = false ∧ match c with
    | .tick => True
    | .semWait id => s.current ≠ kmain ∧ IsInt id
    | .semPost id => s.current ≠ kmain ∧ IsInt id
    | .kill id => s.current ≠ kmain ∧ IsInt id
    | .fork t _ => s.current ≠ kmain ∧ (t = 0 ∨ s.Fresh t)
    | .spawn t loaded => s.current ≠ kmain ∧ (s.spawnUsed = false → loaded = true → s.Fresh t)
    | _ => s.current ≠ kmain

instance (s : Sched) (t : Nat) : Decidable (s.Fresh t) := by
  unfold Sched.Fresh
  infer_instance

instance (id : Int) : Decidable (IsInt id) := by
  unfold IsInt
  infer_instance

instance (kmain : Nat) (s : Sched) (c : SchedCall) : Decidable (Enabled kmain s c) := by
  unfold Enabled
  cases c <;> infer_instance

end Flyos
