import Flyos.Lib.Runs
import Flyos.Mm.User
import Flyos.Task.KillSpec

/-!
# The processor

`schedule` from `current = next` on, `syscall_entry.S`, `user_enter.S`, `fork_entry.S` and
the part of `syscall_dispatch` that turns interrupts on.  Every task is at some `Point` of
this code, with a stack pointer and with interrupts on or off; for the current task these
are the registers of the processor, for the others `task_switch` has saved them.

An action of the current task goes from one point to the next; a timer interrupt comes at
any point with interrupts on.  `task_switch` pushes the registers of the task before on the
stack of the moment and pops those of the next task from its stack, both under the CR3 that
`schedule` has just loaded.  Kernel stacks and the boot stack are the same memory under
every CR3 and nobody else writes there, so a task that was switched away from on one of
them finds what was pushed (`context`).  User stacks are ordinary memory of the tables in
force: what a frame there leads to is read from memory (`returns` and `trapped`), which
programs write as they like and `fork` copies.

Three further records belong to no code: the stack pointer with which a task entered its
system call, whether that call is a `SYS_EXEC`, and the CR3 with which a task was switched
away from.
-/

namespace Flyos

/-- `USER_STACK_BASE + USER_STACK_SIZE`. -/
abbrev userStackTop : Nat := 0x70000000 + 0x4000

/-- `CHILD_STACK_BASE + CHILD_STACK_SIZE`. -/
abbrev childStackTop : Nat := childStackBase + childStackSize

/-- The memory that a stack pointer points to. -/
inductive Stack where
  /-- The stack of `boot.S`. -/
  | boot
  /-- The kernel stack that ends at `top`. -/
  | kernel (top : Nat)
  /-- Memory of the user, at `rsp`. -/
  | user (rsp : Nat)
  deriving DecidableEq

/-- Where a task is in the code. -/
inductive Point where
  /-- The loop at the end of `kmain`. -/
  | idle
  /-- `user_task_entry` or `child_task_entry`, up to the first instruction of `user_enter`. -/
  | entry (top : Nat)
  /-- `user_enter`, after it has loaded the stack pointer. -/
  | entering
  /-- `fork_child_entry`, with the stack pointer in `r14`. -/
  | forked (rsp : Nat)
  /-- The program, in ring 3. -/
  | user
  /-- `syscall_entry` and `syscall_dispatch`. -/
  | dispatch
  /-- The loop of `SYS_READ`. -/
  | reading
  /-- Back in `syscall_entry`, before `user_return_rsp` is read. -/
  | returned
  /-- From there to the load of the stack pointer. -/
  | restoring
  /-- Before `sysretq`. -/
  | leaving
  /-- After the `schedule` of `SYS_EXIT`. -/
  | ended
  /-- Anywhere else, after `task_switch` has popped words that it never pushed.  What the
  processor does there is not modelled. -/
  | lost
  deriving DecidableEq

/-- What `task_switch` saves of a task, or the processor has of the current one. -/
structure Context where
  point : Point
  stack : Stack
  interrupts : Bool
  deriving DecidableEq

/-- Where words lead that nobody has saved. -/
def Context.lost : Context := ⟨.lost, .boot, false⟩

/-- The scheduler and the processor. -/
structure Cpu where
  sched : Sched
  pml4Phys : Nat → Nat
  kernelStackTop : Nat → Nat
  /-- `t->saved_user_rsp`. -/
  taskUserRsp : Nat → Nat
  cr3 : Nat
  kernelRsp : Nat
  rsp0 : Nat
  savedUserRsp : Nat
  userReturnRsp : Nat
  /-- Where a task is: for the current one the registers of the processor, for another one where
  it was switched away, which is what its frame holds as long as that is on a kernel stack. -/
  context : Nat → Context
  /-- The stack on which a task was switched away from: `t->rsp` points into it. -/
  frame : Nat → Stack
  /-- User memory under some CR3, below some stack pointer: what the words lead to that
  `task_switch` pops there; `none` is back into `schedule`. -/
  returns : Nat → Nat → Option Context
  /-- User memory as well: what the words above lead to, from `schedule` back through the
  handler and its `iretq`. -/
  trapped : Nat → Nat → Context
  /-- The stack pointer with which a task entered its last system call. -/
  entryRsp : Nat → Nat
  /-- This call is a `SYS_EXEC` that has loaded a program. -/
  execed : Nat → Bool
  /-- The CR3 with which a task was switched away from, or will run first. -/
  lastCr3 : Nat → Nat

namespace Cpu

/-- The current task. -/
abbrev here (g : Cpu) : Context := g.context g.sched.current

/-- The current task goes on. -/
def goto (g : Cpu) (c : Context) : Cpu :=
  { g with context := Function.update g.context g.sched.current c }

/-- The first instruction of `syscall_entry`. -/
def enter (g : Cpu) (rsp : Nat) : Cpu :=
  { g with
    savedUserRsp := rsp
    entryRsp := Function.update g.entryRsp g.sched.current rsp
    execed := Function.update g.execed g.sched.current false }

/-- The end of `SYS_EXEC`. -/
def setReturn (g : Cpu) : Cpu :=
  { g with
    userReturnRsp := childStackTop
    execed := Function.update g.execed g.sched.current true }

/-- `syscall_entry` finds a `user_return_rsp`. -/
def takeReturn (g : Cpu) : Cpu :=
  { g with
    savedUserRsp := g.userReturnRsp
    userReturnRsp := 0 }

/-- The CR3 in force after `schedule` has selected `t`. -/
def loads (g : Cpu) (t : Nat) : Nat :=
  if g.pml4Phys t ≠ 0 then g.pml4Phys t else g.cr3

/-- The registers of the current task go on `stack`: what the interrupt and its handler push
before CR3 is loaded, under the old CR3, and what `task_switch` pushes, under `tables`. -/
def push (g : Cpu) (stack : Stack) (tables : Nat) : Cpu :=
  match stack with
  | .user rsp =>
      { g with
        trapped := Function.update g.trapped g.cr3
          (Function.update (g.trapped g.cr3) rsp g.here)
        returns := Function.update g.returns tables
          (Function.update (g.returns tables) rsp none) }
  | _ => g

/-- Where the words lead that `task_switch` pops for `t` under `tables`. -/
def pop (g : Cpu) (t tables : Nat) : Context :=
  match g.frame t with
  | .user rsp => (g.returns tables rsp).getD (g.trapped tables rsp)
  | _ => g.context t

/-- `schedule` from `current = next` on, when it has a next task; the registers of the task
before are saved on `stack`. -/
def switch (g : Cpu) (s : Sched) (stack : Stack) : Cpu :=
  let prev := g.sched.current
  let next := s.current
  if next = prev then { g with sched := s }
  else
    let top := g.kernelStackTop next
    let tables := g.loads next
    let pushed := g.push stack tables
    { pushed with
      sched := s
      rsp0 := if top ≠ 0 then top else g.rsp0
      kernelRsp := if top ≠ 0 then top else g.kernelRsp
      taskUserRsp := Function.update g.taskUserRsp prev g.savedUserRsp
      savedUserRsp := g.taskUserRsp next
      cr3 := tables
      context := Function.update g.context next (pushed.pop next tables)
      frame := Function.update g.frame prev stack
      lastCr3 := Function.update g.lastCr3 prev g.cr3 }

/-- The record of a new task, with its kernel stack at `base`.  With tables of its own it has a
copy of the memory under the CR3 in force. -/
def create (g : Cpu) (s : Sched) (t pml4 base rsp : Nat) (point : Point) : Cpu :=
  let top := base + taskStackSize
  { g with
    sched := s
    pml4Phys := Function.update g.pml4Phys t pml4
    kernelStackTop := Function.update g.kernelStackTop t top
    taskUserRsp := Function.update g.taskUserRsp t rsp
    context := Function.update g.context t ⟨point, .kernel top, true⟩
    frame := Function.update g.frame t (.kernel top)
    returns := if pml4 ≠ 0 then Function.update g.returns pml4 (g.returns g.cr3) else g.returns
    trapped := if pml4 ≠ 0 then Function.update g.trapped pml4 (g.trapped g.cr3) else g.trapped
    execed := Function.update g.execed t false
    lastCr3 := Function.update g.lastCr3 t (if pml4 ≠ 0 then pml4 else g.cr3) }

/-- The words below `rsp` under `tables` change. -/
def store (g : Cpu) (tables rsp : Nat) (back : Option Context) (below : Context) : Cpu :=
  { g with
    returns := Function.update g.returns tables (Function.update (g.returns tables) rsp back)
    trapped := Function.update g.trapped tables (Function.update (g.trapped tables) rsp below) }

/-- The stack on which the timer interrupt runs: out of ring 3 it is the one of the TSS. -/
def interruptStack (g : Cpu) : Stack :=
  if g.here.point = .user then .kernel g.rsp0 else g.here.stack

end Cpu

/-- What the current task, or the timer, does next. -/
inductive CpuAction where
  | tick
  | loadStack
  | iretq
  /-- The program moves its stack pointer. -/
  | run (rsp : Nat)
  | syscall
  /-- A system call that is about the scheduler. -/
  | call (c : SchedCall)
  /-- `SYS_READ` from the terminal; `waits` when no key has been pressed yet. -/
  | read (waits : Bool)
  | key
  | fork (t pml4 base : Nat)
  | spawn (t base : Nat) (loaded : Bool)
  /-- `SYS_EXEC` of a program that can be loaded. -/
  | exec
  /-- Any other system call. -/
  | other
  /-- Words of user memory are written: by a program, by a system call that fills a buffer, or
  by another frame that covers them.  It can happen at any time, so the runs have all of
  these and more. -/
  | store (tables rsp : Nat) (back : Option Context) (below : Context)
  | checkReturn
  | loadRsp
  | sysretq

/-- The system calls that `CpuAction.call` stands for. -/
def SchedCall.direct : SchedCall → Bool
  | .semWait _ | .semPost _ | .sleep _ | .setForeground | .wait | .kill _ | .exit => true
  | _ => false

/-- The call of the scheduler in an action. -/
def CpuAction.schedCall : CpuAction → Option SchedCall
  | .tick => some .tick
  | .call c => some c
  | .read _ => some .read
  | .fork t pml4 _ => some (.fork t (pml4 ≠ 0))
  | .spawn t _ loaded => some (.spawn t loaded)
  | _ => none

/-- One action; `none` when the current task is not where the action begins. -/
def cpuExec (g : Cpu) : CpuAction → Option Cpu
  | .tick =>
      if g.here.interrupts = true then
        (schedExec g.sched .tick).map fun s => g.switch s g.interruptStack
      else none
  | .loadStack => match g.here.point with
      | .entry top => some (g.goto ⟨.entering, .user (top / 16 * 16), true⟩)
      | _ => none
  | .iretq => match g.here with
      | ⟨.entering, .user rsp, _⟩ => some (g.goto ⟨.user, .user (rsp - 8), true⟩)
      | ⟨.forked rsp, _, _⟩ => some (g.goto ⟨.user, .user rsp, true⟩)
      | _ => none
  | .run rsp =>
      if g.here.point = .user then some (g.goto ⟨.user, .user rsp, true⟩) else none
  | .syscall => match g.here with
      | ⟨.user, .user rsp, _⟩ => some ((g.goto ⟨.dispatch, .kernel g.kernelRsp, false⟩).enter rsp)
      | _ => none
  | .call c =>
      if g.here.point = .dispatch ∧ c.direct = true then
        (schedExec g.sched c).map fun s =>
          let point := if c = .exit then .ended else .returned
          (g.goto ⟨point, g.here.stack, g.here.interrupts⟩).switch s g.here.stack
      else none
  | .read waits =>
      if g.here.point = .dispatch then
        (schedExec g.sched .read).map fun s =>
          let background := g.sched.foreground ≠ 0 ∧ g.sched.current ≠ g.sched.foreground
          let c : Context := if background ∨ waits = false
            then ⟨.returned, g.here.stack, g.here.interrupts⟩ else ⟨.reading, g.here.stack, true⟩
          (g.goto c).switch s g.here.stack
      else none
  | .key =>
      if g.here.point = .reading then
        some (g.goto ⟨.returned, g.here.stack, g.here.interrupts⟩)
      else none
  | .fork t pml4 base =>
      if g.here.point = .dispatch then
        (schedExec g.sched (.fork t (pml4 ≠ 0))).map fun s =>
          let g' := g.goto ⟨.returned, g.here.stack, g.here.interrupts⟩
          if t = 0 ∨ pml4 = 0 then g'.switch s g.here.stack
          else g'.create s t pml4 base g.savedUserRsp (.forked g.savedUserRsp)
      else none
  | .spawn t base loaded =>
      if g.here.point = .dispatch then
        (schedExec g.sched (.spawn t loaded)).map fun s =>
          let g' := g.goto ⟨.returned, g.here.stack, g.here.interrupts⟩
          if g.sched.spawnUsed = true ∨ loaded = false then g'.switch s g.here.stack
          else g'.create s t 0 base 0 (.entry childStackTop)
      else none
  | .exec =>
      if g.here.point = .dispatch then
        some (g.goto ⟨.returned, g.here.stack, g.here.interrupts⟩).setReturn
      else none
  | .other =>
      if g.here.point = .dispatch then
        some (g.goto ⟨.returned, g.here.stack, g.here.interrupts⟩)
      else none
  | .store tables rsp back below => some (g.store tables rsp back below)
  | .checkReturn =>
      if g.here.point = .returned then
        let g' := g.goto ⟨.restoring, g.here.stack, g.here.interrupts⟩
        some (if g.userReturnRsp ≠ 0 then g'.takeReturn else g')
      else none
  | .loadRsp =>
      if g.here.point = .restoring then
        some (g.goto ⟨.leaving, .user g.savedUserRsp, g.here.interrupts⟩)
      else none
  | .sysretq =>
      if g.here.point = .leaving then some (g.goto ⟨.user, g.here.stack, true⟩) else none

/-- The stack on which an action saves the registers of the task, should it switch. -/
def Cpu.outgoing (g : Cpu) : CpuAction → Stack
  | .tick => g.interruptStack
  | _ => g.here.stack

/-- **The frame is intact**: when `schedule` switches to a task that was switched away from on
a user stack, the words below its saved stack pointer still lead, under the CR3 then in
force, to where it was. -/
def Intact (g : Cpu) (a : CpuAction) : Prop :=
  ∀ c ∈ a.schedCall, ∀ s ∈ schedExec g.sched c, s.current ≠ g.sched.current →
    (g.push (g.outgoing a) (g.loads s.current)).pop s.current (g.loads s.current) =
      g.context s.current

/-- What can happen, and what it does. -/
def CpuStep (kmain : Nat) (g : Cpu) (a : CpuAction) (g' : Cpu) : Prop :=
  g.sched.halted = false ∧ (∀ c ∈ a.schedCall, Enabled kmain g.sched c) ∧ cpuExec g a = some g'

/-- The end of `kmain`: the first task has its kernel stack at `base` and the tables
`pml4`, as far as there are any. -/
def Cpu.start (m : TaskMemory) (kmain user : Nat) (sems : List (Int × Int)) (base pml4 cr3 : Nat) :
    Cpu where
  sched := schedBoot m kmain user sems
  pml4Phys := fun t => if t = user then pml4 else 0
  kernelStackTop := fun t => if t = user then base + taskStackSize else 0
  taskUserRsp := fun _ => 0
  cr3 := cr3
  kernelRsp := 0
  rsp0 := 0
  savedUserRsp := 0
  userReturnRsp := 0
  context := fun t =>
    if t = user then ⟨.entry userStackTop, .kernel (base + taskStackSize), true⟩
    else ⟨.idle, .boot, true⟩
  frame := fun t => if t = user then .kernel (base + taskStackSize) else .boot
  returns := fun _ _ => some .lost
  trapped := fun _ _ => .lost
  entryRsp := fun _ => 0
  execed := fun _ => false
  lastCr3 := fun t => if t = user ∧ pml4 ≠ 0 then pml4 else cr3

end Flyos
