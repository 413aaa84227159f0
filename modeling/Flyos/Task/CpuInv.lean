import Flyos.Task.Cpu

/-!
# What holds at every point of the code

Each point has its stack and its state of the interrupt flag (`Context.Ok`).  Inside a
system call the user's stack pointer is in `saved_user_rsp`: in the global variable while
the task is current, in its record while it is not (`Cpu.userRsp`), and `schedule` moves it
from one to the other.

An action stays with the current task (`Cpu.Local`), or ends in `schedule`, or creates a
task (`cpuStep_cases`); the invariant `CpuInv` is kept by each of the three, by the second
as long as `task_switch` finds the registers of the next task (`Intact`).
-/

namespace Flyos

variable {kmain : Nat} {g g' : Cpu} {a : CpuAction} {s : Sched}

/-! ## The three kinds of actions -/

/-- An action of the current task that concerns no other. -/
structure Cpu.Local (g g' : Cpu) : Prop where
  sched : g'.sched = g.sched
  pml4Phys : g'.pml4Phys = g.pml4Phys
  kernelStackTop : g'.kernelStackTop = g.kernelStackTop
  taskUserRsp : g'.taskUserRsp = g.taskUserRsp
  cr3 : g'.cr3 = g.cr3
  kernelRsp : g'.kernelRsp = g.kernelRsp
  rsp0 : g'.rsp0 = g.rsp0
  frame : g'.frame = g.frame
  lastCr3 : g'.lastCr3 = g.lastCr3
  context : ∀ t, t ≠ g.sched.current → g'.context t = g.context t
  entryRsp : ∀ t, t ≠ g.sched.current → g'.entryRsp t = g.entryRsp t
  execed : ∀ t, t ≠ g.sched.current → g'.execed t = g.execed t

theorem Cpu.Local.goto (g : Cpu) (c : Context) : g.Local (g.goto c) :=
  ⟨rfl, rfl, rfl, rfl, rfl, rfl, rfl, rfl, rfl,
    fun _ other => Function.update_of_ne other _ _, fun _ _ => rfl, fun _ _ => rfl⟩

@[simp] theorem Cpu.goto_sched (c : Context) : (g.goto c).sched = g.sched := rfl

@[simp] theorem Cpu.goto_here (c : Context) : (g.goto c).here = c := Function.update_self _ _ _

@[simp] theorem Cpu.enter_here (rsp : Nat) : (g.enter rsp).here = g.here := rfl

@[simp] theorem Cpu.setReturn_here : g.setReturn.here = g.here := rfl

@[simp] theorem Cpu.takeReturn_here : g.takeReturn.here = g.here := rfl

theorem Cpu.goto_self (g : Cpu) : g.goto g.here = g := by
  rw [Cpu.goto, Function.update_eq_self]

/-- The stack on which an action gets to `schedule`: that of a system call, or the one on
which the timer interrupt runs. -/
def SwitchStack (g : Cpu) (a : CpuAction) (c : Context) (stack : Stack) : Prop :=
  (a = .tick ∧ g.here.interrupts = true ∧ c = g.here ∧ stack = g.interruptStack) ∨
    (a ≠ .tick ∧ g.here.point = .dispatch ∧ stack = g.here.stack ∧ c.stack = g.here.stack ∧
      (c.point = .returned ∨ c.point = .ended ∧ c.interrupts = g.here.interrupts ∨
        c.point = .reading ∧ c.interrupts = true))

/-- The action gets to `schedule`. -/
def CpuSwitches (kmain : Nat) (g : Cpu) (a : CpuAction) (g' : Cpu) : Prop :=
  ∃ c s context stack, a.schedCall = some c ∧ Enabled kmain g.sched c ∧
    schedExec g.sched c = some s ∧ s.tasks = g.sched.tasks ∧ SwitchStack g a context stack ∧
    g' = (g.goto context).switch s stack

/-- The action creates a task. -/
def CpuCreates (kmain : Nat) (g g' : Cpu) : Prop :=
  ∃ c s context t pml4 base rsp point, Enabled kmain g.sched c ∧
    schedExec g.sched c = some s ∧ t ∉ g.sched.tasks ∧ s.tasks = t :: g.sched.tasks ∧
    s.current = g.sched.current ∧ g.here.point = .dispatch ∧
    context = ⟨.returned, g.here.stack, g.here.interrupts⟩ ∧
    ((∃ top, point = .entry top) ∨ ∃ rsp, point = .forked rsp) ∧
    g' = (g.goto context).create s t pml4 base rsp point

/-- An action that does no more than go to another point. -/
theorem Cpu.Local.ofGoto {here : Prop} [Decidable here] {c : Context}
    (ran : (if here then some (g.goto c) else none) = some g') : g.Local g' := by
  split at ran
  case isTrue => exact Option.some.inj ran ▸ .goto g c
  case isFalse => cases ran

/-- An action that is no call of the scheduler. -/
theorem cpuExec_local (none : a.schedCall = none) (ran : cpuExec g a = some g') : g.Local g' := by
  cases a with
  | tick => cases none
  | call c => cases none
  | read waits => cases none
  | fork t pml4 base => cases none
  | spawn t base loaded => cases none
  | loadStack =>
      rw [cpuExec] at ran
      split at ran
      case h_1 => exact Option.some.inj ran ▸ .goto g _
      case h_2 => cases ran
  | iretq =>
      rw [cpuExec] at ran
      split at ran
      case h_1 => exact Option.some.inj ran ▸ .goto g _
      case h_2 => exact Option.some.inj ran ▸ .goto g _
      case h_3 => cases ran
  | run rsp => exact .ofGoto ran
  | syscall =>
      rw [cpuExec] at ran
      split at ran
      case h_1 =>
        obtain rfl := Option.some.inj ran
        exact ⟨rfl, rfl, rfl, rfl, rfl, rfl, rfl, rfl, rfl,
          fun _ other => Function.update_of_ne other _ _,
          fun _ other => Function.update_of_ne other _ _,
          fun _ other => Function.update_of_ne other _ _⟩
      case h_2 => cases ran
  | key => exact .ofGoto ran
  | exec =>
      rw [cpuExec] at ran
      split at ran
      case isTrue =>
        obtain rfl := Option.some.inj ran
        exact ⟨rfl, rfl, rfl, rfl, rfl, rfl, rfl, rfl, rfl,
          fun _ other => Function.update_of_ne other _ _, fun _ _ => rfl,
          fun _ other => Function.update_of_ne other _ _⟩
      case isFalse => cases ran
  | other => exact .ofGoto ran
  | store tables rsp back below =>
      obtain rfl := Option.some.inj ran
      exact ⟨rfl, rfl, rfl, rfl, rfl, rfl, rfl, rfl, rfl, fun _ _ => rfl, fun _ _ => rfl,
        fun _ _ => rfl⟩
  | checkReturn =>
      rw [cpuExec] at ran
      split at ran
      case isTrue =>
        obtain rfl := Option.some.inj ran
        split
        case isTrue =>
          exact ⟨rfl, rfl, rfl, rfl, rfl, rfl, rfl, rfl, rfl,
            fun _ other => Function.update_of_ne other _ _, fun _ _ => rfl, fun _ _ => rfl⟩
        case isFalse => exact .goto g _
      case isFalse => cases ran
  | loadRsp => exact .ofGoto ran
  | sysretq => exact .ofGoto ran

/-- A call that creates nothing leaves the list of tasks. -/
theorem Enabled.sameTasks {c : SchedCall} (enabled : Enabled kmain g.sched c)
    (ran : schedExec g.sched c = some s) (none : c.creates = false) :
    s.tasks = g.sched.tasks := by
  rcases schedExec_ids enabled ran with ids | ⟨creates, -⟩
  · exact ids.tasks
  · cases none.symm.trans creates

/-- `task_fork` gets to `schedule`, or creates the child. -/
theorem cpuExec_fork {t pml4 base : Nat} (at_ : g.here.point = .dispatch)
    (enabled : Enabled kmain g.sched (.fork t (pml4 ≠ 0)))
    (called : schedExec g.sched (.fork t (pml4 ≠ 0)) = some s) :
    let g₁ := g.goto ⟨.returned, g.here.stack, g.here.interrupts⟩
    let g' := if t = 0 ∨ pml4 = 0 then g₁.switch s g.here.stack
      else g₁.create s t pml4 base g.savedUserRsp (.forked g.savedUserRsp)
    CpuSwitches kmain g (.fork t pml4 base) g' ∨ CpuCreates kmain g g' := by
  intro g₁ g'
  have forked : taskFork g.sched t (decide (pml4 ≠ 0)) = s := Option.some.inj called
  by_cases failed : t = 0 ∨ pml4 = 0
  · have result : g' = g₁.switch s g.here.stack := if_pos failed
    refine .inl ⟨_, s, ⟨.returned, g.here.stack, g.here.interrupts⟩, _, rfl, enabled, called, ?_,
      .inr ⟨fun no => (by cases no), at_, rfl, rfl, .inl rfl⟩, result⟩
    rw [← forked, taskFork]
    rcases failed with null | unmapped
    · rw [if_pos null]
    · rw [if_pos (c := decide (pml4 ≠ 0) = false) (by simpa using unmapped)]
      split <;> rfl
  · have result : g' = g₁.create s t pml4 base g.savedUserRsp (.forked g.savedUserRsp) :=
      if_neg failed
    obtain ⟨some, mapped⟩ := not_or.mp failed
    rw [taskFork, if_neg some, if_neg (by simpa using mapped)] at forked
    have fresh := enabled.2.2.resolve_left some
    exact .inr ⟨_, s, _, t, pml4, base, _, _, enabled, called, fresh.1, by rw [← forked]; rfl,
      by rw [← forked]; rfl, at_, rfl, .inr ⟨_, rfl⟩, result⟩

/-- So does `kernel_spawn_child`. -/
theorem cpuExec_spawn {t base : Nat} {loaded : Bool} (at_ : g.here.point = .dispatch)
    (enabled : Enabled kmain g.sched (.spawn t loaded))
    (called : schedExec g.sched (.spawn t loaded) = some s) :
    let g₁ := g.goto ⟨.returned, g.here.stack, g.here.interrupts⟩
    let g' := if g.sched.spawnUsed = true ∨ loaded = false then g₁.switch s g.here.stack
      else g₁.create s t 0 base 0 (.entry childStackTop)
    CpuSwitches kmain g (.spawn t base loaded) g' ∨ CpuCreates kmain g g' := by
  intro g₁ g'
  have spawned : kernelSpawnChild g.sched t loaded = s := Option.some.inj called
  by_cases failed : g.sched.spawnUsed = true ∨ loaded = false
  · have result : g' = g₁.switch s g.here.stack := if_pos failed
    refine .inl ⟨_, s, ⟨.returned, g.here.stack, g.here.interrupts⟩, _, rfl, enabled, called, ?_,
      .inr ⟨fun no => (by cases no), at_, rfl, rfl, .inl rfl⟩, result⟩
    rw [← spawned, kernelSpawnChild]
    rcases failed with again | unloaded
    · rw [if_pos again]
    · rw [if_pos unloaded]
      split <;> rfl
  · have result : g' = g₁.create s t 0 base 0 (.entry childStackTop) := if_neg failed
    obtain ⟨first, loads⟩ := not_or.mp failed
    rw [kernelSpawnChild, if_neg first, if_neg loads] at spawned
    have fresh := enabled.2.2 (by simpa using first) (by simpa using loads)
    exact .inr ⟨_, s, _, t, 0, base, _, _, enabled, called, fresh.1, by rw [← spawned]; rfl,
      by rw [← spawned]; rfl, at_, rfl, .inl ⟨_, rfl⟩, result⟩

/-- **What an action does.** -/
theorem cpuStep_cases (step : CpuStep kmain g a g') :
    (g.Local g' ∧ a.schedCall = none) ∨ CpuSwitches kmain g a g' ∨ CpuCreates kmain g g' := by
  obtain ⟨running, enabled, ran⟩ := step
  cases a with
  | tick =>
      rw [cpuExec] at ran
      split at ran
      case isFalse => cases ran
      case isTrue on =>
        obtain ⟨s, called, rfl⟩ := Option.map_eq_some_iff.mp ran
        have enabled := enabled _ rfl
        refine .inr (.inl ⟨_, s, g.here, _, rfl, enabled, called, enabled.sameTasks called rfl,
          .inl ⟨rfl, on, rfl, rfl⟩, ?_⟩)
        exact congrArg (fun g' : Cpu => g'.switch s g.interruptStack) g.goto_self.symm
  | call c =>
      rw [cpuExec] at ran
      split at ran
      case isFalse => cases ran
      case isTrue at_ =>
        obtain ⟨s, called, rfl⟩ := Option.map_eq_some_iff.mp ran
        have enabled := enabled _ rfl
        have direct : c.creates = false := by
          have := at_.2
          cases c <;> first | rfl | cases this
        refine .inr (.inl ⟨_, s, ⟨if c = .exit then .ended else .returned, g.here.stack,
          g.here.interrupts⟩, _, rfl, enabled, called, enabled.sameTasks called direct,
          .inr ⟨fun no => (by cases no), at_.1, rfl, rfl, ?_⟩, rfl⟩)
        by_cases exit : c = .exit
        · exact .inr (.inl ⟨if_pos exit, rfl⟩)
        · exact .inl (if_neg exit)
  | read waits =>
      rw [cpuExec] at ran
      split at ran
      case isFalse => cases ran
      case isTrue at_ =>
        obtain ⟨s, called, rfl⟩ := Option.map_eq_some_iff.mp ran
        have enabled := enabled _ rfl
        refine .inr (.inl ⟨_, s, _, _, rfl, enabled, called, enabled.sameTasks called rfl,
          .inr ⟨fun no => (by cases no), at_, rfl, ?_⟩, rfl⟩)
        split
        case isTrue => exact ⟨rfl, .inl rfl⟩
        case isFalse => exact ⟨rfl, .inr (.inr ⟨rfl, rfl⟩)⟩
  | fork t pml4 base =>
      rw [cpuExec] at ran
      split at ran
      case isFalse => cases ran
      case isTrue at_ =>
        obtain ⟨s, called, rfl⟩ := Option.map_eq_some_iff.mp ran
        exact .inr (cpuExec_fork at_ (enabled _ rfl) called)
  | spawn t base loaded =>
      rw [cpuExec] at ran
      split at ran
      case isFalse => cases ran
      case isTrue at_ =>
        obtain ⟨s, called, rfl⟩ := Option.map_eq_some_iff.mp ran
        exact .inr (cpuExec_spawn at_ (enabled _ rfl) called)
  | loadStack => exact .inl ⟨cpuExec_local rfl ran, rfl⟩
  | iretq => exact .inl ⟨cpuExec_local rfl ran, rfl⟩
  | run rsp => exact .inl ⟨cpuExec_local rfl ran, rfl⟩
  | syscall => exact .inl ⟨cpuExec_local rfl ran, rfl⟩
  | key => exact .inl ⟨cpuExec_local rfl ran, rfl⟩
  | exec => exact .inl ⟨cpuExec_local rfl ran, rfl⟩
  | other => exact .inl ⟨cpuExec_local rfl ran, rfl⟩
  | store tables rsp back below => exact .inl ⟨cpuExec_local rfl ran, rfl⟩
  | checkReturn => exact .inl ⟨cpuExec_local rfl ran, rfl⟩
  | loadRsp => exact .inl ⟨cpuExec_local rfl ran, rfl⟩
  | sysretq => exact .inl ⟨cpuExec_local rfl ran, rfl⟩

/-! ## The invariant -/

/-- The user's stack pointer that belongs to a task: the global variable while it is
current. -/
def Cpu.userRsp (g : Cpu) (t : Nat) : Nat :=
  if t = g.sched.current then g.savedUserRsp else g.taskUserRsp t

/-- A stack pointer is the one to return with, unless the task runs another program now. -/
def Cpu.Back (g : Cpu) (t rsp : Nat) : Prop := g.execed t = false → rsp = g.entryRsp t

/-- Stack and interrupt flag are those of the point, and the stack pointer of the user, which
is `rsp` during a system call, is one to go back with. -/
def Context.Ok (c : Context) (top rsp : Nat) (back : Nat → Prop) : Prop :=
  match c.point with
  | .idle | .lost => False
  | .entry _ | .forked _ => c.stack = .kernel top ∧ c.interrupts = true
  | .entering | .user => (∃ rsp, c.stack = .user rsp) ∧ c.interrupts = true
  | .dispatch => (c.stack = .kernel top ∧ c.interrupts = false) ∧ back rsp
  | .reading => (c.stack = .kernel top ∧ c.interrupts = true) ∧ back rsp
  | .returned | .restoring => c.stack = .kernel top ∧ back rsp
  | .leaving => ∃ rsp, c.stack = .user rsp ∧ back rsp
  | .ended => c.stack = .kernel top ∧ c.interrupts = false

/-- The invariant. -/
structure CpuInv (kmain : Nat) (g : Cpu) : Prop where
  sched : ∃ lists, SchedInv kmain g.sched lists
  idle : g.context kmain = ⟨.idle, .boot, true⟩
  top : g.kernelStackTop g.sched.current ≠ 0 →
    g.kernelRsp = g.kernelStackTop g.sched.current ∧ g.rsp0 = g.kernelStackTop g.sched.current
  tops : ∀ t ∈ g.sched.tasks, t ≠ kmain → g.kernelStackTop t ≠ 0
  contexts : ∀ t ∈ g.sched.tasks, t ≠ kmain →
    (g.context t).Ok (g.kernelStackTop t) (g.userRsp t) (g.Back t)
  exec : g.userReturnRsp ≠ 0 →
    g.here.point = .returned ∧ g.here.interrupts = false ∧ g.execed g.sched.current = true

namespace CpuInv

/-- `kmain` makes no call. -/
theorem busy (inv : CpuInv kmain g) (at_ : g.here.point ≠ .idle) : g.sched.current ≠ kmain := by
  intro same
  rw [Cpu.here, same, inv.idle] at at_
  exact at_ rfl

/-- The context of the current task. -/
theorem hereOk (inv : CpuInv kmain g) (at_ : g.here.point ≠ .idle) :
    g.here.Ok (g.kernelStackTop g.sched.current) g.savedUserRsp (g.Back g.sched.current) := by
  obtain ⟨lists, sched⟩ := inv.sched
  have ok := inv.contexts _ sched.current (inv.busy at_)
  rwa [Cpu.userRsp, if_pos rfl] at ok

/-- **An action of the current task** keeps the invariant when its new context is right. -/
theorem ofLocal (inv : CpuInv kmain g) (same : g.Local g') (at_ : g.here.point ≠ .idle)
    (here : g'.here.Ok (g.kernelStackTop g.sched.current) g'.savedUserRsp
      (g'.Back g.sched.current))
    (exec : g'.userReturnRsp ≠ 0 → g'.here.point = .returned ∧ g'.here.interrupts = false ∧
      g'.execed g.sched.current = true) : CpuInv kmain g' := by
  have busy := inv.busy at_
  refine ⟨by rw [same.sched]; exact inv.sched, ?_, ?_, ?_, fun t mem other => ?_, fun some => ?_⟩
  · rw [same.context kmain busy.symm]
    exact inv.idle
  · rw [same.sched, same.kernelStackTop, same.kernelRsp, same.rsp0]
    exact inv.top
  · rw [same.sched, same.kernelStackTop]
    exact inv.tops
  · rw [same.sched] at mem
    rw [same.kernelStackTop]
    by_cases current : t = g.sched.current
    · rw [Cpu.userRsp, same.sched, if_pos current, current]
      rwa [Cpu.here, same.sched] at here
    · have back : g'.Back t = g.Back t := by
        funext rsp
        rw [Cpu.Back, Cpu.Back, same.entryRsp t current, same.execed t current]
      have saved : g'.userRsp t = g.userRsp t := by
        rw [Cpu.userRsp, Cpu.userRsp, same.sched, if_neg current, if_neg current,
          same.taskUserRsp]
      rw [back, saved, same.context t current]
      exact inv.contexts t mem other
  · rw [same.sched]
    exact exec some

end CpuInv

/-! ## Switching -/

namespace Cpu

/-- Only user memory is written when registers are pushed. -/
theorem push_eq (g : Cpu) (stack : Stack) (tables : Nat) :
    g.push stack tables = { g with
      returns := (g.push stack tables).returns
      trapped := (g.push stack tables).trapped } := by
  cases stack <;> rfl

/-- Nothing is written to user memory from another stack. -/
theorem push_own {stack : Stack} (own : ∀ rsp, stack ≠ .user rsp) (tables : Nat) :
    g.push stack tables = g := by
  cases stack with
  | boot => rfl
  | kernel top => rfl
  | user rsp => exact absurd rfl (own rsp)

@[simp] theorem switch_sched (stack : Stack) : (g.switch s stack).sched = s := by
  unfold switch
  dsimp only
  split <;> rfl

/-- A task goes on where it was, when its frame is intact. -/
theorem switch_context {stack : Stack} (found : s.current ≠ g.sched.current →
      (g.push stack (g.loads s.current)).pop s.current (g.loads s.current) =
        g.context s.current) :
    (g.switch s stack).context = g.context := by
  unfold switch
  dsimp only
  split
  case isTrue => rfl
  case isFalse moves =>
    dsimp only
    rw [found moves, Function.update_eq_self]

@[simp] theorem switch_kernelStackTop (stack : Stack) :
    (g.switch s stack).kernelStackTop = g.kernelStackTop := by
  unfold switch
  dsimp only
  split
  case isTrue => rfl
  case isFalse => rw [push_eq]

@[simp] theorem switch_pml4Phys (stack : Stack) : (g.switch s stack).pml4Phys = g.pml4Phys := by
  unfold switch
  dsimp only
  split
  case isTrue => rfl
  case isFalse => rw [push_eq]

@[simp] theorem switch_entryRsp (stack : Stack) : (g.switch s stack).entryRsp = g.entryRsp := by
  unfold switch
  dsimp only
  split
  case isTrue => rfl
  case isFalse => rw [push_eq]

@[simp] theorem switch_execed (stack : Stack) : (g.switch s stack).execed = g.execed := by
  unfold switch
  dsimp only
  split
  case isTrue => rfl
  case isFalse => rw [push_eq]

@[simp] theorem switch_userReturnRsp (stack : Stack) :
    (g.switch s stack).userReturnRsp = g.userReturnRsp := by
  unfold switch
  dsimp only
  split
  case isTrue => rfl
  case isFalse => rw [push_eq]

/-- **`schedule` keeps the stack pointer of every task**: it moves the one of the task before
to its record and takes the next one's from there. -/
theorem switch_userRsp (stack : Stack) (t : Nat) : (g.switch s stack).userRsp t = g.userRsp t := by
  rw [userRsp, userRsp, switch_sched]
  unfold switch
  dsimp only
  by_cases stays : s.current = g.sched.current
  · rw [if_pos stays, stays]
  · rw [if_neg stays]
    dsimp only
    by_cases next : t = s.current
    · rw [if_pos next, if_neg (next ▸ stays), next]
    · rw [if_neg next]
      by_cases prev : t = g.sched.current
      · rw [if_pos prev, prev, Function.update_self]
      · rw [if_neg prev, Function.update_of_ne prev]

/-- The stacks of the processor after `schedule`. -/
theorem switch_tops (stack : Stack)
    (top : g.kernelStackTop g.sched.current ≠ 0 → g.kernelRsp = g.kernelStackTop g.sched.current ∧
      g.rsp0 = g.kernelStackTop g.sched.current)
    (some : g.kernelStackTop s.current ≠ 0) :
    (g.switch s stack).kernelRsp = g.kernelStackTop s.current ∧
      (g.switch s stack).rsp0 = g.kernelStackTop s.current := by
  unfold switch
  dsimp only
  by_cases stays : s.current = g.sched.current
  · rw [if_pos stays, stays]
    exact top (stays ▸ some)
  · rw [if_neg stays]
    exact ⟨if_pos some, if_pos some⟩

end Cpu

/-- **A call that gets to `schedule`** keeps the invariant when the context it leaves behind
is right. -/
theorem CpuInv.switch (inv : CpuInv kmain g) {c : SchedCall} (enabled : Enabled kmain g.sched c)
    (ran : schedExec g.sched c = some s) (tasks : s.tasks = g.sched.tasks) {context : Context}
    {stack : Stack} (found : s.current ≠ g.sched.current →
      ((g.goto context).push stack (g.loads s.current)).pop s.current (g.loads s.current) =
        g.context s.current)
    (idle : g.sched.current = kmain → context = g.here)
    (here : g.sched.current ≠ kmain → context.Ok (g.kernelStackTop g.sched.current)
      g.savedUserRsp (g.Back g.sched.current))
    (exec : g.userReturnRsp = 0) : CpuInv kmain ((g.goto context).switch s stack) := by
  obtain ⟨lists, sched⟩ := inv.sched
  obtain ⟨s', ran', outcome⟩ := schedExec_spec sched enabled
  obtain rfl := Option.some.inj (ran.symm.trans ran')
  have back : ((g.goto context).switch s stack).Back = g.Back := by
    funext t rsp
    rw [Cpu.Back, Cpu.switch_entryRsp, Cpu.switch_execed]
    rfl
  have saved : ∀ t, ((g.goto context).switch s stack).userRsp t = g.userRsp t :=
    Cpu.switch_userRsp stack
  have contexts : ((g.goto context).switch s stack).context = (g.goto context).context := by
    refine Cpu.switch_context fun moves => (found moves).trans ?_
    exact (Function.update_of_ne moves _ _).symm
  refine ⟨⟨_, by rw [Cpu.switch_sched]; exact outcome.inv⟩, ?_, ?_, ?_, fun t mem other => ?_,
    fun some => ?_⟩
  · rw [contexts, Cpu.goto]
    dsimp only
    by_cases current : kmain = g.sched.current
    · rw [current, Function.update_self, idle current.symm, ← inv.idle, Cpu.here, current]
    · rw [Function.update_of_ne current]
      exact inv.idle
  · rw [Cpu.switch_sched, Cpu.switch_kernelStackTop]
    exact Cpu.switch_tops stack inv.top
  · rw [Cpu.switch_sched, Cpu.switch_kernelStackTop, tasks]
    exact inv.tops
  · rw [Cpu.switch_sched, tasks] at mem
    rw [back, saved, contexts, Cpu.switch_kernelStackTop, Cpu.goto]
    dsimp only
    by_cases current : t = g.sched.current
    · subst current
      rw [Function.update_self, Cpu.userRsp, if_pos rfl]
      exact here other
    · rw [Function.update_of_ne current]
      exact inv.contexts t mem other
  · rw [Cpu.switch_userReturnRsp] at some
    exact absurd exec some

/-- **A call that creates a task** keeps the invariant. -/
theorem CpuInv.create (inv : CpuInv kmain g) {c : SchedCall} (enabled : Enabled kmain g.sched c)
    (ran : schedExec g.sched c = some s) {t : Nat} (new : t ∉ g.sched.tasks)
    (tasks : s.tasks = t :: g.sched.tasks) (current : s.current = g.sched.current)
    (at_ : g.here.point = .dispatch) {pml4 base rsp : Nat} {point : Point}
    (first : (∃ top, point = .entry top) ∨ ∃ rsp, point = .forked rsp) :
    CpuInv kmain ((g.goto ⟨.returned, g.here.stack, g.here.interrupts⟩).create
      s t pml4 base rsp point) := by
  obtain ⟨lists, sched⟩ := inv.sched
  obtain ⟨s', ran', outcome⟩ := schedExec_spec sched enabled
  obtain rfl := Option.some.inj (ran.symm.trans ran')
  have busy : g.sched.current ≠ kmain := inv.busy (by rw [at_]; nofun)
  have ok := inv.hereOk (by rw [at_]; nofun)
  simp only [Context.Ok, at_] at ok
  obtain ⟨⟨stack, off⟩, back⟩ := ok
  have others : ∀ x ∈ g.sched.tasks, x ≠ t := fun x mem same => new (same ▸ mem)
  have current_other := others _ sched.current
  have kmain_other := others _ sched.idle
  refine ⟨⟨_, outcome.inv⟩, ?_, fun some => ?_, fun x mem other => ?_, fun x mem other => ?_,
    fun some => ?_⟩
  · simp only [Cpu.create, Cpu.goto, Function.update_of_ne kmain_other,
      Function.update_of_ne (Ne.symm busy)]
    exact inv.idle
  · simp only [Cpu.create, Cpu.goto, current, Function.update_of_ne current_other] at some ⊢
    exact inv.top some
  · simp only [Cpu.create, tasks, List.mem_cons] at mem
    simp only [Cpu.create, Cpu.goto]
    rcases mem with rfl | old
    · rw [Function.update_self]
      exact Nat.ne_of_gt (Nat.lt_of_lt_of_le (by decide) (Nat.le_add_left taskStackSize base))
    · rw [Function.update_of_ne (others x old)]
      exact inv.tops x old other
  · simp only [Cpu.create, tasks, List.mem_cons] at mem
    by_cases here : x = t
    · subst here
      simp only [Cpu.create, Function.update_self]
      rcases first with ⟨top, rfl⟩ | ⟨rsp, rfl⟩ <;> exact ⟨rfl, rfl⟩
    have old := mem.resolve_left here
    have backs : ((g.goto ⟨.returned, g.here.stack, g.here.interrupts⟩).create
        s t pml4 base rsp point).Back x = g.Back x := by
      funext rsp
      simp only [Cpu.Back, Cpu.create, Cpu.goto, Function.update_of_ne here]
    have saved : ((g.goto ⟨.returned, g.here.stack, g.here.interrupts⟩).create
        s t pml4 base rsp point).userRsp x = g.userRsp x := by
      simp only [Cpu.userRsp, Cpu.create, Cpu.goto, current, Function.update_of_ne here]
    rw [backs, saved]
    simp only [Cpu.create, Cpu.goto, Function.update_of_ne here]
    by_cases acts : x = g.sched.current
    · rw [acts, Function.update_self, Cpu.userRsp, if_pos rfl]
      exact ⟨stack, back⟩
    · rw [Function.update_of_ne acts]
      exact inv.contexts x old other
  · have none := (inv.exec some).1
    rw [at_] at none
    cases none

/-! ## Every step -/

/-- The stack of a system call is the kernel stack of the task. -/
theorem CpuInv.dispatch (inv : CpuInv kmain g) (at_ : g.here.point = .dispatch) :
    g.here.stack = .kernel (g.kernelStackTop g.sched.current) ∧ g.here.interrupts = false ∧
      g.Back g.sched.current g.savedUserRsp ∧ g.userReturnRsp = 0 := by
  have ok := inv.hereOk (by rw [at_]; nofun)
  simp only [Context.Ok, at_] at ok
  refine ⟨ok.1.1, ok.1.2, ok.2, Decidable.byContradiction fun some => ?_⟩
  have returned := (inv.exec some).1
  rw [at_] at returned
  cases returned

/-- An action that only goes to another point, inside or outside the kernel. -/
theorem CpuInv.ofGoto (inv : CpuInv kmain g) (busy : g.here.point ≠ .idle)
    (quiet : g.here.point ≠ .returned) {c : Context}
    (ok : c.Ok (g.kernelStackTop g.sched.current) g.savedUserRsp (g.Back g.sched.current)) :
    CpuInv kmain (g.goto c) := by
  refine inv.ofLocal (.goto g c) busy ?_ fun some => ?_
  · rw [Cpu.goto_here]
    exact ok
  · exact absurd (inv.exec some).1 quiet

/-- The first instructions of a task in ring 3. -/
theorem CpuInv.iretq (inv : CpuInv kmain g) (ran : cpuExec g .iretq = some g') :
    CpuInv kmain g' := by
  rw [cpuExec] at ran
  split at ran
  case h_1 at_ =>
    obtain rfl := Option.some.inj ran
    exact inv.ofGoto (by rw [at_]; nofun) (by rw [at_]; nofun) ⟨⟨_, rfl⟩, rfl⟩
  case h_2 at_ =>
    obtain rfl := Option.some.inj ran
    exact inv.ofGoto (by rw [at_]; nofun) (by rw [at_]; nofun) ⟨⟨_, rfl⟩, rfl⟩
  case h_3 => cases ran

/-- `syscall_entry` starts: the kernel stack is the one in `kernel_rsp`, and the stack pointer
of the program is kept. -/
theorem CpuInv.syscall (inv : CpuInv kmain g) (same : g.Local g')
    (ran : cpuExec g .syscall = some g') : CpuInv kmain g' := by
  rw [cpuExec] at ran
  split at ran
  case h_2 => cases ran
  case h_1 at_ =>
    obtain rfl := Option.some.inj ran
    have user : g.here.point ≠ .idle := by rw [at_]; nofun
    obtain ⟨lists, sched⟩ := inv.sched
    have top := inv.top (inv.tops _ sched.current (inv.busy user))
    refine inv.ofLocal same user ?_ fun some => ?_
    · have entered : ∀ (g' : Cpu) rsp, (g'.enter rsp).entryRsp g'.sched.current = rsp :=
        fun _ _ => Function.update_self _ _ _
      rw [Cpu.enter_here, Cpu.goto_here]
      exact ⟨⟨by rw [top.1], rfl⟩, fun _ => (entered (g.goto _) _).symm⟩
    · exact absurd (inv.exec some).1 (by rw [at_]; nofun)

/-- `SYS_EXEC` leaves a `user_return_rsp` behind. -/
theorem CpuInv.setReturn (inv : CpuInv kmain g) (same : g.Local g')
    (ran : cpuExec g .exec = some g') : CpuInv kmain g' := by
  rw [cpuExec] at ran
  split at ran
  case isFalse => cases ran
  case isTrue at_ =>
    obtain rfl := Option.some.inj ran
    obtain ⟨stack, off, -, -⟩ := inv.dispatch at_
    have execs : (g.goto ⟨.returned, g.here.stack, g.here.interrupts⟩).setReturn.execed
        g.sched.current = true := Function.update_self _ _ _
    refine inv.ofLocal same (by rw [at_]; nofun) ?_ fun _ => ?_
    · rw [Cpu.setReturn_here, Cpu.goto_here]
      exact ⟨stack, fun no => absurd (execs.symm.trans no) (by decide)⟩
    · rw [Cpu.setReturn_here, Cpu.goto_here]
      exact ⟨rfl, off, execs⟩

/-- `syscall_entry` finds a `user_return_rsp` only in a call of `SYS_EXEC`, which has no stack
pointer to go back with. -/
theorem CpuInv.checkReturn (inv : CpuInv kmain g) (same : g.Local g')
    (ran : cpuExec g .checkReturn = some g') : CpuInv kmain g' := by
  rw [cpuExec] at ran
  split at ran
  case isFalse => cases ran
  case isTrue at_ =>
    obtain rfl := Option.some.inj ran
    have ok := inv.hereOk (by rw [at_]; nofun)
    simp only [Context.Ok, at_] at ok
    split at same
    case isTrue some =>
      rw [if_pos some]
      refine inv.ofLocal same (by rw [at_]; nofun) ?_ fun some => absurd rfl some
      rw [Cpu.takeReturn_here, Cpu.goto_here]
      refine ⟨ok.1, fun no => ?_⟩
      exact absurd ((inv.exec some).2.2.symm.trans no) (by decide)
    case isFalse zero =>
      rw [if_neg zero]
      refine inv.ofLocal same (by rw [at_]; nofun) ?_ fun some => absurd some zero
      rw [Cpu.goto_here]
      exact ok

/-- The actions that are no call of the scheduler. -/
theorem CpuInv.localStep (inv : CpuInv kmain g) (same : g.Local g') (none : a.schedCall = none)
    (ran : cpuExec g a = some g') : CpuInv kmain g' := by
  cases a with
  | tick => cases none
  | call c => cases none
  | read waits => cases none
  | fork t pml4 base => cases none
  | spawn t base loaded => cases none
  | loadStack =>
      rw [cpuExec] at ran
      split at ran
      case h_2 => cases ran
      case h_1 at_ =>
        obtain rfl := Option.some.inj ran
        exact inv.ofGoto (by rw [at_]; nofun) (by rw [at_]; nofun) ⟨⟨_, rfl⟩, rfl⟩
  | iretq => exact inv.iretq ran
  | run rsp =>
      rw [cpuExec] at ran
      split at ran
      case isFalse => cases ran
      case isTrue at_ =>
        obtain rfl := Option.some.inj ran
        exact inv.ofGoto (by rw [at_]; nofun) (by rw [at_]; nofun) ⟨⟨_, rfl⟩, rfl⟩
  | syscall => exact inv.syscall same ran
  | key =>
      rw [cpuExec] at ran
      split at ran
      case isFalse => cases ran
      case isTrue at_ =>
        obtain rfl := Option.some.inj ran
        have ok := inv.hereOk (by rw [at_]; nofun)
        simp only [Context.Ok, at_] at ok
        exact inv.ofGoto (by rw [at_]; nofun) (by rw [at_]; nofun) ⟨ok.1.1, ok.2⟩
  | exec => exact inv.setReturn same ran
  | other =>
      rw [cpuExec] at ran
      split at ran
      case isFalse => cases ran
      case isTrue at_ =>
        obtain rfl := Option.some.inj ran
        obtain ⟨stack, -, back, -⟩ := inv.dispatch at_
        exact inv.ofGoto (by rw [at_]; nofun) (by rw [at_]; nofun) ⟨stack, back⟩
  | store tables rsp back below =>
      -- no field of the invariant is about user memory
      obtain rfl := Option.some.inj ran
      exact ⟨inv.sched, inv.idle, inv.top, inv.tops, inv.contexts, inv.exec⟩
  | checkReturn => exact inv.checkReturn same ran
  | loadRsp =>
      rw [cpuExec] at ran
      split at ran
      case isFalse => cases ran
      case isTrue at_ =>
        obtain rfl := Option.some.inj ran
        have ok := inv.hereOk (by rw [at_]; nofun)
        simp only [Context.Ok, at_] at ok
        exact inv.ofGoto (by rw [at_]; nofun) (by rw [at_]; nofun) ⟨_, rfl, ok.2⟩
  | sysretq =>
      rw [cpuExec] at ran
      split at ran
      case isFalse => cases ran
      case isTrue at_ =>
        obtain rfl := Option.some.inj ran
        have ok := inv.hereOk (by rw [at_]; nofun)
        simp only [Context.Ok, at_] at ok
        obtain ⟨rsp, stack, -⟩ := ok
        exact inv.ofGoto (by rw [at_]; nofun) (by rw [at_]; nofun) ⟨⟨rsp, stack⟩, rfl⟩

/-- **The next task is found where it was**, when its frame is intact: the frame of the task
before goes on a user stack only from the timer interrupt. -/
theorem CpuSwitches.found (inv : CpuInv kmain g) (intact : Intact g a) {c : SchedCall}
    (call : a.schedCall = some c) (ran : schedExec g.sched c = some s) {context : Context}
    {stack : Stack} (place : SwitchStack g a context stack)
    (moves : s.current ≠ g.sched.current) :
    ((g.goto context).push stack (g.loads s.current)).pop s.current (g.loads s.current) =
      g.context s.current := by
  have found := intact c call s ran moves
  rcases place with ⟨rfl, -, rfl, rfl⟩ | ⟨no, at_, rfl, -⟩
  · rwa [g.goto_self]
  · have own : ∀ rsp, g.here.stack ≠ .user rsp := by
      intro rsp
      rw [(inv.dispatch at_).1]
      nofun
    have outgoing : g.outgoing a = g.here.stack := by
      cases a with
      | tick => exact absurd rfl no
      | _ => rfl
    rw [outgoing, Cpu.push_own own] at found
    rw [Cpu.push_own own]
    -- only the context of the current task has changed
    have same : (g.goto context).context s.current = g.context s.current :=
      Function.update_of_ne moves _ _
    rw [Cpu.pop] at found ⊢
    rw [same]
    exact found

/-- **Every step keeps the invariant** when it finds the frame of the next task intact. -/
theorem CpuStep.inv (step : CpuStep kmain g a g') (intact : Intact g a) (inv : CpuInv kmain g) :
    CpuInv kmain g' := by
  rcases cpuStep_cases step with ⟨same, none⟩ |
    ⟨c, s, context, stack, call, enabled, ran, tasks, place, rfl⟩ |
    ⟨c, s, context, t, pml4, base, rsp, point, enabled, ran, new, tasks, current, at_, rfl, first,
      rfl⟩
  · exact inv.localStep same none step.2.2
  · have found := CpuSwitches.found inv intact call ran place
    rcases place with ⟨-, on, rfl, -⟩ | ⟨-, at_, -, where_, next⟩
    · -- the timer finds the task with interrupts on, so not inside `SYS_EXEC`
      refine inv.switch enabled ran tasks found (fun _ => rfl) (fun busy => ?_) ?_
      · obtain ⟨lists, sched⟩ := inv.sched
        have ok := inv.contexts _ sched.current busy
        rwa [Cpu.userRsp, if_pos rfl] at ok
      · refine Decidable.byContradiction fun some => ?_
        exact absurd ((inv.exec some).2.1.symm.trans on) (by decide)
    · obtain ⟨own, off, back, zero⟩ := inv.dispatch at_
      have busy := inv.busy (by rw [at_]; nofun)
      refine inv.switch enabled ran tasks found (fun idle => absurd idle busy) (fun _ => ?_) zero
      obtain ⟨point, cstack, interrupts⟩ := context
      dsimp only at where_ next
      rcases next with rfl | ⟨rfl, same⟩ | ⟨rfl, on⟩
      · exact ⟨where_.trans own, back⟩
      · exact ⟨where_.trans own, same.trans off⟩
      · exact ⟨⟨where_.trans own, on⟩, back⟩
  · exact inv.create enabled ran new tasks current at_ first

/-- The invariant at the start. -/
theorem cpuStart_inv (m : TaskMemory) {user : Nat} (records : BootRecords kmain user)
    (sems : List (Int × Int)) (base pml4 cr3 : Nat) :
    CpuInv kmain (.start m kmain user sems base pml4 cr3) := by
  have sched := schedBoot_inv m records sems
  have tasks : (schedBoot m kmain user sems).tasks = [user, kmain] := by
    obtain ⟨tasks, -⟩ := semInits_fields sems (taskInit m kmain) rfl
    simp only [schedBoot, taskCreate, Sched.link, tasks]
    rfl
  have current : (schedBoot m kmain user sems).current = kmain := by
    obtain ⟨-, -, current, -⟩ := semInits_fields sems (taskInit m kmain) rfl
    simp only [schedBoot, taskCreate, Sched.link, current]
    rfl
  have only : ∀ t ∈ (schedBoot m kmain user sems).tasks, t ≠ kmain → t = user := by
    intro t mem other
    rw [tasks] at mem
    exact (List.mem_cons.mp mem).resolve_right fun mem => other (List.mem_singleton.mp mem)
  refine ⟨⟨_, sched⟩, ?_, fun some => ?_, fun t mem other => ?_, fun t mem other => ?_,
    fun some => absurd rfl some⟩
  · simp [Cpu.start, records.differ.symm]
  · simp [Cpu.start, current, records.differ.symm] at some
  · simp [Cpu.start, only t mem other]
  · obtain rfl := only t mem other
    simp [Cpu.start, Context.Ok]

/-! ## Runs -/

/-- **The invariant holds in every run** in which `task_switch` finds the registers of every
task it switches to. -/
theorem cpuRun_inv {m : TaskMemory} {user : Nat} {sems : List (Int × Int)} {base pml4 cr3 : Nat}
    {as : List CpuAction} (records : BootRecords kmain user)
    (run : Run (Guarded Intact (CpuStep kmain)) (.start m kmain user sems base pml4 cr3) as g) :
    CpuInv kmain g :=
  run.invariant (CpuInv kmain) (fun inv step => step.2.inv step.1 inv)
    (cpuStart_inv m records sems base pml4 cr3)

instance (g : Cpu) (a : CpuAction) : Decidable (Intact g a) := by
  unfold Intact
  infer_instance

/-- The actions of a list, one after the other, as long as they can happen and pass a test. -/
def Cpu.acts (kmain : Nat) (test : Cpu → CpuAction → Bool) : List CpuAction → Cpu → Option Cpu
  | [], g => some g
  | a :: as, g =>
      if (g.sched.halted = false ∧ ∀ c ∈ a.schedCall, Enabled kmain g.sched c) ∧ test g a = true then
        (cpuExec g a).bind (Cpu.acts kmain test as)
      else none

/-- Given actions that pass a test for a condition lead to a state with a property that can
be computed. -/
theorem Cpu.acts_guarded {test : Cpu → CpuAction → Bool} {cond : Cpu → CpuAction → Prop}
    (sound : ∀ g a, test g a = true → cond g a) {as : List CpuAction} {p : Cpu → Bool}
    (done : (Cpu.acts kmain test as g).any p = true) :
    ∃ g', Run (Guarded cond (CpuStep kmain)) g as g' ∧ p g' = true := by
  induction as generalizing g with
  | nil => exact ⟨g, .nil g, done⟩
  | cons a as ih =>
      rw [Cpu.acts] at done
      split at done
      case isFalse => cases done
      case isTrue can =>
        cases ran : cpuExec g a with
        | none =>
            rw [ran] at done
            cases done
        | some g₁ =>
            rw [ran] at done
            obtain ⟨g', run, holds⟩ := ih done
            exact ⟨g', .cons ⟨sound g a can.2, can.1.1, can.1.2, ran⟩ run, holds⟩

/-- A run of given actions without a test. -/
theorem Cpu.acts_any {as : List CpuAction} {p : Cpu → Bool}
    (done : (Cpu.acts kmain (fun _ _ => true) as g).any p = true) :
    ∃ g', Run (CpuStep kmain) g as g' ∧ p g' = true := by
  obtain ⟨g', run, holds⟩ := acts_guarded (fun _ _ _ => trivial : ∀ (_ : Cpu) (_ : CpuAction), true = true → True) done
  exact ⟨g', run.mono And.right, holds⟩

/-- The kernel as it starts its first task. -/
def startCpu : Cpu :=
  .start (fun _ => ⟨0, .ready, 0, 0, 0⟩) kmainRecord userRecord kernelSems (heapStart + 4096)
    0x500000 0x105000

/-- A time slice. -/
def ticks : List CpuAction := List.replicate timeslice .tick

/-- The first task gets to its program, with its stack pointer at `0x70003000`. -/
def toUser : List CpuAction := ticks ++ [.loadStack, .iretq, .run 0x70003000]

/-- The return from a system call. -/
def toSysret : List CpuAction := [.checkReturn, .loadRsp, .sysretq]

end Flyos
