import Flyos.Task.CpuInv

/-!
# Stacks across switches

The invariant of the processor holds in every run in which `task_switch` finds the
registers of the task it switches to (`cpuRun_inv`).  So a system call returns with the
stack pointer it was entered with, and `kernel_rsp` and the TSS always name the kernel stack
of the current task (`userStack_run`).

One thing goes wrong.  `user_enter` and the return from a keyboard read have the user's
stack pointer loaded in ring 0 with interrupts on.  A timer interrupt that switches there to
a task with tables of its own saves the registers on the user's stack, part of them in the
memory of the other task (`ownSwitch_run`, `forkedFrame_user`), and when the task is
selected again `task_switch` pops whatever its own memory holds (`userStack_planted`).
-/

namespace Flyos

variable {m : TaskMemory} {kmain user : Nat} {sems : List (Int × Int)} {base pml4 cr3 : Nat}
  {g g' : Cpu} {a : CpuAction} {as : List CpuAction}

/-! ## The stack pointer of the user -/

/-- **The stack pointer survives.**  In every run in which each task that was switched away from
on a user stack finds its frame there again, the processor has the kernel stack of the
current task, and a system call other than a successful `SYS_EXEC` returns with the stack
pointer it was entered with.  The invariant that carries it moves the value between the
global variable and the records of the tasks.  `task_create` takes for granted that `kmalloc`
has memory for the record of a spawned task, and so do the runs (`Enabled`). -/
theorem userStack_run (records : BootRecords kmain user)
    (run : Run (Guarded Intact (CpuStep kmain)) (.start m kmain user sems base pml4 cr3) as g) :
    (g.kernelStackTop g.sched.current ≠ 0 →
      g.kernelRsp = g.kernelStackTop g.sched.current ∧
        g.rsp0 = g.kernelStackTop g.sched.current) ∧
      ∀ a g', a = .loadRsp ∨ a = .sysretq → CpuStep kmain g a g' →
        g.execed g.sched.current = false → g'.here.stack = .user (g.entryRsp g.sched.current) := by
  have inv := cpuRun_inv records run
  refine ⟨inv.top, fun a g' returns step kept => ?_⟩
  obtain ⟨-, -, ran⟩ := step
  rcases returns with rfl | rfl
  · rw [cpuExec] at ran
    split at ran
    case isFalse => cases ran
    case isTrue at_ =>
      obtain rfl := Option.some.inj ran
      have ok := inv.hereOk (by rw [at_]; rintro ⟨⟩)
      simp only [Context.Ok, at_] at ok
      rw [Cpu.goto_here, ok.2 kept]
  · rw [cpuExec] at ran
    split at ran
    case isFalse => cases ran
    case isTrue at_ =>
      obtain rfl := Option.some.inj ran
      have ok := inv.hereOk (by rw [at_]; rintro ⟨⟩)
      simp only [Context.Ok, at_] at ok
      obtain ⟨rsp, stack, back⟩ := ok
      rw [Cpu.goto_here, stack, back kept]

/-- A keyboard read during which others run.  A time slice also ends right before `sysretq`, but
`kmain` loads no CR3, so the task finds its frame. -/
theorem userStack_read :
    ∃ g g', Run (Guarded Intact (CpuStep kmainRecord)) startCpu (toUser ++ [.syscall, .read true] ++
        ticks ++ ticks ++ [.key, .checkReturn, .loadRsp] ++ ticks ++ ticks) g ∧
      g.sched.current = userRecord ∧ CpuStep kmainRecord g .sysretq g' ∧
      g'.here.stack = .user 0x70003000 := by
  obtain ⟨g, run, facts⟩ : ∃ g, Run (Guarded Intact (CpuStep kmainRecord)) startCpu
      (toUser ++ [.syscall, .read true] ++ ticks ++ ticks ++ [.key, .checkReturn, .loadRsp] ++
        ticks ++ ticks) g ∧
      decide (g.sched.current = userRecord ∧ g.sched.halted = false ∧
        g.execed userRecord = false ∧ g.entryRsp userRecord = 0x70003000 ∧
        (cpuExec g .sysretq).isSome) = true :=
    Cpu.acts_guarded (fun g a => of_decide_eq_true) (by decide +kernel)
  obtain ⟨current, on, kept, entry, goes⟩ := of_decide_eq_true facts
  obtain ⟨g', ran⟩ := Option.isSome_iff_exists.mp goes
  have step : CpuStep kmainRecord g .sysretq g' := ⟨on, nofun, ran⟩
  refine ⟨g, g', run, current, step, ?_⟩
  rw [(userStack_run bootRecords run).2 .sysretq g' (.inr rfl) step (current ▸ kept), current, entry]

/-- **The exception.**  The shell forks a child and writes below its own stack pointer words that
lead to `sysretq`.  A time slice ends before the `sysretq` of a keyboard read, so that
`task_switch` pushes in the memory of the child; when the shell is selected again it pops the
words of the program and returns with another stack pointer. -/
theorem userStack_planted :
    ∃ g g', Run (CpuStep kmainRecord) startCpu (toUser ++
        [.syscall, .fork childRecord 0x600000 (heapStart + 0x4000)] ++ toSysret ++
        [.store 0x500000 0x70003000 (some ⟨.leaving, .user 0x70002F00, true⟩) .lost,
          .syscall, .read true, .key, .checkReturn, .loadRsp] ++ ticks ++ ticks ++ ticks) g ∧
      CpuStep kmainRecord g .sysretq g' ∧ g.sched.current = userRecord ∧
      g.execed userRecord = false ∧ g.entryRsp userRecord = 0x70003000 ∧
      g'.here.stack = .user 0x70002F00 := by
  obtain ⟨g, run, facts⟩ : ∃ g, Run (CpuStep kmainRecord) startCpu (toUser ++
        [.syscall, .fork childRecord 0x600000 (heapStart + 0x4000)] ++ toSysret ++
        [.store 0x500000 0x70003000 (some ⟨.leaving, .user 0x70002F00, true⟩) .lost,
          .syscall, .read true, .key, .checkReturn, .loadRsp] ++ ticks ++ ticks ++ ticks) g ∧
      decide (g.sched.current = userRecord ∧ g.sched.halted = false ∧
        g.execed userRecord = false ∧ g.entryRsp userRecord = 0x70003000 ∧
        (cpuExec g .sysretq).any fun g' => decide (g'.here.stack = .user 0x70002F00)) = true :=
    Cpu.acts_any (by decide +kernel)
  obtain ⟨current, on, kept, entry, goes⟩ := of_decide_eq_true facts
  obtain ⟨g', ran, stack⟩ := (Option.any_eq_true _ _).mp goes
  exact ⟨g, g', run, ⟨on, nofun, ran⟩, current, kept, entry, of_decide_eq_true stack⟩

/-! ## Frames -/

/-- **A switch on a kernel stack**: when the step switches to a task whose CR3 is loaded, the
registers of the task before are on the boot stack or on its own kernel stack. -/
def OwnSwitch (g g' : Cpu) : Prop :=
  g'.sched.current ≠ g.sched.current → g.pml4Phys g'.sched.current ≠ 0 →
    g'.frame g.sched.current = .boot ∨
      g'.frame g.sched.current = .kernel (g.kernelStackTop g.sched.current)

/-- **The condition**: where the user's stack pointer is loaded in ring 0, the timer switches to
no task with tables of its own. -/
def WindowFree (g : Cpu) (a : CpuAction) : Prop :=
  a = .tick → g.here.point = .entering ∨ g.here.point = .leaving →
    ∀ s ∈ schedExec g.sched .tick, s.current ≠ g.sched.current → g.pml4Phys s.current = 0

/-- What a switch does to the frames. -/
theorem Cpu.switch_frame {s : Sched} (stack : Stack) (t : Nat) :
    (g.switch s stack).frame t =
      if s.current ≠ g.sched.current ∧ t = g.sched.current then stack else g.frame t := by
  unfold switch
  dsimp only
  by_cases stays : s.current = g.sched.current
  · rw [if_pos stays, if_neg fun h => h.1 stays]
  · rw [if_neg stays]
    dsimp only
    by_cases prev : t = g.sched.current
    · rw [if_pos ⟨stays, prev⟩, prev, Function.update_self]
    · rw [if_neg fun h => prev h.2, Function.update_of_ne prev]

/-- **On which stack an action gets to `schedule`**: the boot stack or the task's own kernel
stack, but where the user's stack pointer is loaded. -/
theorem SwitchStack.own (inv : CpuInv kmain g) {context : Context} {stack : Stack}
    (place : SwitchStack g a context stack) :
    (stack = .boot ∨ stack = .kernel (g.kernelStackTop g.sched.current)) ↔
      ¬ (a = .tick ∧ (g.here.point = .entering ∨ g.here.point = .leaving)) := by
  obtain ⟨lists, sched⟩ := inv.sched
  rcases place with ⟨rfl, on, -, rfl⟩ | ⟨no, at_, rfl, -⟩
  · by_cases idle : g.sched.current = kmain
    · have here : g.here = ⟨.idle, .boot, true⟩ := by rw [Cpu.here, idle, inv.idle]
      rw [Cpu.interruptStack, here]
      simp
    · rw [Cpu.interruptStack]
      have top := inv.top (inv.tops _ sched.current idle)
      have ok := inv.contexts _ sched.current idle
      change Context.Ok g.here _ _ _ at ok
      cases at_ : g.here.point <;> simp only [Context.Ok, at_] at ok
      case user => simp [top.2]
      case entering =>
        obtain ⟨⟨rsp, stack⟩, -⟩ := ok
        simp [stack]
      case leaving =>
        obtain ⟨rsp, stack, -⟩ := ok
        simp [stack]
      all_goals simp [ok]
  · rw [(inv.dispatch at_).1]
    simp [no]

/-- **Switches that load CR3 happen on kernel stacks** exactly when they meet the condition: so
says every step of a run in which `task_switch` finds the registers of the tasks it switches
to.  The stack is that of the point where the interrupt came, which the invariant of the
processor names.  `task_create` takes for granted that `kmalloc` has memory for the record of a
spawned task, and so do the runs (`Enabled`). -/
theorem ownSwitch_run (records : BootRecords kmain user)
    (run : Run (Guarded Intact (CpuStep kmain)) (.start m kmain user sems base pml4 cr3) as g)
    (step : CpuStep kmain g a g') : OwnSwitch g g' ↔ WindowFree g a := by
  have inv := cpuRun_inv records run
  rcases cpuStep_cases step with ⟨same, none⟩ |
    ⟨c, s, context, stack, call, enabled, ran, tasks, place, rfl⟩ |
    ⟨c, s, context, t, pml4, base, rsp, point, enabled, ran, new, tasks, current, at_, rfl, first,
      rfl⟩
  · refine iff_of_true (fun moves => ?_) fun tick => ?_
    · exact absurd (congrArg Sched.current same.sched) moves
    · rw [tick] at none
      cases none
  · have frames : OwnSwitch g ((g.goto context).switch s stack) ↔
        (s.current ≠ g.sched.current → g.pml4Phys s.current ≠ 0 →
          stack = .boot ∨ stack = .kernel (g.kernelStackTop g.sched.current)) := by
      rw [OwnSwitch, Cpu.switch_sched, Cpu.switch_frame, Cpu.goto_sched]
      refine forall_congr' fun moves => ?_
      rw [if_pos ⟨moves, rfl⟩]
    rw [frames, place.own inv]
    by_cases window : a = .tick ∧ (g.here.point = .entering ∨ g.here.point = .leaving)
    · obtain ⟨rfl, loaded⟩ := window
      obtain rfl := Option.some.inj call
      constructor
      · intro own _ _ s' ran' moves
        obtain rfl := Option.some.inj (ran.symm.trans ran')
        exact not_not.mp fun tables => own moves tables ⟨rfl, loaded⟩
      · intro free moves tables
        exact absurd (free rfl loaded s ran moves) tables
    · exact iff_of_true (fun _ _ => window) fun tick loaded => absurd ⟨tick, loaded⟩ window
  · refine iff_of_true (fun moves => absurd current moves) fun tick loaded => ?_
    rw [at_] at loaded
    rcases loaded with no | no <;> cases no

/-- A time slice that ends in a keyboard read: the registers of the shell are on its kernel
stack when the CR3 of the forked child is loaded. -/
theorem ownSwitch_read :
    ∃ g g', Run (Guarded Intact (CpuStep kmainRecord)) startCpu (toUser ++
        [.syscall, .fork childRecord 0x600000 (heapStart + 0x4000)] ++ toSysret ++
        [.syscall, .read true] ++ List.replicate 4 .tick) g ∧
      CpuStep kmainRecord g .tick g' ∧ g'.sched.current = childRecord ∧ g'.cr3 = 0x600000 ∧
      OwnSwitch g g' := by
  obtain ⟨g, run, facts⟩ : ∃ g, Run (Guarded Intact (CpuStep kmainRecord)) startCpu (toUser ++
        [.syscall, .fork childRecord 0x600000 (heapStart + 0x4000)] ++ toSysret ++
        [.syscall, .read true] ++ List.replicate 4 .tick) g ∧
      decide (g.sched.halted = false ∧ Enabled kmainRecord g.sched .tick ∧
        g.here.point = .reading ∧ (cpuExec g .tick).any fun g' =>
          decide (g'.sched.current = childRecord ∧ g'.cr3 = 0x600000)) = true :=
    Cpu.acts_guarded (fun g a => of_decide_eq_true) (by decide +kernel)
  obtain ⟨on, enabled, at_, goes⟩ := of_decide_eq_true facts
  obtain ⟨g', ran, after⟩ := (Option.any_eq_true _ _).mp goes
  obtain ⟨current, loaded⟩ := of_decide_eq_true after
  have step : CpuStep kmainRecord g .tick g' := by
    refine ⟨on, fun c mem => ?_, ran⟩
    obtain rfl := Option.some.inj mem
    exact enabled
  refine ⟨g, g', run, step, current, loaded, (ownSwitch_run bootRecords run step).mpr ?_⟩
  intro _ loaded
  rw [at_] at loaded
  rcases loaded with no | no <;> cases no

/-- **The exception.**  A time slice ends between the load of the stack pointer and `sysretq` of a
keyboard read, and `schedule` loads the CR3 of the forked child: the registers of the shell
go on its user stack. -/
theorem forkedFrame_user :
    ∃ g g', Run (CpuStep kmainRecord) startCpu (toUser ++
        [.syscall, .fork childRecord 0x600000 (heapStart + 0x4000)] ++ toSysret ++
        [.syscall, .read true, .key, .checkReturn, .loadRsp] ++ List.replicate 4 .tick) g ∧
      CpuStep kmainRecord g .tick g' ∧ g.sched.current = userRecord ∧ g.cr3 = 0x500000 ∧
      g'.sched.current = childRecord ∧ g'.cr3 = 0x600000 ∧
      g'.frame userRecord = .user 0x70003000 ∧ ¬ OwnSwitch g g' := by
  obtain ⟨g, run, facts⟩ : ∃ g, Run (CpuStep kmainRecord) startCpu (toUser ++
        [.syscall, .fork childRecord 0x600000 (heapStart + 0x4000)] ++ toSysret ++
        [.syscall, .read true, .key, .checkReturn, .loadRsp] ++ List.replicate 4 .tick) g ∧
      decide ((g.sched.halted = false ∧ Enabled kmainRecord g.sched .tick ∧
        g.sched.current = userRecord ∧ g.cr3 = 0x500000 ∧ g.pml4Phys childRecord ≠ 0) ∧
        (cpuExec g .tick).any fun g' => decide (g'.sched.current = childRecord ∧
          g'.cr3 = 0x600000 ∧ g'.frame userRecord = .user 0x70003000)) = true :=
    Cpu.acts_any (by decide +kernel)
  obtain ⟨⟨on, enabled, current, before, own⟩, goes⟩ := of_decide_eq_true facts
  obtain ⟨g', ran, after⟩ := (Option.any_eq_true _ _).mp goes
  obtain ⟨next, loaded, frame⟩ := of_decide_eq_true after
  refine ⟨g, g', run, ⟨on, fun c mem => ?_, ran⟩, current, before, next, loaded, frame,
    fun kernel => ?_⟩
  · obtain rfl := Option.some.inj mem
    exact enabled
  · have stack := kernel (by rw [next, current]; decide) (by rw [next]; exact own)
    rw [current, frame] at stack
    rcases stack with no | no <;> cases no

end Flyos
