import Flyos.Task.CpuInv

/-!
# The address space a task resumes in

`schedule` loads CR3 for a task with tables of its own and leaves it alone for one without.
A task with tables always resumes in them.  A task without, which `SYS_SPAWN` starts, was
switched away from under the CR3 in force and finds it again as long as nobody loads
another one meanwhile (`SpacesInv`, `ownSpace_run`).
-/

namespace Flyos

variable {m : TaskMemory} {kmain user : Nat} {sems : List (Int × Int)} {base pml4 cr3 : Nat}
  {g g' : Cpu} {a : CpuAction} {as : List CpuAction} {t : Nat}

/-- **The condition**: `schedule` loads another CR3 than the one in force only when every task
without tables of its own, but for `kmain`, is dead. -/
def TablesStay (kmain : Nat) (g : Cpu) (a : CpuAction) : Prop :=
  ∀ c ∈ a.schedCall, ∀ s ∈ schedExec g.sched c, s.current ≠ g.sched.current →
    g.loads s.current ≠ g.cr3 →
    ∀ t ∈ s.tasks, t ≠ kmain → g.pml4Phys t = 0 → (s.task t).state = .dead

/-- The invariant of the address spaces: tasks with tables of their own have them in CR3, or
were switched away from with them; the others were switched away from with the CR3 in force. -/
structure SpacesInv (kmain : Nat) (g : Cpu) : Prop where
  here : g.pml4Phys g.sched.current ≠ 0 → g.cr3 = g.pml4Phys g.sched.current
  own : ∀ t ∈ g.sched.tasks, t ≠ kmain → t ≠ g.sched.current → g.pml4Phys t ≠ 0 →
    g.lastCr3 t = g.pml4Phys t
  others : ∀ t ∈ g.sched.tasks, t ≠ kmain → t ≠ g.sched.current → g.pml4Phys t = 0 →
    (g.sched.task t).state ≠ .dead → g.lastCr3 t = g.cr3

namespace Cpu

variable {s : Sched}

/-- CR3 after a switch. -/
theorem switch_cr3 (stack : Stack) (moves : s.current ≠ g.sched.current) :
    (g.switch s stack).cr3 = g.loads s.current := by
  rw [switch, if_neg moves]

/-- The CR3 that a switch records. -/
theorem switch_lastCr3 (stack : Stack) (moves : s.current ≠ g.sched.current) :
    (g.switch s stack).lastCr3 = Function.update g.lastCr3 g.sched.current g.cr3 := by
  rw [switch, if_neg moves]

end Cpu

/-- A task that is alive after a call, and does not make it, was alive before. -/
theorem SchedOutcome.alive {s : Sched} {lists : Queues} {c : SchedCall}
    (outcome : SchedOutcome kmain g.sched lists c s) (mem : t ∈ g.sched.tasks)
    (waits : t ≠ g.sched.current) (alive : (s.task t).state ≠ .dead) :
    (g.sched.task t).state ≠ .dead :=
  fun dead => alive (outcome.dead t mem waits dead)

/-- **A switch** that meets the condition keeps the invariant. -/
theorem SpacesInv.switch {s : Sched} (inv : SpacesInv kmain g) {lists : Queues} {c : SchedCall}
    (outcome : SchedOutcome kmain g.sched lists c s) (tasks : s.tasks = g.sched.tasks)
    (stack : Stack)
    (stay : s.current ≠ g.sched.current → g.loads s.current ≠ g.cr3 →
      ∀ t ∈ s.tasks, t ≠ kmain → g.pml4Phys t = 0 → (s.task t).state = .dead) :
    SpacesInv kmain (g.switch s stack) := by
  by_cases stays : s.current = g.sched.current
  · -- nothing but the scheduler changes
    have same : g.switch s stack = { g with sched := s } := by
      rw [Cpu.switch, if_pos stays]
    rw [same]
    refine ⟨?_, ?_, fun t mem other waits none alive => ?_⟩ <;> dsimp only at *
    · rw [stays]
      exact inv.here
    · rw [stays, tasks]
      exact inv.own
    · rw [tasks] at mem
      rw [stays] at waits
      exact inv.others t mem other waits none (outcome.alive mem waits alive)
  refine ⟨fun own => ?_, fun t mem other waits own => ?_, fun t mem other waits none alive => ?_⟩
  · rw [Cpu.switch_sched, Cpu.switch_pml4Phys] at own ⊢
    rw [Cpu.switch_cr3 stack stays, Cpu.loads, if_pos own]
  · rw [Cpu.switch_sched, tasks] at mem
    rw [Cpu.switch_pml4Phys] at own
    rw [Cpu.switch_lastCr3 stack stays, Cpu.switch_pml4Phys]
    by_cases prev : t = g.sched.current
    · subst prev
      rw [Function.update_self]
      exact inv.here own
    · rw [Function.update_of_ne prev]
      exact inv.own t mem other prev own
  · rw [Cpu.switch_sched] at mem alive
    rw [Cpu.switch_pml4Phys] at none
    -- the task is alive, so the CR3 in force stays
    have still : g.loads s.current = g.cr3 := by
      refine Decidable.byContradiction fun loads => ?_
      exact alive (stay stays loads t mem other none)
    rw [Cpu.switch_lastCr3 stack stays, Cpu.switch_cr3 stack stays, still]
    by_cases prev : t = g.sched.current
    · rw [prev, Function.update_self]
    · rw [Function.update_of_ne prev]
      rw [tasks] at mem
      exact inv.others t mem other prev none (outcome.alive mem prev alive)

/-- **A new task** will run first in its own tables, or else in those in force. -/
theorem SpacesInv.create {s : Sched} (inv : SpacesInv kmain g) {lists : Queues} {c : SchedCall}
    (outcome : SchedOutcome kmain g.sched lists c s) (acts : g.sched.current ∈ g.sched.tasks)
    (new : t ∉ g.sched.tasks) (tasks : s.tasks = t :: g.sched.tasks)
    (current : s.current = g.sched.current) (pml4 base rsp : Nat) (point : Point) :
    SpacesInv kmain (g.create s t pml4 base rsp point) := by
  have apart : ∀ x ∈ g.sched.tasks, x ≠ t := fun x mem same => new (same ▸ mem)
  have sched : (g.create s t pml4 base rsp point).sched = s := rfl
  have loaded : (g.create s t pml4 base rsp point).cr3 = g.cr3 := rfl
  have tables : ∀ x, x ≠ t → (g.create s t pml4 base rsp point).pml4Phys x = g.pml4Phys x :=
    fun x other => Function.update_of_ne other _ _
  have last : ∀ x, x ≠ t → (g.create s t pml4 base rsp point).lastCr3 x = g.lastCr3 x :=
    fun x other => Function.update_of_ne other _ _
  have its : (g.create s t pml4 base rsp point).pml4Phys t = pml4 := Function.update_self _ _ _
  have first : (g.create s t pml4 base rsp point).lastCr3 t = if pml4 ≠ 0 then pml4 else g.cr3 :=
    Function.update_self _ _ _
  refine ⟨fun own => ?_, fun x mem other waits own => ?_, fun x mem other waits none alive => ?_⟩
  · rw [sched, current, tables _ (apart _ acts)] at own ⊢
    exact inv.here own
  · rw [sched] at mem waits
    rw [tasks, List.mem_cons] at mem
    rw [current] at waits
    rcases mem with rfl | old
    · rw [its] at own ⊢
      rw [first, if_pos own]
    · rw [tables x (apart x old)] at own ⊢
      rw [last x (apart x old)]
      exact inv.own x old other waits own
  · rw [sched] at mem waits alive
    rw [tasks, List.mem_cons] at mem
    rw [current] at waits
    rw [loaded]
    rcases mem with rfl | old
    · rw [its] at none
      rw [first, if_neg (not_not.mpr none)]
    · rw [tables x (apart x old)] at none
      rw [last x (apart x old)]
      exact inv.others x old other waits none (outcome.alive old waits alive)

/-- An action of the current task leaves the address spaces alone. -/
theorem SpacesInv.ofLocal (inv : SpacesInv kmain g) (same : g.Local g') : SpacesInv kmain g' := by
  refine ⟨?_, ?_, ?_⟩
  · rw [same.sched, same.pml4Phys, same.cr3]
    exact inv.here
  · rw [same.sched, same.pml4Phys, same.lastCr3]
    exact inv.own
  · rw [same.sched, same.pml4Phys, same.lastCr3, same.cr3]
    exact inv.others

/-- **A step that meets the condition** keeps the invariant. -/
theorem SpacesInv.step (inv : SpacesInv kmain g) (cpu : CpuInv kmain g)
    (step : CpuStep kmain g a g') (stay : TablesStay kmain g a) : SpacesInv kmain g' := by
  obtain ⟨lists, sched⟩ := cpu.sched
  rcases cpuStep_cases step with ⟨same, -⟩ |
    ⟨c, s, context, stack, call, enabled, ran, tasks, -, rfl⟩ |
    ⟨c, s, context, t, pml4, base, rsp, point, enabled, ran, new, tasks, current, -, rfl, -, rfl⟩
  · exact inv.ofLocal same
  · obtain ⟨s', ran', outcome⟩ := schedExec_spec sched enabled
    obtain rfl := Option.some.inj (ran.symm.trans ran')
    exact (inv.ofLocal (.goto g context)).switch outcome tasks stack (stay c call s ran)
  · obtain ⟨s', ran', outcome⟩ := schedExec_spec sched enabled
    obtain rfl := Option.some.inj (ran.symm.trans ran')
    exact (inv.ofLocal (.goto g _)).create outcome sched.current new tasks current _ _ _ _

/-- The address spaces at the start. -/
theorem cpuStart_spaces (records : BootRecords kmain user) :
    SpacesInv kmain (.start m kmain user sems base pml4 cr3) := by
  obtain ⟨tasks, -, current, -⟩ := semInits_fields sems (taskInit m kmain) rfl
  have boot : (schedBoot m kmain user sems).tasks = [user, kmain] := by
    simp only [schedBoot, taskCreate, Sched.link, tasks]
    rfl
  have idles : (schedBoot m kmain user sems).current = kmain := by
    simp only [schedBoot, taskCreate, Sched.link, current]
    rfl
  have only : ∀ t ∈ (schedBoot m kmain user sems).tasks, t ≠ kmain → t = user := by
    intro t mem other
    rw [boot] at mem
    exact (List.mem_cons.mp mem).resolve_right fun mem => other (List.mem_singleton.mp mem)
  refine ⟨fun own => ?_, fun t mem other _ own => ?_, fun t mem other _ none _ => ?_⟩
  · simp [Cpu.start, idles, records.differ.symm] at own
  · obtain rfl := only t mem other
    simp [Cpu.start] at own ⊢
    simp [own]
  · obtain rfl := only t mem other
    simp [Cpu.start] at none ⊢
    simp [none]

/-- **A task resumes in its own address space** in every run in which the CR3 in force is not
replaced while a task relies on it: when `schedule` switches to a task other than `kmain`,
CR3 is what it was when the task was switched away from, or for the first time what it
should be.  The last step need not meet the condition, since it is the later switch to a task
without tables that goes wrong; tasks with tables of their own need no condition at all.
`task_create` takes for granted that `kmalloc` has memory for the record of a spawned task, and
so do the runs (`Enabled`). -/
theorem ownSpace_run (records : BootRecords kmain user)
    (run : Run (Guarded (fun g a => Intact g a ∧ TablesStay kmain g a) (CpuStep kmain))
      (.start m kmain user sems base pml4 cr3) as g)
    (step : CpuStep kmain g a g') (switched : g'.sched.current ≠ g.sched.current)
    (other : g'.sched.current ≠ kmain) :
    g'.cr3 = g.lastCr3 g'.sched.current := by
  obtain ⟨cpu, spaces⟩ : CpuInv kmain g ∧ SpacesInv kmain g :=
    run.invariant (fun g => CpuInv kmain g ∧ SpacesInv kmain g)
      (fun old step => ⟨step.2.inv step.1.1 old.1, old.2.step old.1 step.2 step.1.2⟩)
      ⟨cpuStart_inv m records sems base pml4 cr3, cpuStart_spaces records⟩
  obtain ⟨lists, sched⟩ := cpu.sched
  rcases cpuStep_cases step with ⟨same, -⟩ |
    ⟨c, s, context, stack, call, enabled, ran, tasks, -, rfl⟩ |
    ⟨c, s, context, t, pml4, base, rsp, point, enabled, ran, new, tasks, current, -, rfl, -, rfl⟩
  · exact absurd (congrArg Sched.current same.sched) switched
  · obtain ⟨s', ran', outcome⟩ := schedExec_spec sched enabled
    obtain rfl := Option.some.inj (ran.symm.trans ran')
    rw [Cpu.switch_sched] at switched other
    obtain ⟨mem, alive⟩ := outcome.moved switched
    have loaded : ((g.goto context).switch s stack).cr3 = g.loads s.current :=
      Cpu.switch_cr3 stack switched
    rw [Cpu.switch_sched, loaded, Cpu.loads]
    by_cases own : g.pml4Phys s.current = 0
    · rw [if_neg (not_not.mpr own)]
      exact (spaces.others s.current mem other switched own alive).symm
    · rw [if_pos own]
      exact (spaces.own s.current mem other switched own).symm
  · exact absurd current switched

/-! ## Two runs -/

/-- The record of the task that `SYS_SPAWN` starts. -/
abbrev spawnRecord : Nat := heapStart + 192

/-- The shell spawns a task, which runs for a slice and exits, and then forks a child. -/
def spawnFork : List CpuAction :=
  toUser ++ [.syscall, .spawn spawnRecord (heapStart + 0x8000) true] ++ toSysret ++ ticks ++
    [.loadStack, .iretq] ++ ticks ++ ticks ++ ticks ++ [.syscall, .call .exit] ++ ticks ++
    [.syscall, .fork childRecord 0x600000 (heapStart + 0x4000)] ++ toSysret

/-- The shell forks a child and spawns a task. -/
def forkSpawn : List CpuAction :=
  toUser ++ [.syscall, .fork childRecord 0x600000 (heapStart + 0x4000)] ++ toSysret ++
    [.syscall, .spawn spawnRecord (heapStart + 0x8000) true] ++ toSysret

instance (kmain : Nat) (g : Cpu) (a : CpuAction) : Decidable (TablesStay kmain g a) := by
  unfold TablesStay
  infer_instance

/-- After its first switch away the child comes back to its own tables. -/
theorem ownSpace_child :
    ∃ g g', Run (Guarded (fun g a => Intact g a ∧ TablesStay kmainRecord g a)
        (CpuStep kmainRecord)) startCpu (spawnFork ++ ticks ++ ticks ++ ticks ++
          List.replicate 4 .tick) g ∧
      CpuStep kmainRecord g .tick g' ∧ g'.sched.current = childRecord ∧
      g'.cr3 = g.lastCr3 childRecord := by
  obtain ⟨g, run, facts⟩ : ∃ g, Run (Guarded (fun g a => Intact g a ∧ TablesStay kmainRecord g a)
        (CpuStep kmainRecord)) startCpu (spawnFork ++ ticks ++ ticks ++ ticks ++
          List.replicate 4 .tick) g ∧
      decide (g.sched.halted = false ∧ Enabled kmainRecord g.sched .tick ∧
        g.sched.current ≠ childRecord ∧
        (cpuExec g .tick).any fun g' => decide (g'.sched.current = childRecord)) = true :=
    Cpu.acts_guarded (fun g a => of_decide_eq_true) (by decide +kernel)
  obtain ⟨on, enabled, before, goes⟩ := of_decide_eq_true facts
  obtain ⟨g', ran, after⟩ := (Option.any_eq_true _ _).mp goes
  have current : g'.sched.current = childRecord := of_decide_eq_true after
  have step : CpuStep kmainRecord g .tick g' := by
    refine ⟨on, fun c mem => ?_, ran⟩
    obtain rfl := Option.some.inj mem
    exact enabled
  have resumes := ownSpace_run bootRecords run step (by rw [current]; exact before.symm)
    (by rw [current]; decide)
  exact ⟨g, g', run, step, current, by rw [resumes, current]⟩

/-- **The exception.**  The shell waits, and the spawned task resumes in the tables of the
forked child, which ran before it. -/
theorem spawned_moves :
    ∃ g g', Run (CpuStep kmainRecord) startCpu (forkSpawn ++ [.syscall, .call .wait] ++ ticks ++
        ticks ++ List.replicate 4 .tick) g ∧
      CpuStep kmainRecord g .tick g' ∧ g.sched.current = kmainRecord ∧
      g'.sched.current = spawnRecord ∧ g.lastCr3 spawnRecord = 0x500000 ∧ g'.cr3 = 0x600000 := by
  obtain ⟨g, run, facts⟩ : ∃ g, Run (CpuStep kmainRecord) startCpu
      (forkSpawn ++ [.syscall, .call .wait] ++ ticks ++ ticks ++ List.replicate 4 .tick) g ∧
      decide (g.sched.halted = false ∧ Enabled kmainRecord g.sched .tick ∧
        g.sched.current = kmainRecord ∧ g.lastCr3 spawnRecord = 0x500000 ∧
        (cpuExec g .tick).any fun g' =>
          decide (g'.sched.current = spawnRecord ∧ g'.cr3 = 0x600000)) = true :=
    Cpu.acts_any (by decide +kernel)
  obtain ⟨on, enabled, current, last, goes⟩ := of_decide_eq_true facts
  obtain ⟨g', ran, after⟩ := (Option.any_eq_true _ _).mp goes
  obtain ⟨next, loaded⟩ := of_decide_eq_true after
  refine ⟨g, g', run, ⟨on, fun c mem => ?_, ran⟩, current, next, last, loaded⟩
  obtain rfl := Option.some.inj mem
  exact enabled

end Flyos
