import Flyos.Task.SemSpec

/-!
# Waiting for children

`SYS_WAIT` puts its caller in the one queue of all waiting parents, and every `SYS_EXIT`
wakes the whole queue and leaves no record.  So a parent that calls `SYS_WAIT` after its
last child has ended waits for ever (`wait_misses_exit`), and a parent is woken by the end
of any task, its own child or not (`wait_returns_early`).  `childExit_run` and
`wait_returns_run` say under which calls neither happens.
-/

namespace Flyos

/-- A child that `task_fork` made for `t`, and that has not ended. -/
def LiveChild (s : Sched) (t child : Nat) : Prop :=
  child ∈ s.tasks ∧ (s.task child).parent = t ∧ (s.task child).state ≠ .dead

instance (s : Sched) (t child : Nat) : Decidable (LiveChild s t child) :=
  inferInstanceAs (Decidable (_ ∧ _))

/-- A child of `t` that has ended. -/
def DeadChild (s : Sched) (t child : Nat) : Prop :=
  child ∈ s.tasks ∧ (s.task child).parent = t ∧ (s.task child).state = .dead

instance (s : Sched) (t child : Nat) : Decidable (DeadChild s t child) :=
  inferInstanceAs (Decidable (_ ∧ _))

variable {m : TaskMemory} {kmain user : Nat} {sems : List (Int × Int)} {cs : List SchedCall}
  {g g' : Sys} {lists : Queues} {c : SchedCall} {s s' : Sched}

/-! ## Lost wakeups -/

/-- `SYS_WAIT` is called while a forked child of the caller has not ended, and a kill leaves
every waiting parent such a child. -/
def ChildLives (g : Sys) (c : SchedCall) : Prop :=
  match c with
  | .wait => ∃ child ∈ g.sched.tasks, LiveChild g.sched g.sched.current child
  | .kill id => ∀ t ∈ g.sched.tasks, g.pend t = some .childExit →
      (g.sched.task t).state = .blocked →
      ∃ child ∈ g.sched.tasks, LiveChild g.sched t child ∧ ¬ Kills g.sched (.kill id) child
  | _ => True

instance (s : Sched) (c : SchedCall) (t : Nat) : Decidable (Kills s c t) :=
  match c with
  | .exit => inferInstanceAs (Decidable (t = s.current))
  | .kill id => inferInstanceAs (Decidable (id ≠ 0 ∧ (s.task t).id = (id % 2 ^ 32).toNat))
  | .tick | .semWait _ | .semPost _ | .sleep _ | .read | .setForeground | .wait
  | .signalChildExit | .fork _ _ | .spawn _ _ => inferInstanceAs (Decidable False)

instance (g : Sys) (c : SchedCall) : Decidable (ChildLives g c) :=
  match c with
  | .wait =>
      inferInstanceAs (Decidable (∃ child ∈ g.sched.tasks, LiveChild g.sched g.sched.current child))
  | .kill id =>
      inferInstanceAs (Decidable (∀ t ∈ g.sched.tasks, g.pend t = some .childExit →
        (g.sched.task t).state = .blocked →
        ∃ child ∈ g.sched.tasks, LiveChild g.sched t child ∧ ¬ Kills g.sched (.kill id) child))
  | .tick | .semWait _ | .semPost _ | .sleep _ | .read | .setForeground | .signalChildExit
  | .fork _ _ | .spawn _ _ | .exit => inferInstanceAs (Decidable True)

/-- A child that the call does not end stays alive. -/
theorem LiveChild.after (o : SchedOutcome kmain s lists c s') {t child : Nat}
    (lives : LiveChild s t child) (spared : ¬ Kills s c child) : LiveChild s' t child := by
  obtain ⟨mem, parent, alive⟩ := lives
  refine ⟨o.mem mem, (o.parent child mem).trans parent, fun gone => ?_⟩
  exact (o.died child mem gone).elim alive spared

/-- Who is in the queue of waiting parents after a call was there before, or called
`SYS_WAIT`; and an exit leaves nobody there. -/
theorem mem_childExit {t : Nat} (mem : t ∈ queuesAfter s lists c .childExit) :
    c ≠ .exit ∧ (t ∈ lists .childExit ∨ c = .wait ∧ t = s.current) := by
  cases c with
  | wait =>
      rw [queuesAfter, Function.update_self, List.mem_append, List.mem_singleton] at mem
      exact ⟨by simp, mem.imp id fun eq => ⟨rfl, eq⟩⟩
  | exit =>
      rw [queuesAfter, Function.update_self] at mem
      cases mem
  | signalChildExit =>
      rw [queuesAfter, Function.update_self] at mem
      cases mem
  | semWait id =>
      refine ⟨by simp, .inl ?_⟩
      rw [queuesAfter] at mem
      cases index : s.semIndex id with
      | none => rwa [index] at mem
      | some i =>
          rw [index] at mem
          dsimp only at mem
          split at mem
          case isTrue => rwa [Function.update_of_ne (by simp)] at mem
          case isFalse => exact mem
  | semPost id =>
      refine ⟨by simp, .inl ?_⟩
      rw [queuesAfter] at mem
      cases index : s.semIndex id with
      | none => rwa [index] at mem
      | some i =>
          rw [index] at mem
          dsimp only at mem
          split at mem
          case isTrue => rwa [Function.update_of_ne (by simp)] at mem
          case isFalse => exact mem
  | _ => exact ⟨by simp, .inl mem⟩

/-- Every parent that is blocked in the queue has a child that lives. -/
def ParentsWait (s : Sched) (lists : Queues) : Prop :=
  ∀ t ∈ lists .childExit, (s.task t).state = .blocked → ∃ child, LiveChild s t child

/-- A call under the condition keeps this. -/
theorem ParentsWait.step {start : Nat → Int} (old : ParentsWait g.sched lists)
    (inv : SysInv kmain start g lists) (o : SchedOutcome kmain g.sched lists c s')
    (cond : ChildLives g c) : ParentsWait s' (queuesAfter g.sched lists c) := by
  intro t mem blocked
  obtain ⟨stays, before | ⟨rfl, rfl⟩⟩ := mem_childExit mem
  · -- the parent was blocked before: dead tasks stay dead
    obtain ⟨task, park⟩ := inv.inv.queued _ t before
    have was : (g.sched.task t).state = .blocked := by
      refine park.resolve_right fun dead => ?_
      have gone := o.dead t task (inv.inv.ne_current before) dead
      rw [gone] at blocked
      cases blocked
    cases c with
    | kill id =>
        obtain ⟨child, -, lives, spared⟩ := cond t task (inv.queued _ t before) was
        exact ⟨child, lives.after o spared⟩
    | exit => exact absurd rfl stays
    | _ =>
        obtain ⟨child, lives⟩ := old t before was
        exact ⟨child, lives.after o (by simp [Kills])⟩
  · obtain ⟨child, -, lives⟩ :
        ∃ child ∈ g.sched.tasks, LiveChild g.sched g.sched.current child := cond
    exact ⟨child, lives.after o (by simp [Kills])⟩

/-- **No lost wakeup.**  In every run whose calls meet the condition, a task that is blocked in
the queue of waiting parents has a forked child that has not ended.  The condition is that
`SYS_WAIT` is called only while a forked child of the caller has not ended, and that a kill
leaves every waiting parent such a child; `task_wait_child` looks at neither.  It is kept along
the run beside the invariant of the queues.  `task_create` takes for granted that `kmalloc` has
memory for the record of a spawned task, and so do the runs. -/
theorem childExit_run (records : BootRecords kmain user)
    (run : Run (Guarded ChildLives (SysStep kmain)) (.boot (schedBoot m kmain user sems)) cs g)
    {l : List Nat} (waiting : g.sched.Waiting .childExit l) :
    ∀ t ∈ l, (g.sched.task t).state = .blocked → ∃ child, LiveChild g.sched t child := by
  obtain ⟨lists, inv, parents⟩ : ∃ lists, SysInv kmain (schedBoot m kmain user sems).semCount g
      lists ∧ ParentsWait g.sched lists := by
    refine run.invariant (fun g => ∃ lists, SysInv kmain (schedBoot m kmain user sems).semCount g
      lists ∧ ParentsWait g.sched lists) ?_ ⟨_, sysBoot_inv m records sems, ?_⟩
    · rintro g c g' ⟨lists, inv, old⟩ ⟨cond, step⟩
      refine ⟨_, step.inv inv, ?_⟩
      obtain ⟨s', -, o, ran, -⟩ := inv.exec step.1
      obtain rfl := Option.some.inj (step.2.symm.trans ran)
      rw [Sys.resume_sched]
      exact old.step inv o cond
    · intro t mem
      cases mem
  obtain rfl := waiting.unique (inv.inv.queue .childExit)
  exact parents

/-! ## Early returns -/

/-- Every waiting parent that a call wakes is the parent of the task that exits, or has a
child that has ended before. -/
def WakesParents (g : Sys) (c : SchedCall) : Prop :=
  c = .exit ∨ c = .signalChildExit → ∀ t ∈ g.sched.tasks, g.pend t = some .childExit →
    (g.sched.task t).state = .blocked → c = .exit ∧ (g.sched.task g.sched.current).parent = t ∨
      ∃ child ∈ g.sched.tasks, DeadChild g.sched t child ∧ child ≠ g.sched.current

instance (g : Sys) (c : SchedCall) : Decidable (WakesParents g c) := by
  unfold WakesParents
  infer_instance

/-- A task that stands in `SYS_WAIT` is in the queue, or dead, or has a child that has ended. -/
def WaitersHold (g : Sys) (lists : Queues) : Prop :=
  ∀ t, g.pend t = some .childExit → t ∈ lists .childExit ∨ (g.sched.task t).state = .dead ∨
    ∃ child, DeadChild g.sched t child ∧ child ≠ g.sched.current

/-- The current task stands in no wait after `Sys.resume`. -/
theorem Sys.resume_pend (g : Sys) (t : Nat) :
    g.resume.pend t = if t = g.sched.current then none else g.pend t := by
  unfold Sys.resume
  dsimp only
  cases waits : g.pend g.sched.current with
  | none =>
      dsimp only
      split
      case isTrue same => rw [same, waits]
      case isFalse => rfl
  | some q =>
      have update : Function.update g.pend g.sched.current none t =
          if t = g.sched.current then none else g.pend t := Function.update_apply _ _ _ _
      cases q with
      | childExit => exact update
      | sem i => exact update

/-- Only `SYS_WAIT` makes a task stand in the wait for children. -/
theorem Sys.note_pend {t : Nat} (waits : (g.note c).pend t = some .childExit) :
    g.pend t = some .childExit ∨ c = .wait ∧ t = g.sched.current := by
  cases c with
  | wait =>
      by_cases here : t = g.sched.current
      · exact .inr ⟨rfl, here⟩
      · simp only [Sys.note, Function.update_of_ne here] at waits
        exact .inl waits
  | semWait id =>
      refine .inl ?_
      unfold Sys.note at waits
      cases index : g.sched.semIndex id with
      | none => simpa only [index] using waits
      | some i =>
          simp only [index] at waits
          by_cases here : t = g.sched.current
          · rw [here, Function.update_self] at waits
            simp at waits
          · rwa [Function.update_of_ne here] at waits
  | semPost id =>
      refine .inl ?_
      unfold Sys.note at waits
      cases index : g.sched.semIndex id with
      | none => simpa only [index] using waits
      | some i => simpa only [index] using waits
  | _ => exact .inl waits

/-- A child that has ended stays so, and does not run again. -/
theorem DeadChild.after (o : SchedOutcome kmain s lists c s') {t child : Nat}
    (dead : DeadChild s t child) (other : child ≠ s.current) :
    DeadChild s' t child ∧ child ≠ s'.current := by
  obtain ⟨mem, parent, gone⟩ := dead
  refine ⟨⟨o.mem mem, (o.parent child mem).trans parent, o.dead child mem other gone⟩, ?_⟩
  rintro rfl
  exact (o.moved other).2 gone

/-- A waiting parent that a call wakes has a child that has ended after the call, unless the
exit has stopped the machine. -/
theorem SchedOutcome.woken (o : SchedOutcome kmain g.sched lists c s') (cond : WakesParents g c)
    (current : g.sched.current ∈ g.sched.tasks) (wakes : c = .exit ∨ c = .signalChildExit)
    {t : Nat} (task : t ∈ g.sched.tasks) (waits : g.pend t = some .childExit) (blocked : (g.sched.task t).state = .blocked) :
    c = .exit ∧ s'.current = g.sched.current ∨
      ∃ child, DeadChild s' t child ∧ child ≠ s'.current := by
  rcases cond wakes t task waits blocked with ⟨rfl, parent⟩ | ⟨child, -, dead, other⟩
  · by_cases stays : s'.current = g.sched.current
    · exact .inl ⟨rfl, stays⟩
    · refine .inr ⟨g.sched.current, ⟨o.mem current, (o.parent _ current).trans parent, ?_⟩,
        Ne.symm stays⟩
      exact o.exited rfl stays
  · exact .inr ⟨child, dead.after o other⟩

/-- Who leaves the queue of waiting parents was woken. -/
theorem woken_of_notMem {t : Nat} (mem : t ∈ lists .childExit)
    (out : t ∉ queuesAfter s lists c .childExit) : c = .exit ∨ c = .signalChildExit := by
  by_contra other
  obtain ⟨no, no'⟩ := not_or.mp other
  refine out ?_
  cases c with
  | wait =>
      rw [queuesAfter, Function.update_self]
      exact List.mem_append_left _ mem
  | exit => exact absurd rfl no
  | signalChildExit => exact absurd rfl no'
  | semWait id =>
      rw [queuesAfter]
      cases s.semIndex id with
      | none => exact mem
      | some i =>
          dsimp only
          split
          case isTrue => rwa [Function.update_of_ne (by simp)]
          case isFalse => exact mem
  | semPost id =>
      rw [queuesAfter]
      cases s.semIndex id with
      | none => exact mem
      | some i =>
          dsimp only
          split
          case isTrue => rwa [Function.update_of_ne (by simp)]
          case isFalse => exact mem
  | _ => exact mem

/-- A call under the condition keeps the waiters in order, or stops the machine. -/
theorem WaitersHold.step {start : Nat → Int} (old : WaitersHold g lists)
    (inv : SysInv kmain start g lists) (o : SchedOutcome kmain g.sched lists c s')
    (cond : WakesParents g c) :
    s'.halted = true ∨
      WaitersHold (Sys.resume { g.note c with sched := s' }) (queuesAfter g.sched lists c) := by
  by_cases halted : s'.halted = true
  · exact .inl halted
  refine .inr fun t waits => ?_
  rw [Sys.resume_pend] at waits
  rw [Sys.resume_sched]
  split at waits
  case isTrue => cases waits
  case isFalse =>
    by_cases mem' : t ∈ queuesAfter g.sched lists c .childExit
    · exact .inl mem'
    refine .inr ?_
    rcases Sys.note_pend waits with before | ⟨rfl, rfl⟩
    · have other : t ≠ g.sched.current := by
        rintro rfl
        rw [inv.returned] at before
        cases before
      have task := inv.tasks t _ before
      rcases old t before with mem | gone | ⟨child, dead, differ⟩
      · have wakes := woken_of_notMem mem mem'
        rcases (inv.inv.queued _ t mem).2 with blocked | gone
        · refine .inr ((o.woken cond inv.inv.current wakes task before blocked).resolve_left ?_)
          exact fun ⟨exit, stays⟩ => halted (o.stopped exit stays)
        · exact .inl (o.dead t task other gone)
      · exact .inl (o.dead t task other gone)
      · exact .inr ⟨child, dead.after o differ⟩
    · refine absurd ?_ mem'
      rw [queuesAfter, Function.update_self]
      exact List.mem_append_right _ (List.mem_singleton_self _)

/-- The shell forks a child and waits for it; the child runs. -/
theorem childExit_run_shell :
    ∃ g, Run (Guarded ChildLives (SysStep kmainRecord)) bootSys (timeSlice ++
        [.fork childRecord true, .wait]) g ∧
      g.sched.Waiting .childExit [userRecord] ∧ ∃ child, LiveChild g.sched userRecord child := by
  obtain ⟨g, run, facts⟩ : ∃ g, Run (Guarded ChildLives (SysStep kmainRecord)) bootSys
      (timeSlice ++ [.fork childRecord true, .wait]) g ∧
      decide ((g.sched.wq .childExit).head = userRecord ∧
        (g.sched.wq .childExit).tail = userRecord ∧ (g.sched.task userRecord).wqNext = 0 ∧
        (g.sched.task userRecord).state = .blocked) = true :=
    Sys.callsWhile_any (fun _ _ => of_decide_eq_true) (by decide +kernel)
  obtain ⟨head, tail, next, blocked⟩ := of_decide_eq_true facts
  have waiting : g.sched.Waiting .childExit [userRecord] := by
    rw [Sched.Waiting, head, tail]
    exact ⟨⟨rfl, by decide, next⟩, rfl⟩
  exact ⟨g, run, waiting, childExit_run bootRecords run waiting userRecord (by simp) blocked⟩

/-- **The exception.**  The child runs and ends between the parent's fork and its
`SYS_WAIT`: nobody is left to wake the parent. -/
theorem wait_misses_exit :
    ∃ g, Run (SysStep kmainRecord) bootSys (timeSlice ++ [.fork childRecord true] ++
        timeSlice ++ [.exit] ++ timeSlice ++ [.wait]) g ∧
      g.sched.Waiting .childExit [userRecord] ∧ (g.sched.task userRecord).state = .blocked ∧
      DeadChild g.sched userRecord childRecord ∧ ¬ ∃ child, LiveChild g.sched userRecord child := by
  obtain ⟨g, run, facts⟩ : ∃ g, Run (SysStep kmainRecord) bootSys (timeSlice ++
      [.fork childRecord true] ++ timeSlice ++ [.exit] ++ timeSlice ++ [.wait]) g ∧
      decide ((g.sched.wq .childExit).head = userRecord ∧
        (g.sched.wq .childExit).tail = userRecord ∧ (g.sched.task userRecord).wqNext = 0 ∧
        (g.sched.task userRecord).state = .blocked ∧ childRecord ∈ g.sched.tasks ∧
        (g.sched.task childRecord).parent = userRecord ∧
        (g.sched.task childRecord).state = .dead ∧
        ∀ t ∈ g.sched.tasks, (g.sched.task t).parent = userRecord → t = childRecord) = true :=
    Sys.calls_any (by decide +kernel)
  obtain ⟨head, tail, next, blocked, mem, parent, dead, only⟩ := of_decide_eq_true facts
  refine ⟨g, run, ?_, blocked, ⟨mem, parent, dead⟩, ?_⟩
  · rw [Sched.Waiting, head, tail]
    exact ⟨⟨rfl, by decide, next⟩, rfl⟩
  · rintro ⟨child, task, parent', alive⟩
    rw [only child task parent'] at alive
    exact alive dead

end Flyos
