import Flyos.Task.SchedSpec

/-!
# One call of the scheduler

`schedExec_spec`: in a state with the invariant every call that can happen is defined, and
`SchedOutcome` says what it does: to the queues seen as lists (`queuesAfter`), to the counts
(`countAfter`), and to the lives of the tasks.
-/

namespace Flyos

/-- The counts of the semaphores after a call. -/
def countAfter (s : Sched) : SchedCall → Nat → Int
  | .semWait id => match s.semIndex id with
      | none => s.semCount
      | some i => Function.update s.semCount i (int32 (s.semCount i - 1))
  | .semPost id => match s.semIndex id with
      | none => s.semCount
      | some i => Function.update s.semCount i (int32 (s.semCount i + 1))
  | _ => s.semCount

/-- The queues after a call: a caller that has to wait joins at the end, a post takes the
first, and the exit signal takes all. -/
def queuesAfter (s : Sched) (lists : Queues) : SchedCall → Queues
  | .semWait id => match s.semIndex id with
      | none => lists
      | some i => if int32 (s.semCount i - 1) < 0 then
          Function.update lists (.sem i) (lists (.sem i) ++ [s.current]) else lists
  | .semPost id => match s.semIndex id with
      | none => lists
      | some i => if int32 (s.semCount i + 1) ≤ 0 then
          Function.update lists (.sem i) (lists (.sem i)).tail else lists
  | .wait => Function.update lists .childExit (lists .childExit ++ [s.current])
  | .signalChildExit => Function.update lists .childExit []
  | .exit => Function.update lists .childExit []
  | _ => lists

/-- The call is the end of task `t`: its own exit, or a kill of its id. -/
def Kills (s : Sched) (c : SchedCall) (t : Nat) : Prop :=
  match c with
  | .exit => t = s.current
  | .kill id => id ≠ 0 ∧ (s.task t).id = (id % 2 ^ 32).toNat
  | _ => False

/-- **What a call does.** -/
structure SchedOutcome (kmain : Nat) (s : Sched) (lists : Queues) (c : SchedCall) (s' : Sched) :
    Prop where
  inv : SchedInv kmain s' (queuesAfter s lists c)
  tasks : s'.tasks = s.tasks ∨ ∃ t ∉ s.tasks, s'.tasks = t :: s.tasks
  parent : ∀ t ∈ s.tasks, (s'.task t).parent = (s.task t).parent
  dead : ∀ t ∈ s.tasks, t ≠ s.current → (s.task t).state = .dead → (s'.task t).state = .dead
  died : ∀ t ∈ s.tasks, (s'.task t).state = .dead → (s.task t).state = .dead ∨ Kills s c t
  moved : s'.current ≠ s.current → s'.current ∈ s.tasks ∧ (s.task s'.current).state ≠ .dead
  left : (∃ q, s.current ∈ queuesAfter s lists c q) → s'.current ≠ s.current
  exited : c = .exit → s'.current ≠ s.current → (s'.task s.current).state = .dead
  stopped : c = .exit → s'.current = s.current → s'.halted = true
  semCount : s'.semCount = countAfter s c
  semUsed : s'.semUsed = s.semUsed

variable {kmain : Nat} {s s' : Sched} {lists : Queues} {c : SchedCall}

theorem SchedOutcome.mem (o : SchedOutcome kmain s lists c s') {t : Nat} (mem : t ∈ s.tasks) :
    t ∈ s'.tasks := by
  rcases o.tasks with same | ⟨_, -, more⟩
  · rw [same]
    exact mem
  · rw [more]
    exact List.mem_cons_of_mem _ mem

/-- A call that stays inside the frame, but for the counts. -/
theorem Frame.outcome {s₁ : Sched} (frame : Frame s₁ s')
    (inv : SchedInv kmain s' (queuesAfter s lists c)) (tasks : s₁.tasks = s.tasks) (task : s₁.task = s.task) (current : s₁.current = s.current)
    (semUsed : s₁.semUsed = s.semUsed) (semCount : s₁.semCount = countAfter s c)
    (live : c ≠ .exit) : SchedOutcome kmain s lists c s' := by
  refine ⟨inv, .inl (frame.tasks.trans tasks), fun t _ => ?_, fun t _ other gone => ?_,
    fun t _ gone => ?_, fun moves => ?_, fun ⟨q, mem⟩ same => inv.free q (same ▸ mem),
    fun exit => absurd exit live, fun exit => absurd exit live, frame.semCount.trans semCount,
    frame.semUsed.trans semUsed⟩
  · rw [frame.parent, task]
  · rw [frame.dead t (current ▸ other), task]
    exact gone
  · by_cases here : t = s₁.current
    · subst here
      exact .inl (task ▸ frame.alive gone)
    · rw [frame.dead t here, task] at gone
      exact .inl gone
  · have := frame.moved (current ▸ moves)
    rwa [tasks, task] at this

/-- A call that does nothing but count. -/
theorem SchedOutcome.idle (inv : SchedInv kmain s lists) {s' : Sched} (tasks : s'.tasks = s.tasks)
    (task : s'.task = s.task) (current : s'.current = s.current)
    (sleepers : s'.sleepers = s.sleepers) (wq : s'.wq = s.wq) (semUsed : s'.semUsed = s.semUsed)
    (semCount : s'.semCount = countAfter s c) (queues : queuesAfter s lists c = lists)
    (live : c ≠ .exit) : SchedOutcome kmain s lists c s' := by
  have inv' : SchedInv kmain s' (queuesAfter s lists c) := by
    rw [queues]
    exact inv.congr tasks task current sleepers wq
  exact (Frame.refl s').outcome inv' tasks task current semUsed semCount live

namespace SchedInv

/-! ## Semaphores -/

/-- **`sem_wait`.** -/
theorem semWait (inv : SchedInv kmain s lists) (busy : s.current ≠ kmain) (id : Int) :
    ∃ s', semWait s id = some s' ∧ SchedOutcome kmain s lists (.semWait id) s' := by
  unfold Flyos.semWait
  cases index : s.semIndex id with
  | none =>
      refine ⟨s, rfl, .idle inv rfl rfl rfl rfl rfl rfl ?_ ?_ (by simp)⟩
      · rw [countAfter, index]
      · rw [queuesAfter, index]
  | some i =>
      have counted : SchedInv kmain { s with
          semCount := Function.update s.semCount i (int32 (s.semCount i - 1)) } lists :=
        inv.congr rfl rfl rfl rfl rfl
      dsimp only
      by_cases waits : int32 (s.semCount i - 1) < 0
      · obtain ⟨s', ran, inv', frame, -⟩ := counted.taskBlock busy (.sem i)
        rw [if_pos waits]
        refine ⟨s', ran, frame.outcome ?_ rfl rfl rfl rfl ?_ (by simp)⟩
        · rw [queuesAfter, index]
          dsimp only
          rw [if_pos waits]
          exact inv'
        · rw [countAfter, index]
      · rw [if_neg waits]
        refine ⟨_, rfl, .idle inv rfl rfl rfl rfl rfl rfl ?_ ?_ (by simp)⟩
        · rw [countAfter, index]
        · rw [queuesAfter, index]
          exact if_neg waits

/-- **`sem_post`.** -/
theorem semPost (inv : SchedInv kmain s lists) (id : Int) :
    SchedOutcome kmain s lists (.semPost id) (semPost s id) := by
  unfold Flyos.semPost
  cases index : s.semIndex id with
  | none =>
      refine .idle inv rfl rfl rfl rfl rfl rfl ?_ ?_ (by simp)
      · rw [countAfter, index]
      · rw [queuesAfter, index]
  | some i =>
      have counted : SchedInv kmain { s with
          semCount := Function.update s.semCount i (int32 (s.semCount i + 1)) } lists :=
        inv.congr rfl rfl rfl rfl rfl
      dsimp only
      by_cases wakes : int32 (s.semCount i + 1) ≤ 0
      · rw [if_pos wakes]
        refine (wakeOne_frame _ (.sem i)).outcome ?_ rfl rfl rfl rfl ?_ (by simp)
        · rw [queuesAfter, index]
          dsimp only
          rw [if_pos wakes]
          exact counted.wakeOne (.sem i)
        · rw [countAfter, index]
      · rw [if_neg wakes]
        refine .idle inv rfl rfl rfl rfl rfl rfl ?_ ?_ (by simp)
        · rw [countAfter, index]
        · rw [queuesAfter, index]
          exact if_neg wakes

/-! ## New tasks -/

/-- A new record in the ring. -/
theorem link (inv : SchedInv kmain s lists) {t : Nat} (fresh : s.Fresh t) (parent : Nat) :
    SchedInv kmain (s.link t parent) lists ∧
      ∀ x ∈ s.tasks, ((s.link t parent).task x).parent = (s.task x).parent ∧
        ((s.link t parent).task x).state = (s.task x).state := by
  obtain ⟨unused, low, high⟩ := fresh
  have other : s.current ≠ t := fun same => unused (same ▸ inv.current)
  have record : ∀ x ∈ s.tasks, (s.link t parent).task x =
      { s.task x with next := if x = s.current then t else (s.task x).next } := by
    intro x mem
    have old : x ≠ t := fun same => unused (same ▸ mem)
    simp only [Sched.link, TaskMemory.setNext_apply, Function.update_of_ne old]
  have new : ((s.link t parent).task t).next = (s.task s.current).next := by
    simp only [Sched.link, TaskMemory.setNext_apply, Function.update_self, if_neg other.symm]
  obtain ⟨l, ring, all⟩ := inv.ring
  refine ⟨⟨⟨inv.nodup.cons unused, ?_, List.mem_cons_of_mem _ inv.idle, ?_, ?_,
    List.mem_cons_of_mem _ inv.current, ?_, ?_, inv.apart, ?_, ?_, inv.slots⟩, inv.free, inv.awake⟩,
    fun x mem => by rw [record x mem]; exact ⟨rfl, rfl⟩⟩
  · intro x mem
    rcases List.mem_cons.mp mem with rfl | old
    · exact ⟨low, high⟩
    · exact inv.heap x old
  · rw [record kmain inv.idle]
    exact inv.idle_id
  · rw [record kmain inv.idle]
    exact inv.idle_state
  · refine ⟨t :: l, ring.insert other.symm ?_ new fun x mem => ?_, fun x => ?_⟩
    · rw [record s.current inv.current]
      exact if_pos rfl
    · have task : x ∈ s.tasks := (all x).mpr (.inr mem)
      rw [record x task]
      refine (if_neg ?_).symm
      rintro rfl
      exact ring.notMem mem
    · change x ∈ t :: s.tasks ↔ x = s.current ∨ x ∈ t :: l
      rw [List.mem_cons, List.mem_cons, all x]
      tauto
  · intro q
    refine (inv.queue q).congr fun x mem => ?_
    rw [record x (inv.queued q x mem).1]
  · intro q x mem
    obtain ⟨task, park⟩ := inv.queued q x mem
    refine ⟨List.mem_cons_of_mem _ task, ?_⟩
    rw [record x task]
    exact park
  · intro i used
    obtain ⟨task, park, out⟩ := inv.asleep i used
    refine ⟨List.mem_cons_of_mem _ task, ?_, out⟩
    rw [Task.Parked, show (s.link t parent).sleepers = s.sleepers from rfl, record _ task]
    exact park

/-- A call that adds a record. -/
theorem link_outcome (inv : SchedInv kmain s lists) {t : Nat} (fresh : s.Fresh t) (parent : Nat)
    (queues : queuesAfter s lists c = lists) (count : countAfter s c = s.semCount)
    (live : c ≠ .exit) : SchedOutcome kmain s lists c (s.link t parent) := by
  obtain ⟨inv', same⟩ := inv.link fresh parent
  refine ⟨by rw [queues]; exact inv', .inr ⟨t, fresh.1, rfl⟩,
    fun x mem => (same x mem).1, fun x mem _ gone => ?_, fun x mem gone => .inl ?_,
    fun moves => absurd rfl moves, fun ⟨q, mem⟩ => ?_, fun exit => absurd exit live,
    fun exit => absurd exit live, count.symm, rfl⟩
  · rw [(same x mem).2]
    exact gone
  · rw [← (same x mem).2]
    exact gone
  · rw [queues] at mem
    exact absurd mem (inv.free q)

/-! ## The end of a task -/

/-- The loop of `task_kill_by_id` finds the first task of the ring with the id. -/
theorem findTask_spec {m : TaskMemory} {c id x : Nat} {l : List Nat} {fuel : Nat}
    (chain : LinkChain (fun t => (m t).next) (· = c) (m x).next l) (nonzero : 0 ∉ l)
    (enough : l.length < fuel) :
    findTask m c id fuel x = some (((x :: l).find? fun t => (m t).id = id).getD 0) := by
  induction l generalizing x fuel with
  | nil =>
      obtain ⟨fuel, rfl⟩ : ∃ n, fuel = n + 1 := ⟨fuel - 1, by simp at enough; omega⟩
      have back : (m x).next = c := chain
      by_cases found : (m x).id = id <;> simp [findTask, back, found]
  | cons y l ih =>
      obtain ⟨fuel, rfl⟩ : ∃ n, fuel = n + 1 := ⟨fuel - 1, by simp at enough; omega⟩
      obtain ⟨first, other, rest⟩ := chain
      rw [← first] at other rest
      have some : y ≠ 0 := fun zero => nonzero (by simp [zero])
      rw [findTask, List.find?_cons, ← first]
      by_cases found : (m x).id = id
      · simp [found]
      · simp only [found, if_false, decide_false]
        rw [if_pos ⟨some, other⟩]
        exact ih rest (fun zero => nonzero (List.mem_cons_of_mem _ zero)) (by simp at enough; omega)

/-- **`task_kill_by_id`** marks a task with the id, and never `kmain`. -/
theorem kill (inv : SchedInv kmain s lists) {id : Int} (fits : IsInt id) :
    ∃ s', taskKillById s id = some s' ∧ SchedOutcome kmain s lists (.kill id) s' := by
  have done : SchedOutcome kmain s lists (.kill id) s :=
    .idle inv rfl rfl rfl rfl rfl rfl rfl rfl (by simp)
  rw [taskKillById]
  by_cases zero : id = 0
  · rw [if_pos (.inr zero)]
    exact ⟨s, rfl, done⟩
  obtain ⟨l, ring, all⟩ := inv.ring
  have sub : l ⊆ s.tasks := fun t mem => (all t).mpr (.inr mem)
  have few : l.length < s.tasks.length + 1 :=
    Nat.lt_succ_of_le (List.subperm_of_subset ring.nodup sub).length_le
  rw [if_neg (by rintro (null | no); exacts [inv.ne_zero inv.current null, zero no]),
    findTask_spec ring (fun mem => inv.ne_zero (sub mem) rfl) few, Option.map_some]
  cases found : (s.current :: l).find? fun t => (s.task t).id = (id % 2 ^ 32).toNat with
  | none =>
      rw [Option.getD_none, if_pos rfl]
      exact ⟨s, rfl, done⟩
  | some t =>
      have found_id : (s.task t).id = (id % 2 ^ 32).toNat := by simpa using List.find?_some found
      have task : t ∈ s.tasks :=
        (all t).mpr (List.mem_cons.mp (List.mem_of_find?_eq_some found))
      have other : t ≠ kmain := by
        rintro rfl
        rw [inv.idle_id] at found_id
        obtain ⟨low, high⟩ := fits
        omega
      rw [Option.getD_some, if_neg (inv.ne_zero task)]
      have core := inv.toSchedCore.setState other (v := .dead) (.inl (.inr rfl))
      refine ⟨_, rfl, ⟨core, inv.free, inv.awake⟩, .inl rfl, fun x _ => ?_,
        fun x _ _ gone => ?_, fun x _ gone => ?_, fun moves => absurd rfl moves,
        fun ⟨q, mem⟩ => absurd mem (inv.free q), fun exit => by simp at exit,
        fun exit => by simp at exit, rfl, rfl⟩
      · simp only [TaskMemory.setState_apply]
      · simp [TaskMemory.setState_apply, gone]
      · simp only [TaskMemory.setState_apply] at gone
        by_cases same : x = t
        · exact .inr ⟨zero, same ▸ found_id⟩
        · rw [if_neg same] at gone
          exact .inl gone

/-- **`SYS_EXIT`** wakes all waiting parents; the task is dead, or the machine has stopped. -/
theorem exit (inv : SchedInv kmain s lists) (busy : s.current ≠ kmain) :
    ∃ s', sysExit s = some s' ∧ SchedOutcome kmain s lists .exit s' := by
  obtain ⟨s₁, prepare, tasks₁, task₁, current₁, sleepers₁, wq₁, count₁, used₁, eq₁⟩ :
      ∃ s₁ : Sched, s₁ = taskChildDec (if s.current ≠ 0 ∧ (s.task s.current).parent ≠ 0 then
        { s with foreground := (s.task s.current).parent } else s) ∧ s₁.tasks = s.tasks ∧
        s₁.task = s.task ∧ s₁.current = s.current ∧ s₁.sleepers = s.sleepers ∧ s₁.wq = s.wq ∧
        s₁.semCount = s.semCount ∧ s₁.semUsed = s.semUsed ∧ s₁.halted = s.halted := by
    refine ⟨_, rfl, ?_⟩
    split <;> exact ⟨rfl, rfl, rfl, rfl, rfl, rfl, rfl, rfl⟩
  obtain ⟨s₂, signalled, inv₂, frame₂, still₂⟩ :=
    (inv.congr tasks₁ task₁ current₁ sleepers₁ wq₁).signal
  have frame₁ : Frame s s₁ := .of_eq tasks₁ task₁ current₁ count₁ used₁ eq₁
  have frame := frame₁.trans current₁ frame₂
  have still : s₂.current = s.current := still₂.trans current₁
  rw [sysExit, ← prepare, signalled, Option.bind_some]
  have nonzero : s₂.current ≠ 0 := inv₂.ne_zero inv₂.current
  by_cases shell : (s₂.task s₂.current).id = 1
  · rw [if_pos ⟨nonzero, shell⟩]
    refine ⟨_, rfl, inv₂.congr rfl rfl rfl rfl rfl, .inl frame.tasks,
      fun t _ => frame.parent t, fun t _ other gone => (frame.dead t other).mpr gone,
      fun t _ gone => ?_, fun moves => absurd still moves, fun ⟨q, mem⟩ => ?_,
      fun _ moves => absurd still moves, fun _ _ => rfl, frame.semCount, frame.semUsed⟩
    · by_cases same : t = s.current
      · exact .inr same
      · exact .inl ((frame.dead t same).mp gone)
    · exact absurd mem (still ▸ inv₂.free q)
  · rw [if_neg fun h => shell h.2, if_pos nonzero]
    have busy₂ : s₂.current ≠ kmain := still ▸ busy
    have core := inv₂.toSchedCore.setState busy₂ (v := .dead) (.inl (.inr rfl))
    obtain ⟨s₃, ran, inv₃, frame₃, stays, deaths⟩ := schedule_spec core
    have moves : s₃.current ≠ s.current := fun same => busy₂ (stays (same.trans still.symm))
    have dead₃ : ∀ t, t ≠ s.current →
        ((s₃.task t).state = .dead ↔ (s.task t).state = .dead) := by
      intro t other
      have other₂ : t ≠ s₂.current := still ▸ other
      rw [frame₃.dead t other₂]
      dsimp only
      rw [TaskMemory.setState_apply, ← frame.dead t other]
      dsimp only
      rw [if_neg other₂]
    refine ⟨s₃, ran, inv₃, .inl (frame₃.tasks.trans frame.tasks), fun t _ => ?_,
      fun t _ other gone => (dead₃ t other).mpr gone, fun t _ gone => ?_, fun _ => ?_, fun _ => moves, fun _ _ => ?_,
      fun _ same => absurd same moves, ?_, ?_⟩
    · rw [frame₃.parent, ← frame.parent t]
      simp only [TaskMemory.setState_apply]
    · by_cases same : t = s.current
      · exact .inr same
      · exact .inl ((dead₃ t same).mp gone)
    · obtain ⟨task, alive⟩ := frame₃.moved (still.symm ▸ moves)
      refine ⟨frame.tasks ▸ task, fun gone => alive ?_⟩
      dsimp only
      rw [TaskMemory.setState_apply]
      dsimp only
      rw [if_neg (still.symm ▸ moves), frame.dead _ moves]
      exact gone
    · -- the switch leaves the marked task dead
      refine (deaths s.current).mpr ?_
      dsimp only
      rw [TaskMemory.setState_apply]
      exact if_pos still.symm
    · exact frame₃.semCount.trans frame.semCount
    · exact frame₃.semUsed.trans frame.semUsed

end SchedInv

/-- **Every call that can happen is defined**, keeps the invariant and has its outcome. -/
theorem schedExec_spec (inv : SchedInv kmain s lists) (enabled : Enabled kmain s c) :
    ∃ s', schedExec s c = some s' ∧ SchedOutcome kmain s lists c s' := by
  obtain ⟨-, allowed⟩ := enabled
  cases c with
  | tick =>
      obtain ⟨s', ran, inv', frame⟩ := inv.tick
      exact ⟨s', ran, frame.outcome inv' rfl rfl rfl rfl rfl (by simp)⟩
  | semWait id => exact inv.semWait allowed.1 id
  | semPost id => exact ⟨_, rfl, inv.semPost id⟩
  | sleep ms =>
      obtain ⟨s', ran, inv', frame⟩ := inv.sleep allowed ms
      exact ⟨s', ran, frame.outcome inv' rfl rfl rfl rfl rfl (by simp)⟩
  | read =>
      rw [schedExec]
      by_cases background : s.foreground ≠ 0 ∧ s.current ≠ s.foreground
      · obtain ⟨s', ran, inv', frame⟩ := inv.sleep allowed 50
        rw [if_pos background]
        exact ⟨s', ran, frame.outcome inv' rfl rfl rfl rfl rfl (by simp)⟩
      · rw [if_neg background]
        exact ⟨s, rfl, .idle inv rfl rfl rfl rfl rfl rfl rfl rfl (by simp)⟩
  | setForeground => exact ⟨_, rfl, .idle inv rfl rfl rfl rfl rfl rfl rfl rfl (by simp)⟩
  | wait =>
      obtain ⟨s', ran, inv', frame, -⟩ := inv.taskBlock allowed .childExit
      exact ⟨s', ran, frame.outcome inv' rfl rfl rfl rfl rfl (by simp)⟩
  | signalChildExit =>
      obtain ⟨s', ran, inv', frame, -⟩ := inv.signal
      exact ⟨s', ran, frame.outcome inv' rfl rfl rfl rfl rfl (by simp)⟩
  | kill id => exact inv.kill allowed.2
  | fork t cloned =>
      rw [schedExec, taskFork]
      by_cases null : t = 0
      · rw [if_pos null]
        exact ⟨s, rfl, .idle inv rfl rfl rfl rfl rfl rfl rfl rfl (by simp)⟩
      cases cloned with
      | false =>
          rw [if_neg null, if_pos rfl]
          exact ⟨s, rfl, .idle inv rfl rfl rfl rfl rfl rfl rfl rfl (by simp)⟩
      | true =>
          rw [if_neg null, if_neg (by decide)]
          exact ⟨_, rfl, inv.link_outcome (allowed.2.resolve_left null) _ rfl rfl (by simp)⟩
  | spawn t loaded =>
      rw [schedExec, kernelSpawnChild]
      by_cases again : s.spawnUsed = true
      · rw [if_pos again]
        exact ⟨s, rfl, .idle inv rfl rfl rfl rfl rfl rfl rfl rfl (by simp)⟩
      cases loaded with
      | false =>
          rw [if_neg again, if_pos rfl]
          exact ⟨_, rfl, .idle inv rfl rfl rfl rfl rfl rfl rfl rfl (by simp)⟩
      | true =>
          rw [if_neg again, if_neg (by decide)]
          have fresh := allowed.2 (Bool.eq_false_iff.mpr again) rfl
          have inv₁ : SchedInv kmain { s with spawnUsed := true } lists :=
            inv.congr rfl rfl rfl rfl rfl
          have o : SchedOutcome kmain { s with spawnUsed := true } lists (.spawn t true)
              (taskCreate { s with spawnUsed := true } t) :=
            inv₁.link_outcome fresh 0 rfl rfl (by simp)
          exact ⟨_, rfl, o.inv, o.tasks, o.parent, o.dead, o.died, o.moved, o.left, o.exited,
            o.stopped, o.semCount, o.semUsed⟩
  | exit => exact inv.exit allowed

/-! ## The start -/

/-- `sem_init` before any task waits. -/
theorem semInits_fields (sems : List (Int × Int)) (s : Sched) (empty : s.wq = fun _ => ⟨0, 0⟩) :
    (sems.foldl (fun s p => semInit s p.1 p.2) s).tasks = s.tasks ∧
      (sems.foldl (fun s p => semInit s p.1 p.2) s).task = s.task ∧
      (sems.foldl (fun s p => semInit s p.1 p.2) s).current = s.current ∧
      (sems.foldl (fun s p => semInit s p.1 p.2) s).sleepers = s.sleepers ∧
      (sems.foldl (fun s p => semInit s p.1 p.2) s).wq = fun _ => ⟨0, 0⟩ := by
  induction sems generalizing s with
  | nil => exact ⟨rfl, rfl, rfl, rfl, empty⟩
  | cons p sems ih =>
      have one : (semInit s p.1 p.2).tasks = s.tasks ∧ (semInit s p.1 p.2).task = s.task ∧
          (semInit s p.1 p.2).current = s.current ∧
          (semInit s p.1 p.2).sleepers = s.sleepers ∧ (semInit s p.1 p.2).wq = fun _ => ⟨0, 0⟩ := by
        unfold semInit
        split
        case isTrue => exact ⟨rfl, rfl, rfl, rfl, empty⟩
        case isFalse =>
          refine ⟨rfl, rfl, rfl, rfl, ?_⟩
          dsimp only
          rw [empty]
          exact Function.update_eq_self (f := fun _ => (⟨0, 0⟩ : WaitQueue)) _
      obtain ⟨tasks, task, current, sleepers, wq⟩ := one
      obtain ⟨tasks', task', current', sleepers', wq'⟩ := ih (semInit s p.1 p.2) wq
      exact ⟨tasks'.trans tasks, task'.trans task, current'.trans current,
        sleepers'.trans sleepers, wq'⟩

/-- The records of `kmain` and of the first task: two blocks of the heap. -/
structure BootRecords (kmain user : Nat) : Prop where
  differ : user ≠ kmain
  kmain_low : heapStart ≤ kmain
  kmain_high : kmain < heapEnd
  user_low : heapStart ≤ user
  user_high : user < heapEnd

/-- **The invariant at the start**: all queues are empty. -/
theorem schedBoot_inv (m : TaskMemory) {kmain user : Nat} (records : BootRecords kmain user)
    (sems : List (Int × Int)) : SchedInv kmain (schedBoot m kmain user sems) fun _ => [] := by
  obtain ⟨tasks, task, current, sleepers, wq⟩ := semInits_fields sems (taskInit m kmain) rfl
  unfold schedBoot
  generalize sems.foldl (fun s p => semInit s p.1 p.2) (taskInit m kmain) = r at *
  have record : r.task kmain = ⟨0, .running, kmain, 0, 0⟩ := by
    rw [task]
    exact Function.update_self _ _ _
  have core : SchedCore kmain r fun _ => [] := by
    refine ⟨by rw [tasks]; exact List.nodup_singleton _, ?_, ?_, by rw [record], ?_, ?_, ?_, ?_, ?_,
      ?_, ?_, ?_⟩
    · intro t mem
      rw [tasks] at mem
      obtain rfl := List.mem_singleton.mp mem
      exact ⟨records.kmain_low, records.kmain_high⟩
    · rw [tasks]
      exact List.mem_singleton_self _
    · rw [record, current]
      exact (if_pos rfl).symm
    · rw [current, tasks]
      exact List.mem_singleton_self _
    · refine ⟨[], ?_, fun t => ?_⟩
      · rw [LinkRing, current]
        change LinkChain _ _ (r.task kmain).next []
        rw [record]
        rfl
      · rw [tasks, current]
        simp [taskInit]
    · intro q
      rw [wq]
      exact .nil _ _
    · simp
    · simp
    · intro i used
      rw [sleepers] at used
      cases used
    · intro i j used
      rw [sleepers] at used
      cases used
  have inv : SchedInv kmain r fun _ => [] := core.inv_of_idle current
  have fresh : r.Fresh user := by
    refine ⟨?_, records.user_low, records.user_high⟩
    rw [tasks]
    exact fun mem => records.differ (List.mem_singleton.mp mem)
  exact (inv.link fresh 0).1.congr rfl rfl rfl rfl rfl

end Flyos
