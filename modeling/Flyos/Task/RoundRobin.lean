import Flyos.Task.TaskOps

/-!
# Round robin does not skip anyone

`schedule` takes the first ready task behind the current one in the ring, and new tasks
come in right behind the current one.  So a task that stays ready is ahead of the
scheduler (`Ahead`): between the current task and the next turn of a task `a` that had
the processor before.  A switch passes no ready task, hence reaches it before `a`.
-/

namespace Flyos

/-- Task `t` comes before task `a` on the way around the ring, when `a` is not current. -/
def Ahead (a t : Nat) (s : Sched) : Prop :=
  ∃ l, LinkRing (fun t => (s.task t).next) s.current l ∧ t ∈ l ∧
    (s.current = a ∨ ∃ l₁ l₂, l = l₁ ++ a :: l₂ ∧ t ∈ l₁)

/-- A call in which `schedule` ends with task `t` as the current one. -/
def Selects (kmain : Nat) (s : Sched) (op : TaskOp) (s' : Sched) (t : Nat) : Prop :=
  TaskStep kmain s op s' ∧ (∃ m, op.prepared s = some m ∧ schedule m = some s') ∧ s'.current = t

variable {kmain a t : Nat} {s s' m : Sched} {lists : Queues} {op : TaskOp}

/-- **What `schedule` does to the ring**: nothing, when no other task is ready, or it goes
on to the first ready one. -/
theorem schedule_ring {l : List Nat} (ring : LinkRing (fun t => (s.task t).next) s.current l)
    (few : l.length < s.tasks.length + 1) (nonzero : s.current ≠ 0)
    (ran : schedule s = some s') :
    (s' = s ∧ ∀ x ∈ l, (s.task x).state ≠ .ready) ∨
      ∃ before n after, l = before ++ n :: after ∧ (∀ x ∈ before, (s.task x).state ≠ .ready) ∧
        s'.current = n ∧
        LinkRing (fun t => (s'.task t).next) n (after ++ s.current :: before) := by
  rw [schedule, if_neg nonzero, findReady_spec ring few, Option.map_some, Option.some.injEq] at ran
  cases found : l.find? fun t => (s.task t).state = .ready with
  | none =>
      rw [found, Option.getD_none, if_pos rfl] at ran
      refine .inl ⟨ran.symm, fun x mem => ?_⟩
      simpa using List.find?_eq_none.mp found x mem
  | some n =>
      obtain ⟨-, before, after, rfl, skipped⟩ := List.find?_eq_some_iff_append.mp found
      have other : n ≠ s.current := by
        rintro rfl
        exact ring.notMem (by simp)
      rw [found, Option.getD_some, if_neg other] at ran
      subst ran
      refine .inr ⟨before, n, after, rfl, fun x mem => by simpa using skipped x mem, rfl, ?_⟩
      simp only [Sched.switchTo_task]
      exact ring.rotate

/-- Of two ways to split a list: what comes before `a` and after `n` lies between them. -/
theorem between_of_split {α : Type*} {a n t : α} {before after l₁ l₂ : List α}
    (split : before ++ n :: after = l₁ ++ a :: l₂) (nodup : (l₁ ++ a :: l₂).Nodup)
    (first : t ∈ l₁) (later : t ∈ after) :
    ∃ rest, l₁ = before ++ n :: rest ∧ after = rest ++ a :: l₂ ∧ t ∈ rest := by
  have apart : t ∉ l₂ := fun mem =>
    (List.nodup_append.mp nodup).2.2 t first t (List.mem_cons_of_mem _ mem) rfl
  rcases List.append_eq_append_iff.mp split with ⟨mid, eq, tail⟩ | ⟨mid, -, tail⟩
  · cases mid with
    | nil =>
        obtain ⟨-, rfl⟩ := List.cons.inj tail
        exact absurd later apart
    | cons x mid =>
        obtain ⟨rfl, rfl⟩ := List.cons.inj tail
        refine ⟨mid, eq, rfl, (List.mem_append.mp later).resolve_right fun late => ?_⟩
        exact (List.nodup_append.mp nodup).2.2 t first t late rfl
  · cases mid with
    | nil =>
        obtain ⟨-, rfl⟩ := List.cons.inj tail
        exact absurd later apart
    | cons x mid =>
        obtain ⟨-, rfl⟩ := List.cons.inj tail
        exact absurd (List.mem_append_right mid (List.mem_cons_of_mem n later)) apart

/-- A switch with a ready task ahead goes to it, or stays behind it. -/
theorem Ahead.schedule (ahead : Ahead a t s) (few : ∀ l, LinkRing (fun t => (s.task t).next)
      s.current l → l.length < s.tasks.length + 1) (nonzero : s.current ≠ 0)
    (ready : (s.task t).state = .ready) (ran : schedule s = some s') :
    s'.current = t ∨ Ahead a t s' ∧ s'.current ≠ a := by
  obtain ⟨l, ring, mem, place⟩ := ahead
  rcases schedule_ring ring (few l ring) nonzero ran with ⟨-, none⟩ |
    ⟨before, n, after, rfl, skipped, rfl, ring'⟩
  · exact absurd ready (none t mem)
  by_cases here : t = s'.current
  · exact .inl here.symm
  -- the ready task was not skipped
  have later : t ∈ after := by
    rcases List.mem_append.mp mem with early | late
    · exact absurd ready (skipped t early)
    · exact (List.mem_cons.mp late).resolve_left here
  have still : t ∈ after ++ s.current :: before := List.mem_append_left _ later
  right
  rcases place with rfl | ⟨l₁, l₂, split, first⟩
  · have other : s'.current ≠ s.current := fun same => ring.notMem (by simp [← same])
    exact ⟨⟨_, ring', still, .inr ⟨after, before, rfl, later⟩⟩, other⟩
  · -- so the switch went to a task before it, which is before `a`
    have nodup : (l₁ ++ a :: l₂).Nodup := split ▸ ring.nodup
    obtain ⟨rest, rfl, rfl, between⟩ := between_of_split split nodup first later
    have other : s'.current ≠ a := fun same =>
      (List.nodup_append.mp nodup).2.2 s'.current (by simp) a List.mem_cons_self same
    exact ⟨⟨_, ring', still, .inr ⟨rest, l₂ ++ s.current :: before, by simp, between⟩⟩, other⟩

/-! ## The other calls -/

/-- A task ahead is not the current one. -/
theorem Ahead.other (ahead : Ahead a t s) : t ≠ s.current := by
  rintro rfl
  obtain ⟨l, ring, mem, -⟩ := ahead
  exact ring.notMem mem

/-- Ahead of a task means nothing but that while this task is the current one. -/
theorem Ahead.of_current (inv : SchedInv kmain s lists) (task : t ∈ s.tasks) (other : t ≠ s.current) :
    Ahead s.current t s := by
  obtain ⟨l, ring, all⟩ := inv.ring
  exact ⟨l, ring, ((all t).mp task).resolve_left other, .inl rfl⟩

/-- What leaves the ring as it is keeps the tasks ahead. -/
theorem Ahead.prepares (ahead : Ahead a t s) (h : Prepares s m) : Ahead a t m := by
  obtain ⟨l, ring, mem, place⟩ := ahead
  refine ⟨l, ?_, mem, h.current.symm ▸ place⟩
  rw [h.current]
  exact ring.congr (h.next _).symm fun x _ => (h.next x).symm

/-- A new task comes in behind the current one: what was ahead still is. -/
theorem Ahead.link (ahead : Ahead a t s) (inv : SchedInv kmain s lists) {x : Nat}
    (fresh : s.Fresh x) (parent : Nat) : Ahead a t (s.link x parent) := by
  obtain ⟨l, ring, mem, place⟩ := ahead
  have current : (s.link x parent).current = s.current := rfl
  have other : x ≠ s.current := fun same => fresh.1 (same ▸ inv.current)
  have mem_tasks : ∀ y ∈ l, y ∈ s.tasks := by
    obtain ⟨l', ring', all⟩ := inv.ring
    obtain rfl := LinkChain.unique ring ring'
    exact fun y mem => (all y).mpr (.inr mem)
  refine ⟨x :: l, ?_, List.mem_cons_of_mem x mem, place.imp id ?_⟩
  · rw [current]
    refine ring.insert other ?_ ?_ fun y mem => ?_
    · simp [Sched.link, TaskMemory.setNext_apply]
    · simp [Sched.link, TaskMemory.setNext_apply, other]
    · have old : y ≠ x := fun same => fresh.1 (same ▸ mem_tasks y mem)
      have behind : y ≠ s.current := fun same => ring.notMem (same ▸ mem)
      simp [Sched.link, TaskMemory.setNext_apply, behind, old]
  · rintro ⟨l₁, l₂, rfl, first⟩
    exact ⟨x :: l₁, l₂, rfl, List.mem_cons_of_mem x first⟩

/-- The ring is not longer than the list of the tasks. -/
theorem ring_length (inv : SchedInv kmain s lists) {l : List Nat}
    (ring : LinkRing (fun t => (s.task t).next) s.current l) : l.length < s.tasks.length + 1 := by
  obtain ⟨l', ring', all⟩ := inv.ring
  obtain rfl := LinkChain.unique ring ring'
  have sub : l ⊆ s.tasks := fun t mem => (all t).mpr (.inr mem)
  exact Nat.lt_succ_of_le (List.subperm_of_subset ring.nodup sub).length_le

/-- **One call**: a ready task ahead is selected, or stays ahead and `a` is not. -/
theorem Ahead.step (ahead : Ahead a t s) (inv : SchedInv kmain s lists)
    (ready : (s.task t).state = .ready) (step : TaskStep kmain s op s') :
    Selects kmain s op s' t ∨ Ahead a t s' ∧ ¬ Selects kmain s op s' a := by
  rcases taskOp_cases step with ⟨-, m, prepared, prepares, keeps, ran⟩ | ⟨-, none, prepares⟩ |
    ⟨x, parent, -, none, fresh, rfl⟩
  · have ready' : (m.task t).state = .ready := keeps t ahead.other ready
    have few : ∀ l, LinkRing (fun t => (m.task t).next) m.current l →
        l.length < m.tasks.length + 1 := by
      intro l ring
      rw [prepares.tasks]
      rw [prepares.current] at ring
      exact ring_length inv (ring.congr (prepares.next _) fun y _ => prepares.next y)
    have nonzero : m.current ≠ 0 := prepares.current.symm ▸ inv.ne_zero inv.current
    rcases (ahead.prepares prepares).schedule few nonzero ready' ran with here | ⟨ahead', other⟩
    · exact .inl ⟨step, ⟨m, prepared, ran⟩, here⟩
    · exact .inr ⟨ahead', fun again => other again.2.2⟩
  · refine .inr ⟨ahead.prepares prepares, fun again => ?_⟩
    obtain ⟨m, prepared, -⟩ := again.2.1
    cases none.symm.trans prepared
  · refine .inr ⟨ahead.link inv fresh parent, fun again => ?_⟩
    obtain ⟨m, prepared, -⟩ := again.2.1
    cases none.symm.trans prepared

/-! ## Runs -/

/-- **Between two selections of a task**, every other task that exists and is ready all the time,
but perhaps while it runs, is selected.  The ring is followed from the task that was selected:
what lies ahead is selected before the turn comes back (`Ahead`), and a new task is linked behind
the current one.  Every `task_create` of the run is taken to get its record from `kmalloc`, whose
answer it does not check. -/
theorem roundRobin_run {m : TaskMemory} (record : heapStart ≤ kmain ∧ kmain < heapEnd)
    {before between : List TaskOp} {first last : TaskOp} {s₀ s₁ s₂ s₃ : Sched}
    (start : Run (TaskStep kmain) (taskInit m kmain) before s₀)
    (selected : Selects kmain s₀ first s₁ a)
    (run : Run (TaskStep kmain) s₁ between s₂)
    (again : Selects kmain s₂ last s₃ a)
    (task : t ∈ s₁.tasks)
    (ready : ∀ s, Passes (TaskStep kmain) s₁ between s₂ s →
      (s.task t).state = .ready ∨ (s.task t).state = .running) :
    t = a ∨ ∃ s op s', Takes (TaskStep kmain) s₁ between s₂ s op s' ∧ Selects kmain s op s' t := by
  by_cases same : t = a
  · exact .inl same
  right
  let Inv : Sched → Prop := fun s =>
    ((∃ lists, SchedInv kmain s lists) ∧ OneRuns s) ∧ t ∈ s.tasks ∧ Ahead a t s
  have waits : ∀ s, Passes (TaskStep kmain) s₁ between s₂ s → Inv s →
      (s.task t).state = .ready := by
    rintro s passed ⟨⟨-, one⟩, task, ahead⟩
    exact (ready s passed).resolve_right fun runs => ahead.other (one t task runs)
  have keeps : ∀ {s op s'}, Passes (TaskStep kmain) s₁ between s₂ s → Inv s →
      TaskStep kmain s op s' → Inv s' ∨ Selects kmain s op s' t := by
    intro s op s' passed inv step
    obtain ⟨⟨⟨lists, queues⟩, one⟩, task, ahead⟩ := id inv
    obtain ⟨_, lists', ran, queues'⟩ := taskOp_spec queues step.1
    obtain rfl := Option.some.inj (ran.symm.trans step.2)
    obtain ⟨one', tasks⟩ := step.oneRuns queues one
    rcases ahead.step queues (waits s passed inv) step with here | ⟨ahead', -⟩
    · exact .inr here
    · exact .inl ⟨⟨⟨lists', queues'⟩, one'⟩, tasks ▸ List.mem_append_right _ task, ahead'⟩
  have atFirst : Inv s₁ := by
    obtain ⟨⟨lists, queues⟩, one⟩ :=
      taskRun_inv record (start.append (Run.single selected.1))
    obtain rfl := selected.2.2
    exact ⟨⟨⟨lists, queues⟩, one⟩, task, .of_current queues task same⟩
  rcases run.invariant_until Inv (fun s op s' => Selects kmain s op s' t) keeps atFirst with
    inv | hit
  · -- the last call would select the task that waits
    obtain ⟨⟨⟨lists, queues⟩, -⟩, -, ahead⟩ := id inv
    have waiting := waits s₂ ⟨between, [], by simp, run, .nil s₂⟩ inv
    rcases ahead.step queues waiting again.1 with here | ⟨-, never⟩
    · exact absurd (here.2.2.symm.trans again.2.2) same
    · exact absurd again never
  · exact hit

/-- Three tasks take turns: between two turns of one the other has a turn. -/
theorem roundRobin_run_three :
    ∃ s₀ s₁ s₂ s₃, Selects heapStart s₀ .schedule s₁ (heapStart + 128) ∧
      Run (TaskStep heapStart) s₁ [.schedule, .schedule] s₂ ∧
      Selects heapStart s₂ .schedule s₃ (heapStart + 128) ∧
      ∃ s op s', Takes (TaskStep heapStart) s₁ [.schedule, .schedule] s₂ s op s' ∧
        Selects heapStart s op s' (heapStart + 64) := by
  have goes : ((taskOps heapStart [.create (heapStart + 64), .create (heapStart + 128)]
      (taskInit (fun _ => ⟨0, .ready, 0, 0, 0⟩) heapStart)).any fun s₀ =>
        (schedule s₀).any fun s₁ =>
          decide (s₁.current = heapStart + 128 ∧ heapStart + 64 ∈ s₁.tasks ∧
            (s₁.task (heapStart + 64)).state = .ready) &&
          (schedule s₁).any fun s =>
            decide ((s.task (heapStart + 64)).state = .running) &&
            (schedule s).any fun s₂ =>
              decide ((s₂.task (heapStart + 64)).state = .ready) &&
              (schedule s₂).any fun s₃ => decide (s₃.current = heapStart + 128)) = true := by
    decide +kernel
  simp only [Option.any_eq_true, Bool.and_eq_true, decide_eq_true_eq] at goes
  obtain ⟨s₀, created, s₁, ran₁, ⟨first, task, ready₁⟩, s, ran, runs, s₂, ran₂, ready₂, s₃, ran₃,
    last⟩ := goes
  have selected : Selects heapStart s₀ .schedule s₁ (heapStart + 128) :=
    ⟨⟨trivial, ran₁⟩, ⟨s₀, rfl, ran₁⟩, first⟩
  have again : Selects heapStart s₂ .schedule s₃ (heapStart + 128) :=
    ⟨⟨trivial, ran₃⟩, ⟨s₂, rfl, ran₃⟩, last⟩
  have run : Run (TaskStep heapStart) s₁ [.schedule, .schedule] s₂ :=
    .cons ⟨trivial, ran⟩ (.single ⟨trivial, ran₂⟩)
  have passed : ∀ u, Passes (TaskStep heapStart) s₁ [.schedule, .schedule] s₂ u →
      u = s₁ ∨ u = s ∨ u = s₂ := by
    rintro u ⟨js, ks, split, before, after⟩
    rcases js with _ | ⟨i, _ | ⟨j, js⟩⟩
    · cases before
      exact .inl rfl
    · obtain ⟨rfl, -⟩ := List.cons.inj split
      cases before with
      | cons one rest =>
          cases rest
          exact .inr (.inl (Option.some.inj (one.2.symm.trans ran)))
    · obtain ⟨-, rest⟩ := List.cons.inj split
      obtain ⟨-, rest⟩ := List.cons.inj rest
      obtain ⟨-, rfl⟩ := List.append_eq_nil_iff.mp rest.symm
      cases after
      exact .inr (.inr rfl)
  refine ⟨s₀, s₁, s₂, s₃, selected, run, again, ?_⟩
  refine (roundRobin_run (by decide) (taskOps_run created) selected run again task ?_).resolve_left
    (by decide)
  intro u on
  rcases passed u on with rfl | rfl | rfl
  · exact .inl ready₁
  · exact .inr runs
  · exact .inl ready₂

end Flyos
