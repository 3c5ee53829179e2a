import Resch.Proof.PolicyClass

/-!
# What no hook writes

`State.part π` is what `π` shows of the descriptors, together with the points. If `π` leaves out
the fields that hooks write (`Unwritten π`), no hook changes it, whoever the hook is for. Two further
fields have a hypothesis of their own: `accounting`, which only `start_account` and `stop_account`
write, and the replenish timer.

* `Unwritten.setScheduler`: changing the scheduler, up to policy and class.
* `Unwritten.jobStart`, `Unwritten.jobComplete`, `Unwritten.migrateTask`: the hooks of jobs.
-/

namespace Resch

variable {α : Type*} {π : Task → α} {c : Config} {k : Kernel} {s s' : State} {rt cpu : ℕ} {prio : ℤ}

/-- What `π` shows of the descriptors, and where the processes are. -/
def State.part (π : Task → α) (s : State) : (ℕ → α) × (ℕ → Point) := (fun q => π (s.task q), s.point)

/-- `π` leaves out the fields that hooks write. -/
structure Unwritten (π : Task → α) : Prop where
  prio : ∀ t v, π { t with prio := v } = π t
  prioSave : ∀ t v, π { t with prioSave := v } = π t
  cpuId : ∀ t v, π { t with cpuId := v } = π t
  cpumask : ∀ t v, π { t with cpumask := v } = π t
  wcet : ∀ t v, π { t with wcet := v } = π t
  budget : ∀ t v, π { t with budget := v } = π t
  missed : ∀ t v, π { t with missed := v } = π t
  releaseTime : ∀ t v, π { t with releaseTime := v } = π t
  deadlineTime : ∀ t v, π { t with deadlineTime := v } = π t
  server : ∀ t v, π { t with server := v } = π t
  globalEntry : ∀ t v, π { t with globalEntry := v } = π t
  activeEntry : ∀ t v, π { t with activeEntry := v } = π t
  componentEntry : ∀ t v, π { t with componentEntry := v } = π t

/-- Task by task -/
theorem part_of_task (ht : ∀ q, π (s'.task q) = π (s.task q)) (hp : s'.point = s.point) :
    s'.part π = s.part π := Prod.ext (funext ht) hp

/-- A change of a descriptor that `π` does not see -/
theorem part_setTask {f : Task → Task} (hf : π (f (s.task rt)) = π (s.task rt)) :
    (s.setTask rt f).part π = s.part π := by
  refine part_of_task (fun q => ?_) rfl
  by_cases hq : q = rt
  · subst hq
    rw [task_setTask_self]
    exact hf
  · rw [task_setTask_of_ne f hq]

/-- A function that is called for a task, if there is one -/
theorem part_ifSome {p : Option ℕ} {f : State → ℕ → State} (hf : ∀ s q, (f s q).part π = s.part π) :
    (ifSome s p f).part π = s.part π := by
  unfold ifSome
  split
  · exact hf s _
  · rfl

/-- The state of a process is not in the descriptor. -/
theorem part_setRunState (st : RunState) : (setRunState s rt st).part π = s.part π := rfl

theorem part_wakeUpProcess : (wakeUpProcess s rt).part π = s.part π := rfl

/-- With `SCHED_DEADLINE` only the process is changed. -/
theorem part_deadlineStartAccount : (Deadline.edfStartAccount c s rt).part π = s.part π := by
  unfold Deadline.edfStartAccount
  dsimp only
  split <;> rfl

theorem part_classStopAccount : (classStopAccount s rt).part π = s.part π := by
  unfold classStopAccount
  split <;> rfl

/-- It changes the process, if anything. -/
theorem part_apiWakeUp : (apiWakeUp s rt).1.part π = s.part π := by
  unfold apiWakeUp
  split
  · rfl
  · split <;> rfl

namespace Unwritten

section

variable (h : Unwritten π)

include h

/-! ## Lists -/

/-- Inserting into a queue writes the entry of the task. -/
theorem link (idx : ℤ) (ins : List ℕ → List ℕ) : (s.link rt cpu idx ins).part π = s.part π := by
  refine part_of_task (fun q => ?_) rfl
  by_cases hq : q = rt
  · subst hq
    rw [task_link_self]
    exact h.activeEntry _ _
  · rw [task_link_of_ne hq]

theorem unlink (idx : ℤ) : (s.unlink rt cpu idx).part π = s.part π := by
  refine part_of_task (fun q => ?_) rfl
  by_cases hq : q = rt
  · subst hq
    rw [task_unlink_self]
    exact h.activeEntry _ _
  · rw [task_unlink_of_ne hq]

/-- The global list has its own entry. -/
theorem globalOnly (hg : GlobalOnly s s') : s'.part π = s.part π := by
  refine part_of_task (fun q => ?_) hg.point
  obtain ⟨e, he⟩ := hg.task q
  rw [he]
  exact h.globalEntry _ _

/-- So has the list of a component. -/
theorem componentOnly (hc : ComponentOnly s s') : s'.part π = s.part π := by
  refine part_of_task (fun q => ?_) hc.point
  obtain ⟨e, he⟩ := hc.task q
  rw [he]
  exact h.componentEntry _ _

theorem setPrio : (s.setPrio rt prio).part π = s.part π := part_setTask (h.prio _ _)

/-- `cpu_id` and the mask -/
theorem setCpu : (s.setCpu rt cpu).part π = s.part π := part_setTask (h.cpuId _ _)

/-- Linux moves the process, and the mask is set. -/
theorem migrateTask' : (Resch.migrateTask' s rt cpu).part π = s.part π := by
  have hmask : (s.setTask rt fun t => { t with cpumask := fun x => decide (x = cpu) }).part π =
      s.part π := part_setTask (h.cpumask _ _)
  exact hmask

/-! ## The classes -/

theorem enqueueTaskAt (ins : List ℕ → List ℕ) :
    (Resch.enqueueTaskAt ins s rt prio cpu).part π = s.part π := h.link _ _

/-- The EDF class without `SCHED_DEADLINE` sets the priority of the task as well. -/
theorem edfEnqueueTask : (Edf.edfEnqueueTask s rt prio cpu).part π = s.part π :=
  h.setPrio.trans (h.enqueueTaskAt _)

/-- Whatever the class -/
theorem classEnqueueTask : (Resch.classEnqueueTask s rt prio cpu).part π = s.part π := by
  unfold Resch.classEnqueueTask
  split
  · rfl
  · exact h.enqueueTaskAt _
  · exact h.edfEnqueueTask
  · exact h.enqueueTaskAt _

theorem classDequeueTask : (Resch.classDequeueTask s rt prio cpu).part π = s.part π := by
  unfold Resch.classDequeueTask
  split
  · rfl
  all_goals exact h.unlink _

/-- Linux may refuse; nothing is written then. -/
theorem setSchedulerAs (policy : LinuxPolicy) :
    (Resch.setSchedulerAs k policy s rt prio).1.part π = s.part π := by
  unfold Resch.setSchedulerAs schedSetscheduler
  cases hk : k.setscheduler policy prio
  · rfl
  · exact h.setPrio

theorem classSetScheduler : (Resch.classSetScheduler c k s rt prio).1.part π = s.part π := by
  unfold Resch.classSetScheduler
  split
  · exact h.setSchedulerAs _
  · exact h.setSchedulerAs _
  · exact h.setSchedulerAs _
  · unfold Deadline.edfSetScheduler
    dsimp only
    split
    · rfl
    · have hprio : ((((s.rcuReadLock.setProc (s.task rt).task fun q =>
          { q with policy := .deadline }).rcuReadUnlock).setPrio rt prio).part π) = s.part π := h.setPrio
      split <;> exact hprio

/-- A requeue, and a reinsertion into the global list -/
theorem moveTask : (Resch.moveTask s rt prio).part π = s.part π := by
  unfold Resch.moveTask
  dsimp only
  have hg : (if s.isManaged rt = true then globalListReinsert s rt else s).part π = s.part π := by
    split
    · exact h.globalOnly globalListReinsert_only
    · rfl
  generalize (if s.isManaged rt = true then globalListReinsert s rt else s) = s₁ at hg ⊢
  split
  · exact h.classEnqueueTask.trans (h.classDequeueTask.trans hg)
  · exact hg

/-- The priority is written if Linux accepts. -/
theorem setScheduler' : (Resch.setScheduler' c k s rt prio).1.part π = s.part π := by
  unfold Resch.setScheduler'
  have hset : (Resch.classSetScheduler c k s rt prio).1.part π = s.part π := h.classSetScheduler
  generalize Resch.classSetScheduler c k s rt prio = r at hset ⊢
  obtain ⟨s₁, ok⟩ := r
  dsimp only at hset ⊢
  split
  · exact hset
  split
  · exact hset
  · exact h.moveTask.trans hset

/-- `set_scheduler` changes at most policy and class. -/
theorem setScheduler (policy : ℤ) :
    (Resch.setScheduler c k s rt policy prio).1.part π = (setPolicy c s rt policy).part π := by
  unfold Resch.setScheduler
  split
  · exact h.setScheduler'
  · exact h.setScheduler'

/-! ## Reserves -/

/-- An expired task goes to the background priority. -/
theorem classReserveExpire : (Resch.classReserveExpire c k s rt).part π = s.part π := by
  unfold Resch.classReserveExpire
  split
  · rfl
  · exact h.setScheduler'
  · unfold Edf.edfReserveExpire
    dsimp only
    split
    · rfl
    · refine (part_ifSome fun s q => ?_).trans (h.edfEnqueueTask.trans (h.unlink _))
      split <;> rfl
  · rfl

/-- The budget grows, and the priority may come back. -/
theorem classReserveReplenish (cputime : ℕ) :
    (Resch.classReserveReplenish c k s rt cputime).part π = s.part π := by
  have hbudget : (s.setTask rt fun t => { t with budget := t.budget + cputime }).part π = s.part π :=
    part_setTask (h.budget _ _)
  unfold Resch.classReserveReplenish
  split
  · rfl
  · unfold fpReserveReplenish requestSetScheduler
    dsimp only
    split
    · exact h.setScheduler'.trans hbudget
    · exact hbudget
  · unfold Edf.edfReserveReplenish
    dsimp only
    split
    · split
      · exact part_wakeUpProcess.trans ((part_ifSome fun _ _ => part_setRunState _).trans
          (h.edfEnqueueTask.trans ((h.unlink _).trans hbudget)))
      · exact h.edfEnqueueTask.trans ((h.unlink _).trans hbudget)
    · exact hbudget
  · rfl

/-- The timer is taken off, which is why `π` has to leave it out. -/
theorem reserveReplenish (htimer : ∀ t, π { t with replenishTimer := none } = π t) :
    (Resch.reserveReplenish c k s rt).part π = s.part π := by
  unfold Resch.reserveReplenish
  dsimp only
  refine (part_setTask (htimer _)).trans ?_
  split
  · exact h.classReserveReplenish _
  · rfl

/-- The timer has expired. -/
theorem onReplenish (htimer : ∀ t, π { t with replenishTimer := none } = π t) :
    (Resch.onReplenish c k s rt).part π = s.part π :=
  (h.classReserveReplenish _).trans (part_setTask (htimer _))

/-- The priority is saved. -/
theorem fpStartAccount : (Resch.fpStartAccount c s rt).part π = s.part π :=
  part_setTask (h.prioSave _ _)

/-- Whatever the class -/
theorem classStartAccount : (Resch.classStartAccount c s rt).part π = s.part π := by
  unfold Resch.classStartAccount
  split
  · rfl
  · exact h.fpStartAccount
  · rfl
  · exact part_deadlineStartAccount

/-! ## Jobs -/

/-- EDF enqueues at its base priority, and puts one of two processes to sleep. -/
theorem classJobStart : (Resch.classJobStart s rt).part π = s.part π := by
  unfold Resch.classJobStart
  split
  · rfl
  · exact h.enqueueTaskAt _
  · unfold Edf.edfJobStart
    dsimp only
    split
    · exact (part_ifSome fun _ _ => part_setRunState _).trans h.edfEnqueueTask
    · exact (part_setRunState _).trans h.edfEnqueueTask
  · exact h.enqueueTaskAt _

/-- EDF sets the base priority, and wakes the process that is next. -/
theorem classJobComplete : (Resch.classJobComplete s rt).part π = s.part π := by
  unfold Resch.classJobComplete
  split
  · rfl
  · exact h.unlink _
  · unfold Edf.edfJobComplete
    exact (part_ifSome fun _ _ => part_wakeUpProcess).trans (h.setPrio.trans (h.unlink _))
  · exact h.unlink _

/-- The release time is one of the fields left out. -/
theorem jobReleaseWait (releaseTime : ℕ) :
    (Resch.jobReleaseWait s rt releaseTime).part π = s.part π := by
  have hrel : (s.setTask rt fun t => { t with releaseTime := releaseTime }).part π = s.part π :=
    part_setTask (h.releaseTime _ _)
  unfold Resch.jobReleaseWait
  dsimp only
  split
  · exact hrel
  · split <;> exact hrel
  · split <;> exact hrel
  · exact hrel

/-- So is the mark of a miss. -/
theorem deadlineMiss : (Resch.deadlineMiss s rt).1.part π = s.part π := by
  unfold Resch.deadlineMiss
  dsimp only
  exact part_setTask (h.missed _ _)

theorem releasedState : (Resch.releasedState s rt).part π = s.part π := by
  unfold Resch.releasedState
  exact part_setTask (h.deadlineTime _ _)

/-- The saved priority is put back before the dequeue. -/
theorem jobSuspend (c : Config) (k : Kernel) (s : State) (rt : ℕ) :
    (Resch.jobSuspend c k s rt).part π = s.part π := by
  unfold Resch.jobSuspend
  dsimp only
  refine h.classDequeueTask.trans ?_
  split
  · rw [h.setScheduler, setPolicy_same]
  · rfl

/-- Setting a priority goes through `set_scheduler`. -/
theorem apiSetPriority : (Resch.apiSetPriority c k s rt prio).1.part π = s.part π := by
  rcases apiSetPriority_fst c k s rt prio with he | he
  · rw [he]
  · rw [he, h.setScheduler, setPolicy_same]

/-! ## With accounting -/

variable (hacc : ∀ t b, π { t with accounting := b } = π t)

include hacc

/-- From here on `π` leaves out `accounting` as well. -/
theorem startAccount : (Resch.startAccount c s rt).part π = s.part π := by
  unfold Resch.startAccount
  split
  · rfl
  · exact (part_setTask (hacc _ _)).trans (h.classStartAccount.trans (part_setTask (h.budget _ _)))

theorem stopAccount : (Resch.stopAccount c s rt).part π = s.part π := by
  unfold Resch.stopAccount
  dsimp only
  refine (part_setTask (h.server _ _)).trans ?_
  split
  · exact (part_setTask (hacc _ _)).trans (part_classStopAccount.trans (part_setTask (h.budget _ _)))
  · rfl

theorem jobStart : (Resch.jobStart c s rt).part π = s.part π := by
  unfold Resch.jobStart
  dsimp only
  split
  · exact (h.startAccount hacc).trans h.classJobStart
  · exact h.classJobStart

/-- Replenishing takes the timer off. -/
theorem jobComplete (htimer : ∀ t, π { t with replenishTimer := none } = π t) :
    (Resch.jobComplete c k s rt).part π = s.part π := by
  unfold Resch.jobComplete
  dsimp only
  have hwcet : (if (s.task rt).wcetFixed = false ∧ (s.task rt).wcet <
      c.jiffiesToUsecs (execTime c s rt) then
        s.setTask rt fun t => { t with wcet := c.jiffiesToUsecs (execTime c s rt) } else s).part π =
      s.part π := by
    split
    · exact part_setTask (h.wcet _ _)
    · rfl
  generalize (if (s.task rt).wcetFixed = false ∧ (s.task rt).wcet <
    c.jiffiesToUsecs (execTime c s rt) then _ else s) = s₁ at hwcet ⊢
  split
  · exact (h.reserveReplenish htimer).trans ((h.stopAccount hacc).trans (h.classJobComplete.trans hwcet))
  · exact h.classJobComplete.trans hwcet

end

/-! ## Migration -/

/-- Accounting is stopped on the old CPU and started on the new one. -/
theorem restartAccount {stop start : State → ℕ → State}
    (hstop : ∀ s rt, (stop s rt).part π = s.part π) (hstart : ∀ s rt, (start s rt).part π = s.part π) :
    (Resch.restartAccount stop start s rt).part π = s.part π := by
  unfold Resch.restartAccount
  split
  · exact (hstart _ _).trans (hstop _ _)
  · rfl

theorem fpMigrateTask (h : Unwritten π) : (Resch.fpMigrateTask c s rt cpu).part π = s.part π := by
  have hstop : ∀ s rt, (fpStopAccount s rt).part π = s.part π := fun _ _ => rfl
  have hstart : ∀ s rt, (Resch.fpStartAccount c s rt).part π = s.part π := fun _ _ => h.fpStartAccount
  unfold Resch.fpMigrateTask
  dsimp only
  refine (restartAccount hstop hstart).trans (h.migrateTask'.trans ?_)
  split
  · split
    · exact (h.enqueueTaskAt _).trans (h.setCpu.trans (h.unlink _))
    · exact h.setCpu
  · rfl

theorem edfMigrateTask (h : Unwritten π) : (Edf.edfMigrateTask c s rt cpu).part π = s.part π := by
  have hstop : ∀ s rt, (Edf.edfStopAccount s rt).part π = s.part π := fun _ _ => rfl
  have hstart : ∀ s rt, (Edf.edfStartAccount c s rt).part π = s.part π := fun _ _ => rfl
  unfold Edf.edfMigrateTask
  dsimp only
  split
  · split
    · refine (part_ifSome fun s q => ?_).trans ((restartAccount hstop hstart).trans
        (h.migrateTask'.trans ((part_ifSome fun _ _ => part_wakeUpProcess).trans
          (h.edfEnqueueTask.trans (h.setCpu.trans (h.unlink _))))))
      split <;> rfl
    · exact h.migrateTask'.trans h.setCpu
  · exact h.migrateTask'

theorem deadlineMigrateTask (h : Unwritten π) :
    (Deadline.edfMigrateTask c s rt cpu).part π = s.part π := by
  have hstop : ∀ s rt, (Deadline.edfStopAccount s rt).part π = s.part π := fun _ _ => rfl
  have hstart : ∀ s rt, (Deadline.edfStartAccount c s rt).part π = s.part π := fun _ _ =>
    part_deadlineStartAccount
  unfold Deadline.edfMigrateTask
  dsimp only
  split
  · split
    · exact (restartAccount hstop hstart).trans
        (h.migrateTask'.trans ((h.enqueueTaskAt _).trans (h.setCpu.trans (h.unlink _))))
    · exact h.migrateTask'.trans h.setCpu
  · exact h.migrateTask'

/-- Whatever the class -/
theorem migrateTask (h : Unwritten π) : (Resch.migrateTask c s rt cpu).part π = s.part π := by
  unfold Resch.migrateTask
  split
  · rfl
  · exact h.fpMigrateTask
  · exact h.edfMigrateTask
  · exact h.deadlineMigrateTask

end Unwritten

end Resch
