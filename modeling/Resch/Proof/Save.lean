import Resch.Proof.Exit
import Resch.Spec.ReuseRun

/-!
# Who reads `prio_save`

`resch_task_init` leaves `prio_save` in a descriptor as it is. `State.withSave` puts another value
there.

* A function that neither reads nor writes `prio_save` commutes with `withSave`.
* `startAccount_withSave`: one that writes it commutes up to the value that is in `prio_save` then.
* `classReserveReplenish_withSave`, `jobSuspend_withSave`: replenishing and suspending read it.
-/

namespace Resch

open Lib

variable {c : Config} {k : Kernel} {s : State} {rid rt q cpu p : ℕ} {prio v : ℤ}

def Task.withSave (t : Task) (v : ℤ) : Task := { t with prioSave := v }

/-- The state with `v` in `prio_save` of `rid`. -/
def State.withSave (s : State) (rid : ℕ) (v : ℤ) : State := s.setTask rid fun t => t.withSave v

/-- The value that is there -/
theorem withSave_self (s : State) (rid : ℕ) : s.withSave rid (s.task rid).prioSave = s := by
  have h : (s.task rid).withSave (s.task rid).prioSave = s.task rid := rfl
  unfold State.withSave State.setTask
  dsimp only
  rw [h, Function.update_eq_self]

theorem prioSave_withSave : ((s.withSave rid v).task rid).prioSave = v := by
  unfold State.withSave
  rw [task_setTask_self]
  rfl

/-- The other tasks -/
theorem prioSave_withSave_of_ne (hq : q ≠ rid) :
    ((s.withSave rid v).task q).prioSave = (s.task q).prioSave := by
  unfold State.withSave
  rw [task_setTask_of_ne _ hq]

/-- Both branches of a function -/
theorem ite_withSave {P : Prop} [Decidable P] {a b : State} :
    (if P then a.withSave rid v else b.withSave rid v) = (if P then a else b).withSave rid v := by
  split <;> rfl

/-! ## Reading -/

/-- A function of a task that does not read `prio_save`. -/
theorem field_withSave {α : Type*} (g : Task → α) (hg : ∀ t, g (t.withSave v) = g t) :
    g ((s.withSave rid v).task q) = g (s.task q) :=
  setTask_field g (hg _) q

/-- The fields, one by one -/
@[simp] theorem taskField_withSave :
    ((s.withSave rid v).task q).task = (s.task q).task :=
  field_withSave (·.task) fun _ => rfl

@[simp] theorem prio_withSave : ((s.withSave rid v).task q).prio = (s.task q).prio :=
  field_withSave (·.prio) fun _ => rfl

@[simp] theorem cpuId_withSave : ((s.withSave rid v).task q).cpuId = (s.task q).cpuId :=
  field_withSave (·.cpuId) fun _ => rfl

@[simp] theorem cpumask_withSave :
    ((s.withSave rid v).task q).cpumask = (s.task q).cpumask :=
  field_withSave (·.cpumask) fun _ => rfl

@[simp] theorem wcetFixed_withSave :
    ((s.withSave rid v).task q).wcetFixed = (s.task q).wcetFixed :=
  field_withSave (·.wcetFixed) fun _ => rfl

@[simp] theorem wcet_withSave : ((s.withSave rid v).task q).wcet = (s.task q).wcet :=
  field_withSave (·.wcet) fun _ => rfl

@[simp] theorem runtime_withSave :
    ((s.withSave rid v).task q).runtime = (s.task q).runtime :=
  field_withSave (·.runtime) fun _ => rfl

@[simp] theorem period_withSave : ((s.withSave rid v).task q).period = (s.task q).period :=
  field_withSave (·.period) fun _ => rfl

@[simp] theorem deadline_withSave :
    ((s.withSave rid v).task q).deadline = (s.task q).deadline :=
  field_withSave (·.deadline) fun _ => rfl

@[simp] theorem deadlineTime_withSave :
    ((s.withSave rid v).task q).deadlineTime = (s.task q).deadlineTime :=
  field_withSave (·.deadlineTime) fun _ => rfl

@[simp] theorem releaseTime_withSave :
    ((s.withSave rid v).task q).releaseTime = (s.task q).releaseTime :=
  field_withSave (·.releaseTime) fun _ => rfl

@[simp] theorem cls_withSave : ((s.withSave rid v).task q).cls = (s.task q).cls :=
  field_withSave (·.cls) fun _ => rfl

@[simp] theorem policy_withSave : ((s.withSave rid v).task q).policy = (s.task q).policy :=
  field_withSave (·.policy) fun _ => rfl

@[simp] theorem reserveTime_withSave :
    ((s.withSave rid v).task q).reserveTime = (s.task q).reserveTime :=
  field_withSave (·.reserveTime) fun _ => rfl

@[simp] theorem budget_withSave : ((s.withSave rid v).task q).budget = (s.task q).budget :=
  field_withSave (·.budget) fun _ => rfl

@[simp] theorem replenishTimer_withSave :
    ((s.withSave rid v).task q).replenishTimer = (s.task q).replenishTimer :=
  field_withSave (·.replenishTimer) fun _ => rfl

@[simp] theorem server_withSave : ((s.withSave rid v).task q).server = (s.task q).server :=
  field_withSave (·.server) fun _ => rfl

@[simp] theorem componentEntry_withSave :
    ((s.withSave rid v).task q).componentEntry = (s.task q).componentEntry :=
  field_withSave (·.componentEntry) fun _ => rfl

/-- What is decided by fields -/
@[simp] theorem isActive_withSave : (s.withSave rid v).isActive q = s.isActive q :=
  field_withSave (·.activeEntry) fun _ => rfl

@[simp] theorem isManaged_withSave : (s.withSave rid v).isManaged q = s.isManaged q :=
  field_withSave (·.globalEntry) fun _ => rfl

@[simp] theorem isAccounting_withSave :
    (s.withSave rid v).isAccounting q = s.isAccounting q :=
  field_withSave (·.accounting) fun _ => rfl

@[simp] theorem hasReserve_withSave : (s.withSave rid v).hasReserve q = s.hasReserve q :=
  field_withSave (fun t => decide (0 < t.reserveTime)) fun _ => rfl

/-- What is not in a descriptor -/
@[simp] theorem jiffies_withSave : (s.withSave rid v).jiffies = s.jiffies := rfl
@[simp] theorem proc_withSave : (s.withSave rid v).proc = s.proc := rfl
@[simp] theorem lo_withSave : (s.withSave rid v).lo = s.lo := rfl
@[simp] theorem component_withSave : (s.withSave rid v).component = s.component := rfl
@[simp] theorem cidMap_withSave : (s.withSave rid v).cidMap = s.cidMap := rfl

@[simp] theorem procOf_withSave : (s.withSave rid v).procOf q = s.procOf q := by
  unfold State.procOf
  rw [taskField_withSave, proc_withSave]

/-- The time of the process; what is left of a reserve is read of that and the reserve. -/
@[simp] theorem execTime_withSave : execTime c (s.withSave rid v) q = execTime c s q := by
  unfold execTime
  rw [procOf_withSave]

@[simp] theorem budgetLeft_withSave :
    budgetLeft c (s.withSave rid v) q = budgetLeft c s q := by
  unfold budgetLeft
  rw [execTime_withSave, reserveTime_withSave]

/-- The queues are not in a descriptor. -/
@[simp] theorem activeHighestPrioTask_withSave :
    activeHighestPrioTask (s.withSave rid v) cpu = activeHighestPrioTask s cpu := rfl

@[simp] theorem activePrioTask_withSave :
    activePrioTask (s.withSave rid v) cpu prio = activePrioTask s cpu prio := rfl

@[simp] theorem activeNextPrioTask_withSave :
    activeNextPrioTask (s.withSave rid v) q = activeNextPrioTask s q := by
  unfold activeNextPrioTask
  rw [prio_withSave, cpuId_withSave, lo_withSave]

/-! ## Assignments -/

/-- An assignment that neither reads nor writes `prio_save`. -/
theorem setTask_withSave {f : Task → Task}
    (hf : ∀ t, f (t.withSave v) = (f t).withSave v) :
    (s.withSave rid v).setTask q f = (s.setTask q f).withSave rid v := by
  unfold State.withSave State.setTask
  by_cases hq : q = rid
  · subst hq
    simp only [Function.update_self, Function.update_idem, hf]
  · have hrid : rid ≠ q := fun h => hq h.symm
    simp only [Function.update_of_ne hq, Function.update_of_ne hrid]
    rw [Function.update_comm hq]

/-- Assignments to other fields -/
@[simp] theorem setProc_withSave (f : Proc → Proc) :
    (s.withSave rid v).setProc p f = (s.setProc p f).withSave rid v := rfl

@[simp] theorem setPrio_withSave :
    (s.withSave rid v).setPrio q prio = (s.setPrio q prio).withSave rid v :=
  setTask_withSave fun _ => rfl

@[simp] theorem setCpu_withSave :
    (s.withSave rid v).setCpu q cpu = (s.setCpu q cpu).withSave rid v :=
  setTask_withSave fun _ => rfl

@[simp] theorem rcuReadLock_withSave :
    (s.withSave rid v).rcuReadLock = s.rcuReadLock.withSave rid v := rfl

@[simp] theorem rcuReadUnlock_withSave :
    (s.withSave rid v).rcuReadUnlock = s.rcuReadUnlock.withSave rid v := rfl

@[simp] theorem setRunState_withSave (st : RunState) :
    setRunState (s.withSave rid v) q st = (setRunState s q st).withSave rid v := by
  unfold setRunState
  rw [taskField_withSave, setProc_withSave]

@[simp] theorem wakeUpProcess_withSave :
    wakeUpProcess (s.withSave rid v) q = (wakeUpProcess s q).withSave rid v := by
  unfold wakeUpProcess
  rw [taskField_withSave, setProc_withSave]

@[simp] theorem resetExecTime_withSave :
    resetExecTime (s.withSave rid v) q = (resetExecTime s q).withSave rid v := by
  unfold resetExecTime
  rw [taskField_withSave, setProc_withSave]

/-- The mask, and the process -/
@[simp] theorem migrateTask'_withSave :
    migrateTask' (s.withSave rid v) q cpu = (migrateTask' s q cpu).withSave rid v := by
  unfold migrateTask'
  dsimp only
  rw [setTask_withSave fun _ => rfl, taskField_withSave, cpumask_withSave,
    setProc_withSave]

/-- Queues and entries -/
@[simp] theorem link_withSave (idx : ℤ) (ins : List ℕ → List ℕ) :
    (s.withSave rid v).link q cpu idx ins = (s.link q cpu idx ins).withSave rid v := by
  have hlink : ∀ s : State, s.link q cpu idx ins =
      { (s.setTask q fun t => { t with activeEntry := true }) with
        lo := (s.link q cpu idx ins).lo, trace := (s.link q cpu idx ins).trace } := fun _ => rfl
  rw [hlink (s.withSave rid v), setTask_withSave fun _ => rfl]
  rfl

@[simp] theorem unlink_withSave (idx : ℤ) :
    (s.withSave rid v).unlink q cpu idx = (s.unlink q cpu idx).withSave rid v := by
  have hunlink : ∀ s : State, s.unlink q cpu idx =
      { (s.setTask q fun t => { t with activeEntry := false }) with
        lo := (s.unlink q cpu idx).lo, trace := (s.unlink q cpu idx).trace } := fun _ => rfl
  have htrace : ((s.withSave rid v).unlink q cpu idx).trace = (s.unlink q cpu idx).trace := by
    unfold State.unlink
    rw [isActive_withSave]
    rfl
  rw [hunlink (s.withSave rid v), setTask_withSave fun _ => rfl, htrace]
  rfl

/-! ## The lists and the classes -/

/-- The list is ordered by priority, not by the one that is saved. -/
@[simp] theorem globalListInsert_withSave :
    globalListInsert (s.withSave rid v) q = (globalListInsert s q).withSave rid v := by
  have hins : ∀ s : State, (if s.isManaged q then s else
      { (s.setTask q fun t => { t with globalEntry := true }) with
        taskList :=
          insertBefore (fun p => decide ((s.task p).prio < (s.task q).prio)) q s.taskList }) =
      globalListInsert s q := fun _ => rfl
  rw [← hins, ← hins, isManaged_withSave]
  split
  · rfl
  · rw [setTask_withSave fun _ => rfl]
    simp only [prio_withSave]
    rfl

@[simp] theorem globalListRemove_withSave :
    globalListRemove (s.withSave rid v) q = (globalListRemove s q).withSave rid v := by
  have hrem : ∀ s : State, (if s.isManaged q then
      { (s.setTask q fun t => { t with globalEntry := false }) with
        taskList := s.taskList.filter (· ≠ q) } else s) = globalListRemove s q := fun _ => rfl
  rw [← hrem, ← hrem, isManaged_withSave]
  split
  · rw [setTask_withSave fun _ => rfl]
    rfl
  · rfl

/-- EDF inserts by absolute deadline. -/
@[simp] theorem deadlineInsert_withSave :
    deadlineInsert (s.withSave rid v) q = deadlineInsert s q := by
  unfold deadlineInsert
  simp only [deadlineTime_withSave]

/-- An enqueue whose place in the queue does not depend on it -/
theorem enqueueTaskAt_withSave (ins : List ℕ → List ℕ) :
    enqueueTaskAt ins (s.withSave rid v) q prio cpu =
      (enqueueTaskAt ins s q prio cpu).withSave rid v := link_withSave _ _

theorem dequeueTaskAt_withSave :
    dequeueTaskAt (s.withSave rid v) q prio cpu = (dequeueTaskAt s q prio cpu).withSave rid v :=
  unlink_withSave _

/-- EDF enqueues at the two priorities that are its own. -/
@[simp] theorem edfEnqueueTask_withSave :
    Edf.edfEnqueueTask (s.withSave rid v) q prio cpu =
      (Edf.edfEnqueueTask s q prio cpu).withSave rid v := by
  unfold Edf.edfEnqueueTask
  rw [deadlineInsert_withSave, enqueueTaskAt_withSave, setPrio_withSave]

@[simp] theorem edfDequeueTask_withSave :
    Edf.edfDequeueTask (s.withSave rid v) q prio cpu =
      (Edf.edfDequeueTask s q prio cpu).withSave rid v := dequeueTaskAt_withSave

@[simp] theorem deadlineEnqueueTask_withSave :
    Deadline.edfEnqueueTask (s.withSave rid v) q prio cpu =
      (Deadline.edfEnqueueTask s q prio cpu).withSave rid v := by
  unfold Deadline.edfEnqueueTask
  rw [deadlineInsert_withSave, enqueueTaskAt_withSave]

@[simp] theorem deadlineDequeueTask_withSave :
    Deadline.edfDequeueTask (s.withSave rid v) q prio cpu =
      (Deadline.edfDequeueTask s q prio cpu).withSave rid v := dequeueTaskAt_withSave

@[simp] theorem fpEnqueueTask_withSave :
    fpEnqueueTask (s.withSave rid v) q prio cpu =
      (fpEnqueueTask s q prio cpu).withSave rid v := enqueueTaskAt_withSave _

@[simp] theorem fpDequeueTask_withSave :
    fpDequeueTask (s.withSave rid v) q prio cpu =
      (fpDequeueTask s q prio cpu).withSave rid v := dequeueTaskAt_withSave

/-- Whatever the class -/
@[simp] theorem classEnqueueTask_withSave :
    classEnqueueTask (s.withSave rid v) q prio cpu =
      (classEnqueueTask s q prio cpu).withSave rid v := by
  unfold classEnqueueTask
  rw [cls_withSave]
  cases (s.task q).cls with
  | fair => rfl
  | fp => exact fpEnqueueTask_withSave
  | edf => exact edfEnqueueTask_withSave
  | deadline => exact deadlineEnqueueTask_withSave

@[simp] theorem classDequeueTask_withSave :
    classDequeueTask (s.withSave rid v) q prio cpu =
      (classDequeueTask s q prio cpu).withSave rid v := by
  unfold classDequeueTask
  rw [cls_withSave]
  cases (s.task q).cls with
  | fair => rfl
  | fp => exact fpDequeueTask_withSave
  | edf => exact edfDequeueTask_withSave
  | deadline => exact deadlineDequeueTask_withSave

/-- The answer of Linux is the same. -/
theorem setSchedulerAs_withSave (policy : LinuxPolicy) :
    setSchedulerAs k policy (s.withSave rid v) q prio =
      ((setSchedulerAs k policy s q prio).1.withSave rid v,
        (setSchedulerAs k policy s q prio).2) := by
  unfold setSchedulerAs schedSetscheduler
  rw [taskField_withSave]
  by_cases hk : k.setscheduler policy prio = true
  · simp [hk]
  · simp [hk]

/-- `SCHED_DEADLINE` is set from runtime, deadline and period. -/
theorem deadlineSetScheduler_withSave :
    Deadline.edfSetScheduler c k (s.withSave rid v) q prio =
      ((Deadline.edfSetScheduler c k s q prio).1.withSave rid v,
        (Deadline.edfSetScheduler c k s q prio).2) := by
  unfold Deadline.edfSetScheduler
  simp only [taskField_withSave, runtime_withSave, deadline_withSave, period_withSave,
    rcuReadLock_withSave, setProc_withSave, rcuReadUnlock_withSave, setPrio_withSave,
    hasReserve_withSave]
  split
  · rfl
  · split <;> rfl

/-- Whatever the class -/
theorem classSetScheduler_withSave :
    classSetScheduler c k (s.withSave rid v) q prio =
      ((classSetScheduler c k s q prio).1.withSave rid v,
        (classSetScheduler c k s q prio).2) := by
  unfold classSetScheduler
  rw [cls_withSave]
  cases (s.task q).cls with
  | fair => exact setSchedulerAs_withSave _
  | fp => exact setSchedulerAs_withSave _
  | edf => exact setSchedulerAs_withSave _
  | deadline => exact deadlineSetScheduler_withSave

/-- The queues and the global list, at the old and the new priority -/
@[simp] theorem moveTask_withSave :
    moveTask (s.withSave rid v) q prio = (moveTask s q prio).withSave rid v := by
  have hlist : (if (s.withSave rid v).isManaged q then
      globalListReinsert (s.withSave rid v) q else s.withSave rid v) =
      (if s.isManaged q then globalListReinsert s q else s).withSave rid v := by
    unfold globalListReinsert
    rw [isManaged_withSave, globalListRemove_withSave, globalListInsert_withSave]
    split <;> rfl
  unfold moveTask
  rw [hlist]
  generalize (if s.isManaged q = true then globalListReinsert s q else s) = s₁
  dsimp only
  rw [isActive_withSave]
  split
  · unfold requeueTask
    dsimp only
    rw [cpuId_withSave, prio_withSave, classDequeueTask_withSave,
      classEnqueueTask_withSave]
  · rfl

/-- The priority that is set is an argument. -/
theorem setScheduler'_withSave :
    setScheduler' c k (s.withSave rid v) q prio =
      ((setScheduler' c k s q prio).1.withSave rid v, (setScheduler' c k s q prio).2) := by
  unfold setScheduler'
  rw [prio_withSave, classSetScheduler_withSave]
  generalize classSetScheduler c k s q prio = x
  obtain ⟨s₁, ok⟩ := x
  dsimp only
  rw [prio_withSave, moveTask_withSave]
  split
  · rfl
  · split <;> rfl

@[simp] theorem setPolicy_withSave (policy : ℤ) :
    setPolicy c (s.withSave rid v) q policy = (setPolicy c s q policy).withSave rid v := by
  unfold setPolicy
  rw [policy_withSave]
  split
  · exact setTask_withSave fun _ => rfl
  · rfl

/-- **Setting the scheduler** neither reads nor writes it, when called with a priority from
elsewhere. -/
theorem setScheduler_withSave (policy : ℤ) :
    setScheduler c k (s.withSave rid v) q policy prio =
      ((setScheduler c k s q policy prio).1.withSave rid v,
        (setScheduler c k s q policy prio).2) := by
  unfold setScheduler requestSetScheduler
  dsimp only
  rw [setPolicy_withSave, setScheduler'_withSave]
  split <;> rfl

theorem apiSetPriority_withSave :
    apiSetPriority c k (s.withSave rid v) q prio =
      ((apiSetPriority c k s q prio).1.withSave rid v, (apiSetPriority c k s q prio).2) := by
  unfold apiSetPriority
  rw [policy_withSave]
  dsimp only
  rw [setScheduler_withSave]
  split
  · rfl
  · generalize setScheduler c k s q (s.task q).policy prio = x
    obtain ⟨s₁, ok⟩ := x
    dsimp only
    split <;> rfl

theorem apiSetScheduler_withSave (policy : ℤ) :
    apiSetScheduler c k (s.withSave rid v) q policy =
      ((apiSetScheduler c k s q policy).1.withSave rid v,
        (apiSetScheduler c k s q policy).2) := by
  unfold apiSetScheduler
  rw [policy_withSave, prio_withSave, setScheduler_withSave]
  split
  · generalize setScheduler c k s q policy (s.task q).prio = x
    obtain ⟨s₁, ok⟩ := x
    dsimp only
    split <;> rfl
  · rfl

/-- A function that is called for a task, if there is one -/
theorem ifSome_withSave {x : Option ℕ} {f : State → ℕ → State}
    (hf : ∀ s q, f (s.withSave rid v) q = (f s q).withSave rid v) :
    ifSome (s.withSave rid v) x f = (ifSome s x f).withSave rid v := by
  unfold ifSome
  split
  · exact hf s _
  · rfl

/-! ## Jobs -/

/-- EDF goes to a constant priority, and keeps none. -/
theorem edfReserveExpire_withSave :
    Edf.edfReserveExpire (s.withSave rid v) q =
      (Edf.edfReserveExpire s q).withSave rid v := by
  unfold Edf.edfReserveExpire
  dsimp only
  rw [cpuId_withSave, isActive_withSave, prio_withSave, edfDequeueTask_withSave,
    edfEnqueueTask_withSave, activeHighestPrioTask_withSave]
  split
  · rfl
  · refine ifSome_withSave fun s q => ?_
    rw [wakeUpProcess_withSave, setRunState_withSave]
    split <;> rfl

/-- FP goes to the background priority too. It saved its own when accounting started. -/
@[simp] theorem classReserveExpire_withSave :
    classReserveExpire c k (s.withSave rid v) q =
      (classReserveExpire c k s q).withSave rid v := by
  unfold classReserveExpire
  rw [cls_withSave]
  cases (s.task q).cls with
  | fair => rfl
  | fp =>
    unfold fpReserveExpire
    rw [setScheduler'_withSave]
  | edf => exact edfReserveExpire_withSave
  | deadline => rfl

/-- EDF compares absolute deadlines. -/
theorem edfJobStart_withSave :
    Edf.edfJobStart (s.withSave rid v) q = (Edf.edfJobStart s q).withSave rid v := by
  unfold Edf.edfJobStart
  dsimp only
  rw [cpuId_withSave, edfEnqueueTask_withSave, activeHighestPrioTask_withSave,
    activeNextPrioTask_withSave]
  split
  · exact ifSome_withSave fun _ _ => setRunState_withSave _
  · exact setRunState_withSave _

@[simp] theorem classJobStart_withSave :
    classJobStart (s.withSave rid v) q = (classJobStart s q).withSave rid v := by
  unfold classJobStart
  rw [cls_withSave]
  cases (s.task q).cls with
  | fair => rfl
  | fp =>
    unfold fpJobStart
    rw [prio_withSave, cpuId_withSave, fpEnqueueTask_withSave]
  | edf => exact edfJobStart_withSave
  | deadline =>
    unfold Deadline.edfJobStart
    rw [cpuId_withSave, deadlineEnqueueTask_withSave]

/-- The next task is the first one of the queues. -/
theorem edfJobComplete_withSave :
    Edf.edfJobComplete (s.withSave rid v) q = (Edf.edfJobComplete s q).withSave rid v := by
  unfold Edf.edfJobComplete
  dsimp only
  rw [cpuId_withSave, prio_withSave, edfDequeueTask_withSave, setPrio_withSave,
    activeHighestPrioTask_withSave]
  exact ifSome_withSave fun _ _ => wakeUpProcess_withSave

@[simp] theorem classJobComplete_withSave :
    classJobComplete (s.withSave rid v) q = (classJobComplete s q).withSave rid v := by
  unfold classJobComplete
  rw [cls_withSave]
  cases (s.task q).cls with
  | fair => rfl
  | fp =>
    unfold fpJobComplete
    rw [prio_withSave, cpuId_withSave, fpDequeueTask_withSave]
  | edf => exact edfJobComplete_withSave
  | deadline =>
    unfold Deadline.edfJobComplete
    rw [cpuId_withSave, deadlineDequeueTask_withSave]

@[simp] theorem jobReleaseWait_withSave (releaseTime : ℕ) :
    jobReleaseWait (s.withSave rid v) q releaseTime =
      (jobReleaseWait s q releaseTime).withSave rid v := by
  unfold jobReleaseWait
  dsimp only
  rw [setTask_withSave fun _ => rfl]
  generalize s.setTask q _ = s₁
  rw [cls_withSave, releaseTime_withSave, jiffies_withSave]
  split
  · rfl
  · rw [setRunState_withSave]
    split <;> rfl
  · rw [setRunState_withSave]
    split <;> rfl
  · exact setRunState_withSave _

/-- The release depends on times. -/
theorem jobReleaseDone_withSave :
    jobReleaseDone c (s.withSave rid v) q =
      (jobReleaseDone c s q).map fun s => s.withSave rid v := by
  unfold jobReleaseDone
  dsimp only
  rw [setRunState_withSave, resetExecTime_withSave, setTask_withSave fun _ => rfl,
    policy_withSave, runtime_withSave]
  split <;> rfl

@[simp] theorem deadlineMiss_withSave :
    deadlineMiss (s.withSave rid v) q =
      ((deadlineMiss s q).1.withSave rid v, (deadlineMiss s q).2) := by
  unfold deadlineMiss
  dsimp only
  rw [deadline_withSave, deadlineTime_withSave, setTask_withSave fun _ => rfl,
    jiffies_withSave]

@[simp] theorem apiRun_withSave (timeout : ℕ) :
    apiRun c (s.withSave rid v) q timeout = (apiRun c s q timeout).withSave rid v := by
  unfold apiRun
  dsimp only
  rw [globalListInsert_withSave, policy_withSave, globalListRemove_withSave]
  split <;> exact jobReleaseWait_withSave _

/-- A task that is awake is not woken. -/
theorem apiWakeUp_withSave :
    apiWakeUp (s.withSave rid v) q = ((apiWakeUp s q).1.withSave rid v, (apiWakeUp s q).2) := by
  unfold apiWakeUp
  rw [jiffies_withSave, releaseTime_withSave, procOf_withSave, wakeUpProcess_withSave]
  split
  · rfl
  · split <;> rfl

/-! ## Components -/

theorem apiComponentCreate_withSave :
    apiComponentCreate c (s.withSave rid v) =
      ((apiComponentCreate c s).1.withSave rid v, (apiComponentCreate c s).2) := by
  unfold apiComponentCreate
  rw [cidMap_withSave]
  dsimp only
  split <;> rfl

/-- Components know nothing of priorities. -/
theorem apiCompose_withSave (cid : ℤ) :
    apiCompose c (s.withSave rid v) q cid =
      (apiCompose c s q cid).map fun x => (x.1.withSave rid v, x.2) := by
  have hset : ∀ component : ℕ → Component,
      ({ s.withSave rid v with component := component }.setTask q fun t =>
        { t with componentEntry := true }) =
      ({ s with component := component }.setTask q fun t =>
        { t with componentEntry := true }).withSave rid v := by
    intro component
    exact setTask_withSave (s := { s with component := component }) fun _ => rfl
  unfold apiCompose
  rw [cidMap_withSave, componentEntry_withSave, component_withSave]
  dsimp only
  split
  · rfl
  split
  · rfl
  split
  · rfl
  split
  · rfl
  split
  · rfl
  · exact congrArg (fun s : State => some (s, resSuccess)) (hset _)

theorem apiDecompose_withSave :
    apiDecompose (s.withSave rid v) q =
      ((apiDecompose s q).1.withSave rid v, (apiDecompose s q).2) := by
  have hset : ∀ component : ℕ → Component,
      ({ s.withSave rid v with component := component }.setTask q fun t =>
        { t with componentEntry := false }) =
      ({ s with component := component }.setTask q fun t =>
        { t with componentEntry := false }).withSave rid v := by
    intro component
    exact setTask_withSave (s := { s with component := component }) fun _ => rfl
  unfold apiDecompose
  rw [componentEntry_withSave, component_withSave]
  dsimp only
  split
  · exact congrArg (fun s : State => (s, resSuccess)) (hset _)
  · rfl

/-! ## Accounting -/

/-- The limit is the budget less the time of the process. -/
@[simp] theorem limitRttime_withSave :
    limitRttime c (s.withSave rid v) q = (limitRttime c s q).withSave rid v := by
  unfold limitRttime
  rw [taskField_withSave, budget_withSave, execTime_withSave, setProc_withSave]

@[simp] theorem unlimitRttime_withSave :
    unlimitRttime (s.withSave rid v) q = (unlimitRttime s q).withSave rid v := by
  unfold unlimitRttime
  rw [taskField_withSave, setProc_withSave]

@[simp] theorem deadlineStartAccount_withSave :
    Deadline.edfStartAccount c (s.withSave rid v) q =
      (Deadline.edfStartAccount c s q).withSave rid v := by
  unfold Deadline.edfStartAccount
  dsimp only
  rw [hasReserve_withSave, taskField_withSave, budget_withSave, setProc_withSave]
  split
  · rw [taskField_withSave, setProc_withSave]
  · rw [taskField_withSave, setProc_withSave]

/-- Starting the accounting of an FP task saves its priority, whatever was saved before. -/
theorem fpStartAccount_withSave :
    ∃ w, fpStartAccount c (s.withSave rid v) q = (fpStartAccount c s q).withSave rid w := by
  unfold fpStartAccount
  rw [limitRttime_withSave]
  by_cases hq : q = rid
  · subst hq
    refine ⟨((limitRttime c s q).task q).prio, ?_⟩
    unfold State.withSave State.setTask
    simp only [Function.update_self, Function.update_idem]
    rfl
  · refine ⟨v, ?_⟩
    have hrid : rid ≠ q := fun h => hq h.symm
    unfold State.withSave State.setTask
    simp only [Function.update_of_ne hq, Function.update_of_ne hrid]
    rw [Function.update_comm hq]

/-- Of the classes only FP saves a priority. -/
theorem classStartAccount_withSave :
    ∃ w, classStartAccount c (s.withSave rid v) q = (classStartAccount c s q).withSave rid w := by
  unfold classStartAccount
  rw [cls_withSave]
  cases (s.task q).cls with
  | fair => exact ⟨v, rfl⟩
  | fp => exact fpStartAccount_withSave
  | edf => exact ⟨v, limitRttime_withSave⟩
  | deadline => exact ⟨v, deadlineStartAccount_withSave⟩

@[simp] theorem classStopAccount_withSave :
    classStopAccount (s.withSave rid v) q = (classStopAccount s q).withSave rid v := by
  unfold classStopAccount
  rw [cls_withSave]
  cases (s.task q).cls with
  | fair => rfl
  | fp => exact unlimitRttime_withSave
  | edf => exact unlimitRttime_withSave
  | deadline =>
    unfold Deadline.edfStopAccount
    rw [taskField_withSave]
    exact setProc_withSave _

theorem startAccount_withSave :
    ∃ w, startAccount c (s.withSave rid v) q = (startAccount c s q).withSave rid w := by
  unfold startAccount
  dsimp only
  rw [isAccounting_withSave, budgetLeft_withSave, setTask_withSave fun _ => rfl]
  split
  · exact ⟨v, rfl⟩
  · obtain ⟨w, hw⟩ := @classStartAccount_withSave c
      (s.setTask q fun t => { t with budget := budgetLeft c s q }) rid q v
    refine ⟨w, ?_⟩
    rw [hw, setTask_withSave fun _ => rfl]

/-- Stopping restores nothing. -/
@[simp] theorem stopAccount_withSave :
    stopAccount c (s.withSave rid v) q = (stopAccount c s q).withSave rid v := by
  unfold stopAccount
  dsimp only
  rw [isAccounting_withSave, budgetLeft_withSave, setTask_withSave fun _ => rfl,
    classStopAccount_withSave, setTask_withSave fun _ => rfl]
  split <;> exact setTask_withSave fun _ => rfl

/-- The value changes with the start. -/
theorem restartAccount_withSave {stop start : State → ℕ → State}
    (hstop : ∀ s v, stop (s.withSave rid v) q = (stop s q).withSave rid v)
    (hstart : ∀ s v, ∃ w, start (s.withSave rid v) q = (start s q).withSave rid w) :
    ∃ w, restartAccount stop start (s.withSave rid v) q =
      (restartAccount stop start s q).withSave rid w := by
  unfold restartAccount
  rw [isAccounting_withSave, hstop]
  split
  · exact hstart _ v
  · exact ⟨v, rfl⟩

/-! ## Reserves -/

/-- The class puts the saved priority back. -/
def State.Restores (s : State) (rt : ℕ) : Prop :=
  (s.task rt).cls = .fp ∧ (s.task rt).prio = reschPrioBackground ∧ s.isActive rt = true

/-- EDF goes back to its base priority. -/
theorem edfReserveReplenish_withSave (cputime : ℕ) :
    Edf.edfReserveReplenish (s.withSave rid v) q cputime =
      (Edf.edfReserveReplenish s q cputime).withSave rid v := by
  unfold Edf.edfReserveReplenish
  dsimp only
  rw [cpuId_withSave, setTask_withSave fun _ => rfl]
  generalize (s.setTask q fun t => { t with budget := t.budget + cputime }) = s₁
  rw [prio_withSave, isActive_withSave, edfDequeueTask_withSave, edfEnqueueTask_withSave,
    activeHighestPrioTask_withSave, procOf_withSave, activeNextPrioTask_withSave,
    ifSome_withSave fun _ _ => setRunState_withSave _, wakeUpProcess_withSave]
  split
  · split <;> rfl
  · rfl

/-- Replenishing reads `prio_save` of the task, if it puts it back. -/
theorem classReserveReplenish_withSave (cputime : ℕ) (h : q = rid → ¬ s.Restores q) :
    classReserveReplenish c k (s.withSave rid v) q cputime =
      (classReserveReplenish c k s q cputime).withSave rid v := by
  unfold classReserveReplenish
  rw [cls_withSave]
  cases hcls : (s.task q).cls with
  | fair => rfl
  | edf => exact edfReserveReplenish_withSave cputime
  | deadline => rfl
  | fp =>
    have hadd : ∀ t : Task,
        ({ t.withSave v with budget := (t.withSave v).budget + cputime } : Task) =
          ({ t with budget := t.budget + cputime } : Task).withSave v := fun _ => rfl
    dsimp only
    unfold fpReserveReplenish
    dsimp only
    rw [setTask_withSave hadd]
    have hprio : ((s.setTask q fun t => { t with budget := t.budget + cputime }).task q).prio =
        (s.task q).prio := by rw [task_setTask_self]
    have hactive : (s.setTask q fun t => { t with budget := t.budget + cputime }).isActive q =
        s.isActive q := by
      unfold State.isActive
      rw [task_setTask_self]
    generalize (s.setTask q fun t => { t with budget := t.budget + cputime }) = s₁
      at hprio hactive ⊢
    rw [prio_withSave, isActive_withSave]
    split
    · rename_i hback
      rw [hprio, hactive] at hback
      have hq : q ≠ rid := fun hq => h hq ⟨hcls, hback⟩
      unfold requestSetScheduler
      rw [prioSave_withSave_of_ne hq, setScheduler'_withSave]
    · rfl

/-- It reads what its class reads. -/
theorem reserveReplenish_withSave (h : q = rid → ¬ s.Restores q) :
    reserveReplenish c k (s.withSave rid v) q = (reserveReplenish c k s q).withSave rid v := by
  unfold reserveReplenish
  dsimp only
  rw [jiffies_withSave, releaseTime_withSave, period_withSave, replenishTimer_withSave,
    reserveTime_withSave, classReserveReplenish_withSave _ h]
  split <;> exact setTask_withSave fun _ => rfl

/-- The timer replenishes. -/
theorem onReplenish_withSave (h : q = rid → ¬ s.Restores q) :
    onReplenish c k (s.withSave rid v) q = (onReplenish c k s q).withSave rid v := by
  have hrest : ∀ q,
      (s.setTask q fun t => { t with replenishTimer := none }).Restores q ↔ s.Restores q := by
    intro q
    unfold State.Restores State.isActive
    rw [task_setTask_self]
  unfold onReplenish
  dsimp only
  rw [setTask_withSave fun _ => rfl, reserveTime_withSave]
  refine classReserveReplenish_withSave _ fun hq => ?_
  rw [hrest]
  exact h hq

/-- A reserve that ends restores nothing. -/
@[simp] theorem reserveStop_withSave :
    reserveStop c (s.withSave rid v) q = (reserveStop c s q).withSave rid v := by
  unfold reserveStop
  dsimp only
  rw [setTask_withSave fun _ => rfl, stopAccount_withSave, setTask_withSave fun _ => rfl]

/-- It starts accounting if the task is active. -/
theorem reserveStart_withSave (cputime : ℕ) (xcpu : Bool) :
    ∃ w, reserveStart c (s.withSave rid v) q cputime xcpu =
      (reserveStart c s q cputime xcpu).withSave rid w := by
  unfold reserveStart
  rw [setTask_withSave fun _ => rfl]
  exact startAccount_withSave

/-- The stop keeps class, priority and queues, on which this depends. -/
theorem restores_stopAccount : (stopAccount c s q).Restores q ↔ s.Restores q := by
  obtain ⟨⟨b, a, ht⟩, -⟩ := stopAccount_task c s q
  unfold State.Restores State.isActive
  rw [ht]

/-- `api_reserve_expire` reads `prio_save` if the next replenishment is due. -/
theorem apiReserveExpire_withSave (h : q = rid → s.hasReserve q = true →
    (s.task q).releaseTime + (s.task q).period ≤ s.jiffies → ¬ s.Restores q) :
    ∃ w, apiReserveExpire c k (s.withSave rid v) q =
      ((apiReserveExpire c k s q).1.withSave rid w, (apiReserveExpire c k s q).2) := by
  unfold apiReserveExpire
  rw [hasReserve_withSave]
  by_cases hres : s.hasReserve q = true
  swap
  · simp only [hres, Bool.not_false, if_pos]
    exact ⟨v, rfl⟩
  simp only [hres, Bool.not_true, Bool.false_eq_true, if_false]
  rw [isAccounting_withSave, stopAccount_withSave, ite_withSave]
  have hnext := stopAccount_next c s q
  have hrest :
      (if s.isAccounting q = true then stopAccount c s q else s).Restores q ↔ s.Restores q := by
    split
    · exact restores_stopAccount
    · exact Iff.rfl
  generalize (if s.isAccounting q = true then stopAccount c s q else s) = s₁ at hnext hrest ⊢
  rw [releaseTime_withSave, period_withSave, jiffies_withSave, reserveTime_withSave, hnext.1,
    hnext.2]
  by_cases hdue : (s.task q).releaseTime + (s.task q).period ≤ s.jiffies
  · rw [if_pos hdue, if_pos hdue,
      classReserveReplenish_withSave _ fun hq hr => h hq hres hdue (hrest.1 hr)]
    obtain ⟨w, hw⟩ := @startAccount_withSave c
      (classReserveReplenish c k s₁ q (s₁.task q).reserveTime) rid q v
    exact ⟨w, by rw [hw]⟩
  · rw [if_neg hdue, if_neg hdue, classReserveExpire_withSave, setTask_withSave fun _ => rfl]
    exact ⟨v, rfl⟩

/-! ## Starting and completing -/

/-- A job that starts starts accounting. -/
theorem jobStart_withSave :
    ∃ w, jobStart c (s.withSave rid v) q = (jobStart c s q).withSave rid w := by
  unfold jobStart
  dsimp only
  rw [classJobStart_withSave, hasReserve_withSave]
  split
  · exact startAccount_withSave
  · exact ⟨v, rfl⟩

/-- A release that is due starts the job. -/
theorem jobRelease_withSave : ∃ w, jobRelease c (s.withSave rid v) q =
    (jobRelease c s q).map fun s => s.withSave rid w := by
  unfold jobRelease
  rw [jobReleaseDone_withSave]
  cases jobReleaseDone c s q with
  | none => exact ⟨v, rfl⟩
  | some s₁ =>
    obtain ⟨w, hw⟩ := @jobStart_withSave c s₁ rid q v
    exact ⟨w, congrArg some hw⟩

/-- A job that has been completed is in no queue, so its saved priority does not come back. -/
theorem restores_classJobComplete : ¬ (classJobComplete s q).Restores q := by
  rintro ⟨hcls, -, hactive⟩
  by_cases hc : (s.task q).cls = .fair
  · unfold classJobComplete fairJobComplete at hcls
    rw [hc] at hcls
    dsimp only at hcls
    rw [hc] at hcls
    cases hcls
  · rw [classJobComplete_inactive hc] at hactive
    cases hactive

/-- **Completing a job** replenishes a task that is not active any more, and so does not read it. -/
@[simp] theorem jobComplete_withSave :
    jobComplete c k (s.withSave rid v) q = (jobComplete c k s q).withSave rid v := by
  unfold jobComplete
  dsimp only
  rw [execTime_withSave, wcetFixed_withSave, wcet_withSave, setTask_withSave fun _ => rfl]
  rw [ite_withSave]
  generalize (if (s.task q).wcetFixed = false ∧
    (s.task q).wcet < c.jiffiesToUsecs (execTime c s q) then _ else s) = s₁
  rw [classJobComplete_withSave, hasReserve_withSave, stopAccount_withSave,
    reserveReplenish_withSave fun _ hr => restores_classJobComplete (restores_stopAccount.1 hr),
    ite_withSave]

/-- Suspending a job reads `prio_save` of the task. -/
theorem jobSuspend_withSave (h : q ≠ rid) :
    jobSuspend c k (s.withSave rid v) q = (jobSuspend c k s q).withSave rid v := by
  unfold jobSuspend
  dsimp only
  rw [cpuId_withSave, prio_withSave, prioSave_withSave_of_ne h, policy_withSave,
    setScheduler_withSave]
  rw [ite_withSave, prio_withSave, classDequeueTask_withSave]

/-! ## Migration -/

/-- Accounting is started again on the new CPU. -/
theorem fpMigrateTask_withSave :
    ∃ w, fpMigrateTask c (s.withSave rid v) q cpu = (fpMigrateTask c s q cpu).withSave rid w := by
  unfold fpMigrateTask
  dsimp only
  rw [cpuId_withSave, isActive_withSave, prio_withSave, fpDequeueTask_withSave, setCpu_withSave,
    setCpu_withSave, prio_withSave, fpEnqueueTask_withSave]
  rw [ite_withSave, ite_withSave, migrateTask'_withSave]
  refine restartAccount_withSave (fun s v => ?_) fun s v => fpStartAccount_withSave
  exact unlimitRttime_withSave

theorem edfMigrateTask_withSave :
    ∃ w, Edf.edfMigrateTask c (s.withSave rid v) q cpu =
      (Edf.edfMigrateTask c s q cpu).withSave rid w := by
  unfold Edf.edfMigrateTask
  dsimp only
  rw [cpuId_withSave, isActive_withSave, activeHighestPrioTask_withSave,
    activeNextPrioTask_withSave, prio_withSave, edfDequeueTask_withSave, activePrioTask_withSave,
    setCpu_withSave, setCpu_withSave, prio_withSave, edfEnqueueTask_withSave,
    ifSome_withSave fun _ _ => wakeUpProcess_withSave, migrateTask'_withSave, migrateTask'_withSave, migrateTask'_withSave]
  split
  swap
  · exact ⟨v, rfl⟩
  split
  swap
  · exact ⟨v, rfl⟩
  generalize Resch.migrateTask' (ifSome _ _ wakeUpProcess) q cpu = s₁
  obtain ⟨w, hw⟩ := @restartAccount_withSave s₁ rid q v Edf.edfStopAccount (Edf.edfStartAccount c)
    (fun s v => unlimitRttime_withSave) fun s v => ⟨v, limitRttime_withSave⟩
  refine ⟨w, ?_⟩
  rw [hw]
  refine ifSome_withSave fun s p => ?_
  rw [deadlineTime_withSave, deadlineTime_withSave, setRunState_withSave, setRunState_withSave]
  split <;> rfl

theorem deadlineMigrateTask_withSave :
    ∃ w, Deadline.edfMigrateTask c (s.withSave rid v) q cpu =
      (Deadline.edfMigrateTask c s q cpu).withSave rid w := by
  unfold Deadline.edfMigrateTask
  dsimp only
  rw [cpuId_withSave, isActive_withSave, deadlineDequeueTask_withSave, setCpu_withSave,
    setCpu_withSave, deadlineEnqueueTask_withSave, migrateTask'_withSave, migrateTask'_withSave,
    migrateTask'_withSave]
  split
  · split
    · refine restartAccount_withSave (fun s v => ?_) fun s v => ⟨v, deadlineStartAccount_withSave⟩
      unfold Deadline.edfStopAccount
      rw [taskField_withSave, setProc_withSave]
    · exact ⟨v, rfl⟩
  · exact ⟨v, rfl⟩

/-- Whatever the class -/
theorem migrateTask_withSave :
    ∃ w, migrateTask c (s.withSave rid v) q cpu = (migrateTask c s q cpu).withSave rid w := by
  unfold migrateTask
  rw [cls_withSave]
  cases (s.task q).cls with
  | fair => exact ⟨v, rfl⟩
  | fp => exact fpMigrateTask_withSave
  | edf => exact edfMigrateTask_withSave
  | deadline => exact deadlineMigrateTask_withSave

/-! ## Attaching and leaving -/

/-- **Attaching** leaves `prio_save` as it is. -/
@[simp] theorem reschTaskInit_withSave (current : ℕ) :
    reschTaskInit c k (s.withSave rid v) q current =
      (reschTaskInit c k s q current).withSave rid v := by
  unfold reschTaskInit
  dsimp only
  rw [setTask_withSave fun _ => rfl, setProc_withSave, migrateTask'_withSave, jiffies_withSave]
  split <;> exact setTask_withSave fun _ => rfl

/-- The fair policy is set with priority 0. -/
theorem apiExitDetach_withSave :
    apiExitDetach c k (s.withSave rid v) q = (apiExitDetach c k s q).withSave rid v := by
  unfold apiExitDetach
  dsimp only
  rw [isActive_withSave, jobComplete_withSave, ite_withSave]
  generalize (if s.isActive q = true then jobComplete c k s q else s) = s₁
  rw [hasReserve_withSave, reserveStop_withSave, ite_withSave]
  generalize (if s₁.hasReserve q = true then reserveStop c s₁ q else s₁) = s₂
  rw [isManaged_withSave, globalListRemove_withSave, ite_withSave]

/-- Leaving completes the job and stops the reserve first. -/
theorem apiExit_withSave :
    apiExit c k (s.withSave rid v) q =
      ((apiExit c k s q).1.withSave rid v, (apiExit c k s q).2) := by
  unfold apiExit apiExitPolicy
  rw [apiExitDetach_withSave]
  generalize apiExitDetach c k s q = s₁
  have hclear : apiExitClear (s₁.withSave rid v) q = (apiExitClear s₁ q).withSave rid v := rfl
  rw [hclear, policy_withSave, setScheduler_withSave]
  dsimp only
  rw [ite_withSave]

/-! ## Servers -/

/-- A server takes its time from the budget. -/
theorem apiServerRun_withSave (mem : Option ℕ) :
    apiServerRun c (s.withSave rid v) q mem =
      ((apiServerRun c s q mem).1.withSave rid v, (apiServerRun c s q mem).2) := by
  unfold apiServerRun
  cases mem with
  | none => rfl
  | some content =>
    dsimp only
    rw [jiffies_withSave, execTime_withSave, setTask_withSave fun _ => rfl, resetExecTime_withSave]

/-- Its capacity goes back to the budget. -/
theorem serverHandler_withSave :
    serverHandler (s.withSave rid v) q = (serverHandler s q).withSave rid v :=
  setTask_withSave fun _ => rfl

end Resch
