import Resch.Proof.Updates

/-!
# Every hook is a sequence of updates

One lemma for each function of the scheduling classes and for the functions of the core
that call them. Starting or resuming a job needs an inactive task, since the enqueue is
not guarded; all other functions are sequences of updates in every state.
-/

namespace Resch

open Lib

variable {c : Config} {k : Kernel} {s s' : State} {rt q cpu p : ℕ} {prio : ℤ}

/-! ## Setting the scheduler -/

theorem Updates.setSchedulerAs (h : Updates rt s s') (policy : LinuxPolicy) :
    Updates rt s (setSchedulerAs k policy s' rt prio).1 := by
  unfold Resch.setSchedulerAs schedSetscheduler
  by_cases hk : k.setscheduler policy prio = true
  · simp only [hk, if_true]
    exact h.setProc.setPrio
  · simp only [hk, Bool.false_eq_true, if_false]
    exact h

theorem Updates.deadlineSetScheduler (h : Updates rt s s') :
    Updates rt s (Deadline.edfSetScheduler c k s' rt prio).1 := by
  unfold Deadline.edfSetScheduler
  simp only
  split
  · exact h.rcuReadLock
  · have h₁ : Updates rt s ((s'.rcuReadLock.setProc (s'.task rt).task fun q =>
        { q with policy := .deadline }).rcuReadUnlock.setPrio rt prio) :=
      h.rcuReadLock.setProc.rcuReadUnlock.setPrio
    split <;> dsimp only
    · exact h₁.setProc
    · exact h₁.setProc

theorem Updates.classSetScheduler (h : Updates rt s s') :
    Updates rt s (classSetScheduler c k s' rt prio).1 := by
  unfold Resch.classSetScheduler
  split
  · exact h.setSchedulerAs _
  · exact h.setSchedulerAs _
  · exact h.setSchedulerAs _
  · exact h.deadlineSetScheduler

theorem Updates.classEnqueue (h : Updates rt s s') (hi : s'.isActive rt = false) :
    Updates rt s (classEnqueueTask s' rt prio cpu) := by
  unfold classEnqueueTask
  split
  · exact h
  · exact h.link hi (addsOnce_append rt)
  · exact (h.link hi (addsOnce_insertBefore _ rt)).setPrio
  · exact h.link hi (addsOnce_insertBefore _ rt)

theorem Updates.classDequeue (h : Updates rt s s') :
    Updates rt s (classDequeueTask s' rt prio cpu) := by
  unfold classDequeueTask
  split
  · exact h
  · exact h.unlink
  · exact h.unlink
  · exact h.unlink

/-- After a dequeue the task is inactive, or its class has no queues. -/
theorem isActive_classDequeue (h : (s.task rt).cls ≠ .fair) :
    (classDequeueTask s rt prio cpu).isActive rt = false := by
  unfold classDequeueTask
  split
  · exact absurd ‹_› h
  all_goals simp [fpDequeueTask, Edf.edfDequeueTask, Deadline.edfDequeueTask, dequeueTaskAt,
    isActive_unlink]

theorem isActive_dequeueTaskAt (s : State) (rt : ℕ) (prio : ℤ) (cpu : ℕ) :
    (dequeueTaskAt s rt prio cpu).isActive rt = false := by
  simp [dequeueTaskAt, isActive_unlink]

/-- With a class that uses the queues, `dequeue_task` is the one of `sched_fp.c`. -/
theorem classDequeueTask_eq (h : (s.task rt).cls ≠ .fair) :
    classDequeueTask s rt prio cpu = dequeueTaskAt s rt prio cpu := by
  unfold classDequeueTask
  split <;> first | rfl | exact absurd ‹_› h

theorem Updates.requeue (h : Updates rt s s') : Updates rt s (requeueTask s' rt prio) := by
  unfold requeueTask
  by_cases hc : (s'.task rt).cls = .fair
  · have : classDequeueTask s' rt prio (s'.task rt).cpuId = s' := by
      unfold classDequeueTask; rw [hc]; rfl
    simp only [this, classEnqueueTask, hc]
    exact h
  · exact h.classDequeue.classEnqueue (isActive_classDequeue hc)

theorem Updates.globalListReinsert (h : Updates rt s s') :
    Updates rt s (globalListReinsert s' rt) := (h.tail (.remove s')).tail (.insert _)

theorem Updates.moveTask (h : Updates rt s s') : Updates rt s (moveTask s' rt prio) := by
  unfold Resch.moveTask
  have h₁ := Updates.ite (P := s'.isManaged rt = true) (fun _ => h.globalListReinsert) (fun _ => h)
  exact Updates.ite (fun _ => h₁.requeue) (fun _ => h₁)

theorem Updates.setScheduler' (h : Updates rt s s') :
    Updates rt s (setScheduler' c k s' rt prio).1 := by
  unfold Resch.setScheduler'
  simp only
  have h₁ : Updates rt s (Resch.classSetScheduler c k s' rt prio).1 := h.classSetScheduler
  split
  · exact h₁
  · split
    · exact h₁
    · exact h₁.moveTask

/-- What a dequeue does to the descriptor. -/
theorem task_classDequeue : (classDequeueTask s rt prio cpu).task rt =
    if (s.task rt).cls = .fair then s.task rt else { s.task rt with activeEntry := false } := by
  unfold classDequeueTask
  split <;> rename_i hc
  · rw [if_pos hc]; rfl
  all_goals
    rw [if_neg (by rw [hc]; decide)]
    exact task_unlink_self

/-- What an enqueue does to the descriptor; only the class of `sched_edf.c` writes the priority. -/
theorem task_classEnqueue : (classEnqueueTask s rt prio cpu).task rt =
    match (s.task rt).cls with
    | .fair => s.task rt
    | .edf => { s.task rt with activeEntry := true, prio := prio }
    | .fp | .deadline => { s.task rt with activeEntry := true } := by
  unfold classEnqueueTask
  cases hc : (s.task rt).cls
  · rfl
  · simp [fpEnqueueTask, enqueueTaskAt]
  · simp [Edf.edfEnqueueTask, enqueueTaskAt]
  · simp [Deadline.edfEnqueueTask, enqueueTaskAt]

/-- CPU, activity and management are as before. -/
structure SameLinks (rt : ℕ) (s s' : State) : Prop where
  cpu : (s'.task rt).cpuId = (s.task rt).cpuId
  active : s'.isActive rt = s.isActive rt
  managed : s'.isManaged rt = s.isManaged rt

theorem SameLinks.refl (rt : ℕ) (s : State) : SameLinks rt s s := ⟨rfl, rfl, rfl⟩

theorem SameLinks.trans {s₁ s₂ s₃ : State} (h : SameLinks rt s₁ s₂) (h' : SameLinks rt s₂ s₃) :
    SameLinks rt s₁ s₃ :=
  ⟨h'.cpu.trans h.cpu, h'.active.trans h.active, h'.managed.trans h.managed⟩

theorem isManaged_globalListInsert : (globalListInsert s rt).isManaged rt = true := by
  unfold globalListInsert
  split
  · assumption
  · simp [State.isManaged]

theorem isManaged_globalListRemove : (globalListRemove s rt).isManaged rt = false := by
  unfold globalListRemove
  split
  · simp [State.isManaged]
  · simp_all

theorem globalListReinsert_sameLinks (h : s.isManaged rt = true) :
    SameLinks rt s (globalListReinsert s rt) := by
  have hm : (globalListReinsert s rt).isManaged rt = true := isManaged_globalListInsert
  have ho : GlobalOnly s (globalListReinsert s rt) := globalListReinsert_only
  obtain ⟨b, hb⟩ := ho.task rt
  exact ⟨by rw [hb], ho.isActive rt, hm.trans h.symm⟩

theorem classSetScheduler_sameLinks : SameLinks rt s (classSetScheduler c k s rt prio).1 := by
  have hfifo : ∀ policy, SameLinks rt s (setSchedulerAs k policy s rt prio).1 := by
    intro policy
    unfold setSchedulerAs schedSetscheduler
    by_cases hk : k.setscheduler policy prio = true
    · simp only [hk, if_true]
      exact ⟨cpuId_setPrio, isActive_setPrio, isManaged_setPrio⟩
    · simp only [hk, Bool.false_eq_true, if_false]
      exact .refl rt s
  unfold classSetScheduler
  split
  · exact hfifo _
  · exact hfifo _
  · exact hfifo _
  · unfold Deadline.edfSetScheduler
    simp only
    split
    · exact ⟨rfl, rfl, rfl⟩
    · split <;> exact ⟨cpuId_setPrio, isActive_setPrio, isManaged_setPrio⟩

/-- Requeueing leaves an active task active. -/
theorem requeueTask_sameLinks (h : s.isActive rt = true) :
    SameLinks rt s (requeueTask s rt prio) := by
  have h' : (s.task rt).activeEntry = true := h
  unfold requeueTask
  refine ⟨?_, ?_, ?_⟩
  · simp only [task_classEnqueue, task_classDequeue]
    cases hc : (s.task rt).cls <;> simp [hc]
  · simp only [State.isActive, task_classEnqueue, task_classDequeue]
    cases hc : (s.task rt).cls <;> simp [hc, h']
  · simp only [State.isManaged, task_classEnqueue, task_classDequeue]
    cases hc : (s.task rt).cls <;> simp [hc]

theorem moveTask_sameLinks : SameLinks rt s (moveTask s rt prio) := by
  unfold moveTask
  have h₁ : SameLinks rt s (if s.isManaged rt = true then globalListReinsert s rt else s) := by
    split
    · exact globalListReinsert_sameLinks ‹_›
    · exact .refl rt s
  generalize (if s.isManaged rt = true then globalListReinsert s rt else s) = s₁ at h₁ ⊢
  simp only
  split
  · exact h₁.trans (requeueTask_sameLinks ‹_›)
  · exact h₁

theorem setScheduler'_sameLinks : SameLinks rt s (setScheduler' c k s rt prio).1 := by
  unfold setScheduler'
  have h₁ : SameLinks rt s (classSetScheduler c k s rt prio).1 := classSetScheduler_sameLinks
  simp only
  split
  · exact h₁
  · split
    · exact h₁
    · exact h₁.trans moveTask_sameLinks

theorem setPolicy_sameLinks {policy : ℤ} : SameLinks rt s (setPolicy c s rt policy) := by
  unfold setPolicy
  split
  · exact ⟨by simp, by simp [State.isActive], by simp [State.isManaged]⟩
  · exact .refl rt s

/-! ## Accounting -/

theorem Updates.limitRttime (h : Updates rt s s') : Updates rt s (limitRttime c s' rt) := h.setProc

theorem Updates.unlimitRttime (h : Updates rt s s') : Updates rt s (unlimitRttime s' rt) := h.setProc

theorem Updates.deadlineStartAccount (h : Updates rt s s') :
    Updates rt s (Deadline.edfStartAccount c s' rt) := by
  unfold Deadline.edfStartAccount
  exact Updates.setProc (Updates.ite (fun _ => h) (fun _ => h.setProc))

theorem Updates.classStartAccount (h : Updates rt s s') :
    Updates rt s (classStartAccount c s' rt) := by
  unfold Resch.classStartAccount
  split
  · exact h
  · exact h.limitRttime.setTask ⟨rfl, rfl, rfl, rfl, rfl, rfl⟩
  · exact h.limitRttime
  · exact h.deadlineStartAccount

theorem Updates.classStopAccount (h : Updates rt s s') :
    Updates rt s (classStopAccount s' rt) := by
  unfold Resch.classStopAccount
  split
  · exact h
  · exact h.unlimitRttime
  · exact h.unlimitRttime
  · exact h.setProc

theorem Updates.startAccount (h : Updates rt s s') : Updates rt s (startAccount c s' rt) := by
  unfold Resch.startAccount
  split
  · exact h
  · refine Updates.setTask (Updates.classStartAccount ?_) ⟨rfl, rfl, rfl, rfl, rfl, rfl⟩
    exact h.setTask ⟨rfl, rfl, rfl, rfl, rfl, rfl⟩

theorem Updates.stopAccount (h : Updates rt s s') : Updates rt s (stopAccount c s' rt) := by
  unfold Resch.stopAccount
  refine Updates.setTask ?_ ⟨rfl, rfl, rfl, rfl, rfl, rfl⟩
  split
  · refine Updates.setTask (Updates.classStopAccount ?_) ⟨rfl, rfl, rfl, rfl, rfl, rfl⟩
    exact h.setTask ⟨rfl, rfl, rfl, rfl, rfl, rfl⟩
  · exact h

theorem Updates.reserveStart (h : Updates rt s s') (cputime : ℕ) (xcpu : Bool) :
    Updates rt s (reserveStart c s' rt cputime xcpu) :=
  Updates.startAccount (h.setTask ⟨rfl, rfl, rfl, rfl, rfl, rfl⟩)

theorem Updates.reserveStop (h : Updates rt s s') : Updates rt s (reserveStop c s' rt) := by
  unfold Resch.reserveStop
  refine Updates.setTask (Updates.stopAccount ?_) ⟨rfl, rfl, rfl, rfl, rfl, rfl⟩
  exact h.setTask ⟨rfl, rfl, rfl, rfl, rfl, rfl⟩

/-- Stopping the accounting writes three fields of the descriptor, and no clock. -/
theorem stopAccount_task (c : Config) (s : State) (rt : ℕ) :
    (∃ b a, (stopAccount c s rt).task rt =
      { s.task rt with budget := b, accounting := a, server := none }) ∧
      (stopAccount c s rt).jiffies = s.jiffies := by
  have hclass : ∀ s₁ : State, (classStopAccount s₁ rt).task = s₁.task ∧
      (classStopAccount s₁ rt).jiffies = s₁.jiffies := by
    intro s₁
    unfold classStopAccount
    split <;> exact ⟨rfl, rfl⟩
  unfold stopAccount
  dsimp only
  split
  · refine ⟨⟨budgetLeft c s rt, false, ?_⟩, (hclass _).2⟩
    rw [task_setTask_self, task_setTask_self, (hclass _).1, task_setTask_self]
  · exact ⟨⟨(s.task rt).budget, (s.task rt).accounting, task_setTask_self _⟩, rfl⟩

theorem stopAccount_next (c : Config) (s : State) (rt : ℕ) :
    let s₁ := if s.isAccounting rt = true then stopAccount c s rt else s
    (s₁.task rt).releaseTime + (s₁.task rt).period = (s.task rt).releaseTime + (s.task rt).period ∧
      s₁.jiffies = s.jiffies := by
  dsimp only
  split
  · obtain ⟨⟨b, a, ht⟩, hj⟩ := stopAccount_task c s rt
    exact ⟨by rw [ht], hj⟩
  · exact ⟨rfl, rfl⟩

/-! ## Reserves -/

theorem Updates.edfReserveExpire (h : Updates rt s s') :
    Updates rt s (Edf.edfReserveExpire s' rt) := by
  unfold Edf.edfReserveExpire
  simp only
  have h₁ : Updates rt s (Edf.edfEnqueueTask (Edf.edfDequeueTask s' rt (s'.task rt).prio
      (s'.task rt).cpuId) rt reschPrioBackground (s'.task rt).cpuId) :=
    ((h.unlink).link (by simp [isActive_unlink])
      (addsOnce_insertBefore _ rt)).setPrio
  exact Updates.ite (fun _ => h) fun _ => Updates.ifSome h₁ fun _ =>
    Updates.ite (fun _ => h₁) (fun _ => h₁.setProc.setProc)

theorem Updates.classReserveExpire (h : Updates rt s s') :
    Updates rt s (classReserveExpire c k s' rt) := by
  unfold Resch.classReserveExpire
  split
  · exact h
  · exact h.setScheduler'
  · exact h.edfReserveExpire
  · exact h

theorem Updates.edfReserveReplenish (h : Updates rt s s') (cputime : ℕ) :
    Updates rt s (Edf.edfReserveReplenish s' rt cputime) := by
  unfold Edf.edfReserveReplenish
  simp only
  have h₁ : Updates rt s (s'.setTask rt fun t => { t with budget := t.budget + cputime }) :=
    h.setTask ⟨rfl, rfl, rfl, rfl, rfl, rfl⟩
  generalize s'.setTask rt (fun t => { t with budget := t.budget + cputime }) = s₁ at h₁ ⊢
  have h₂ : Updates rt s (Edf.edfEnqueueTask (Edf.edfDequeueTask s₁ rt reschPrioBackground
      (s'.task rt).cpuId) rt reschPrioEdf (s'.task rt).cpuId) :=
    ((h₁.unlink).link (by simp [isActive_unlink])
      (addsOnce_insertBefore _ rt)).setPrio
  exact Updates.ite (fun _ => Updates.ite
    (fun _ => Updates.setProc (Updates.ifSome h₂ fun _ => h₂.setProc)) (fun _ => h₂)) (fun _ => h₁)

theorem Updates.classReserveReplenish (h : Updates rt s s') (cputime : ℕ) :
    Updates rt s (classReserveReplenish c k s' rt cputime) := by
  unfold Resch.classReserveReplenish
  split
  · exact h
  · unfold fpReserveReplenish
    have h₁ : Updates rt s (s'.setTask rt fun t => { t with budget := t.budget + cputime }) :=
      h.setTask ⟨rfl, rfl, rfl, rfl, rfl, rfl⟩
    simp only
    split
    · exact h₁.setScheduler'
    · exact h₁
  · exact h.edfReserveReplenish cputime
  · exact h

/-- Replenishing the reserve of an inactive task does not queue it. -/
theorem classReserveReplenish_inactive (hi : s.isActive rt = false) (cputime : ℕ) :
    (classReserveReplenish c k s rt cputime).isActive rt = false := by
  have hb : (s.setTask rt fun t => { t with budget := t.budget + cputime }).isActive rt = false := by
    simpa [State.isActive] using hi
  unfold classReserveReplenish
  split
  · exact hi
  · simp [fpReserveReplenish, hb]
  · simp [Edf.edfReserveReplenish, hb]
  · exact hi

theorem Updates.onReplenish (h : Updates rt s s') : Updates rt s (onReplenish c k s' rt) :=
  Updates.classReserveReplenish (h.setTask ⟨rfl, rfl, rfl, rfl, rfl, rfl⟩) _

theorem Updates.reserveReplenish (h : Updates rt s s') :
    Updates rt s (reserveReplenish c k s' rt) := by
  unfold Resch.reserveReplenish
  refine Updates.setTask ?_ ⟨rfl, rfl, rfl, rfl, rfl, rfl⟩
  split
  · exact h.classReserveReplenish _
  · exact h

/-! ## Jobs -/

theorem Updates.edfJobStart (h : Updates rt s s') (hi : s'.isActive rt = false) :
    Updates rt s (Edf.edfJobStart s' rt) := by
  unfold Edf.edfJobStart
  simp only
  have h₁ : Updates rt s (Edf.edfEnqueueTask s' rt reschPrioEdf (s'.task rt).cpuId) :=
    (h.link hi (addsOnce_insertBefore _ rt)).setPrio
  exact Updates.ite (fun _ => Updates.ifSome h₁ fun _ => h₁.setProc) (fun _ => h₁.setProc)

/-- Starting a job of a task that is not active, or not queued by its class. -/
theorem Updates.jobStart (h : Updates rt s s')
    (hi : (s'.task rt).cls ≠ .fair → s'.isActive rt = false) :
    Updates rt s (jobStart c s' rt) := by
  unfold Resch.jobStart
  have h₁ : Updates rt s (classJobStart s' rt) := by
    unfold classJobStart
    split <;> rename_i hc <;> rw [hc] at hi
    · exact h
    · exact h.link (hi (by decide)) (addsOnce_append rt)
    · exact h.edfJobStart (hi (by decide))
    · exact h.link (hi (by decide)) (addsOnce_insertBefore _ rt)
  simp only
  split
  · exact h₁.startAccount
  · exact h₁

theorem Updates.classJobComplete (h : Updates rt s s') :
    Updates rt s (classJobComplete s' rt) := by
  unfold Resch.classJobComplete
  split
  · exact h
  · exact h.unlink
  · unfold Edf.edfJobComplete
    exact Updates.ifSome h.unlink.setPrio fun _ => Updates.setProc h.unlink.setPrio
  · exact h.unlink

theorem Updates.jobComplete (h : Updates rt s s') : Updates rt s (jobComplete c k s' rt) := by
  unfold Resch.jobComplete
  have h₁ := Updates.ite (P := (s'.task rt).wcetFixed = false ∧ (s'.task rt).wcet <
      c.jiffiesToUsecs (execTime c s' rt)) (fun _ => h.setTask (f := fun t =>
        { t with wcet := c.jiffiesToUsecs (execTime c s' rt) }) ⟨rfl, rfl, rfl, rfl, rfl, rfl⟩)
    (fun _ => h)
  exact Updates.ite (fun _ => h₁.classJobComplete.stopAccount.reserveReplenish)
    (fun _ => h₁.classJobComplete)

/-! ## Migration -/

theorem Updates.migrateTask' (h : Updates rt s s') (cpu : ℕ) :
    Updates rt s (migrateTask' s' rt cpu) := by
  unfold Resch.migrateTask'
  refine Updates.setProc (h.setTask ?_)
  exact ⟨rfl, rfl, rfl, rfl, rfl, rfl⟩

/-- Taking an active task from one active queue to another. -/
theorem Updates.transfer (h : Updates rt s s') {cpuSrc cpuDst : ℕ} {i j : ℤ}
    {ins : List ℕ → List ℕ} (hins : AddsOnce ins rt) :
    Updates rt s (((s'.unlink rt cpuSrc i).setCpu rt cpuDst).link rt cpuDst j ins) := by
  refine Updates.link h.unlink.setCpu ?_ hins
  simp [State.isActive, State.setCpu]

theorem Updates.restartAccount (h : Updates rt s s') {stop start : State → ℕ → State}
    (hstop : ∀ s', Updates rt s s' → Updates rt s (stop s' rt))
    (hstart : ∀ s', Updates rt s s' → Updates rt s (start s' rt)) :
    Updates rt s (restartAccount stop start s' rt) := by
  unfold Resch.restartAccount
  split
  · exact hstart _ (hstop _ h)
  · exact h

theorem Updates.fpMigrateTask (h : Updates rt s s') (cpuDst : ℕ) :
    Updates rt s (fpMigrateTask c s' rt cpuDst) := by
  unfold Resch.fpMigrateTask
  refine Updates.restartAccount (Updates.migrateTask' ?_ _) (fun _ h => h.unlimitRttime)
    (fun _ h => h.limitRttime.setTask ⟨rfl, rfl, rfl, rfl, rfl, rfl⟩)
  split
  · split
    · exact h.transfer (addsOnce_append rt)
    · exact h.setCpu
  · exact h

theorem Updates.edfMigrateTask (h : Updates rt s s') (cpuDst : ℕ) :
    Updates rt s (Edf.edfMigrateTask c s' rt cpuDst) := by
  unfold Edf.edfMigrateTask
  simp only
  split
  swap
  · exact h.migrateTask' _
  split
  swap
  · exact h.setCpu.migrateTask' _
  have h₁ : Updates rt s (Edf.edfEnqueueTask ((Edf.edfDequeueTask s' rt (s'.task rt).prio
      (s'.task rt).cpuId).setCpu rt cpuDst) rt
      ((((Edf.edfDequeueTask s' rt (s'.task rt).prio (s'.task rt).cpuId).setCpu rt
        cpuDst).task rt).prio) cpuDst) :=
    (h.transfer (addsOnce_insertBefore _ rt)).setPrio
  have h₂ := fun o : Option ℕ => ((Updates.ifSome (o := o) (f := wakeUpProcess) h₁
    fun _ => h₁.setProc).migrateTask' cpuDst).restartAccount
      (fun _ h => h.unlimitRttime) (fun _ h => h.limitRttime (c := c))
  exact Updates.ifSome (h₂ _) fun _ =>
    Updates.ite (fun _ => (h₂ _).setProc) (fun _ => (h₂ _).setProc)

theorem Updates.deadlineMigrateTask (h : Updates rt s s') (cpuDst : ℕ) :
    Updates rt s (Deadline.edfMigrateTask c s' rt cpuDst) := by
  unfold Deadline.edfMigrateTask
  simp only
  split
  swap
  · exact h.migrateTask' _
  split
  swap
  · exact h.setCpu.migrateTask' _
  exact ((h.transfer (addsOnce_insertBefore _ rt)).migrateTask' cpuDst).restartAccount
    (fun _ h => h.setProc) (fun _ h => h.deadlineStartAccount)

theorem Updates.migrateTask (h : Updates rt s s') (cpuDst : ℕ) :
    Updates rt s (migrateTask c s' rt cpuDst) := by
  unfold Resch.migrateTask
  split
  · exact h
  · exact h.fpMigrateTask cpuDst
  · exact h.edfMigrateTask cpuDst
  · exact h.deadlineMigrateTask cpuDst

/-! ## Sleeping -/

theorem setPolicy_same (s : State) (rt : ℕ) : setPolicy c s rt (s.task rt).policy = s := by
  simp [setPolicy]

/-- With or without `CAP_SYS_NICE`, the state is the one that `__set_scheduler` leaves. -/
theorem setScheduler_fst (c : Config) (k : Kernel) (s : State) (rt : ℕ) (policy prio : ℤ) :
    (setScheduler c k s rt policy prio).1 =
      (setScheduler' c k (setPolicy c s rt policy) rt prio).1 := by
  unfold setScheduler requestSetScheduler
  split <;> rfl

theorem apiSetScheduler_of_ne {policy : ℤ} (h : policy ≠ (s.task rt).policy) :
    (apiSetScheduler c k s rt policy).1 = (setScheduler c k s rt policy (s.task rt).prio).1 := by
  unfold apiSetScheduler
  rw [if_pos h]
  split
  split <;> simp_all

/-- Changing the priority only. -/
theorem Updates.setScheduler (h : Updates rt s s') :
    Updates rt s (setScheduler c k s' rt (s'.task rt).policy prio).1 := by
  unfold Resch.setScheduler
  rw [setPolicy_same]
  split
  · exact h.setScheduler'
  · exact h.setScheduler'

theorem setScheduler_sameLinks {policy : ℤ} :
    SameLinks rt s (setScheduler c k s rt policy prio).1 := by
  rw [setScheduler_fst]
  exact setPolicy_sameLinks.trans setScheduler'_sameLinks

/-- `setPolicy` assigns two fields of one descriptor. -/
structure PolicyOnly (rt : ℕ) (s s' : State) : Prop where
  task_of_ne : ∀ q, q ≠ rt → s'.task q = s.task q
  lo : s'.lo = s.lo
  taskList : s'.taskList = s.taskList
  component : s'.component = s.component
  point : s'.point = s.point
  pidMap : s'.pidMap = s.pidMap

theorem setPolicy_rest (c : Config) (s : State) (rt : ℕ) (policy : ℤ) :
    PolicyOnly rt s (setPolicy c s rt policy) := by
  unfold setPolicy
  split
  · exact ⟨fun _ hq => task_setTask_of_ne _ hq, rfl, rfl, rfl, rfl, rfl⟩
  · exact ⟨fun _ _ => rfl, rfl, rfl, rfl, rfl, rfl⟩

/-- After the policy is assigned, `set_scheduler` is a sequence of updates. -/
theorem setScheduler_updates (c : Config) (k : Kernel) (s : State) (rt : ℕ) (policy prio : ℤ) :
    Updates rt (setPolicy c s rt policy) (setScheduler c k s rt policy prio).1 := by
  rw [setScheduler_fst]
  exact (Updates.refl _).setScheduler'

theorem setScheduler_task_of_ne {policy : ℤ} (hq : q ≠ rt) :
    (setScheduler c k s rt policy prio).1.task q = s.task q := by
  rw [(setScheduler_updates c k s rt policy prio).task_of_ne hq]
  exact (setPolicy_rest c s rt policy).task_of_ne q hq

/-- The parts of the state that `set_scheduler` does not write. -/
theorem setScheduler_rest (c : Config) (k : Kernel) (s : State) (rt : ℕ) (policy prio : ℤ) :
    (setScheduler c k s rt policy prio).1.point = s.point ∧
      (setScheduler c k s rt policy prio).1.pidMap = s.pidMap ∧
      (setScheduler c k s rt policy prio).1.component = s.component := by
  have hr := setPolicy_rest c s rt policy
  obtain ⟨h₁, h₂, h₃⟩ := (setScheduler_updates c k s rt policy prio).rest
  exact ⟨h₁.trans hr.point, h₂.trans hr.pidMap, h₃.trans hr.component⟩

theorem Updates.jobSuspend (h : Updates rt s s') : Updates rt s (jobSuspend c k s' rt) := by
  unfold Resch.jobSuspend
  exact Updates.classDequeue (Updates.ite (fun _ => h.setScheduler) (fun _ => h))

theorem Updates.jobResume (h : Updates rt s s') (hi : s'.isActive rt = false) :
    Updates rt s (jobResume s' rt) := h.classEnqueue hi

end Resch
