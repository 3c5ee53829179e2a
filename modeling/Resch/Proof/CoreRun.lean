import Resch.Lib.Runs
import Resch.Proof.ActiveQueue

/-!
# The active queues along runs of FP and EDF tasks

`CoreInv` is what the queue operations rely on beside the agreement of queues and
descriptors: priorities of attached tasks are levels of the queues, and a task that is
not in its own code (not attached, or asleep between `job_suspend` and `job_resume`) is
not active.

* `CoreOp.good`: an enabled step, if it does not suspend an inactive task, keeps the
  agreement and the invariant.
* `Queued.not_suspend`: suspending an inactive task breaks the count of its CPU.
* `coreStep_queued_iff`: the two together, along whole runs.
-/

namespace Resch

open Lib

variable {c : Config} {k : Kernel} {s s' : State} {rt q : ℕ}

/-- What holds beside the agreement of the queues, in runs without `SCHED_DEADLINE`. -/
structure CoreInv (s : State) : Prop where
  ok : ∀ q, s.Attached q → TaskOk (s.task q)
  save : ∀ q, (s.task q).prioSave = 0 ∨
    (reschPrioMin ≤ (s.task q).prioSave ∧ (s.task q).prioSave ≤ reschPrioMax)
  idle : ∀ q, s.point q ≠ .user → s.isActive q = false

/-- `job_suspend` is called for an active task. -/
def CoreOp.SuspendsActive (s : State) : CoreOp → Prop
  | suspend rt => s.isActive rt = true
  | _ => True

/-- One step of `rt`: the other tasks stay as they are. -/
theorem CoreInv.step (hI : CoreInv s) (ht : ∀ q, q ≠ rt → s'.task q = s.task q)
    (hp : ∀ q, q ≠ rt → s'.point q = s.point q) (hg : Good s' rt)
    (hidle : s'.point rt ≠ .user → s'.isActive rt = false) : CoreInv s' := by
  refine ⟨fun q hq => ?_, fun q => ?_, fun q hq => ?_⟩ <;> by_cases hqr : q = rt
  · subst hqr; exact hg.ok
  · unfold State.Attached at hq
    rw [hp q hqr] at hq
    rw [ht q hqr]; exact hI.ok q hq
  · subst hqr; exact hg.ok.save
  · rw [ht q hqr]; exact hI.save q
  · subst hqr; exact hidle hq
  · unfold State.isActive
    rw [ht q hqr]
    rw [hp q hqr] at hq
    exact hI.idle q hq

/-- A hook of an attached task that leaves an inactive one inactive. -/
theorem CoreInv.hook (hI : CoreInv s) (hu : Updates rt s s') (hg : Good s' rt)
    (hidle : s.isActive rt = false → s'.isActive rt = false ∨ s.point rt = .user) :
    Queued s' s'.place ∧ CoreInv s' := by
  refine ⟨hg.queued, hI.step (fun _ => hu.task_of_ne) (fun q _ => by rw [hu.rest.1]) hg ?_⟩
  intro hp
  rw [hu.rest.1] at hp
  exact (hidle (hI.idle rt hp)).resolve_right hp

/-! ## Inactive tasks stay inactive -/

theorem setScheduler_inactive (policy prio : ℤ) (hi : s.isActive rt = false) :
    (setScheduler c k s rt policy prio).1.isActive rt = false :=
  setScheduler_sameLinks.active.trans hi

theorem migrateTask_inactive (hcls : TaskOk (s.task rt)) (hi : s.isActive rt = false) (cpu : ℕ) :
    (migrateTask c s rt cpu).isActive rt = false := by
  have hcpu : (s.setCpu rt cpu).isActive rt = false := by simpa [State.isActive, State.setCpu] using hi
  unfold migrateTask
  rcases hcls.cls with hc | hc <;> simp only [hc]
  · unfold fpMigrateTask
    simp only [hi, Bool.false_eq_true, if_false]
    have hacc : Accounts (restartAccount fpStopAccount (fpStartAccount c)) :=
      restartAccount_accounts unlimitRttime_accounts fpStartAccount_accounts
    rw [isActive_of_frame (hacc.frame _ _), isActive_of_frame (frame_migrateTask' _)]
    split
    · exact hcpu
    · exact hi
  · unfold Edf.edfMigrateTask
    simp only [hi, Bool.false_eq_true, if_false]
    split
    · rw [isActive_of_frame (frame_migrateTask' _)]; exact hcpu
    · rw [isActive_of_frame (frame_migrateTask' _)]; exact hi

theorem classReserveExpire_inactive (hcls : TaskOk (s.task rt)) (hi : s.isActive rt = false) :
    (classReserveExpire c k s rt).isActive rt = false := by
  unfold classReserveExpire
  rcases hcls.cls with hc | hc <;> simp only [hc]
  · exact setScheduler'_sameLinks.active.trans hi
  · simp [Edf.edfReserveExpire, hi]

theorem jobSuspend_inactive (hcls : TaskOk (s.task rt)) :
    (jobSuspend c k s rt).isActive rt = false := by
  unfold jobSuspend
  refine isActive_classDequeue ?_
  split
  · have hu : Updates rt s (setScheduler c k s rt (s.task rt).policy (s.task rt).prioSave).1 :=
      (Updates.refl s).setScheduler
    rw [hu.same.cls]; exact hcls.cls_ne_fair
  · exact hcls.cls_ne_fair

/-- Changing policy and priority writes no other descriptor. -/
theorem setScheduler_local (c : Config) (k : Kernel) (s : State) (rt : ℕ) (policy prio : ℤ) :
    (∀ q, q ≠ rt → (setScheduler c k s rt policy prio).1.task q = s.task q) ∧
      (setScheduler c k s rt policy prio).1.point = s.point := by
  have hp : (∀ q, q ≠ rt → (setPolicy c s rt policy).task q = s.task q) ∧
      (setPolicy c s rt policy).point = s.point := by
    unfold setPolicy
    split
    · exact ⟨fun q hq => task_setTask_of_ne _ hq, rfl⟩
    · exact ⟨fun _ _ => rfl, rfl⟩
  have hu : Updates rt (setPolicy c s rt policy)
      (setScheduler' c k (setPolicy c s rt policy) rt prio).1 := (Updates.refl _).setScheduler'
  rw [setScheduler_fst]
  exact ⟨fun q hq => (hu.task_of_ne hq).trans (hp.1 q hq), hu.rest.1.trans hp.2⟩

/-! ## Steps -/

/-- **One step keeps the agreement**, unless it suspends an inactive task. -/
theorem CoreOp.good (hc : c.schedDeadline = false) (hq : Queued s s.place) (hI : CoreInv s)
    (op : CoreOp) (hen : op.enabled s = true) (hs : op.SuspendsActive s) :
    Queued (op.run c k s) (op.run c k s).place ∧ CoreInv (op.run c k s) := by
  have good : ∀ {rt}, s.Attached rt → Good s rt := fun h => ⟨hq, hI.ok _ h⟩
  cases op with
  | attach rt current =>
    have hd : s.point rt = .detached := by simpa [enabled] using hen
    have hg : Good (reschTaskInit c k s rt current) rt :=
      Good.reschTaskInit hq (hI.idle rt (by rw [hd]; decide)) (hI.save rt) current
    obtain ⟨t, proc, heq, -, -⟩ := reschTaskInit_eq c k s rt current
    have hg' : Good ((reschTaskInit c k s rt current).setPoint rt .user) rt := hg.of_task rfl rfl
    refine ⟨hg'.queued, hI.step (fun q hq => ?_) (fun q hq => ?_) hg' (fun h => ?_)⟩
    · simp [run, State.setPoint, heq, hq]
    · simp [run, State.setPoint, heq, hq]
    · simp [run, State.setPoint] at h
  | setTimes rt runtime period deadline releaseTime deadlineTime =>
    have ha : s.Attached rt := by simpa [enabled] using hen
    simp only [run]
    refine hI.hook ((Updates.refl s).setTask ?_) ((good ha).data ?_) fun hi => Or.inl ?_
    · exact ⟨rfl, rfl, rfl, rfl, rfl, rfl⟩
    · exact fun _ => ⟨rfl, rfl, rfl, rfl, rfl⟩
    · simpa [State.isActive] using hi
  | reserveStart rt cputime xcpu =>
    have ha : s.Attached rt := by simpa [enabled] using hen
    refine hI.hook ((Updates.refl s).reserveStart cputime xcpu) (Good.startAccount ((good ha).data ?_))
      fun hi => Or.inl ?_
    · exact fun _ => ⟨rfl, rfl, rfl, rfl, rfl⟩
    · have hf := (startAccount_accounts (c := c)).frame (s.setTask rt fun t =>
        { t with replenishTimer := none, reserveTime := c.msecsToJiffies cputime, xcpu }) rt
      exact (isActive_of_frame hf rt).trans (by simpa [State.isActive] using hi)
  | jobStart rt =>
    have ha : s.point rt = .user ∧ s.isActive rt = false := by simpa [enabled] using hen
    have hat : s.Attached rt := by unfold State.Attached; rw [ha.1]; decide
    exact hI.hook ((Updates.refl s).jobStart fun _ => ha.2) ((good hat).jobStart ha.2) fun _ => Or.inr ha.1
  | jobComplete rt =>
    have ha : s.point rt = .user ∧ s.isActive rt = true := by simpa [enabled] using hen
    have hat : s.Attached rt := by unfold State.Attached; rw [ha.1]; decide
    exact hI.hook (Updates.refl s).jobComplete ((good hat).jobComplete ha.2) fun _ => Or.inr ha.1
  | setPriority rt prio =>
    have ha : s.Attached rt ∧ reschPrioMin ≤ prio ∧ prio ≤ reschPrioMax := by
      simpa [enabled] using hen
    exact hI.hook (Updates.refl s).setScheduler' ((good ha.1).setScheduler' (Or.inr ha.2))
      fun hi => Or.inl (setScheduler'_sameLinks.active.trans hi)
  | setClass rt policy =>
    have ha : s.Attached rt ∧ (policy = reschSchedFp ∨ policy = reschSchedEdf) := by
      simpa [enabled] using hen
    have hok := hI.ok rt ha.1
    simp only [run]
    by_cases hpol : policy = (s.task rt).policy
    · have : (apiSetScheduler c k s rt policy).1 = s := by simp [apiSetScheduler, hpol]
      rw [this]; exact ⟨hq, hI⟩
    rw [apiSetScheduler_of_ne hpol]
    have hg := (good ha.1).setScheduler (k := k) hc (Or.inr ha.2) (Or.inr hok.prio)
    have hl := setScheduler_local c k s rt policy (s.task rt).prio
    refine ⟨hg.queued, hI.step hl.1 (fun q _ => congrFun hl.2 q) hg fun hp => ?_⟩
    exact setScheduler_inactive _ _ (hI.idle rt fun h => hp ((congrFun hl.2 rt).trans h))
  | migrate rt cpu =>
    have ha : s.Attached rt := by simpa [enabled] using hen
    exact hI.hook ((Updates.refl s).migrateTask cpu) ((good ha).migrateTask cpu)
      fun hi => Or.inl (migrateTask_inactive (hI.ok rt ha) hi cpu)
  | reserveExpire rt =>
    have ha : s.Attached rt := by simpa [enabled] using hen
    exact hI.hook (Updates.refl s).classReserveExpire (good ha).classReserveExpire
      fun hi => Or.inl (classReserveExpire_inactive (hI.ok rt ha) hi)
  | reserveReplenish rt cputime =>
    have ha : s.Attached rt := by simpa [enabled] using hen
    exact hI.hook ((Updates.refl s).classReserveReplenish cputime)
      ((good ha).classReserveReplenish cputime)
      fun hi => Or.inl (classReserveReplenish_inactive hi cputime)
  | replenishTimer rt =>
    have ha : s.Attached rt := by simpa [enabled] using hen
    refine hI.hook (Updates.refl s).onReplenish (good ha).onReplenish fun hi => Or.inl ?_
    refine classReserveReplenish_inactive ?_ _
    simpa [State.isActive] using hi
  | suspend rt =>
    have hp : s.point rt = .user := by simpa [enabled] using hen
    have hat : s.Attached rt := by unfold State.Attached; rw [hp]; decide
    have hu : Updates rt s (jobSuspend c k s rt) := (Updates.refl s).jobSuspend
    have hg : Good ((jobSuspend c k s rt).setPoint rt .suspend) rt :=
      ((good hat).jobSuspend hc hs).of_task rfl rfl
    refine ⟨hg.queued, hI.step (fun q hq => hu.task_of_ne hq) (fun q hq => ?_) hg fun _ => ?_⟩
    · simp [run, State.setPoint, hq, hu.rest.1]
    · exact jobSuspend_inactive (good hat).ok
  | resume rt =>
    have hp : s.point rt = .suspend := by simpa [enabled] using hen
    have hat : s.Attached rt := by unfold State.Attached; rw [hp]; decide
    have hi : s.isActive rt = false := hI.idle rt (by rw [hp]; decide)
    have hu : Updates rt s (jobResume s rt) := (Updates.refl s).jobResume hi
    have hg : Good ((jobResume s rt).setPoint rt .user) rt :=
      ((good hat).classEnqueue hi).of_task rfl rfl
    refine ⟨hg.queued, hI.step (fun q hq => hu.task_of_ne hq) (fun q hq => ?_) hg fun h => ?_⟩
    · simp [run, State.setPoint, hq, hu.rest.1]
    · simp [run, State.setPoint] at h
  | linux jiffies proc =>
    exact ⟨hq.of_fields rfl fun _ => ⟨rfl, rfl, rfl⟩, ⟨hI.ok, hI.save, hI.idle⟩⟩

theorem nrTasks_dequeueTaskAt (cpu : ℕ) (prio : ℤ) :
    ((dequeueTaskAt s rt prio cpu).lo cpu).nrTasks = (s.lo cpu).nrTasks - 1 := by
  simp [dequeueTaskAt, nrTasks_unlink]

/-- **Suspending an inactive task** counts a task off that was never counted. -/
theorem Queued.not_suspend (hq : Queued s s.place) (hc : c.schedDeadline = false)
    (hok : TaskOk (s.task rt)) (hi : s.isActive rt = false) :
    ¬ Queued (jobSuspend c k s rt) (jobSuspend c k s rt).place := by
  set s₁ := if (s.task rt).prio ≠ (s.task rt).prioSave then
    (setScheduler c k s rt (s.task rt).policy (s.task rt).prioSave).1 else s with hs₁
  have h₁ : Good s₁ rt ∧ s₁.isActive rt = false := by
    rw [hs₁]; split
    · exact ⟨Good.setScheduler ⟨hq, hok⟩ hc (Or.inl rfl) hok.save, setScheduler_inactive _ _ hi⟩
    · exact ⟨⟨hq, hok⟩, hi⟩
  have hs : jobSuspend c k s rt = dequeueTaskAt s₁ rt (s₁.task rt).prio (s.task rt).cpuId :=
    classDequeueTask_eq h₁.1.ok.cls_ne_fair
  set cpu := (s.task rt).cpuId
  -- the lists are as before, so the total is, but the counter is one less
  have htotal : ((jobSuspend c k s rt).lo cpu).total = (s₁.lo cpu).total := by
    rw [hs]
    refine Finset.sum_congr rfl fun i _ => ?_
    rw [dequeueTaskAt, h₁.1.queued.toLinked.unlink_inactive (place_of_inactive h₁.2)]
  intro hbad
  have hcount := hbad.count cpu
  rw [htotal, ← h₁.1.queued.count cpu, hs, nrTasks_dequeueTaskAt] at hcount
  omega

/-! ## Runs -/

theorem schedInit_coreInv (jiffies : ℕ) (proc : ℕ → Proc) : CoreInv (schedInit jiffies proc) :=
  ⟨fun _ h => absurd rfl h, fun _ => Or.inl rfl, fun _ _ => rfl⟩

/-- **Queues, bitmaps, counters and descriptors agree in every state of a run iff no
inactive task is suspended in it.** -/
theorem coreStep_queued_iff (hc : c.schedDeadline = false) (jiffies : ℕ) (proc : ℕ → Proc)
    (run : List (CoreOp × Kernel)) :
    Always (coreStep c) (fun s => Queued s s.place) (schedInit jiffies proc) run ↔
      Each (coreStep c) (fun s a => a.1.SuspendsActive s) (schedInit jiffies proc) run := by
  have hstep : ∀ s a s', CoreInv s → Queued s s.place → coreStep c s a = some s' →
      (Queued s' s'.place ↔ a.1.SuspendsActive s) ∧ (a.1.SuspendsActive s → CoreInv s') := by
    intro s a s' hI hq hs
    unfold coreStep at hs
    split at hs
    swap
    · cases hs
    rename_i hen
    cases hs
    refine ⟨⟨fun hq' => ?_, fun h => (CoreOp.good hc hq hI a.1 hen h).1⟩,
      fun h => (CoreOp.good hc hq hI a.1 hen h).2⟩
    by_contra hcon
    obtain ⟨op, k⟩ := a
    cases op with
    | suspend rt =>
      have hp : s.point rt = .user := by simpa [CoreOp.enabled] using hen
      have hi : s.isActive rt = false := by simpa [CoreOp.SuspendsActive] using hcon
      refine hq.not_suspend hc (hI.ok rt ?_) hi (Queued.of_fields hq' rfl fun _ => ⟨rfl, rfl, rfl⟩)
      unfold State.Attached; rw [hp]; decide
    | _ => exact hcon trivial
  refine always_iff_each ?_ ?_ run _ (schedInit_coreInv jiffies proc) (schedInit_queued jiffies proc)
  · intro s a s' hI hq hs hq'
    obtain ⟨h1, h2⟩ := hstep s a s' hI hq hs
    exact h2 (h1.1 hq')
  · intro s a s' hI hq hs
    exact (hstep s a s' hI hq hs).1

/-- A task that sleeps within its job. -/
theorem coreStep_queued_sleep :
    Always (coreStep (.small false)) (fun s => Queued s s.place) (schedInit 0 fun _ => .fair)
      [(.attach 0 1, .accepting), (.jobStart 0, .accepting), (.suspend 0, .accepting),
        (.resume 0, .accepting), (.jobComplete 0, .accepting)] :=
  (coreStep_queued_iff rfl 0 (fun _ => .fair) _).2 (Each.cons rfl trivial (Each.cons rfl trivial
    (Each.cons rfl rfl (Each.cons rfl trivial (Each.cons rfl trivial trivial)))))

/-- A task that sleeps before its first job: the counter of its CPU becomes negative. -/
theorem coreStep_not_queued :
    ¬ Always (coreStep (.small false)) (fun s => Queued s s.place) (schedInit 0 fun _ => .fair)
      [(.attach 0 1, .accepting), (.suspend 0, .accepting)] := by
  intro h
  obtain ⟨s, hs, ht⟩ := h.final_test
    (fun s => decide ((s.lo 1).nrTasks = -1)) (by decide +kernel)
  have := hs.count 1
  rw [of_decide_eq_true ht] at this
  omega

end Resch
