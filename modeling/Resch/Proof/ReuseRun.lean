import Resch.Lib.Runs
import Resch.Proof.ReleaseRun
import Resch.Proof.Save

/-!
# The owner of a reused id

* `TimerOk`: a task whose replenish timer is set has a reserve, and a descriptor that is not in use
  has none.
* `reschTaskInit_withSave_of_budget`: two descriptors of the same budget differ in `prio_save` only
  once they are initialised.
* `ReuseOp.exec_withSave`: a call that does not read `prio_save` does the same with another value
  there.
* `reuse_same`: the runs of the owners of an id.
-/

namespace Resch

open Lib

variable {c : Config} {k : Kernel} {s s' : State} {rid rt q : ℕ} {prio v : ℤ}

/-! ## The replenish timer -/

/-- Reserve and replenish timer -/
def Task.timed (t : Task) : ℕ × Option ℕ := (t.reserveTime, t.replenishTimer)

theorem timed_unwritten : Unwritten Task.timed := by
  constructor <;> exact fun _ _ => rfl

/-- **A timer is set for a reserve only**, and a descriptor that is not in use has none. -/
def TimerOk (s : State) : Prop :=
  ∀ q, ((s.task q).reserveTime = 0 → (s.task q).replenishTimer = none) ∧
    (s.point q = .detached → (s.task q).reserveTime = 0)

/-- The reserves are the same, and no timer has been set. -/
structure Disarms (s s' : State) : Prop where
  reserveTime : ∀ q, (s'.task q).reserveTime = (s.task q).reserveTime
  timer : ∀ q, (s.task q).replenishTimer = none → (s'.task q).replenishTimer = none
  point : s'.point = s.point

namespace Disarms

theorem of_part (h : s'.part Task.timed = s.part Task.timed) : Disarms s s' := by
  obtain ⟨ht, hp⟩ := Prod.mk.inj h
  have ht : ∀ q, (s'.task q).timed = (s.task q).timed := fun q => congrFun ht q
  refine ⟨fun q => (Prod.mk.inj (ht q)).1, fun q hq => ?_, hp⟩
  rw [(Prod.mk.inj (ht q)).2, hq]

theorem trans {s₁ s₂ : State} (h₁ : Disarms s s₁) (h₂ : Disarms s₁ s₂) : Disarms s s₂ :=
  ⟨fun q => (h₂.reserveTime q).trans (h₁.reserveTime q), fun q hq => h₂.timer q (h₁.timer q hq),
    h₂.point.trans h₁.point⟩

theorem clearTimer : Disarms s (s.setTask rt fun t => { t with replenishTimer := none }) := by
  refine ⟨fun q => setTask_field (fun t => t.reserveTime) rfl q, fun q hq => ?_, rfl⟩
  by_cases hrt : q = rt
  · subst hrt
    rw [task_setTask_self]
  · rw [task_setTask_of_ne _ hrt]
    exact hq

theorem reserveReplenish : Disarms s (Resch.reserveReplenish c k s rt) := by
  unfold Resch.reserveReplenish
  dsimp only
  refine trans (of_part ?_) clearTimer
  split
  · exact timed_unwritten.classReserveReplenish _
  · rfl

theorem onReplenish : Disarms s (Resch.onReplenish c k s rt) :=
  clearTimer.trans (of_part (timed_unwritten.classReserveReplenish _))

theorem jobComplete : Disarms s (Resch.jobComplete c k s rt) := by
  unfold Resch.jobComplete
  dsimp only
  have hwcet : (if (s.task rt).wcetFixed = false ∧ (s.task rt).wcet <
      c.jiffiesToUsecs (execTime c s rt) then
        s.setTask rt fun t => { t with wcet := c.jiffiesToUsecs (execTime c s rt) } else s).part
          Task.timed = s.part Task.timed := by
    split
    · exact part_setTask rfl
    · rfl
  generalize (if (s.task rt).wcetFixed = false ∧ (s.task rt).wcet <
    c.jiffiesToUsecs (execTime c s rt) then _ else s) = s₁ at hwcet ⊢
  have hdone : (classJobComplete s₁ rt).part Task.timed = s.part Task.timed :=
    timed_unwritten.classJobComplete.trans hwcet
  split
  · refine trans (of_part ?_) reserveReplenish
    exact (timed_unwritten.stopAccount fun _ _ => rfl).trans hdone
  · exact of_part hdone

theorem setScheduler (policy : ℤ) : Disarms s (Resch.setScheduler c k s rt policy prio).1 := by
  refine of_part ((timed_unwritten.setScheduler policy).trans ?_)
  unfold setPolicy
  split
  · exact part_setTask rfl
  · rfl

end Disarms

namespace TimerOk

theorem disarms (h : TimerOk s) (hd : Disarms s s') : TimerOk s' := by
  intro q
  obtain ⟨hq, hfree⟩ := h q
  refine ⟨fun hr => hd.timer q (hq ?_), fun hp => ?_⟩
  · rw [← hd.reserveTime q]
    exact hr
  · rw [hd.reserveTime q]
    exact hfree (by rw [← hd.point]; exact hp)

theorem of_part (h : TimerOk s) (hp : s'.part Task.timed = s.part Task.timed) : TimerOk s' :=
  h.disarms (.of_part hp)

theorem setPoint {p : Point} (h : TimerOk s) (hp : p ≠ .detached) : TimerOk (s.setPoint rt p) := by
  intro q
  refine ⟨(h q).1, fun hq => (h q).2 ?_⟩
  by_cases hrt : q = rt
  · subst hrt
    rw [point_setPoint_self] at hq
    exact absurd hq hp
  · rwa [point_setPoint_of_ne _ hrt] at hq

theorem timer_of_detached (h : TimerOk s) (hq : s.point q = .detached) :
    (s.task q).replenishTimer = none := (h q).1 ((h q).2 hq)

/-- A task that is in use is given a reserve and a timer. -/
theorem assign {f : Task → Task} (h : TimerOk s) (hrt : s.point rt ≠ .detached)
    (hf : (f (s.task rt)).reserveTime = 0 → (f (s.task rt)).replenishTimer = none) :
    TimerOk (s.setTask rt f) := by
  intro q
  by_cases hq : q = rt
  · subst hq
    rw [task_setTask_self]
    exact ⟨hf, fun hp => absurd hp hrt⟩
  · rw [task_setTask_of_ne _ hq]
    exact h q

/-- The reserve ends after its timer. -/
theorem reserveStop (h : TimerOk s) :
    TimerOk (Resch.reserveStop c s rt) ∧ ((Resch.reserveStop c s rt).task rt).reserveTime = 0 := by
  unfold Resch.reserveStop
  dsimp only
  have hclear : ((s.setTask rt fun t => { t with replenishTimer := none }).task rt).replenishTimer =
      none := by rw [task_setTask_self]
  have hstop : (stopAccount c (s.setTask rt fun t => { t with replenishTimer := none }) rt).part
      Task.timed = (s.setTask rt fun t => { t with replenishTimer := none }).part Task.timed :=
    timed_unwritten.stopAccount fun _ _ => rfl
  have hok := (h.disarms (@Disarms.clearTimer s rt)).of_part hstop
  have hnone := (Disarms.of_part hstop).timer rt hclear
  generalize stopAccount c (s.setTask rt fun t => { t with replenishTimer := none }) rt = s₁
    at hok hnone ⊢
  refine ⟨fun q => ?_, by rw [task_setTask_self]⟩
  by_cases hq : q = rt
  · subst hq
    rw [task_setTask_self]
    exact ⟨fun _ => hnone, fun _ => rfl⟩
  · rw [task_setTask_of_ne _ hq]
    exact hok q

theorem apiReserveStart (h : TimerOk s) (hrt : s.point rt ≠ .detached) (cputime : ℕ) (xcpu : Bool) :
    TimerOk (Resch.apiReserveStart c s rt cputime xcpu).1 := by
  unfold Resch.apiReserveStart
  split
  · exact h
  · exact (h.assign hrt fun _ => rfl).of_part (timed_unwritten.startAccount fun _ _ => rfl)

/-- The timer is set if there is a reserve. -/
theorem apiReserveExpire (h : TimerOk s) (hrt : s.point rt ≠ .detached) :
    TimerOk (Resch.apiReserveExpire c k s rt).1 := by
  unfold Resch.apiReserveExpire
  split
  · exact h
  rename_i hres
  have hres : (s.task rt).reserveTime ≠ 0 := by
    unfold State.hasReserve at hres
    simpa using hres
  dsimp only
  have hstop : (if s.isAccounting rt = true then stopAccount c s rt else s).part Task.timed =
      s.part Task.timed := by
    split
    · exact timed_unwritten.stopAccount fun _ _ => rfl
    · rfl
  generalize (if s.isAccounting rt = true then stopAccount c s rt else s) = s₁ at hstop ⊢
  split
  · exact h.of_part ((timed_unwritten.startAccount fun _ _ => rfl).trans
      ((timed_unwritten.classReserveReplenish _).trans hstop))
  · have hexpire : (classReserveExpire c k s₁ rt).part Task.timed = s.part Task.timed :=
      timed_unwritten.classReserveExpire.trans hstop
    have hd := Disarms.of_part hexpire
    dsimp only
    refine (h.of_part hexpire).assign (by rw [hd.point]; exact hrt) fun hzero => ?_
    exact absurd ((hd.reserveTime rt).symm.trans hzero) hres

theorem apiExitDetach (h : TimerOk s) :
    TimerOk (Resch.apiExitDetach c k s rt) ∧
      ((Resch.apiExitDetach c k s rt).task rt).reserveTime = 0 := by
  unfold Resch.apiExitDetach
  dsimp only
  have hdone : TimerOk (if s.isActive rt = true then Resch.jobComplete c k s rt else s) := by
    split
    · exact h.disarms .jobComplete
    · exact h
  generalize (if s.isActive rt = true then Resch.jobComplete c k s rt else s) = s₁ at hdone ⊢
  have hstop : TimerOk (if s₁.hasReserve rt = true then Resch.reserveStop c s₁ rt else s₁) ∧
      ((if s₁.hasReserve rt = true then Resch.reserveStop c s₁ rt
        else s₁).task rt).reserveTime = 0 := by
    split
    · exact hdone.reserveStop
    · rename_i hno
      refine ⟨hdone, ?_⟩
      unfold State.hasReserve at hno
      simpa using hno
  generalize (if s₁.hasReserve rt = true then Resch.reserveStop c s₁ rt else s₁) = s₂ at hstop ⊢
  split
  · have hlist : (globalListRemove s₂ rt).part Task.timed = s₂.part Task.timed :=
      timed_unwritten.globalOnly globalListRemove_only
    exact ⟨hstop.1.of_part hlist, ((Disarms.of_part hlist).reserveTime rt).trans hstop.2⟩
  · exact hstop

theorem apiExit (h : TimerOk s) : TimerOk ((Resch.apiExit c k s rt).1.setPoint rt .detached) := by
  obtain ⟨hdetach, hzero⟩ := h.apiExitDetach
  unfold Resch.apiExit apiExitPolicy
  generalize Resch.apiExitDetach c k s rt = s₁ at hdetach hzero ⊢
  have hclear : TimerOk (apiExitClear s₁ rt) ∧ ((apiExitClear s₁ rt).task rt).reserveTime = 0 :=
    ⟨hdetach, hzero⟩
  generalize apiExitClear s₁ rt = s₂ at hclear ⊢
  have hpolicy : TimerOk (if (s₂.task rt).policy ≠ reschSchedFair then
      (Resch.setScheduler c k s₂ rt reschSchedFair 0).1 else s₂) ∧
      ((if (s₂.task rt).policy ≠ reschSchedFair then
        (Resch.setScheduler c k s₂ rt reschSchedFair 0).1 else s₂).task rt).reserveTime = 0 := by
    split
    · have hd : Disarms s₂ (Resch.setScheduler c k s₂ rt reschSchedFair 0).1 := .setScheduler _
      exact ⟨hclear.1.disarms hd, (hd.reserveTime rt).trans hclear.2⟩
    · exact hclear
  intro q
  refine ⟨(hpolicy.1 q).1, fun hq => ?_⟩
  by_cases hrt : q = rt
  · subst hrt
    exact hpolicy.2
  · rw [point_setPoint_of_ne _ hrt] at hq
    exact (hpolicy.1 q).2 hq

theorem reschTaskInit (h : TimerOk s) (hrt : s.point rt = .detached) (current : ℕ) :
    TimerOk (Resch.reschTaskInit c k s rt current) := by
  have hmigrate : ∀ (s : State) (cpu : ℕ), ((migrateTask' s rt cpu).task rt).replenishTimer =
      (s.task rt).replenishTimer := by
    intro s cpu
    unfold migrateTask'
    dsimp only
    rw [State.setProc, task_setTask_self]
  obtain ⟨t, proc, heq, -, -⟩ := reschTaskInit_eq c k s rt current
  have hself : ((Resch.reschTaskInit c k s rt current).task rt).replenishTimer =
      (s.task rt).replenishTimer := by
    unfold Resch.reschTaskInit
    dsimp only
    rw [task_setTask_self]
    split
    · rw [hmigrate, State.setProc, task_setTask_self]
    · rw [State.setProc, task_setTask_self]
  have hzero : ((Resch.reschTaskInit c k s rt current).task rt).reserveTime = 0 := by
    unfold Resch.reschTaskInit
    rw [task_setTask_self]
  intro q
  by_cases hq : q = rt
  · subst hq
    exact ⟨fun _ => hself.trans (h.timer_of_detached hrt), fun _ => hzero⟩
  · rw [heq]
    dsimp only
    rw [Function.update_of_ne hq]
    exact h q

/-- **The invariant of a call.** -/
theorem apiExec {op : ApiOp} (h : TimerOk s) (hen : op.enabled s = true)
    (hs : op.exec c k s = some s') : TimerOk s' := by
  cases op with
  | init rt current =>
    cases hs
    exact (h.reschTaskInit (of_decide_eq_true hen) current).setPoint (by decide)
  | exit rt =>
    cases hs
    exact h.apiExit
  | run rt timeout =>
    cases hs
    refine setPoint (h.of_part ?_) (by decide)
    unfold apiRun
    dsimp only
    refine (timed_unwritten.jobReleaseWait _).trans ?_
    split
    · exact (timed_unwritten.globalOnly globalListRemove_only).trans
        (timed_unwritten.globalOnly globalListInsert_only)
    · exact timed_unwritten.globalOnly globalListInsert_only
  | waitForPeriod rt =>
    cases hs
    refine setPoint (of_part (disarms (h.of_part timed_unwritten.deadlineMiss) .jobComplete)
      (timed_unwritten.jobReleaseWait _)) (by decide)
  | waitForInterval rt period =>
    cases hs
    refine setPoint (of_part (disarms (h.of_part timed_unwritten.deadlineMiss) .jobComplete)
      (timed_unwritten.jobReleaseWait _)) (by decide)
  | release rt =>
    obtain ⟨s₁, h₁, rfl⟩ := Option.map_eq_some_iff.1 hs
    rw [jobRelease_eq h₁]
    exact setPoint (h.of_part ((timed_unwritten.jobStart fun _ _ => rfl).trans
      timed_unwritten.releasedState)) (by decide)
  | setPeriod rt period =>
    cases hs
    exact h.of_part (part_setTask rfl)
  | setDeadline rt deadline =>
    cases hs
    exact h.of_part (part_setTask rfl)
  | setWcet rt wcet =>
    cases hs
    exact h.of_part (part_setTask rfl)
  | setRuntime rt runtime =>
    cases hs
    exact h.of_part (part_setTask rfl)
  | setPriority rt prio =>
    cases hs
    exact h.of_part timed_unwritten.apiSetPriority
  | background rt =>
    cases hs
    exact h.of_part timed_unwritten.apiSetPriority
  | setScheduler rt policy =>
    cases hs
    by_cases hpol : policy = (s.task rt).policy
    · unfold apiSetScheduler
      rw [if_neg (not_not.2 hpol)]
      exact h
    · rw [apiSetScheduler_of_ne hpol]
      exact h.disarms (.setScheduler _)
  | reserveStart rt cputime xcpu =>
    cases hs
    refine h.apiReserveStart ?_ cputime xcpu
    rw [of_decide_eq_true hen]
    decide
  | reserveStop rt =>
    cases hs
    unfold apiReserveStop
    split
    · exact h.reserveStop.1
    · exact h
  | reserveExpire rt =>
    cases hs
    refine h.apiReserveExpire ?_
    rw [of_decide_eq_true hen]
    decide
  | replenishTimer rt =>
    cases hs
    exact h.disarms .onReplenish
  | componentCreate => exact h.of_part (timed_unwritten.componentOnly (componentOnly_exec rfl hs))
  | componentDestroy cid =>
    exact h.of_part (timed_unwritten.componentOnly (componentOnly_exec rfl hs))
  | compose rt cid => exact h.of_part (timed_unwritten.componentOnly (componentOnly_exec rfl hs))
  | decompose rt => exact h.of_part (timed_unwritten.componentOnly (componentOnly_exec rfl hs))
  | sleep rt =>
    cases hs
    exact setPoint (h.of_part (timed_unwritten.jobSuspend c k s rt)) (by decide)
  | suspend rt =>
    cases hs
    exact setPoint (h.of_part ((part_setRunState _).trans (timed_unwritten.jobSuspend c k s rt)))
      (by decide)
  | resume rt =>
    cases hs
    exact setPoint (h.of_part timed_unwritten.classEnqueueTask) (by decide)
  | wakeUp rt =>
    cases hs
    exact h.of_part part_apiWakeUp
  | migrate rt cpu =>
    cases hs
    exact h.of_part timed_unwritten.migrateTask
  | linux jiffies proc =>
    cases hs
    exact h

theorem reuseStep {a : ReuseOp × Kernel} (h : TimerOk s) (hs : Resch.reuseStep c s a = some s') :
    TimerOk s' := by
  unfold Resch.reuseStep at hs
  split at hs
  swap
  · cases hs
  rename_i hen
  obtain ⟨op, k⟩ := a
  cases op with
  | api op => exact h.apiExec hen hs
  | serverRun rt mem =>
    cases hs
    unfold apiServerRun
    split
    · exact h
    · rename_i content
      have hset : (s.setTask rt fun t =>
          { t with
            server := some ⟨content, s.jiffies + t.period⟩
            budget := t.budget - min (execTime c s rt) t.budget }).part Task.timed =
          s.part Task.timed := part_setTask rfl
      exact h.of_part hset
  | serverTimer rt =>
    cases hs
    exact h.of_part (part_setTask rfl)

theorem of_reach {jiffies : ℕ} {proc : ℕ → Proc}
    (h : Reach (Resch.reuseStep c) (schedInit jiffies proc) s) : TimerOk s :=
  h.inv (fun _ => ⟨fun _ => rfl, fun _ => rfl⟩) fun _ _ _ hs hstep => hs.reuseStep hstep

end TimerOk

/-! ## The calls -/

/-- **Initialising a descriptor** that had another owner, who left the same budget -/
theorem reschTaskInit_setTask {d : Task} (hbudget : d.budget = (s.task rid).budget)
    (htimer : d.replenishTimer = (s.task rid).replenishTimer) (current : ℕ) :
    reschTaskInit c k (s.setTask rid fun _ => d) rid current =
      (reschTaskInit c k s rid current).withSave rid d.prioSave := by
  unfold reschTaskInit State.withSave
  by_cases hk : c.nrRtCpus ≤ k.smpProcessorId
  · simp only [hk, if_true, migrateTask', State.setTask, State.setProc, Task.withSave,
      Function.update_self, Function.update_idem, hbudget, htimer]
    rfl
  · simp only [hk, if_false, State.setTask, State.setProc, Task.withSave, Function.update_self,
      Function.update_idem, hbudget, htimer]

theorem apiReserveStart_withSave (cputime : ℕ) (xcpu : Bool) :
    ∃ w, apiReserveStart c (s.withSave rid v) q cputime xcpu =
      ((apiReserveStart c s q cputime xcpu).1.withSave rid w,
        (apiReserveStart c s q cputime xcpu).2) := by
  unfold apiReserveStart
  rw [hasReserve_withSave]
  split
  · exact ⟨v, rfl⟩
  · obtain ⟨w, hw⟩ := @reserveStart_withSave c s rid q v cputime xcpu
    exact ⟨w, congrArg (fun s => (s, resSuccess)) hw⟩

theorem apiReserveStop_withSave :
    apiReserveStop c (s.withSave rid v) q =
      ((apiReserveStop c s q).1.withSave rid v, (apiReserveStop c s q).2) := by
  unfold apiReserveStop
  rw [hasReserve_withSave, reserveStop_withSave]
  split <;> rfl

theorem apiWaitForPeriod_withSave :
    apiWaitForPeriod c k (s.withSave rid v) q =
      ((apiWaitForPeriod c k s q).1.withSave rid v, (apiWaitForPeriod c k s q).2) := by
  unfold apiWaitForPeriod
  rw [deadlineMiss_withSave]
  dsimp only
  rw [jobComplete_withSave, releaseTime_withSave, period_withSave, jobReleaseWait_withSave]

theorem apiWaitForInterval_withSave (period : ℕ) :
    apiWaitForInterval c k (s.withSave rid v) q period =
      ((apiWaitForInterval c k s q period).1.withSave rid v,
        (apiWaitForInterval c k s q period).2) := by
  unfold apiWaitForInterval
  rw [deadlineMiss_withSave]
  dsimp only
  rw [jobComplete_withSave, jiffies_withSave, jobReleaseWait_withSave]

theorem ReuseOp.enabled_withSave (op : ReuseOp) :
    op.enabled (s.withSave rid v) = op.enabled s := by
  cases op with
  | api op =>
    cases op with
    | replenishTimer rt =>
      show (decide ((s.withSave rid v).Attached rt) && _) = (decide (s.Attached rt) && _)
      rw [replenishTimer_withSave]
      rfl
    | _ => rfl
  | serverRun rt mem => rfl
  | serverTimer rt =>
    show ((s.withSave rid v).task rt).server.any _ = _
    rw [server_withSave]
    rfl

/-- **A call that does not read `prio_save`** does the same and returns the same. -/
theorem ApiOp.exec_withSave {op : ApiOp} (h : (ReuseOp.api op).readsSave s rid = false) :
    (∃ w, op.exec c k (s.withSave rid v) = (op.exec c k s).map fun s => s.withSave rid w) ∧
      op.result c k (s.withSave rid v) = op.result c k s := by
  cases op with
  | init rt current =>
    unfold ApiOp.exec ApiOp.result
    dsimp only
    rw [reschTaskInit_withSave]
    exact ⟨⟨v, rfl⟩, rfl⟩
  | exit rt =>
    unfold ApiOp.exec ApiOp.result
    dsimp only
    rw [apiExit_withSave]
    exact ⟨⟨v, rfl⟩, rfl⟩
  | run rt timeout =>
    unfold ApiOp.exec ApiOp.result
    dsimp only
    rw [apiRun_withSave]
    exact ⟨⟨v, rfl⟩, rfl⟩
  | waitForPeriod rt =>
    unfold ApiOp.exec ApiOp.result
    dsimp only
    rw [apiWaitForPeriod_withSave]
    exact ⟨⟨v, rfl⟩, rfl⟩
  | waitForInterval rt period =>
    unfold ApiOp.exec ApiOp.result
    dsimp only
    rw [apiWaitForInterval_withSave]
    exact ⟨⟨v, rfl⟩, rfl⟩
  | release rt =>
    unfold ApiOp.exec ApiOp.result
    dsimp only
    obtain ⟨w, hw⟩ := @jobRelease_withSave c s rid rt v
    rw [hw]
    cases jobRelease c s rt with
    | none => exact ⟨⟨w, rfl⟩, rfl⟩
    | some s₁ => exact ⟨⟨w, rfl⟩, rfl⟩
  | setPeriod rt period => exact ⟨⟨v, congrArg some (setTask_withSave fun _ => rfl)⟩, rfl⟩
  | setDeadline rt deadline => exact ⟨⟨v, congrArg some (setTask_withSave fun _ => rfl)⟩, rfl⟩
  | setWcet rt wcet => exact ⟨⟨v, congrArg some (setTask_withSave fun _ => rfl)⟩, rfl⟩
  | setRuntime rt runtime => exact ⟨⟨v, congrArg some (setTask_withSave fun _ => rfl)⟩, rfl⟩
  | setPriority rt prio =>
    unfold ApiOp.exec ApiOp.result
    dsimp only
    rw [apiSetPriority_withSave]
    exact ⟨⟨v, rfl⟩, rfl⟩
  | background rt =>
    unfold ApiOp.exec ApiOp.result
    dsimp only
    unfold apiBackground
    rw [apiSetPriority_withSave]
    exact ⟨⟨v, rfl⟩, rfl⟩
  | setScheduler rt policy =>
    unfold ApiOp.exec ApiOp.result
    dsimp only
    rw [apiSetScheduler_withSave]
    exact ⟨⟨v, rfl⟩, rfl⟩
  | reserveStart rt cputime xcpu =>
    obtain ⟨w, hw⟩ := @apiReserveStart_withSave c s rid rt v cputime xcpu
    unfold ApiOp.exec ApiOp.result
    dsimp only
    rw [hw]
    exact ⟨⟨w, rfl⟩, rfl⟩
  | reserveStop rt =>
    unfold ApiOp.exec ApiOp.result
    dsimp only
    rw [apiReserveStop_withSave]
    exact ⟨⟨v, rfl⟩, rfl⟩
  | reserveExpire rt =>
    have hrest : rt = rid → s.hasReserve rt = true →
        (s.task rt).releaseTime + (s.task rt).period ≤ s.jiffies → ¬ s.Restores rt := by
      rintro rfl hres hdue ⟨hcls, hprio, hactive⟩
      simp [ReuseOp.readsSave, hres, hdue, hcls, hprio, hactive] at h
    obtain ⟨w, hw⟩ := @apiReserveExpire_withSave c k s rid rt v hrest
    unfold ApiOp.exec ApiOp.result
    dsimp only
    rw [hw]
    exact ⟨⟨w, rfl⟩, rfl⟩
  | replenishTimer rt =>
    have hrest : rt = rid → ¬ s.Restores rt := by
      rintro rfl ⟨hcls, hprio, hactive⟩
      simp [ReuseOp.readsSave, hcls, hprio, hactive] at h
    unfold ApiOp.exec ApiOp.result
    dsimp only
    rw [onReplenish_withSave hrest]
    exact ⟨⟨v, rfl⟩, rfl⟩
  | componentCreate =>
    unfold ApiOp.exec ApiOp.result
    dsimp only
    rw [apiComponentCreate_withSave]
    exact ⟨⟨v, rfl⟩, rfl⟩
  | componentDestroy cid => exact ⟨⟨v, rfl⟩, rfl⟩
  | compose rt cid =>
    unfold ApiOp.exec ApiOp.result
    dsimp only
    rw [apiCompose_withSave]
    cases apiCompose c s rt cid with
    | none => exact ⟨⟨v, rfl⟩, rfl⟩
    | some x => exact ⟨⟨v, rfl⟩, rfl⟩
  | decompose rt =>
    unfold ApiOp.exec ApiOp.result
    dsimp only
    rw [apiDecompose_withSave]
    exact ⟨⟨v, rfl⟩, rfl⟩
  | sleep rt =>
    unfold ApiOp.exec ApiOp.result
    dsimp only
    unfold apiSleep
    rw [jobSuspend_withSave (of_decide_eq_false h)]
    exact ⟨⟨v, rfl⟩, rfl⟩
  | suspend rt =>
    unfold ApiOp.exec ApiOp.result
    dsimp only
    unfold apiSuspend
    rw [jobSuspend_withSave (of_decide_eq_false h), setRunState_withSave]
    exact ⟨⟨v, rfl⟩, rfl⟩
  | resume rt =>
    unfold ApiOp.exec ApiOp.result
    dsimp only
    unfold jobResume
    rw [prio_withSave, cpuId_withSave, classEnqueueTask_withSave]
    exact ⟨⟨v, rfl⟩, rfl⟩
  | wakeUp rt =>
    unfold ApiOp.exec ApiOp.result
    dsimp only
    rw [apiWakeUp_withSave]
    exact ⟨⟨v, rfl⟩, rfl⟩
  | migrate rt cpu =>
    obtain ⟨w, hw⟩ := @migrateTask_withSave c s rid rt cpu v
    unfold ApiOp.exec ApiOp.result
    dsimp only
    rw [hw]
    exact ⟨⟨w, rfl⟩, rfl⟩
  | linux jiffies proc => exact ⟨⟨v, rfl⟩, rfl⟩

theorem ReuseOp.exec_withSave {op : ReuseOp} (h : op.readsSave s rid = false) :
    (∃ w, op.exec c k (s.withSave rid v) = (op.exec c k s).map fun s => s.withSave rid w) ∧
      op.result c k (s.withSave rid v) = op.result c k s := by
  cases op with
  | api op => exact ApiOp.exec_withSave h
  | serverRun rt mem =>
    unfold ReuseOp.exec ReuseOp.result
    dsimp only
    rw [apiServerRun_withSave]
    exact ⟨⟨v, rfl⟩, rfl⟩
  | serverTimer rt =>
    unfold ReuseOp.exec ReuseOp.result
    dsimp only
    rw [serverHandler_withSave]
    exact ⟨⟨v, rfl⟩, rfl⟩

/-! ## Two runs -/

/-- The two states of a pair differ in `prio_save` of `rid` at most. -/
def SaveOnly (rid : ℕ) (s : State × State) : Prop := ∃ v, s.2 = s.1.withSave rid v

theorem SaveOnly.sameTasks {s : State × State} (h : SaveOnly rid s) : SameTasks s := by
  obtain ⟨v, hv⟩ := h
  intro q
  rw [hv]
  exact ⟨policy_withSave, prio_withSave, budget_withSave⟩

/-- **One call in both states** -/
theorem SaveOnly.step {s : State × State} {a : ReuseOp × Kernel} (h : SaveOnly rid s)
    (ha : SaveAgrees rid s a) :
    (∃ w, reuseStep c s.2 a = (reuseStep c s.1 a).map fun s => s.withSave rid w) ∧
      a.1.result c a.2 s.2 = a.1.result c a.2 s.1 := by
  obtain ⟨v, hv⟩ := h
  by_cases hreads : a.1.readsSave s.1 rid = true
  · -- what is read is the same, so the states are
    have hsave := ha hreads
    rw [hv, prioSave_withSave] at hsave
    have heq : s.2 = s.1 := by rw [hv, hsave, withSave_self]
    rw [heq]
    cases hs : reuseStep c s.1 a with
    | none => exact ⟨⟨v, rfl⟩, rfl⟩
    | some s₁ => exact ⟨⟨(s₁.task rid).prioSave, congrArg some (withSave_self s₁ rid).symm⟩, rfl⟩
  · obtain ⟨⟨w, hw⟩, hres⟩ := @ReuseOp.exec_withSave c a.2 s.1 rid v a.1 (by simpa using hreads)
    rw [hv]
    refine ⟨⟨w, ?_⟩, hres⟩
    unfold reuseStep
    rw [ReuseOp.enabled_withSave, hw]
    split <;> rfl

theorem SaveOnly.sameAnswer {s : State × State} {a : ReuseOp × Kernel} (h : SaveOnly rid s)
    (ha : SaveAgrees rid s a) : SameAnswer c s a := by
  obtain ⟨⟨w, hw⟩, hres⟩ := @SaveOnly.step c rid s a h ha
  exact ⟨by rw [hw, Option.isSome_map], hres⟩

theorem SaveOnly.next {s s' : State × State} {a : ReuseOp × Kernel} (h : SaveOnly rid s)
    (ha : SaveAgrees rid s a) (hs : reusePairStep c s a = some s') : SaveOnly rid s' := by
  obtain ⟨⟨w, hw⟩, -⟩ := @SaveOnly.step c rid s a h ha
  obtain ⟨s₁, h₁, hs⟩ := Option.bind_eq_some_iff.1 hs
  obtain ⟨s₂, h₂, rfl⟩ := Option.map_eq_some_iff.1 hs
  rw [hw, h₁, Option.map_some, Option.some.injEq] at h₂
  exact ⟨w, h₂.symm⟩

/-- **A reused id.** The previous owners of a descriptor that is not in use left the same budget.
Then the next owner makes the same calls with the same answers, and all policies, priorities and
budgets are the same, as long as no call reads `prio_save` while it differs. -/
theorem reuse_same (c : Config) (jiffies jiffies' : ℕ) (proc proc' : ℕ → Proc) (s : State)
    (d : Task) (rid current : ℕ) (k : Kernel) (ops : List (ReuseOp × Kernel))
    (hs : Reach (reuseStep c) (schedInit jiffies proc) s)
    (hd : Reach (reuseStep c) (schedInit jiffies' proc') (s.setTask rid fun _ => d))
    (hfree : s.point rid = .detached) (hbudget : d.budget = (s.task rid).budget)
    (hops : Each (reusePairStep c) (SaveAgrees rid)
      (s.attach c k rid current, (s.setTask rid fun _ => d).attach c k rid current) ops) :
    Always (reusePairStep c)
      (fun p => SameTasks p ∧ ∀ a, SaveAgrees rid p a → SameAnswer c p a)
      (s.attach c k rid current, (s.setTask rid fun _ => d).attach c k rid current) ops := by
  have htimer : d.replenishTimer = (s.task rid).replenishTimer := by
    have h₁ := (TimerOk.of_reach hs).timer_of_detached hfree
    have h₂ := (TimerOk.of_reach hd).timer_of_detached hfree
    rw [task_setTask_self] at h₂
    exact h₂.trans h₁.symm
  have hstart : SaveOnly rid
      (s.attach c k rid current, (s.setTask rid fun _ => d).attach c k rid current) := by
    refine ⟨d.prioSave, ?_⟩
    unfold State.attach
    dsimp only
    rw [reschTaskInit_setTask hbudget htimer current]
    rfl
  have hrun : Always (reusePairStep c) (SaveOnly rid)
      (s.attach c k rid current, (s.setTask rid fun _ => d).attach c k rid current) ops :=
    Always.of_each (fun p a p' hp ha hp' => hp.next ha hp') ops _ hstart hops
  exact hrun.mono (fun p hp => ⟨hp.sameTasks, fun a ha => hp.sameAnswer ha⟩)

/-! ## Two owners -/

/-- Only the descriptor of `rt` and processes have changed. -/
def OwnOnly (rt : ℕ) (s s' : State) : Prop :=
  ∃ t proc, s' = { s with task := Function.update s.task rt t, proc }

namespace OwnOnly

theorem refl (s : State) : OwnOnly rt s s := ⟨s.task rt, s.proc, by rw [Function.update_eq_self]⟩

theorem setTask (h : OwnOnly rt s s') (f : Task → Task) : OwnOnly rt s (s'.setTask rt f) := by
  obtain ⟨t, proc, rfl⟩ := h
  refine ⟨f t, proc, ?_⟩
  unfold State.setTask
  dsimp only
  rw [Function.update_self, Function.update_idem]

theorem setProc (h : OwnOnly rt s s') (p : ℕ) (f : Proc → Proc) :
    OwnOnly rt s (s'.setProc p f) := by
  obtain ⟨t, proc, rfl⟩ := h
  exact ⟨t, _, rfl⟩

theorem linux (h : OwnOnly rt s s') {jiffies : ℕ} (hj : s'.jiffies = jiffies) (proc : ℕ → Proc) :
    OwnOnly rt s { s' with jiffies, proc } := by
  obtain ⟨t, proc', rfl⟩ := h
  dsimp only at hj
  subst hj
  exact ⟨t, proc, rfl⟩

theorem apiReserveStart (h : OwnOnly rt s s') (hcls : (s'.task rt).cls = .fp) (cputime : ℕ)
    (xcpu : Bool) : OwnOnly rt s (Resch.apiReserveStart c s' rt cputime xcpu).1 := by
  unfold Resch.apiReserveStart
  split
  · exact h
  unfold reserveStart
  have hset := h.setTask fun t =>
    { t with replenishTimer := none, reserveTime := c.msecsToJiffies cputime, xcpu := xcpu }
  generalize hs₁ : (s'.setTask rt fun t => { t with
    replenishTimer := none, reserveTime := c.msecsToJiffies cputime, xcpu := xcpu }) = s₁ at hset ⊢
  have hcls₁ :
      ((s₁.setTask rt fun t => { t with budget := budgetLeft c s₁ rt }).task rt).cls = .fp := by
    rw [← hs₁, task_setTask_self, task_setTask_self]
    exact hcls
  unfold startAccount
  split
  · exact hset
  · have hbudget := hset.setTask fun t => { t with budget := budgetLeft c s₁ rt }
    dsimp only
    unfold classStartAccount
    rw [hcls₁]
    exact ((hbudget.setProc _ _).setTask _).setTask _

theorem stopAccount (h : OwnOnly rt s s') : OwnOnly rt s (Resch.stopAccount c s' rt) := by
  have hclass : ∀ {s' : State}, OwnOnly rt s s' → OwnOnly rt s (classStopAccount s' rt) := by
    intro s' h
    unfold classStopAccount
    split
    · exact h
    · exact h.setProc (s'.task rt).task fun q => { q with rlimRttime := none }
    · exact h.setProc (s'.task rt).task fun q => { q with rlimRttime := none }
    · exact h.setProc (s'.task rt).task _
  unfold Resch.stopAccount
  dsimp only
  refine setTask ?_ _
  split
  · exact (hclass (h.setTask _)).setTask _
  · exact h

theorem reserveStop (h : OwnOnly rt s s') : OwnOnly rt s (Resch.reserveStop c s' rt) := by
  unfold Resch.reserveStop
  exact (stopAccount (h.setTask _)).setTask _

/-- A task that is in no list becomes a fair one. -/
theorem setScheduler (h : OwnOnly rt s s') (hpolicy : (s'.task rt).policy ≠ reschSchedFair)
    (hactive : s'.isActive rt = false) (hmanaged : s'.isManaged rt = false) :
    OwnOnly rt s (Resch.setScheduler c k s' rt reschSchedFair prio).1 := by
  rw [setScheduler_fst]
  unfold setPolicy
  rw [if_pos hpolicy]
  have hset := h.setTask fun t =>
    { t with policy := (c.policyClass reschSchedFair).1, cls := (c.policyClass reschSchedFair).2 }
  generalize hs₁ : (s'.setTask rt fun t => { t with
    policy := (c.policyClass reschSchedFair).1, cls := (c.policyClass reschSchedFair).2 }) = s₁
      at hset ⊢
  have hself : (s₁.task rt).cls = .fair ∧ s₁.isActive rt = false ∧ s₁.isManaged rt = false := by
    unfold State.isActive State.isManaged
    rw [← hs₁, task_setTask_self]
    exact ⟨rfl, hactive, hmanaged⟩
  unfold setScheduler' classSetScheduler fairSetScheduler setSchedulerAs schedSetscheduler
  rw [hself.1]
  by_cases hk : k.setscheduler .normal prio = true
  · have hlinks : ∀ s₂ : State, s₂ = (s₁.setProc (s₁.task rt).task fun q =>
        { q with policy := .normal, rtPriority := prio }).setPrio rt prio →
        OwnOnly rt s s₂ ∧ s₂.isActive rt = false ∧ s₂.isManaged rt = false := by
      rintro s₂ rfl
      refine ⟨(hset.setProc _ _).setTask _, ?_, ?_⟩
      · unfold State.isActive State.setPrio
        rw [task_setTask_self]
        exact hself.2.1
      · unfold State.isManaged State.setPrio
        rw [task_setTask_self]
        exact hself.2.2
    obtain ⟨hown, hact, hman⟩ := hlinks _ rfl
    simp only [hk, if_true, Bool.not_true, Bool.false_eq_true, if_false]
    split
    · exact hown
    · unfold moveTask
      rw [hman]
      dsimp only
      rw [if_neg Bool.false_ne_true, hact]
      exact hown
  · simp only [hk, Bool.false_eq_true, if_false, Bool.not_false, if_true]
    exact hset

/-- A task that is in no list leaves. -/
theorem leave (h : OwnOnly rt s s') (hactive : s'.isActive rt = false)
    (hlast : (apiExitDetach c k s' rt).isActive rt = false ∧
      (apiExitDetach c k s' rt).isManaged rt = false ∧
      ((apiExitDetach c k s' rt).task rt).policy ≠ reschSchedFair)
    (hmanaged :
      (if s'.hasReserve rt = true then Resch.reserveStop c s' rt else s').isManaged rt = false) :
    OwnOnly rt ((apiExitClear s rt).setPoint rt .detached)
      ((apiExit c k s' rt).1.setPoint rt .detached) := by
  have hdetach : OwnOnly rt s (apiExitDetach c k s' rt) := by
    unfold apiExitDetach
    rw [hactive, if_neg Bool.false_ne_true]
    dsimp only
    rw [hmanaged, if_neg Bool.false_ne_true]
    split
    · exact h.reserveStop
    · exact h
  have hclear : OwnOnly rt (apiExitClear s rt) (apiExitClear (apiExitDetach c k s' rt) rt) := by
    obtain ⟨t, proc, heq⟩ := hdetach
    rw [heq]
    exact ⟨t, proc, rfl⟩
  obtain ⟨t, proc, heq⟩ := @OwnOnly.setScheduler c k _ _ rt 0 hclear hlast.2.2 hlast.1 hlast.2.1
  have hexit : (apiExit c k s' rt).1 =
      (Resch.setScheduler c k (apiExitClear (apiExitDetach c k s' rt) rt) rt reschSchedFair 0).1 :=
    if_pos hlast.2.2
  rw [hexit, heq]
  exact ⟨t, proc, rfl⟩

/-- Two states that have come from one differ in the descriptor. -/
theorem eq_setTask {s₁ s₂ : State} (h₁ : OwnOnly rt s s₁) (h₂ : OwnOnly rt s s₂)
    (hproc : s₂.proc = s₁.proc) : s₂ = s₁.setTask rt fun _ => s₂.task rt := by
  obtain ⟨t₁, proc, rfl⟩ := h₁
  obtain ⟨t₂, proc₂, rfl⟩ := h₂
  dsimp only at hproc
  unfold State.setTask
  dsimp only
  rw [Function.update_self, Function.update_idem, hproc]

end OwnOnly

theorem reuseStep_of_enabled {a : ReuseOp × Kernel} (h : a.1.enabled s = true) :
    reuseStep c s a = a.1.exec c a.2 s := if_pos h

/-- The first owner of id 0 -/
def owner : State := (schedInit 0 fun _ => .fair).attach (.small false) .accepting 0 1

/-- The owner has a reserve of 10 ms, and has run for longer. -/
def ownerReserved : State :=
  { (apiReserveStart (.small false) owner 0 10 false).1 with
    jiffies := 0
    proc := fun _ => { Proc.fair with cputime := 100000000 } }

/-- The owner leaves, and time passes. -/
def State.left (s : State) : State :=
  { ((apiExit (.small false) .accepting s 0).1.setPoint 0 .detached) with
    jiffies := 0
    proc := fun _ => .fair }

theorem reach_owner : Reach (reuseStep (.small false)) (schedInit 0 fun _ => .fair) owner :=
  .next (.api (.init 0 1), .accepting) .init (reuseStep_of_enabled (by decide +kernel))

theorem reach_ownerReserved :
    Reach (reuseStep (.small false)) (schedInit 0 fun _ => .fair) ownerReserved :=
  .next (.api (.linux 0 fun _ => { Proc.fair with cputime := 100000000 }), .accepting)
    (.next (.api (.reserveStart 0 10 false), .accepting) reach_owner
      (reuseStep_of_enabled (by decide +kernel))) (reuseStep_of_enabled (by decide +kernel))

theorem reach_left (h : Reach (reuseStep (.small false)) (schedInit 0 fun _ => .fair) s)
    (huser : s.point 0 = .user) :
    Reach (reuseStep (.small false)) (schedInit 0 fun _ => .fair) s.left :=
  .next (.api (.linux 0 fun _ => .fair), .accepting)
    (.next (.api (.exit 0), .accepting) h (reuseStep_of_enabled (decide_eq_true huser)))
    (reuseStep_of_enabled rfl)

/-- The owners with and without a reserve leave states that differ in the descriptor. -/
theorem left_eq : ownerReserved.left = owner.left.setTask 0 fun _ => ownerReserved.left.task 0 := by
  have hreserved : OwnOnly 0 owner ownerReserved :=
    OwnOnly.linux (.apiReserveStart (.refl owner) (by decide +kernel) 10 false)
      (by decide +kernel) _
  have hown : OwnOnly 0 ((apiExitClear owner 0).setPoint 0 .detached) owner.left :=
    (@OwnOnly.leave (.small false) .accepting owner owner 0 (.refl owner) (by decide +kernel)
      (by decide +kernel) (by decide +kernel)).linux (by decide +kernel) _
  have hres : OwnOnly 0 ((apiExitClear owner 0).setPoint 0 .detached) ownerReserved.left :=
    (@OwnOnly.leave (.small false) .accepting owner ownerReserved 0 hreserved (by decide +kernel)
      (by decide +kernel) (by decide +kernel)).linux (by decide +kernel) _
  exact hown.eq_setTask hres rfl

/-- The priorities of task 0 differ. -/
def priosDiffer (p : State × State) : Bool := decide ((p.2.task 0).prio ≠ (p.1.task 0).prio)

/-- **The saved priority of a previous owner comes back.** -/
theorem reuse_not_same :
    ¬ ∀ (c : Config) (jiffies jiffies' : ℕ) (proc proc' : ℕ → Proc) (s : State) (d : Task)
      (rid current : ℕ) (k : Kernel) (ops : List (ReuseOp × Kernel)),
      Reach (reuseStep c) (schedInit jiffies proc) s →
      Reach (reuseStep c) (schedInit jiffies' proc') (s.setTask rid fun _ => d) →
      s.point rid = .detached →
      Always (reusePairStep c) (fun p => SameTasks p ∧ ∀ a, SameAnswer c p a)
        (s.attach c k rid current, (s.setTask rid fun _ => d).attach c k rid current) ops := by
  intro h
  have hrun := h (.small false) 0 0 (fun _ => .fair) (fun _ => .fair) owner.left
    (ownerReserved.left.task 0) 0 1 .accepting
    [(.api (.setPriority 0 50), .accepting), (.api (.sleep 0), .accepting)]
    (reach_left reach_owner (by decide +kernel))
    (left_eq ▸ reach_left reach_ownerReserved (by decide +kernel)) (by decide +kernel)
  obtain ⟨p, hp, hdiffer⟩ := hrun.final_test priosDiffer (by decide +kernel)
  exact of_decide_eq_true hdiffer (hp.1 0).2.1

/-- The condition, as a test -/
def saveAgrees (p : State × State) (a : ReuseOp × Kernel) : Bool :=
  !a.1.readsSave p.1 0 || decide ((p.2.task 0).prioSave = (p.1.task 0).prioSave)

/-- With a reserve of its own the next owner does not see what was saved before. -/
theorem reuse_same_reserved :
    Always (reusePairStep (.small false)) SameTasks
      (owner.left.attach (.small false) .accepting 0 1,
        (owner.left.setTask 0 fun _ => ownerReserved.left.task 0).attach (.small false) .accepting
          0 1)
      [(.api (.setPriority 0 50), .accepting), (.api (.reserveStart 0 10 false), .accepting),
        (.api (.sleep 0), .accepting)] := by
  have hcheck : checkEach (reusePairStep (.small false)) saveAgrees
      (owner.left.attach (.small false) .accepting 0 1,
        (owner.left.setTask 0 fun _ => ownerReserved.left.task 0).attach (.small false) .accepting
          0 1)
      [(.api (.setPriority 0 50), .accepting), (.api (.reserveStart 0 10 false), .accepting),
        (.api (.sleep 0), .accepting)] = true := by decide +kernel
  have hrun := reuse_same (.small false) 0 0 (fun _ => .fair) (fun _ => .fair) owner.left
    (ownerReserved.left.task 0) 0 1 .accepting _ (reach_left reach_owner (by decide +kernel))
    (left_eq ▸ reach_left reach_ownerReserved (by decide +kernel)) (by decide +kernel)
    (by decide +kernel) (Each.of_check (fun p a h hreads => by
      rw [saveAgrees, hreads] at h
      simpa using h) hcheck)
  exact hrun.mono fun _ hp => hp.1

end Resch
