import Resch.Lib.Runs
import Resch.Proof.ApiHooks
import Resch.Proof.Frame
import Resch.Spec.ReserveRun

/-!
# The priority of a task with a reserve

An expired reserve demotes an FP task to `RESCH_PRIO_BACKGROUND`, and a replenishment puts
`prio_save` back if it finds the task active at that level. What each call does to the
priority is stated here exactly (`prio_setScheduler'`, `prio_replenish`,
`prio_reserveExpire`, `prio_jobSuspend`; every other call leaves it alone).

Two things go wrong. `job_complete` takes the task out of its queue before it replenishes
the reserve, so a job that completes while demoted is followed by demoted jobs; and
`prio_save`, written when accounting starts, may be older than the priority last set.
`ApiOp.Restores` is the condition on a step that neither happens.
-/

namespace Resch

open Lib

variable {c : Config} {k : Kernel} {s s' s₁ s₂ : State} {rt q : ℕ} {prio : ℤ} {s₀ : ReserveState}

/-! ## What calls of an FP task leave alone -/

/-- Other descriptors, the places of the processes, and class and policy of the task. -/
structure FpLocal (rt : ℕ) (s s' : State) : Prop where
  other : ∀ q, q ≠ rt → s'.task q = s.task q
  point : s'.point = s.point
  cls : (s'.task rt).cls = (s.task rt).cls
  policy : (s'.task rt).policy = (s.task rt).policy

theorem Updates.fpLocal (h : Updates rt s s') : FpLocal rt s s' :=
  ⟨fun _ hq => h.task_of_ne hq, h.rest.1, h.same.cls, h.same.policy⟩

theorem FpLocal.trans (h : FpLocal rt s s₁) (h' : FpLocal rt s₁ s₂) : FpLocal rt s s₂ :=
  ⟨fun q hq => (h'.other q hq).trans (h.other q hq), h'.point.trans h.point, h'.cls.trans h.cls,
    h'.policy.trans h.policy⟩

theorem fpLocal_link (s : State) (rt cpu : ℕ) (idx : ℤ) (ins : List ℕ → List ℕ) :
    FpLocal rt s (s.link rt cpu idx ins) := by
  refine ⟨fun q hq => task_link_of_ne hq, rfl, ?_, ?_⟩ <;> rw [task_link_self]

/-- The FP class queues a job whether or not the task is queued already. -/
theorem fpLocal_jobRelease (hc : (s.task rt).cls = .fp) (h : jobRelease c s rt = some s') :
    FpLocal rt s s' := by
  rw [jobRelease_eq h]
  have hr : FpLocal rt s (releasedState s rt) := (Updates.refl s).released.fpLocal
  refine hr.trans ?_
  have hcls : classJobStart (releasedState s rt) rt = fpJobStart (releasedState s rt) rt := by
    unfold classJobStart
    rw [hr.cls, hc]
  unfold jobStart
  rw [hcls]
  have hl : FpLocal rt (releasedState s rt) (fpJobStart (releasedState s rt) rt) := by
    unfold fpJobStart fpEnqueueTask enqueueTaskAt
    exact fpLocal_link ..
  dsimp only
  split
  · exact hl.trans (Updates.refl _).startAccount.fpLocal
  · exact hl

theorem fpLocal_jobResume (hc : (s.task rt).cls = .fp) : FpLocal rt s (jobResume s rt) := by
  unfold jobResume classEnqueueTask
  rw [hc]
  dsimp only [fpEnqueueTask, enqueueTaskAt]
  exact fpLocal_link ..

/-! ## What calls do to the priority -/

/-- Moving an FP task in the lists does not write its priority. -/
theorem prio_moveTask (hc : (s.task rt).cls = .fp) :
    ((moveTask s rt prio).task rt).prio = (s.task rt).prio := by
  unfold moveTask
  have h₁ : GlobalOnly s (if s.isManaged rt = true then globalListReinsert s rt else s) := by
    split
    · exact globalListReinsert_only
    · exact .refl s
  generalize (if s.isManaged rt = true then globalListReinsert s rt else s) = s₁ at h₁ ⊢
  dsimp only
  refine Eq.trans ?_ (h₁.prio_eq rt)
  split
  · have hc₁ : (s₁.task rt).cls = .fp := (h₁.same rt).cls.trans hc
    unfold requeueTask
    dsimp only
    rw [task_classEnqueue, task_classDequeue]
    simp [hc₁]
  · rfl

/-- `__set_scheduler` of an FP task sets the priority if Linux accepts it. -/
theorem prio_setScheduler' (hc : (s.task rt).cls = .fp) :
    ((setScheduler' c k s rt prio).1.task rt).prio =
      if k.setscheduler .fifo prio = true then prio else (s.task rt).prio := by
  have hclass : classSetScheduler c k s rt prio = setSchedulerAs k .fifo s rt prio := by
    unfold classSetScheduler
    rw [hc]; rfl
  rw [setScheduler'_as hclass]
  split
  · split
    · assumption
    · refine (prio_moveTask ?_).trans ?_ <;> rw [task_setPrio_self]
      exact hc
  · rfl

/-- What a replenishment leaves as the priority. -/
def replenished (k : Kernel) (s : State) (rt : ℕ) : ℤ :=
  if (s.task rt).prio = reschPrioBackground ∧ s.isActive rt = true ∧
    k.setscheduler .fifo (s.task rt).prioSave = true then (s.task rt).prioSave
  else (s.task rt).prio

theorem prio_replenish (hc : (s.task rt).cls = .fp) (cputime : ℕ) :
    ((classReserveReplenish c k s rt cputime).task rt).prio = replenished k s rt := by
  have hcls : classReserveReplenish c k s rt cputime = fpReserveReplenish c k s rt cputime := by
    unfold classReserveReplenish
    rw [hc]
  rw [hcls]
  unfold fpReserveReplenish
  have hact : (s.setTask rt fun t => { t with budget := t.budget + cputime }).isActive rt =
      s.isActive rt := setTask_field (·.activeEntry) (by rfl) rt
  simp only [task_setTask_self, hact]
  unfold replenished
  by_cases h : (s.task rt).prio = reschPrioBackground ∧ s.isActive rt = true
  · rw [if_pos h]
    refine (prio_setScheduler' (by simpa using hc)).trans ?_
    simp [h]
  · rw [if_neg h, if_neg fun h' => h ⟨h'.1, h'.2.1⟩, task_setTask_self]

/-- An expiration replenishes the reserve if that is due, and else demotes the task. -/
theorem prio_reserveExpire (hc : (s.task rt).cls = .fp) :
    ((apiReserveExpire c k s rt).1.task rt).prio =
      if s.hasReserve rt = false then (s.task rt).prio
      else if (s.task rt).releaseTime + (s.task rt).period ≤ s.jiffies then replenished k s rt
      else if k.setscheduler .fifo reschPrioBackground = true then reschPrioBackground
      else (s.task rt).prio := by
  unfold apiReserveExpire
  by_cases hr : s.hasReserve rt = true
  swap
  · simp [hr]
  simp only [hr, Bool.not_true, Bool.false_eq_true, if_false, Bool.true_eq_false]
  have h₁ : (∃ b a v, (if s.isAccounting rt = true then stopAccount c s rt else s).task rt =
      { s.task rt with budget := b, accounting := a, server := v }) ∧
      (if s.isAccounting rt = true then stopAccount c s rt else s).jiffies = s.jiffies := by
    split
    · obtain ⟨⟨b, a, ht⟩, hj⟩ := stopAccount_task c s rt
      exact ⟨⟨b, a, none, ht⟩, hj⟩
    · exact ⟨⟨_, _, _, rfl⟩, rfl⟩
  generalize (if s.isAccounting rt = true then stopAccount c s rt else s) = s₁ at h₁ ⊢
  obtain ⟨⟨b, a, v, ht⟩, hj⟩ := h₁
  have hc₁ : (s₁.task rt).cls = .fp := by rw [ht]; exact hc
  have hrep : replenished k s₁ rt = replenished k s rt := by
    unfold replenished State.isActive
    rw [ht]
  have hnext : (s₁.task rt).releaseTime + (s₁.task rt).period =
      (s.task rt).releaseTime + (s.task rt).period := by rw [ht]
  rw [hnext, hj]
  by_cases hlate : (s.task rt).releaseTime + (s.task rt).period ≤ s.jiffies
  · rw [if_pos hlate, if_pos hlate]
    refine (prio_of_frame (startAccount_accounts.frame _ _) rt).trans ?_
    exact (prio_replenish hc₁ _).trans hrep
  · rw [if_neg hlate, if_neg hlate]
    dsimp only
    rw [task_setTask_self]
    unfold classReserveExpire
    rw [hc₁]
    refine (prio_setScheduler' hc₁).trans ?_
    rw [ht]

/-- The replenish timer. -/
theorem prio_onReplenish (hc : (s.task rt).cls = .fp) :
    ((onReplenish c k s rt).task rt).prio = replenished k s rt := by
  unfold onReplenish
  refine (prio_replenish (by simpa using hc) _).trans ?_
  unfold replenished State.isActive
  rw [task_setTask_self]

/-- Putting a task to sleep puts `prio_save` back if Linux accepts it. -/
theorem prio_jobSuspend (hc : (s.task rt).cls = .fp) :
    ((jobSuspend c k s rt).task rt).prio =
      if k.setscheduler .fifo (s.task rt).prioSave = true then (s.task rt).prioSave
      else (s.task rt).prio := by
  have hdeq : ∀ s₁ : State, ∀ p cpu, ((classDequeueTask s₁ rt p cpu).task rt).prio = (s₁.task rt).prio := by
    intro s₁ p cpu
    rw [task_classDequeue]
    split <;> rfl
  unfold jobSuspend
  dsimp only
  rw [hdeq]
  split
  · rw [setScheduler_fst, setPolicy_same, prio_setScheduler' hc]
  · rename_i h
    rw [not_not] at h
    rw [h]
    split <;> rfl

/-- Completing a job does not touch the priority: when the reserve is replenished, the task
is not active any more. -/
theorem prio_jobComplete (hc : (s.task rt).cls = .fp) :
    ((jobComplete c k s rt).task rt).prio = (s.task rt).prio := by
  have hrep : ∀ s₁ : State, (s₁.task rt).cls = .fp → s₁.isActive rt = false →
      ((reserveReplenish c k s₁ rt).task rt).prio = (s₁.task rt).prio := by
    intro s₁ hc₁ hi
    have hno : replenished k s₁ rt = (s₁.task rt).prio := by
      unfold replenished
      rw [if_neg]
      simp [hi]
    unfold reserveReplenish
    dsimp only
    rw [task_setTask_self]
    split
    · exact (prio_replenish hc₁ _).trans hno
    · rfl
  have hdone : ∀ s₁ : State, (s₁.task rt).cls = .fp →
      ((if (classJobComplete s₁ rt).hasReserve rt = true then
        reserveReplenish c k (stopAccount c (classJobComplete s₁ rt) rt) rt
        else classJobComplete s₁ rt).task rt).prio = (s₁.task rt).prio := by
    intro s₁ hc₁
    have hclass : classJobComplete s₁ rt =
        s₁.unlink rt (s₁.task rt).cpuId (prioIndex (s₁.task rt).prio) := by
      unfold classJobComplete
      rw [hc₁]; rfl
    rw [hclass]
    set s₂ := s₁.unlink rt (s₁.task rt).cpuId (prioIndex (s₁.task rt).prio) with hs₂
    have ht : s₂.task rt = { s₁.task rt with activeEntry := false } := task_unlink_self
    have hf : (stopAccount c s₂ rt).frame = s₂.frame := stopAccount_accounts.frame s₂ rt
    split
    · refine (hrep _ ?_ ?_).trans ?_
      · rw [(Updates.refl s₂).stopAccount.same.cls, ht]; exact hc₁
      · rw [isActive_of_frame hf]; simp [State.isActive, ht]
      · rw [prio_of_frame hf, ht]
    · rw [ht]
  unfold jobComplete
  dsimp only
  refine (hdone _ ?_).trans ?_
  · split
    · simpa using hc
    · exact hc
  · split
    · simp
    · rfl

theorem prio_jobReleaseWait (s : State) (rt releaseTime : ℕ) :
    ((jobReleaseWait s rt releaseTime).task rt).prio = (s.task rt).prio := by
  have hset : ((s.setTask rt fun t => { t with releaseTime := releaseTime }).task rt).prio =
      (s.task rt).prio := by rw [task_setTask_self]
  unfold jobReleaseWait
  dsimp only
  split
  · exact hset
  · split <;> exact hset
  · split <;> exact hset
  · exact hset

theorem prio_apiRun (c : Config) (s : State) (rt timeout : ℕ) :
    ((apiRun c s rt timeout).task rt).prio = (s.task rt).prio := by
  unfold apiRun
  dsimp only
  rw [prio_jobReleaseWait]
  split
  · exact (globalListRemove_only.prio_eq rt).trans (globalListInsert_only.prio_eq rt)
  · exact globalListInsert_only.prio_eq rt

theorem prio_apiWaitForPeriod (hc : (s.task rt).cls = .fp) :
    ((apiWaitForPeriod c k s rt).1.task rt).prio = (s.task rt).prio := by
  unfold apiWaitForPeriod
  dsimp only
  rw [prio_jobReleaseWait]
  refine (prio_jobComplete ?_).trans ?_
  · simpa [deadlineMiss] using hc
  · simp [deadlineMiss]

theorem prio_jobRelease (hc : (s.task rt).cls = .fp) (h : jobRelease c s rt = some s') :
    (s'.task rt).prio = (s.task rt).prio := by
  have hr : ((releasedState s rt).task rt).prio = (s.task rt).prio := by
    simp [releasedState, resetExecTime, setRunState]
  have hclass : classJobStart (releasedState s rt) rt = fpJobStart (releasedState s rt) rt := by
    unfold classJobStart
    rw [(releasedState_keeps s rt).cls, hc]
  have hjob : ((fpJobStart (releasedState s rt) rt).task rt).prio = (s.task rt).prio := by
    unfold fpJobStart fpEnqueueTask enqueueTaskAt
    rw [task_link_self]; exact hr
  rw [jobRelease_eq h]
  unfold jobStart
  rw [hclass]
  dsimp only
  split
  · exact (prio_of_frame (startAccount_accounts.frame _ _) rt).trans hjob
  · exact hjob

theorem prio_jobResume (hc : (s.task rt).cls = .fp) :
    ((jobResume s rt).task rt).prio = (s.task rt).prio := by
  unfold jobResume
  rw [task_classEnqueue, hc]

theorem setScheduler'_ok (hc : (s.task rt).cls = .fp) :
    (setScheduler' c k s rt prio).2 = k.setscheduler .fifo prio := by
  have hclass : classSetScheduler c k s rt prio = setSchedulerAs k .fifo s rt prio := by
    unfold classSetScheduler
    rw [hc]; rfl
  rw [setScheduler'_as hclass]
  split
  · rename_i hk
    split <;> exact hk.symm
  · rename_i hk
    exact (Bool.eq_false_iff.2 hk).symm

/-- `api_set_priority` of an FP task sets the priority if Linux accepts it; it reports failure
only to a caller with `CAP_SYS_NICE`. -/
theorem apiSetPriority_fp (c : Config) (k : Kernel) (prio : ℤ) (hc : (s.task rt).cls = .fp)
    (hp : (s.task rt).policy = reschSchedFp) :
    ((apiSetPriority c k s rt prio).1.task rt).prio =
        (if k.setscheduler .fifo prio = true then prio else (s.task rt).prio) ∧
      ((apiSetPriority c k s rt prio).2 = resSuccess ↔
        k.capable = false ∨ k.setscheduler .fifo prio = true) := by
  have hpol : ¬ ((s.task rt).policy = reschSchedEdf ∨ (s.task rt).policy = reschSchedFair) := by
    rw [hp]; decide
  have hstate : (apiSetPriority c k s rt prio).1 =
      (setScheduler c k s rt (s.task rt).policy prio).1 := by
    unfold apiSetPriority
    rw [if_neg hpol]
    dsimp only
    split <;> rfl
  have hres : (apiSetPriority c k s rt prio).2 =
      if (setScheduler c k s rt (s.task rt).policy prio).2 = true then resSuccess else resFault := by
    unfold apiSetPriority
    rw [if_neg hpol]
    dsimp only
    split <;> rfl
  have hok : (setScheduler c k s rt (s.task rt).policy prio).2 =
      (!k.capable || k.setscheduler .fifo prio) := by
    unfold setScheduler
    rw [setPolicy_same]
    cases hk : k.capable
    · rfl
    · simpa using setScheduler'_ok hc
  refine ⟨?_, ?_⟩
  · rw [hstate, setScheduler_fst, setPolicy_same, prio_setScheduler' hc]
  · rw [hres, hok]
    cases k.capable <;> cases k.setscheduler .fifo prio <;> decide

/-! ## The step lemma -/

/-- A task has the priority last set, or is demoted; demoted only within its own code. -/
structure PrioOk (s : ReserveState) (rt : ℕ) : Prop where
  cls : (s.core.task rt).cls = .fp
  policy : (s.core.task rt).policy = reschSchedFp
  prio : (s.core.task rt).prio = s.prioSet rt ∨
    (s.core.point rt = .user ∧ (s.core.task rt).prio = reschPrioBackground)

/-- The invariant. -/
def PrioInv (s : ReserveState) : Prop := ∀ rt, s.core.Attached rt → PrioOk s rt

/-- `rt` runs at the background level without having asked for it. -/
def ReserveState.Demoted (s : ReserveState) (rt : ℕ) : Prop :=
  (s.core.task rt).prio = reschPrioBackground ∧ s.prioSet rt ≠ reschPrioBackground

/-- A replenishment that puts `prio_save` back puts the priority last set back, or leaves
the task demoted. -/
def ReserveState.SavedOk (k : Kernel) (s : ReserveState) (rt : ℕ) : Prop :=
  (s.core.task rt).prio = reschPrioBackground → s.core.isActive rt = true →
    k.setscheduler .fifo (s.core.task rt).prioSave = true →
    (s.core.task rt).prioSave = s.prioSet rt ∨ (s.core.task rt).prioSave = reschPrioBackground

/-- The condition on a step: no job ends while the task is demoted, what a replenishment or a
sleep puts back is the priority last set, and no unprivileged caller asks for a priority
that Linux refuses. -/
def ApiOp.Restores (k : Kernel) (s : ReserveState) : ApiOp → Prop
  | run rt _ | waitForPeriod rt => ¬ s.Demoted rt
  | setPriority _ prio => k.capable = true ∨ k.setscheduler .fifo prio = true
  | replenishTimer rt => s.SavedOk k rt
  | reserveExpire rt =>
    (s.core.task rt).releaseTime + (s.core.task rt).period ≤ s.core.jiffies → s.SavedOk k rt
  | sleep rt | suspend rt =>
    if k.setscheduler .fifo (s.core.task rt).prioSave = true then
      (s.core.task rt).prioSave = s.prioSet rt
    else ¬ s.Demoted rt
  | _ => True

instance (s : ReserveState) (rt : ℕ) : Decidable (s.Demoted rt) := inferInstanceAs (Decidable (_ ∧ _))

instance (k : Kernel) (s : ReserveState) (rt : ℕ) : Decidable (s.SavedOk k rt) :=
  inferInstanceAs (Decidable ((s.core.task rt).prio = reschPrioBackground → _ = true → _ = true → _ ∨ _))

instance (k : Kernel) (s : ReserveState) : (op : ApiOp) → Decidable (op.Restores k s)
  | .run rt _ | .waitForPeriod rt => inferInstanceAs (Decidable ¬ s.Demoted rt)
  | .setPriority _ _ => inferInstanceAs (Decidable (_ ∨ _))
  | .replenishTimer rt => inferInstanceAs (Decidable (s.SavedOk k rt))
  | .reserveExpire rt => inferInstanceAs (Decidable (_ ≤ _ → s.SavedOk k rt))
  | .sleep rt | .suspend rt => inferInstanceAs (Decidable (if _ = true then _ = _ else ¬ s.Demoted rt))
  | .init _ _ | .exit _ | .waitForInterval _ _ | .release _ | .setPeriod _ _ | .setDeadline _ _
  | .setWcet _ _ | .setRuntime _ _ | .setScheduler _ _ | .background _ | .reserveStart _ _ _
  | .reserveStop _ | .componentCreate | .componentDestroy _ | .compose _ _ | .decompose _
  | .resume _ | .wakeUp _ | .migrate _ _ | .linux _ _ => inferInstanceAs (Decidable True)

/-- A job starts, or a task resumes, at the priority last set. -/
def ApiOp.StartsRight (s : ReserveState) : ApiOp → Prop
  | release rt | resume rt => (s.core.task rt).prio = s.prioSet rt
  | _ => True

instance (s : ReserveState) : (op : ApiOp) → Decidable (op.StartsRight s)
  | .release _ | .resume _ => inferInstanceAs (Decidable (_ = _))
  | .init _ _ | .exit _ | .run _ _ | .waitForPeriod _ | .waitForInterval _ _ | .setPeriod _ _
  | .setDeadline _ _ | .setWcet _ _ | .setRuntime _ _ | .setPriority _ _ | .setScheduler _ _
  | .background _ | .reserveStart _ _ _ | .reserveStop _ | .reserveExpire _ | .replenishTimer _
  | .componentCreate | .componentDestroy _ | .compose _ _ | .decompose _ | .sleep _ | .suspend _
  | .wakeUp _ | .migrate _ _ | .linux _ _ => inferInstanceAs (Decidable True)

/-- **What a step on behalf of `rt` has to establish.** -/
theorem PrioInv.of_local (h : PrioInv s₀) (ha : s₀.core.Attached rt) (hl : FpLocal rt s₀.core s)
    {p : Point} {m : ℤ}
    (hm : (s.task rt).prio = m ∨ (p = .user ∧ (s.task rt).prio = reschPrioBackground)) :
    PrioInv ⟨s.setPoint rt p, Function.update s₀.prioSet rt m⟩ := by
  intro q hq
  by_cases hqr : q = rt
  · subst hqr
    have hok := h q ha
    refine ⟨hl.cls.trans hok.cls, hl.policy.trans hok.policy, ?_⟩
    simpa [State.setPoint] using hm
  · have hpoint : (s.setPoint rt p).point q = s₀.core.point q := by
      simp [State.setPoint, hqr, hl.point]
    have htask : (s.setPoint rt p).task q = s₀.core.task q := hl.other q hqr
    have hok := h q (by unfold State.Attached at hq ⊢; rwa [hpoint] at hq)
    refine ⟨?_, ?_, ?_⟩
    · rw [htask]; exact hok.cls
    · rw [htask]; exact hok.policy
    · have hset : Function.update s₀.prioSet rt m q = s₀.prioSet q := Function.update_of_ne hqr _ _
      dsimp only
      rw [htask, hpoint, hset]; exact hok.prio

/-- A step that sets no priority. -/
theorem PrioInv.keep (h : PrioInv s₀) (ha : s₀.core.Attached rt) (hl : FpLocal rt s₀.core s)
    {p : Point} (hm : (s.task rt).prio = s₀.prioSet rt ∨
      (p = .user ∧ (s.task rt).prio = reschPrioBackground)) :
    PrioInv ⟨s.setPoint rt p, s₀.prioSet⟩ := by
  have := h.of_local ha hl hm
  rwa [Function.update_eq_self] at this

/-- A step that changes neither the priority nor the place of the process. -/
theorem PrioInv.stay (h : PrioInv s₀) (ha : s₀.core.Attached rt) (hu : Updates rt s₀.core s)
    (hm : (s.task rt).prio = (s₀.core.task rt).prio) : PrioInv ⟨s, s₀.prioSet⟩ := by
  have hp := (h rt ha).prio
  have := h.keep ha hu.fpLocal (p := s₀.core.point rt) (by rw [hm]; exact hp)
  rwa [← hu.rest.1, setPoint_same] at this

/-- What a replenishment leaves, if what it puts back is right. -/
theorem PrioOk.replenished (h : PrioOk s₀ rt) (hs : s₀.SavedOk k rt) :
    replenished k s₀.core rt = s₀.prioSet rt ∨
      (s₀.core.point rt = .user ∧ replenished k s₀.core rt = reschPrioBackground) := by
  unfold Resch.replenished
  split
  · rename_i hr
    rcases hs hr.1 hr.2.1 hr.2.2 with hsave | hsave
    · exact Or.inl hsave
    · rcases h.prio with hp | hp
      · exact Or.inl (hsave.trans (hr.1.symm.trans hp))
      · exact Or.inr ⟨hp.1, hsave⟩
  · exact h.prio

theorem PrioOk.eq_of_not_demoted (h : PrioOk s₀ rt) (hd : ¬ s₀.Demoted rt) :
    (s₀.core.task rt).prio = s₀.prioSet rt := by
  rcases h.prio with hp | hp
  · exact hp
  · by_contra hne
    refine hd ⟨hp.2, fun hset => hne ?_⟩
    rw [hp.2, hset]

/-- What a sleep leaves. -/
theorem PrioOk.suspended (h : PrioOk s₀ rt)
    (hr : if k.setscheduler .fifo (s₀.core.task rt).prioSave = true then
      (s₀.core.task rt).prioSave = s₀.prioSet rt else ¬ s₀.Demoted rt) :
    ((jobSuspend c k s₀.core rt).task rt).prio = s₀.prioSet rt := by
  rw [prio_jobSuspend h.cls]
  split
  · rename_i hk
    rwa [if_pos hk] at hr
  · rename_i hk
    rw [if_neg hk] at hr
    exact h.eq_of_not_demoted hr

/-- **The step lemma.** -/
theorem PrioInv.step (h : PrioInv s₀) {a : ApiOp × Kernel} {s₁ : ReserveState}
    (hr : a.1.Restores a.2 s₀) (hs : reserveStep c s₀ a = some s₁) : PrioInv s₁ := by
  obtain ⟨op, k⟩ := a
  unfold reserveStep apiStep at hs
  obtain ⟨core, hcore, rfl⟩ := Option.map_eq_some_iff.1 hs
  split at hcore
  swap
  · cases hcore
  rename_i hen
  rw [Bool.and_eq_true] at hen
  obtain ⟨hcall, hen⟩ := hen
  have user : ∀ {rt}, s₀.core.point rt = .user → s₀.core.Attached rt := fun h => by
    unfold State.Attached; rw [h]; decide
  -- the calls that only set a parameter
  have data : ∀ (rt : ℕ) (f : Task → Task), (∀ t : Task, t.Keeps (f t) ∧ (f t).prio = t.prio) →
      s₀.core.point rt = .user → PrioInv ⟨s₀.core.setTask rt f, s₀.prioSet⟩ := by
    intro rt f hf hp
    refine h.stay (user hp) ((Updates.refl _).setTask (hf _).1) ?_
    rw [task_setTask_self]; exact (hf _).2
  cases op with
  | init rt current =>
    cases hcore
    obtain ⟨t, proc, heq, ht, -⟩ := reschTaskInit_eq c k s₀.core rt current
    intro q hq
    -- `rt` starts with the default priority, the others are not written
    by_cases hqr : q = rt
    · subst hqr
      refine ⟨?_, ?_, Or.inl ?_⟩ <;> simp [State.setPoint, heq, ht.cls, ht.policy, ht.prio, ApiOp.prioSet]
    · have hok := h q (by simpa [State.Attached, State.setPoint, heq, hqr] using hq)
      refine ⟨?_, ?_, ?_⟩ <;> simp only [State.setPoint, heq, ApiOp.prioSet, Function.update_of_ne hqr]
      · exact hok.cls
      · exact hok.policy
      · exact hok.prio
  | setPeriod rt period =>
    cases hcore
    exact data rt _ (fun _ => ⟨⟨rfl, rfl, rfl, rfl, rfl, rfl⟩, rfl⟩) (of_decide_eq_true hen)
  | setDeadline rt deadline =>
    cases hcore
    exact data rt _ (fun _ => ⟨⟨rfl, rfl, rfl, rfl, rfl, rfl⟩, rfl⟩) (of_decide_eq_true hen)
  | setWcet rt wcet =>
    cases hcore
    exact data rt _ (fun _ => ⟨⟨rfl, rfl, rfl, rfl, rfl, rfl⟩, rfl⟩) (of_decide_eq_true hen)
  | setRuntime rt runtime =>
    cases hcore
    exact data rt _ (fun _ => ⟨⟨rfl, rfl, rfl, rfl, rfl, rfl⟩, rfl⟩) (of_decide_eq_true hen)
  | setPriority rt prio =>
    cases hcore
    have hp : s₀.core.point rt = .user := of_decide_eq_true hen
    have hok := h rt (user hp)
    have hu : Updates rt s₀.core (apiSetPriority c k s₀.core rt prio).1 := (Updates.refl _).apiSetPriority
    obtain ⟨hprio, hres⟩ := apiSetPriority_fp c k prio hok.cls hok.policy
    -- `prioSet` takes the priority exactly when the call succeeds
    by_cases hk : k.setscheduler .fifo prio = true
    · have hset : (ApiOp.setPriority rt prio).prioSet c k s₀ = Function.update s₀.prioSet rt prio :=
        if_pos (hres.2 (Or.inr hk))
      rw [if_pos hk] at hprio
      have := h.of_local (user hp) hu.fpLocal (p := s₀.core.point rt) (Or.inl hprio)
      dsimp only
      rwa [← hu.rest.1, setPoint_same, ← hset] at this
    · have hset : (ApiOp.setPriority rt prio).prioSet c k s₀ = s₀.prioSet := by
        refine if_neg fun hsucc => ?_
        rcases hres.1 hsucc with hcap | hk'
        · rw [hr.resolve_right hk] at hcap; cases hcap
        · exact hk hk'
      rw [if_neg hk] at hprio
      dsimp only
      rw [hset]
      exact h.stay (user hp) hu hprio
  | reserveStart rt cputime xcpu =>
    cases hcore
    have hp : s₀.core.point rt = .user := of_decide_eq_true hen
    refine h.stay (user hp) ((Updates.refl _).apiReserveStart cputime xcpu) ?_
    unfold apiReserveStart
    split
    · rfl
    · refine (prio_of_frame (startAccount_accounts.frame _ _) rt).trans ?_
      rw [task_setTask_self]
  | run rt timeout =>
    cases hcore
    have hp : s₀.core.point rt = .user := of_decide_eq_true hen
    have hok := h rt (user hp)
    refine h.keep (user hp) ((Updates.refl _).apiRun timeout).fpLocal (Or.inl ?_)
    exact (prio_apiRun c _ rt timeout).trans (hok.eq_of_not_demoted hr)
  | release rt =>
    obtain ⟨s, hjob, rfl⟩ := Option.map_eq_some_iff.1 hcore
    have hp : s₀.core.point rt = .release := of_decide_eq_true hen
    have ha : s₀.core.Attached rt := by unfold State.Attached; rw [hp]; decide
    have hok := h rt ha
    refine h.keep ha (fpLocal_jobRelease hok.cls hjob) (Or.inl ?_)
    rw [prio_jobRelease hok.cls hjob]
    exact hok.prio.resolve_right fun h' => by rw [hp] at h'; cases h'.1
  | reserveExpire rt =>
    cases hcore
    have hp : s₀.core.point rt = .user := of_decide_eq_true hen
    have hok := h rt (user hp)
    have hu : Updates rt s₀.core (apiReserveExpire c k s₀.core rt).1 :=
      (Updates.refl _).apiReserveExpire
    -- either the priority that was set, or the background level until the reserve is replenished
    have hm : ((apiReserveExpire c k s₀.core rt).1.task rt).prio = s₀.prioSet rt ∨
        (s₀.core.point rt = .user ∧
          ((apiReserveExpire c k s₀.core rt).1.task rt).prio = reschPrioBackground) := by
      rw [prio_reserveExpire hok.cls]
      split
      · exact hok.prio
      · split
        · exact hok.replenished (hr ‹_›)
        · split
          · exact Or.inr ⟨hp, rfl⟩
          · exact hok.prio
    have := h.keep (user hp) hu.fpLocal (p := s₀.core.point rt) hm
    rwa [← hu.rest.1, setPoint_same] at this
  | replenishTimer rt =>
    cases hcore
    have ha : s₀.core.Attached rt := by
      simp only [ApiOp.enabled, Bool.and_eq_true, decide_eq_true_eq] at hen
      exact hen.1
    have hok := h rt ha
    have hu : Updates rt s₀.core (onReplenish c k s₀.core rt) := (Updates.refl _).onReplenish
    have hm := hok.replenished hr
    rw [← prio_onReplenish (c := c) hok.cls] at hm
    have := h.keep ha hu.fpLocal (p := s₀.core.point rt) hm
    rwa [← hu.rest.1, setPoint_same] at this
  | waitForPeriod rt =>
    cases hcore
    have hp : s₀.core.point rt = .user := of_decide_eq_true hen
    have hok := h rt (user hp)
    refine h.keep (user hp) (Updates.refl _).apiWaitForPeriod.fpLocal (Or.inl ?_)
    exact (prio_apiWaitForPeriod hok.cls).trans (hok.eq_of_not_demoted hr)
  | sleep rt =>
    cases hcore
    have hp : s₀.core.point rt = .user := of_decide_eq_true hen
    exact h.keep (user hp) (Updates.refl _).jobSuspend.fpLocal (Or.inl ((h rt (user hp)).suspended hr))
  | suspend rt =>
    cases hcore
    have hp : s₀.core.point rt = .user := of_decide_eq_true hen
    exact h.keep (user hp) (Updates.refl _).jobSuspend.setProc.fpLocal
      (Or.inl ((h rt (user hp)).suspended hr))
  | resume rt =>
    cases hcore
    have hp : s₀.core.point rt = .suspend := of_decide_eq_true hen
    have ha : s₀.core.Attached rt := by unfold State.Attached; rw [hp]; decide
    have hok := h rt ha
    refine h.keep ha (fpLocal_jobResume hok.cls) (Or.inl ?_)
    rw [prio_jobResume hok.cls]
    -- a task in suspension is not in user mode, so it has not been demoted
    exact hok.prio.resolve_right fun h' => by rw [hp] at h'; cases h'.1
  | linux jiffies proc =>
    cases hcore
    exact fun rt ha => ⟨(h rt ha).cls, (h rt ha).policy, (h rt ha).prio⟩
  | _ => cases hcall

theorem PrioInv.startsRight (h : PrioInv s₀) {a : ApiOp × Kernel} {s₁ : ReserveState}
    (hs : reserveStep c s₀ a = some s₁) : a.1.StartsRight s₁ := by
  obtain ⟨op, k⟩ := a
  unfold reserveStep apiStep at hs
  obtain ⟨core, hcore, rfl⟩ := Option.map_eq_some_iff.1 hs
  split at hcore
  swap
  · cases hcore
  rename_i hen
  rw [Bool.and_eq_true] at hen
  cases op with
  | release rt =>
    obtain ⟨s, hjob, rfl⟩ := Option.map_eq_some_iff.1 hcore
    have hp : s₀.core.point rt = .release := of_decide_eq_true hen.2
    have hok := h rt (by unfold State.Attached; rw [hp]; decide)
    refine (prio_jobRelease hok.cls hjob).trans ?_
    exact hok.prio.resolve_right fun h' => by rw [hp] at h'; cases h'.1
  | resume rt =>
    cases hcore
    have hp : s₀.core.point rt = .suspend := of_decide_eq_true hen.2
    have hok := h rt (by unfold State.Attached; rw [hp]; decide)
    refine (prio_jobResume hok.cls).trans ?_
    exact hok.prio.resolve_right fun h' => by rw [hp] at h'; cases h'.1
  | _ => trivial

/-! ## Runs -/

theorem reserveInit_inv (jiffies : ℕ) (proc : ℕ → Proc) : PrioInv (reserveInit jiffies proc) :=
  fun _ ha => absurd rfl ha

/-- **Jobs start, and tasks resume, at the priority last set**, in every run whose steps all
restore it. -/
theorem reserveStep_startsRight (c : Config) (jiffies : ℕ) (proc : ℕ → Proc)
    (run : List (ApiOp × Kernel))
    (h : Each (reserveStep c) (fun s a => a.1.Restores a.2 s) (reserveInit jiffies proc) run) :
    Each (reserveStep c) (fun s a => ∀ s', reserveStep c s a = some s' → a.1.StartsRight s')
      (reserveInit jiffies proc) run := by
  refine Each.of_inv (I := PrioInv) ?_ run _ (reserveInit_inv jiffies proc) h
  intro s a s' hi hr hs
  exact ⟨hi.step hr hs, fun s'' hs' => hi.startsRight hs'⟩

/-- A reserve that expires in a job and is replenished by the timer before the job ends. -/
theorem reserveStep_startsRight_timer :
    Each (reserveStep (.small false))
      (fun s a => ∀ s', reserveStep (.small false) s a = some s' → a.1.StartsRight s')
      (reserveInit 0 fun _ => .fair)
      [(.init 0 1, .accepting), (.setPriority 0 50, .accepting), (.setPeriod 0 10, .accepting),
        (.reserveStart 0 5 false, .accepting), (.run 0 0, .accepting), (.release 0, .accepting),
        (.reserveExpire 0, .accepting), (.linux 10 fun _ => .fair, .accepting),
        (.replenishTimer 0, .accepting), (.waitForPeriod 0, .accepting), (.release 0, .accepting)] :=
  reserveStep_startsRight (.small false) 0 (fun _ => .fair) _
    (Each.of_check (fun _ _ => of_decide_eq_true) (by decide +kernel))

/-- A job that completes before its expired reserve is replenished: the next job starts at
the background level. -/
theorem reserveStep_not_startsRight :
    ¬ Each (reserveStep (.small false))
      (fun s a => ∀ s', reserveStep (.small false) s a = some s' → a.1.StartsRight s')
      (reserveInit 0 fun _ => .fair)
      [(.init 0 1, .accepting), (.setPriority 0 50, .accepting), (.setPeriod 0 10, .accepting),
        (.reserveStart 0 5 false, .accepting), (.run 0 0, .accepting), (.release 0, .accepting),
        (.reserveExpire 0, .accepting), (.waitForPeriod 0, .accepting), (.release 0, .accepting)] := by
  intro h
  refine absurd (h.check (fun s a => (reserveStep (.small false) s a).all fun s' =>
    decide (a.1.StartsRight s')) fun s a hc => ?_) (by decide +kernel)
  rw [Option.all_eq_true]
  exact fun s' hs' => decide_eq_true (hc s' hs')

end Resch
