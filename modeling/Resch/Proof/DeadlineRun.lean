import Resch.Lib.Runs
import Resch.Proof.Hooks
import Resch.Proof.Place

/-!
# The active queues under `SCHED_DEADLINE`

The EDF class of `sched_deadline.c` queues every task at the level of `RESCH_PRIO_EDF`,
whatever `rt->prio` is. The shared functions, `requeue_task` and `job_suspend`, look at
the level of `rt->prio`. In a system of EDF tasks the two never meet as long as no task
sleeps (`EdfInv`); the first sleep puts the unset `prio_save` into `rt->prio`, and the
level of priority `0` is not one of the queue (`edfSuspend_out_of_range`).
-/

namespace Resch

open Lib

variable {c : Config} {k : Kernel} {s s' : State} {rt q cpu : ℕ} {prio : ℤ}

/-- Bitmaps agree with the queues, every level used so far is one of the queue, and every
dequeue so far was told the level that its task was in. -/
structure LevelsOk (s : State) : Prop where
  bits : ∀ cpu i, 0 ≤ i → i < reschPrioMax →
    (testBit i (s.lo cpu).bitmap = true ↔ (s.lo cpu).queue i ≠ [])
  access : ∀ a ∈ s.trace, (0 ≤ a.idx ∧ a.idx < reschPrioMax) ∧ a.hit = true

/-- The level of all tasks of the class. -/
def edfLevel (_prio : ℤ) : ℤ := prioIndex reschPrioEdf

/-- The descriptor of an attached task, before and after it is made an EDF task. -/
structure EdfTask (t : Task) : Prop where
  prio : t.prio = reschPrioMin
  save : t.prioSave = 0
  reserve : t.reserveTime = 0
  task : t.task ≠ 0
  cls : t.policy = reschSchedEdf → t.cls = .deadline

/-- What holds in runs in which no task sleeps. -/
structure EdfInv (s : State) : Prop where
  queued : Queued s (s.placeAt edfLevel)
  attached : ∀ q, s.Attached q → EdfTask (s.task q)
  save : ∀ q, (s.task q).prioSave = 0
  idle : ∀ q, s.point q = .detached → s.isActive q = false
  awake : ∀ q, s.point q = .detached ∨ s.point q = .user

/-- The process goes to sleep in its job. -/
def CoreOp.Sleeps : CoreOp → Prop
  | suspend _ => True
  | _ => False

theorem edfLevel_range (prio : ℤ) : 0 ≤ edfLevel prio ∧ edfLevel prio < reschPrioMax := by
  unfold edfLevel; decide

/-- One step of `rt`, after which its process is in its own code. -/
theorem EdfInv.step (hI : EdfInv s) (hq : Queued s' (s'.placeAt edfLevel))
    (ht : ∀ q, q ≠ rt → s'.task q = s.task q) (hp : ∀ q, q ≠ rt → s'.point q = s.point q)
    (hok : EdfTask (s'.task rt)) (hpt : s'.point rt = .user) : EdfInv s' := by
  refine ⟨hq, fun q ha => ?_, fun q => ?_, fun q hd => ?_, fun q => ?_⟩ <;>
    by_cases hqr : q = rt
  · subst hqr; exact hok
  · unfold State.Attached at ha
    rw [hp q hqr] at ha
    rw [ht q hqr]; exact hI.attached q ha
  · subst hqr; exact hok.save
  · rw [ht q hqr]; exact hI.save q
  · subst hqr; rw [hpt] at hd; cases hd
  · unfold State.isActive
    rw [ht q hqr]
    rw [hp q hqr] at hd
    exact hI.idle q hd
  · subst hqr; exact Or.inr hpt
  · rw [hp q hqr]; exact hI.awake q

/-- A hook of an attached task. -/
theorem EdfInv.hook (hI : EdfInv s) (ha : s.Attached rt) (hu : Updates rt s s')
    (hq : Queued s' (s'.placeAt edfLevel)) (hok : EdfTask (s'.task rt)) : EdfInv s' :=
  hI.step hq (fun _ => hu.task_of_ne) (fun q _ => congrFun hu.rest.1 q) hok
    ((congrFun hu.rest.1 rt).trans ((hI.awake rt).resolve_left ha))

/-! ## The hooks of the class -/

theorem EdfTask.jobStart (ht : EdfTask (s.task rt))
    (hpol : (s.task rt).policy = reschSchedEdf) :
    jobStart c s rt = Deadline.edfEnqueueTask s rt reschPrioEdf (s.task rt).cpuId := by
  have hc : classJobStart s rt = Deadline.edfEnqueueTask s rt reschPrioEdf (s.task rt).cpuId := by
    unfold classJobStart; rw [ht.cls hpol]; rfl
  have hr : (classJobStart s rt).hasReserve rt = false := by
    rw [hc]
    simp [Deadline.edfEnqueueTask, enqueueTaskAt, State.hasReserve, ht.reserve]
  unfold Resch.jobStart
  simp only [hr, Bool.false_eq_true, if_false]
  exact hc

/-- `sched_setattr` accepts the parameters: the priority is recorded and nothing else of the
scheduling structures changes. -/
theorem edfSetScheduler_accepted (prio : ℤ) (ht : (s.task rt).task ≠ 0)
    (hk : k.acceptsTask c (s.task rt) = true) :
    ∃ s₁, Deadline.edfSetScheduler c k s rt prio = (s₁, true) ∧ s₁.lo = s.lo ∧
      s₁.trace = s.trace ∧ s₁.point = s.point ∧ s₁.task = (s.setPrio rt prio).task := by
  unfold Deadline.edfSetScheduler
  have hcond : ¬ (((s.task rt).task = 0) ∨ k.setattr ((s.task rt).runtime * 1000)
      (c.jiffiesToNsecs (s.task rt).deadline) (c.jiffiesToNsecs (s.task rt).period) = false) := by
    rintro (h | h)
    · exact ht h
    · unfold Kernel.acceptsTask at hk; rw [h] at hk; cases hk
  simp only [hcond, if_false]
  split <;> exact ⟨_, rfl, rfl, rfl, rfl, rfl⟩

/-- Completing a job takes the task out of the level, and may record its execution time. -/
theorem EdfTask.jobComplete (ht : EdfTask (s.task rt)) (hpol : (s.task rt).policy = reschSchedEdf) :
    ∃ v, jobComplete c k s rt = dequeueTaskAt (s.setTask rt fun t => { t with wcet := v }) rt
      reschPrioEdf (s.task rt).cpuId := by
  have hw : ∃ v, (if (s.task rt).wcetFixed = false ∧ (s.task rt).wcet <
      c.jiffiesToUsecs (execTime c s rt) then s.setTask rt fun t =>
        { t with wcet := c.jiffiesToUsecs (execTime c s rt) } else s) =
      s.setTask rt fun t => { t with wcet := v } := by
    split
    · exact ⟨_, rfl⟩
    · exact ⟨(s.task rt).wcet, by simp [State.setTask]⟩
  obtain ⟨v, hv⟩ := hw
  refine ⟨v, ?_⟩
  unfold Resch.jobComplete
  simp only [hv]
  have hcls : Resch.classJobComplete (s.setTask rt fun t => { t with wcet := v }) rt =
      dequeueTaskAt (s.setTask rt fun t => { t with wcet := v }) rt reschPrioEdf
        (s.task rt).cpuId := by
    unfold Resch.classJobComplete
    simp only [task_setTask_self, ht.cls hpol]
    simp [Deadline.edfJobComplete, Deadline.edfDequeueTask]
  rw [hcls]
  simp [State.hasReserve, dequeueTaskAt, ht.reserve]

/-- Changing the policy to EDF changes policy, class and priority only. -/
theorem EdfTask.setClass (hc : c.schedDeadline = true) (ht : EdfTask (s.task rt))
    (hk : k.acceptsTask c (s.task rt) = true) :
    ∃ t, EdfTask t ∧ (s.task rt).SamePlace t ∧
      (apiSetScheduler c k s rt reschSchedEdf).1.lo = s.lo ∧
      (apiSetScheduler c k s rt reschSchedEdf).1.trace = s.trace ∧
      (apiSetScheduler c k s rt reschSchedEdf).1.point = s.point ∧
      (apiSetScheduler c k s rt reschSchedEdf).1.task = Function.update s.task rt t := by
  by_cases hpol : reschSchedEdf = (s.task rt).policy
  · have : (apiSetScheduler c k s rt reschSchedEdf).1 = s := by simp [apiSetScheduler, hpol]
    rw [this]
    exact ⟨s.task rt, ht, ⟨rfl, rfl, rfl⟩, rfl, rfl, rfl, by simp⟩
  rw [apiSetScheduler_of_ne hpol, setScheduler_fst]
  set s₁ := setPolicy c s rt reschSchedEdf with hs₁
  have hs : s₁ = s.setTask rt fun t => { t with policy := reschSchedEdf, cls := .deadline } := by
    rw [hs₁, setPolicy, if_pos (Ne.symm hpol)]
    simp [Config.policyClass, Config.edfSchedClass, hc, reschSchedEdf, reschSchedFp]
  have hrt : s₁.task rt = { s.task rt with policy := reschSchedEdf, cls := .deadline } := by
    rw [hs, task_setTask_self]
  have htask₁ : (s₁.task rt).task ≠ 0 := by rw [hrt]; exact ht.task
  have hk₁ : k.acceptsTask c (s₁.task rt) = true := by rw [hrt]; exact hk
  obtain ⟨s₂, h₂, hlo, htr, hpt, htask⟩ := edfSetScheduler_accepted (s.task rt).prio htask₁ hk₁
  have hset : (setScheduler' c k s₁ rt (s.task rt).prio).1 = s₂ := by
    have hcls : classSetScheduler c k s₁ rt (s.task rt).prio = (s₂, true) := by
      unfold classSetScheduler
      rw [hrt]; exact h₂
    unfold setScheduler'
    simp only [hcls, htask, hrt, task_setPrio_self]
    simp
  rw [hset, hlo, htr, hpt, htask]
  refine ⟨{ s.task rt with policy := reschSchedEdf, cls := .deadline }, ?_, ⟨rfl, rfl, rfl⟩, by rw [hs]; rfl,
    by rw [hs]; rfl, by rw [hs]; rfl, ?_⟩
  · exact ⟨ht.prio, ht.save, ht.reserve, ht.task, fun _ => rfl⟩
  · rw [setPrio_same (by rw [hrt]), hs]
    rfl

theorem restartAccount_deadline (c : Config) (s : State) (rt : ℕ) :
    (restartAccount Deadline.edfStopAccount (Deadline.edfStartAccount c) s rt).task = s.task ∧
      (restartAccount Deadline.edfStopAccount (Deadline.edfStartAccount c) s rt).lo = s.lo ∧
      (restartAccount Deadline.edfStopAccount (Deadline.edfStartAccount c) s rt).trace = s.trace := by
  unfold restartAccount Deadline.edfStartAccount
  split
  · simp only
    split <;> exact ⟨rfl, rfl, rfl⟩
  · exact ⟨rfl, rfl, rfl⟩

theorem EdfInv.migrate (hI : EdfInv s) (ht : EdfTask (s.task rt)) (cpuDst : ℕ) :
    Queued (Deadline.edfMigrateTask c s rt cpuDst)
        ((Deadline.edfMigrateTask c s rt cpuDst).placeAt edfLevel) ∧
      EdfTask ((Deadline.edfMigrateTask c s rt cpuDst).task rt) ∧
      ∀ a ∈ (Deadline.edfMigrateTask c s rt cpuDst).trace, a ∈ s.trace ∨ a = ⟨edfLevel 0, true⟩ := by
  have hmig : ∀ s₁, Queued s₁ (s₁.placeAt edfLevel) → EdfTask (s₁.task rt) →
      Queued (migrateTask' s₁ rt cpuDst) ((migrateTask' s₁ rt cpuDst).placeAt edfLevel) ∧
        EdfTask ((migrateTask' s₁ rt cpuDst).task rt) := by
    intro s₁ hq ht
    have hk : Queued (s₁.setTask rt fun t => { t with cpumask := fun x => decide (x = cpuDst) })
        ((s₁.setTask rt fun t => { t with cpumask := fun x => decide (x = cpuDst) }).placeAt
          edfLevel) := by
      refine hq.setTask ?_
      exact ⟨rfl, rfl, rfl⟩
    refine ⟨hk.of_task rfl rfl, ?_⟩
    simp only [migrateTask', task_setProc, task_setTask_self]
    exact ⟨ht.prio, ht.save, ht.reserve, ht.task, ht.cls⟩
  unfold Deadline.edfMigrateTask
  simp only
  split
  swap
  · -- the CPU it has already: the mask and Linux's CPU are written
    obtain ⟨hq, hok⟩ := hmig s hI.queued ht
    exact ⟨hq, hok, fun a ha => Or.inl ha⟩
  split
  swap
  · -- without an entry, only its CPU changes
    rename_i hi
    have hq := hI.queued.setTask_inactive (f := fun t => { t with cpuId := cpuDst })
      (by simpa using hi) (by simpa [State.isActive] using hi)
    have hok : EdfTask ((s.setCpu rt cpuDst).task rt) := by
      simp only [State.setCpu, task_setTask_self]
      exact ⟨ht.prio, ht.save, ht.reserve, ht.task, ht.cls⟩
    obtain ⟨hq, hok⟩ := hmig (s.setCpu rt cpuDst) hq hok
    exact ⟨hq, hok, fun a ha => Or.inl ha⟩
  -- with an entry, it leaves one list and enters the other, both of level 0
  rename_i hact
  set s₁ := Deadline.edfDequeueTask s rt reschPrioEdf (s.task rt).cpuId with hs₁
  have hq₁ : Queued s₁ (s₁.placeAt edfLevel) := hI.queued.leave hact rfl rfl
  have hi₁ : s₁.isActive rt = false := isActive_dequeueTaskAt _ _ _ _
  have hrt₁ : s₁.task rt = { s.task rt with activeEntry := false } := task_unlink_self
  have htr₁ : s₁.trace = ⟨edfLevel 0, true⟩ :: s.trace := hI.queued.trace_leave hact rfl rfl
  have hq₂ : Queued (s₁.setCpu rt cpuDst) ((s₁.setCpu rt cpuDst).placeAt edfLevel) :=
    hq₁.setTask_inactive hi₁ hi₁
  have hi₂ : (s₁.setCpu rt cpuDst).isActive rt = false := by
    simpa [State.isActive, State.setCpu] using hi₁
  set s₃ := Deadline.edfEnqueueTask (s₁.setCpu rt cpuDst) rt reschPrioEdf cpuDst with hs₃
  have hq₃ : Queued s₃ (s₃.placeAt edfLevel) :=
    hq₂.enter hi₂ (by simp [State.setCpu]) rfl (edfLevel_range 0) (addsOnce_insertBefore _ rt)
  have hok₃ : EdfTask (s₃.task rt) := by
    simp only [hs₃, Deadline.edfEnqueueTask, enqueueTaskAt, task_link_self, State.setCpu,
      task_setTask_self, hrt₁]
    exact ⟨ht.prio, ht.save, ht.reserve, ht.task, ht.cls⟩
  obtain ⟨hq₄, hok₄⟩ := hmig s₃ hq₃ hok₃
  obtain ⟨htask, hlo, htrace⟩ := restartAccount_deadline c (migrateTask' s₃ rt cpuDst) rt
  refine ⟨hq₄.of_task hlo htask, by rw [htask]; exact hok₄, fun a ha => ?_⟩
  rw [htrace] at ha
  have ha : a ∈ (⟨edfLevel 0, true⟩ : Access) :: s₁.trace := ha
  rw [htr₁] at ha
  simp only [List.mem_cons] at ha
  rcases ha with h | h | h
  · exact Or.inr h
  · exact Or.inr h
  · exact Or.inl h

/-! ## Steps -/

/-- **One step keeps levels and invariant**, unless a task goes to sleep. -/
theorem EdfInv.run (hc : c.schedDeadline = true) (hI : EdfInv s) (op : CoreOp)
    (hen : op.enabledEdf c k s = true) (hs : ¬ op.Sleeps) :
    EdfInv (op.run c k s) ∧ ∀ a ∈ (op.run c k s).trace, a ∈ s.trace ∨ a = ⟨edfLevel 0, true⟩ := by
  cases op with
  | attach rt current =>
    have hd : s.point rt = .detached ∧ current ≠ 0 := by simpa [CoreOp.enabledEdf] using hen
    obtain ⟨t, proc, heq, ht, hps⟩ := reschTaskInit_eq c k s rt current
    have hq : Queued (s.setTask rt fun _ => t) ((s.setTask rt fun _ => t).placeAt edfLevel) :=
      hI.queued.setTask_inactive (hI.idle rt hd.1) ht.activeEntry
    simp only [CoreOp.run, heq, State.setPoint]
    refine ⟨EdfInv.step hI (hq.of_task rfl rfl) (fun q (hq : q ≠ rt) => ?_)
      (fun q (hq : q ≠ rt) => ?_) ?_ ?_, fun a ha => Or.inl ha⟩
    · simp [hq]
    · simp [hq]
    · simp only [Function.update_self]
      refine ⟨ht.prio, hps.trans (hI.save rt), ht.reserveTime, by rw [ht.task]; exact hd.2, ?_⟩
      intro hpol
      rw [ht.policy] at hpol; cases hpol
    · simp
  | setTimes rt runtime period deadline releaseTime deadlineTime =>
    have ha : s.Attached rt := by simpa [CoreOp.enabledEdf] using hen
    have ht := hI.attached rt ha
    simp only [CoreOp.run]
    refine ⟨hI.hook ha ((Updates.refl s).setTask ?_) (hI.queued.setTask ?_) ?_, fun a ha => Or.inl ha⟩
    · exact ⟨rfl, rfl, rfl, rfl, rfl, rfl⟩
    · exact ⟨rfl, rfl, rfl⟩
    · rw [task_setTask_self]; exact ⟨ht.prio, ht.save, ht.reserve, ht.task, ht.cls⟩
  | setClass rt policy =>
    have ha : (s.Attached rt ∧ policy = reschSchedEdf) ∧ k.acceptsTask c (s.task rt) = true := by
      simpa [CoreOp.enabledEdf] using hen
    obtain ⟨⟨hat, rfl⟩, hk⟩ := ha
    obtain ⟨t, ht, hsame, hlo, htr, hpt, htask⟩ := (hI.attached rt hat).setClass hc hk
    simp only [CoreOp.run]
    refine ⟨EdfInv.step hI ?_ (fun q (hq : q ≠ rt) => ?_) (fun q _ => congrFun hpt q) ?_ ?_,
      fun a ha => Or.inl (htr ▸ ha)⟩
    · have hq : Queued (s.setTask rt fun _ => t) ((s.setTask rt fun _ => t).placeAt edfLevel) :=
        hI.queued.setTask hsame
      exact hq.of_task hlo htask
    · rw [htask, Function.update_of_ne hq]
    · rw [htask, Function.update_self]; exact ht
    · rw [hpt]; exact (hI.awake rt).resolve_left hat
  | jobStart rt =>
    have ha : (s.point rt = .user ∧ (s.task rt).policy = reschSchedEdf) ∧ s.isActive rt = false := by
      simpa [CoreOp.enabledEdf] using hen
    obtain ⟨⟨hp, hpol⟩, hi⟩ := ha
    have hat : s.Attached rt := by unfold State.Attached; rw [hp]; decide
    have ht := hI.attached rt hat
    have hu : Updates rt s (jobStart c s rt) := (Updates.refl s).jobStart fun _ => hi
    simp only [CoreOp.run]
    rw [ht.jobStart hpol] at hu ⊢
    refine ⟨hI.hook hat hu ?_ ?_, fun a ha => ?_⟩
    · exact hI.queued.enter hi rfl rfl (edfLevel_range 0) (addsOnce_insertBefore _ rt)
    · simp only [Deadline.edfEnqueueTask, enqueueTaskAt, task_link_self]
      exact ⟨ht.prio, ht.save, ht.reserve, ht.task, ht.cls⟩
    · rcases List.mem_cons.1 ha with rfl | ha
      · exact Or.inr rfl
      · exact Or.inl ha
  | jobComplete rt =>
    have ha : (s.point rt = .user ∧ (s.task rt).policy = reschSchedEdf) ∧ s.isActive rt = true := by
      simpa [CoreOp.enabledEdf] using hen
    obtain ⟨⟨hp, hpol⟩, hact⟩ := ha
    have hat : s.Attached rt := by unfold State.Attached; rw [hp]; decide
    have ht := hI.attached rt hat
    have hu : Updates rt s (jobComplete c k s rt) := (Updates.refl s).jobComplete
    obtain ⟨v, hv⟩ := ht.jobComplete (c := c) (k := k) hpol
    simp only [CoreOp.run]
    rw [hv] at hu ⊢
    set s₁ := s.setTask rt fun t => { t with wcet := v } with hs₁
    have hrt : s₁.task rt = { s.task rt with wcet := v } := task_setTask_self _
    have hw : Queued s₁ (s₁.placeAt edfLevel) := by
      refine hI.queued.setTask ?_
      exact ⟨rfl, rfl, rfl⟩
    -- `wcet` is renewed before the task leaves its list
    have hact' : s₁.isActive rt = true := by
      unfold State.isActive; rw [hrt]; exact hact
    have hcpu : (s.task rt).cpuId = (s₁.task rt).cpuId := by rw [hrt]
    have htr : (dequeueTaskAt s₁ rt reschPrioEdf (s.task rt).cpuId).trace =
        ⟨edfLevel 0, true⟩ :: s.trace := hw.trace_leave hact' hcpu rfl
    refine ⟨hI.hook hat hu ?_ ?_, fun a ha => ?_⟩
    · exact hw.leave hact' hcpu rfl
    · simp only [dequeueTaskAt, task_unlink_self, hrt]
      exact ⟨ht.prio, ht.save, ht.reserve, ht.task, ht.cls⟩
    · rw [htr] at ha
      rcases List.mem_cons.1 ha with rfl | ha
      · exact Or.inr rfl
      · exact Or.inl ha
  | migrate rt cpu =>
    have ha : s.Attached rt ∧ (s.task rt).policy = reschSchedEdf := by
      simpa [CoreOp.enabledEdf] using hen
    obtain ⟨hat, hpol⟩ := ha
    have ht := hI.attached rt hat
    have hm : migrateTask c s rt cpu = Deadline.edfMigrateTask c s rt cpu := by
      unfold migrateTask; rw [ht.cls hpol]
    have hu : Updates rt s (migrateTask c s rt cpu) := (Updates.refl s).migrateTask cpu
    obtain ⟨hq, hok, htr⟩ := hI.migrate (c := c) ht cpu
    simp only [CoreOp.run]
    rw [hm] at hu ⊢
    exact ⟨hI.hook hat hu hq hok, htr⟩
  -- the step that the condition excludes
  | suspend rt => exact absurd trivial hs
  | resume rt =>
    have hp : s.point rt = .suspend := by simpa [CoreOp.enabledEdf] using hen
    rcases hI.awake rt with h | h <;> rw [hp] at h <;> cases h
  | linux jiffies proc =>
    exact ⟨⟨hI.queued.of_task rfl rfl, hI.attached, hI.save, hI.idle, hI.awake⟩,
      fun a ha => Or.inl ha⟩
  | _ => simp [CoreOp.enabledEdf] at hen

/-! ## Sleeping -/

/-- Moving a task of the class leaves its priority alone. -/
theorem moveTask_prio_deadline (h : (s.task rt).cls = .deadline) (old : ℤ) :
    ((moveTask s rt old).task rt).prio = (s.task rt).prio := by
  unfold moveTask
  set s₁ := if s.isManaged rt = true then globalListReinsert s rt else s with hs₁
  have hg : GlobalOnly s s₁ := by
    rw [hs₁]; split
    · exact globalListReinsert_only
    · exact .refl s
  obtain ⟨b, hb⟩ := hg.task rt
  show ((if s₁.isActive rt = true then requeueTask s₁ rt old else s₁).task rt).prio = _
  split
  · have hc : (s₁.task rt).cls = .deadline := by rw [hb]; exact h
    have hd : classDequeueTask s₁ rt old (s₁.task rt).cpuId =
        dequeueTaskAt s₁ rt old (s₁.task rt).cpuId := by
      refine classDequeueTask_eq ?_
      rw [hc]; decide
    unfold requeueTask
    simp only [hd]
    simp [classEnqueueTask, dequeueTaskAt, Deadline.edfEnqueueTask, enqueueTaskAt, hb, h]
  · rw [hb]

/-- **The first sleep of an EDF task** looks at the level of priority `0`. -/
theorem EdfTask.suspend_out_of_range (ht : EdfTask (s.task rt))
    (hpol : (s.task rt).policy = reschSchedEdf) (hk : k.acceptsTask c (s.task rt) = true) :
    ∃ a ∈ (jobSuspend c k s rt).trace, a.idx = reschPrioMax := by
  obtain ⟨s₂, h₂, -, -, -, htask⟩ := edfSetScheduler_accepted (s.task rt).prioSave ht.task hk
  have hcls := ht.cls hpol
  have hrt : s₂.task rt = { s.task rt with prio := 0 } := by
    rw [htask, task_setPrio_self, ht.save]
  have hset : (setScheduler c k s rt (s.task rt).policy (s.task rt).prioSave).1 =
      moveTask s₂ rt reschPrioMin := by
    have hclass : classSetScheduler c k s rt (s.task rt).prioSave = (s₂, true) := by
      unfold classSetScheduler; rw [hcls]; exact h₂
    rw [setScheduler_fst, setPolicy_same]
    unfold setScheduler'
    simp only [hclass, hrt, ht.prio]
    simp [reschPrioMin]
  have hu : Updates rt s₂ (moveTask s₂ rt reschPrioMin) := (Updates.refl s₂).moveTask
  have hcls₃ : ((moveTask s₂ rt reschPrioMin).task rt).cls = .deadline := by
    rw [hu.same.cls, hrt]; exact hcls
  have hprio₃ : ((moveTask s₂ rt reschPrioMin).task rt).prio = 0 := by
    rw [moveTask_prio_deadline (by rw [hrt]; exact hcls), hrt]
  have hne : (s.task rt).prio ≠ (s.task rt).prioSave := by rw [ht.prio, ht.save]; decide
  have hsus : jobSuspend c k s rt =
      dequeueTaskAt (moveTask s₂ rt reschPrioMin) rt 0 (s.task rt).cpuId := by
    unfold jobSuspend
    simp only [hne, ne_eq, not_false_eq_true, if_true, hset, hprio₃]
    exact classDequeueTask_eq (by rw [hcls₃]; decide)
  rw [hsus]
  exact ⟨_, List.mem_cons_self, rfl⟩

/-! ## Runs -/

theorem schedInit_edfInv (jiffies : ℕ) (proc : ℕ → Proc) : EdfInv (schedInit jiffies proc) := by
  have hp : (schedInit jiffies proc).placeAt edfLevel = (schedInit jiffies proc).place := rfl
  exact ⟨hp ▸ schedInit_queued jiffies proc, fun _ h => absurd rfl h, fun _ => rfl, fun _ _ => rfl,
    fun _ => Or.inl rfl⟩

theorem schedInit_levelsOk (jiffies : ℕ) (proc : ℕ → Proc) : LevelsOk (schedInit jiffies proc) :=
  ⟨fun cpu i hi _ => (schedInit_queued jiffies proc).bits cpu i hi, fun _ h => nomatch h⟩

/-- **Under `SCHED_DEADLINE` the levels of a run of EDF tasks are in order iff no task
sleeps in it.** -/
theorem edfStep_levelsOk_iff (hc : c.schedDeadline = true) (jiffies : ℕ) (proc : ℕ → Proc)
    (run : List (CoreOp × Kernel)) :
    Always (edfStep c) LevelsOk (schedInit jiffies proc) run ↔
      Each (edfStep c) (fun _ a => ¬ a.1.Sleeps) (schedInit jiffies proc) run := by
  have hstep : ∀ s a s', EdfInv s → LevelsOk s → edfStep c s a = some s' →
      (LevelsOk s' ↔ ¬ a.1.Sleeps) ∧ (¬ a.1.Sleeps → EdfInv s') := by
    intro s a s' hI hl hs
    unfold edfStep at hs
    split at hs
    swap
    · cases hs
    rename_i hen
    cases hs
    refine ⟨⟨fun hl' hsl => ?_, fun h => ?_⟩, fun h => (hI.run hc a.1 hen h).1⟩
    · obtain ⟨op, k⟩ := a
      cases op with
      | suspend rt =>
        have ha : (s.point rt = .user ∧ (s.task rt).policy = reschSchedEdf) ∧
            k.acceptsTask c (s.task rt) = true := by simpa [CoreOp.enabledEdf] using hen
        have hat : s.Attached rt := by unfold State.Attached; rw [ha.1.1]; decide
        obtain ⟨b, hb, hidx⟩ := (hI.attached rt hat).suspend_out_of_range ha.1.2 ha.2
        have := (hl'.access b hb).1.2
        omega
      | _ => exact hsl
    · obtain ⟨hI', htr⟩ := hI.run hc a.1 hen h
      refine ⟨fun cpu i hi _ => hI'.queued.bits cpu i hi, fun b hb => ?_⟩
      rcases htr b hb with hb | rfl
      · exact hl.access b hb
      · exact ⟨edfLevel_range 0, rfl⟩
  refine always_iff_each ?_ ?_ run _ (schedInit_edfInv jiffies proc) (schedInit_levelsOk jiffies proc)
  · intro s a s' hI hl hs hl'
    obtain ⟨h1, h2⟩ := hstep s a s' hI hl hs
    exact h2 (h1.1 hl')
  · intro s a s' hI hl hs
    exact (hstep s a s' hI hl hs).1

/-- An EDF task with two jobs. -/
theorem edfStep_levelsOk_jobs :
    Always (edfStep (.small true)) LevelsOk (schedInit 0 fun _ => .fair)
      [(.attach 0 1, .accepting), (.setTimes 0 1000 10 10 0 10, .accepting),
        (.setClass 0 reschSchedEdf, .accepting), (.jobStart 0, .accepting),
        (.jobComplete 0, .accepting), (.jobStart 0, .accepting)] :=
  (edfStep_levelsOk_iff rfl 0 (fun _ => .fair) _).2 (Each.cons rfl not_false (Each.cons rfl not_false
    (Each.cons rfl not_false (Each.cons rfl not_false (Each.cons rfl not_false
      (Each.cons rfl not_false trivial))))))

/-- An EDF task that sleeps in its first job. -/
theorem edfStep_not_levelsOk :
    ¬ Always (edfStep (.small true)) LevelsOk (schedInit 0 fun _ => .fair)
      [(.attach 0 1, .accepting), (.setTimes 0 1000 10 10 0 10, .accepting),
        (.setClass 0 reschSchedEdf, .accepting), (.jobStart 0, .accepting), (.suspend 0, .accepting)] := by
  intro h
  obtain ⟨s, hs, ht⟩ := h.final_test
    (fun s => decide ((⟨98, true⟩ : Access) ∈ s.trace)) (by decide +kernel)
  exact absurd (hs.access _ (of_decide_eq_true ht)).1.2 (by decide)

end Resch
