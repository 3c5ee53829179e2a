import Resch.Proof.Frame
import Resch.Proof.Hooks
import Resch.Proof.Place

/-!
# Active queues and task descriptors agree

`Good s rt` is the agreement of lists, bitmaps, counters and descriptors in a build
without `SCHED_DEADLINE`, for an attached FP or EDF task `rt`. Two moves keep it, and all
hooks are made of them: `Good.unlink` and `Good.link`.
-/

namespace Resch

open Lib

variable {c : Config} {k : Kernel} {s s' : State} {rt q cpu p : ℕ} {prio : ℤ}

/-- What the descriptor of an attached FP or EDF task keeps. -/
structure TaskOk (t : Task) : Prop where
  prio : reschPrioMin ≤ t.prio ∧ t.prio ≤ reschPrioMax
  save : t.prioSave = 0 ∨ (reschPrioMin ≤ t.prioSave ∧ t.prioSave ≤ reschPrioMax)
  cls : t.cls = .fp ∨ t.cls = .edf

/-- The queues agree with the descriptors, and the one of `rt` is in order. -/
structure Good (s : State) (rt : ℕ) : Prop where
  queued : Queued s s.place
  ok : TaskOk (s.task rt)

/-! ## Moves -/

theorem Good.of_task (h : Good s rt) (hlo : s'.lo = s.lo) (ht : s'.task = s.task) : Good s' rt :=
  ⟨h.queued.of_task hlo ht, by rw [ht]; exact h.ok⟩

theorem Good.setProc (h : Good s rt) (f : Proc → Proc) : Good (s.setProc p f) rt :=
  h.of_task rfl rfl

/-- Assigning fields that neither the place nor `TaskOk` depends on. -/
theorem Good.setTask (h : Good s rt) {f : Task → Task} (hf : (s.task rt).SamePlace (f (s.task rt)))
    (hok : TaskOk (f (s.task rt))) : Good (s.setTask rt f) rt :=
  ⟨h.queued.setTask hf, by simpa using hok⟩

theorem Good.setTask_inactive (h : Good s rt) (hi : s.isActive rt = false) {f : Task → Task}
    (hf : (f (s.task rt)).activeEntry = false) (hok : TaskOk (f (s.task rt))) :
    Good (s.setTask rt f) rt :=
  ⟨h.queued.setTask_inactive hi hf, by simpa using hok⟩

/-- Dequeueing an active task from the level of its priority. -/
theorem Good.unlink (h : Good s rt) (ha : s.isActive rt = true) :
    Good (s.unlink rt (s.task rt).cpuId (prioIndex (s.task rt).prio)) rt := by
  refine ⟨h.queued.leave ha rfl rfl, ?_⟩
  rw [task_unlink_self]
  exact ⟨h.ok.prio, h.ok.save, h.ok.cls⟩

theorem TaskOk.prioIndex_range {t : Task} (h : TaskOk t) :
    0 ≤ prioIndex t.prio ∧ prioIndex t.prio < reschPrioMax := by
  have := h.prio
  simp only [reschPrioMin, reschPrioMax, maxRtPrio, prioIndex] at this ⊢
  omega

/-- Enqueueing an inactive task at the level of its priority. -/
theorem Good.link (h : Good s rt) (hi : s.isActive rt = false) {ins : List ℕ → List ℕ}
    (hins : AddsOnce ins rt) :
    Good (s.link rt (s.task rt).cpuId (prioIndex (s.task rt).prio) ins) rt := by
  refine ⟨h.queued.enter hi rfl rfl h.ok.prioIndex_range hins, ?_⟩
  rw [task_link_self]
  exact ⟨h.ok.prio, h.ok.save, h.ok.cls⟩

/-! ## Enqueueing and dequeueing -/

theorem Good.fpEnqueue (h : Good s rt) (hi : s.isActive rt = false) :
    Good (fpEnqueueTask s rt (s.task rt).prio (s.task rt).cpuId) rt :=
  h.link hi (addsOnce_append rt)

/-- Writing the priority after the enqueue is the same as writing it before. -/
theorem edfEnqueueTask_eq (s : State) (rt : ℕ) (prio : ℤ) (cpu : ℕ) :
    Edf.edfEnqueueTask s rt prio cpu =
      (s.setPrio rt prio).link rt cpu (prioIndex prio)
        (deadlineInsert s rt) := by
  simp [Edf.edfEnqueueTask, enqueueTaskAt, State.link, State.setPrio, State.setTask]

theorem isActive_edfEnqueueTask (s : State) (rt : ℕ) (prio : ℤ) (cpu : ℕ) :
    (Edf.edfEnqueueTask s rt prio cpu).isActive rt = true := by
  rw [edfEnqueueTask_eq, isActive_link]; simp

theorem Good.edfEnqueue (h : Good s rt) (hi : s.isActive rt = false)
    (hp : reschPrioMin ≤ prio ∧ prio ≤ reschPrioMax) :
    Good (Edf.edfEnqueueTask s rt prio (s.task rt).cpuId) rt := by
  rw [edfEnqueueTask_eq]
  have h' : Good (s.setPrio rt prio) rt :=
    h.setTask_inactive hi hi ⟨hp, h.ok.save, h.ok.cls⟩
  have hins : AddsOnce (deadlineInsert s rt) rt := addsOnce_insertBefore _ rt
  have := h'.link (by simpa using hi) hins
  simpa using this

theorem Good.dequeue (h : Good s rt) (ha : s.isActive rt = true) :
    Good (dequeueTaskAt s rt (s.task rt).prio (s.task rt).cpuId) rt :=
  h.unlink ha

theorem TaskOk.cls_ne_fair {t : Task} (h : TaskOk t) : t.cls ≠ .fair := by
  rcases h.cls with h | h <;> rw [h] <;> decide

theorem Good.classEnqueue (h : Good s rt) (hi : s.isActive rt = false) :
    Good (classEnqueueTask s rt (s.task rt).prio (s.task rt).cpuId) rt := by
  unfold classEnqueueTask
  rcases h.ok.cls with hc | hc <;> simp only [hc]
  · exact h.fpEnqueue hi
  · exact h.edfEnqueue hi h.ok.prio

/-! ## Processes and accounting -/

theorem Good.ite {P : Prop} [Decidable P] {a b : State} (ha : P → Good a rt) (hb : ¬P → Good b rt) :
    Good (if P then a else b) rt := by
  split
  · exact ha ‹_›
  · exact hb ‹_›

theorem Good.ifSome (h : Good s rt) {o : Option ℕ} {f : State → ℕ → State}
    (hf : ∀ q, Good (f s q) rt) : Good (ifSome s o f) rt := by
  cases o with
  | none => exact h
  | some q => exact hf q

/-- Assigning accounting data, whatever the new values are. -/
theorem Good.data (h : Good s rt) {f : Task → Task}
    (hf : ∀ t, (f t).activeEntry = t.activeEntry ∧ (f t).cpuId = t.cpuId ∧ (f t).prio = t.prio ∧
      (f t).prioSave = t.prioSave ∧ (f t).cls = t.cls) : Good (s.setTask rt f) rt := by
  obtain ⟨h1, h2, h3, h4, h5⟩ := hf (s.task rt)
  exact h.setTask ⟨h1, h2, h3⟩
    ⟨by rw [h3]; exact h.ok.prio, by rw [h4]; exact h.ok.save, by rw [h5]; exact h.ok.cls⟩

theorem Good.limitRttime (h : Good s rt) : Good (limitRttime c s rt) rt := h.setProc _

theorem Good.unlimitRttime (h : Good s rt) : Good (unlimitRttime s rt) rt := h.setProc _

theorem Good.fpStartAccount (h : Good s rt) : Good (fpStartAccount c s rt) rt :=
  (h.setProc _).setTask ⟨rfl, rfl, rfl⟩ ⟨h.ok.prio, Or.inr h.ok.prio, h.ok.cls⟩

theorem Good.classStartAccount (h : Good s rt) : Good (classStartAccount c s rt) rt := by
  unfold Resch.classStartAccount
  rcases h.ok.cls with hc | hc <;> simp only [hc]
  · exact h.fpStartAccount
  · exact h.limitRttime

theorem Good.startAccount (h : Good s rt) : Good (startAccount c s rt) rt := by
  unfold Resch.startAccount
  split
  · exact h
  · refine Good.data (Good.classStartAccount ?_) fun _ => ⟨rfl, rfl, rfl, rfl, rfl⟩
    exact h.data fun _ => ⟨rfl, rfl, rfl, rfl, rfl⟩

theorem Good.classStopAccount (h : Good s rt) : Good (classStopAccount s rt) rt := by
  unfold Resch.classStopAccount
  rcases h.ok.cls with hc | hc <;> simp only [hc] <;> exact h.unlimitRttime

theorem Good.stopAccount (h : Good s rt) : Good (stopAccount c s rt) rt := by
  unfold Resch.stopAccount
  refine Good.data ?_ fun _ => ⟨rfl, rfl, rfl, rfl, rfl⟩
  split
  · refine Good.data (Good.classStopAccount ?_) fun _ => ⟨rfl, rfl, rfl, rfl, rfl⟩
    exact h.data fun _ => ⟨rfl, rfl, rfl, rfl, rfl⟩
  · exact h

/-! ## Changing priority and class -/

/-- Dequeueing from the level of the priority that `rt` had in `s`. -/
theorem Good.unlink_old (h : Good s rt) (ha : s.isActive rt = true) (hlo : s'.lo = s.lo)
    (ht : ∀ q, q ≠ rt → (s.task q).SamePlace (s'.task q))
    (ha' : s'.isActive rt = true) (hok : TaskOk (s'.task rt)) :
    Good (s'.unlink rt (s.task rt).cpuId (prioIndex (s.task rt).prio)) rt := by
  have hq : Queued s' s.place := by
    refine h.queued.congr hlo fun q => ?_
    by_cases hq : q = rt
    · subst hq; rw [ha, ha']
    · exact (ht q hq).active
  refine ⟨?_, by rw [task_unlink_self]; exact ⟨hok.prio, hok.save, hok.cls⟩⟩
  have hpl : (s'.unlink rt (s.task rt).cpuId (prioIndex (s.task rt).prio)).place =
      Function.update s.place rt none := by
    refine place_unlink.trans ?_
    funext q
    by_cases hq : q = rt
    · subst hq; simp
    · obtain ⟨h1, h2, h3⟩ := ht q hq
      simp only [Function.update_of_ne hq]
      unfold State.place State.placeAt State.isActive
      rw [h1, h2, h3]
  rw [hpl]
  exact hq.unlink (place_of_active ha)

theorem GlobalOnly.taskOk (h : GlobalOnly s s') (hok : TaskOk (s.task q)) : TaskOk (s'.task q) := by
  obtain ⟨b, hb⟩ := h.task q
  rw [hb]; exact ⟨hok.prio, hok.save, hok.cls⟩

theorem GlobalOnly.fields (h : GlobalOnly s s') (q : ℕ) : (s.task q).SamePlace (s'.task q) := by
  obtain ⟨b, hb⟩ := h.task q
  rw [hb]; exact ⟨rfl, rfl, rfl⟩

theorem Good.globalOnly (h : Good s rt) (hg : GlobalOnly s s') : Good s' rt :=
  ⟨h.queued.of_fields hg.lo hg.fields, hg.taskOk h.ok⟩

/-- Moving a task whose priority has been changed. -/
theorem Good.moveTask (h : Good s rt) (hp : reschPrioMin ≤ prio ∧ prio ≤ reschPrioMax) :
    Good (moveTask (s.setPrio rt prio) rt (s.task rt).prio) rt := by
  have hok : TaskOk ((s.setPrio rt prio).task rt) := by
    rw [task_setPrio_self]; exact ⟨hp, h.ok.save, h.ok.cls⟩
  unfold Resch.moveTask
  set s₁ := if (s.setPrio rt prio).isManaged rt = true
    then globalListReinsert (s.setPrio rt prio) rt else s.setPrio rt prio with hs₁
  have hg : GlobalOnly (s.setPrio rt prio) s₁ := by
    rw [hs₁]; split
    · exact globalListReinsert_only
    · exact .refl _
  obtain ⟨h1, h2, -⟩ := hg.fields rt
  rw [cpuId_setPrio] at h2
  have ha₁ : s₁.isActive rt = s.isActive rt := h1.trans isActive_setPrio
  show Good (if s₁.isActive rt = true then requeueTask s₁ rt (s.task rt).prio else s₁) rt
  rw [ha₁]
  split
  · rename_i ha
    have hd : Good (dequeueTaskAt s₁ rt (s.task rt).prio (s.task rt).cpuId) rt := by
      refine h.unlink_old ha hg.lo (fun q hq => ?_) (ha₁.trans ha) (hg.taskOk hok)
      have := hg.fields q
      rwa [task_setPrio_of_ne hq] at this
    have := hd.classEnqueue (isActive_dequeueTaskAt _ _ _ _)
    unfold requeueTask
    rw [h2]
    simp only [classDequeueTask_eq (hg.taskOk hok).cls_ne_fair]
    simpa [dequeueTaskAt, h2] using this
  · rename_i ha
    have ha : s.isActive rt = false := by simpa using ha
    have : Good (s.setPrio rt prio) rt := h.setTask_inactive ha ha ⟨hp, h.ok.save, h.ok.cls⟩
    exact this.globalOnly hg

/-- `__set_scheduler` with a priority of the range, or with `0`, which Linux refuses. -/
theorem Good.setScheduler' (h : Good s rt)
    (hp : prio = 0 ∨ (reschPrioMin ≤ prio ∧ prio ≤ reschPrioMax)) :
    Good (setScheduler' c k s rt prio).1 rt := by
  have hclass : classSetScheduler c k s rt prio = setSchedulerAs k .fifo s rt prio := by
    unfold classSetScheduler
    rcases h.ok.cls with hc | hc <;> simp only [hc] <;> rfl
  rw [setScheduler'_as hclass]
  split
  swap
  · exact h
  rename_i hk
  have hp' : reschPrioMin ≤ prio ∧ prio ≤ reschPrioMax := by
    rcases hp with rfl | hp
    · exact absurd (k.fifo_range 0 hk).1 (by decide)
    · exact hp
  have hs : Good (s.grant rt .fifo prio) rt := h.setProc _
  split
  · exact hs
  · exact hs.moveTask hp'

/-! ## Reserves -/

theorem background_range :
    reschPrioMin ≤ reschPrioBackground ∧ reschPrioBackground ≤ reschPrioMax := by decide

theorem edf_range : reschPrioMin ≤ reschPrioEdf ∧ reschPrioEdf ≤ reschPrioMax := by decide

/-- Out of the level of the current priority and into another one. -/
theorem Good.edfMove (h : Good s rt) (ha : s.isActive rt = true)
    (hp : reschPrioMin ≤ prio ∧ prio ≤ reschPrioMax) :
    Good (Edf.edfEnqueueTask (Edf.edfDequeueTask s rt (s.task rt).prio (s.task rt).cpuId) rt prio
      (s.task rt).cpuId) rt := by
  have := (h.dequeue ha).edfEnqueue (isActive_dequeueTaskAt _ _ _ _) hp
  simpa [dequeueTaskAt, Edf.edfDequeueTask] using this

theorem Good.edfReserveExpire (h : Good s rt) : Good (Edf.edfReserveExpire s rt) rt := by
  unfold Edf.edfReserveExpire
  by_cases ha : s.isActive rt = true
  · simp only [ha, Bool.not_true, Bool.false_eq_true, if_false]
    have h₁ := h.edfMove ha background_range
    exact h₁.ifSome fun _ => Good.ite (fun _ => h₁) (fun _ => (h₁.setProc _).setProc _)
  · simpa [ha] using h

theorem Good.classReserveExpire (h : Good s rt) : Good (classReserveExpire c k s rt) rt := by
  unfold Resch.classReserveExpire
  rcases h.ok.cls with hc | hc <;> simp only [hc]
  · exact h.setScheduler' (Or.inr background_range)
  · exact h.edfReserveExpire

theorem Good.edfReserveReplenish (h : Good s rt) (cputime : ℕ) :
    Good (Edf.edfReserveReplenish s rt cputime) rt := by
  unfold Edf.edfReserveReplenish
  have h₁ : Good (s.setTask rt fun t => { t with budget := t.budget + cputime }) rt :=
    h.data fun _ => ⟨rfl, rfl, rfl, rfl, rfl⟩
  have hcpu : (s.task rt).cpuId =
      ((s.setTask rt fun t => { t with budget := t.budget + cputime }).task rt).cpuId := by simp
  rw [hcpu]
  simp only
  generalize s.setTask rt (fun t => { t with budget := t.budget + cputime }) = s₁ at h₁ ⊢
  refine Good.ite (fun hb => ?_) (fun _ => h₁)
  have h₂ := h₁.edfMove hb.2 edf_range
  rw [hb.1] at h₂
  exact Good.ite (fun _ => Good.setProc (h₂.ifSome fun _ => h₂.setProc _) _) (fun _ => h₂)

theorem Good.fpReserveReplenish (h : Good s rt) (cputime : ℕ) :
    Good (fpReserveReplenish c k s rt cputime) rt := by
  unfold Resch.fpReserveReplenish
  have h₁ : Good (s.setTask rt fun t => { t with budget := t.budget + cputime }) rt :=
    h.data fun _ => ⟨rfl, rfl, rfl, rfl, rfl⟩
  exact Good.ite (fun _ => h₁.setScheduler' h₁.ok.save) (fun _ => h₁)

theorem Good.classReserveReplenish (h : Good s rt) (cputime : ℕ) :
    Good (classReserveReplenish c k s rt cputime) rt := by
  unfold Resch.classReserveReplenish
  rcases h.ok.cls with hc | hc <;> simp only [hc]
  · exact h.fpReserveReplenish cputime
  · exact h.edfReserveReplenish cputime

theorem Good.onReplenish (h : Good s rt) : Good (onReplenish c k s rt) rt := by
  unfold Resch.onReplenish
  refine Good.classReserveReplenish (h.data ?_) _
  exact fun _ => ⟨rfl, rfl, rfl, rfl, rfl⟩

theorem Good.reserveReplenish (h : Good s rt) : Good (reserveReplenish c k s rt) rt := by
  unfold Resch.reserveReplenish
  exact (Good.ite (fun _ => h.classReserveReplenish _) (fun _ => h)).data
    fun _ => ⟨rfl, rfl, rfl, rfl, rfl⟩

/-! ## Jobs -/

theorem Good.edfJobStart (h : Good s rt) (hi : s.isActive rt = false) :
    Good (Edf.edfJobStart s rt) rt := by
  unfold Edf.edfJobStart
  have h₁ := h.edfEnqueue hi edf_range
  exact Good.ite (fun _ => h₁.ifSome fun _ => h₁.setProc _) (fun _ => h₁.setProc _)

theorem Good.jobStart (h : Good s rt) (hi : s.isActive rt = false) : Good (jobStart c s rt) rt := by
  unfold Resch.jobStart
  have h₁ : Good (classJobStart s rt) rt := by
    unfold classJobStart
    rcases h.ok.cls with hc | hc <;> simp only [hc]
    · exact h.fpEnqueue hi
    · exact h.edfJobStart hi
  exact Good.ite (fun _ => h₁.startAccount) (fun _ => h₁)

theorem Good.edfJobComplete (h : Good s rt) (ha : s.isActive rt = true) :
    Good (Edf.edfJobComplete s rt) rt := by
  unfold Edf.edfJobComplete
  have h₁ : Good (State.setPrio (Edf.edfDequeueTask s rt (s.task rt).prio (s.task rt).cpuId) rt
      reschPrioEdf) rt := by
    have hd := h.dequeue ha
    have hi : (dequeueTaskAt s rt (s.task rt).prio (s.task rt).cpuId).isActive rt = false :=
      isActive_dequeueTaskAt _ _ _ _
    exact hd.setTask_inactive hi hi ⟨edf_range, hd.ok.save, hd.ok.cls⟩
  exact h₁.ifSome fun _ => h₁.setProc _

theorem Good.jobComplete (h : Good s rt) (ha : s.isActive rt = true) :
    Good (jobComplete c k s rt) rt := by
  unfold Resch.jobComplete
  set s₁ := if (s.task rt).wcetFixed = false ∧ (s.task rt).wcet <
      c.jiffiesToUsecs (execTime c s rt) then s.setTask rt fun t =>
        { t with wcet := c.jiffiesToUsecs (execTime c s rt) } else s with hs₁
  have h₁ : Good s₁ rt := Good.ite (fun _ => h.data fun _ => ⟨rfl, rfl, rfl, rfl, rfl⟩) (fun _ => h)
  have ha₁ : s₁.isActive rt = true := by
    rw [hs₁]; split
    · simpa [State.isActive] using ha
    · exact ha
  have h₂ : Good (classJobComplete s₁ rt) rt := by
    unfold classJobComplete
    rcases h₁.ok.cls with hc | hc <;> simp only [hc]
    · exact h₁.dequeue ha₁
    · exact h₁.edfJobComplete ha₁
  exact Good.ite (fun _ => h₂.stopAccount.reserveReplenish) (fun _ => h₂)

/-! ## Migration, suspension, attaching -/

theorem Good.migrateTask' (h : Good s rt) (cpu : ℕ) : Good (migrateTask' s rt cpu) rt := by
  unfold Resch.migrateTask'
  refine Good.setProc (h.data ?_) _
  exact fun _ => ⟨rfl, rfl, rfl, rfl, rfl⟩

theorem Good.restartAccount (h : Good s rt) {stop start : State → ℕ → State}
    (hstop : ∀ s, Good s rt → Good (stop s rt) rt)
    (hstart : ∀ s, Good s rt → Good (start s rt) rt) : Good (restartAccount stop start s rt) rt :=
  Good.ite (fun _ => hstart _ (hstop _ h)) (fun _ => h)

theorem Good.setCpu_inactive (h : Good s rt) (cpu : ℕ) (hi : s.isActive rt = false) :
    Good (s.setCpu rt cpu) rt :=
  h.setTask_inactive hi hi ⟨h.ok.prio, h.ok.save, h.ok.cls⟩

/-- An active task taken out of its queue and assigned to another CPU. -/
theorem Good.leave (h : Good s rt) (ha : s.isActive rt = true) (cpuDst : ℕ) :
    Good ((dequeueTaskAt s rt (s.task rt).prio (s.task rt).cpuId).setCpu rt cpuDst) rt ∧
      ((dequeueTaskAt s rt (s.task rt).prio (s.task rt).cpuId).setCpu rt cpuDst).isActive rt =
        false := by
  refine ⟨(h.dequeue ha).setCpu_inactive cpuDst (isActive_dequeueTaskAt _ _ _ _), ?_⟩
  simp [State.setCpu, State.isActive, dequeueTaskAt]

theorem Good.fpMigrateTask (h : Good s rt) (cpuDst : ℕ) : Good (fpMigrateTask c s rt cpuDst) rt := by
  unfold Resch.fpMigrateTask
  refine Good.restartAccount (Good.migrateTask' (Good.ite (fun _ => ?_) fun _ => h) _)
    (fun _ h => h.unlimitRttime) (fun _ h => h.fpStartAccount)
  by_cases ha : s.isActive rt = true
  · obtain ⟨hl, hi⟩ := h.leave ha cpuDst
    have := hl.fpEnqueue hi
    simpa [ha, State.setCpu, fpDequeueTask] using this
  · have := h.setCpu_inactive cpuDst (by simpa using ha)
    simpa [ha] using this

theorem Good.edfMigrateTask (h : Good s rt) (cpuDst : ℕ) :
    Good (Edf.edfMigrateTask c s rt cpuDst) rt := by
  unfold Edf.edfMigrateTask
  refine Good.ite (fun _ => ?_) (fun _ => h.migrateTask' _)
  by_cases ha : s.isActive rt = true
  swap
  · have := (h.setCpu_inactive cpuDst (by simpa using ha)).migrateTask' cpuDst
    simpa [ha] using this
  obtain ⟨hl, hi⟩ := h.leave ha cpuDst
  simp only [ha, if_true]
  have h₁ : Good (Edf.edfEnqueueTask ((Edf.edfDequeueTask s rt (s.task rt).prio
      (s.task rt).cpuId).setCpu rt cpuDst) rt
      ((((Edf.edfDequeueTask s rt (s.task rt).prio (s.task rt).cpuId).setCpu rt
        cpuDst).task rt).prio) cpuDst) rt := by
    have := hl.edfEnqueue hi hl.ok.prio
    simpa [State.setCpu, Edf.edfDequeueTask] using this
  have h₂ := fun o : Option ℕ => ((h₁.ifSome (o := o) (f := wakeUpProcess)
    fun _ => h₁.setProc _).migrateTask' cpuDst).restartAccount
      (fun _ h => h.unlimitRttime) (fun _ h => h.limitRttime (c := c))
  exact Good.ifSome (h₂ _) fun _ =>
    Good.ite (fun _ => (h₂ _).setProc _) (fun _ => (h₂ _).setProc _)

theorem Good.migrateTask (h : Good s rt) (cpuDst : ℕ) : Good (migrateTask c s rt cpuDst) rt := by
  unfold Resch.migrateTask
  rcases h.ok.cls with hc | hc <;> simp only [hc]
  · exact h.fpMigrateTask cpuDst
  · exact h.edfMigrateTask cpuDst

/-- Changing to FP or, in a build without `SCHED_DEADLINE`, to EDF. -/
theorem Good.setPolicy (h : Good s rt) (hc : c.schedDeadline = false) {policy : ℤ}
    (hp : policy = reschSchedFp ∨ policy = reschSchedEdf) : Good (setPolicy c s rt policy) rt := by
  unfold Resch.setPolicy
  have hcls : (c.policyClass policy).2 = .fp ∨ (c.policyClass policy).2 = .edf := by
    rcases hp with rfl | rfl
    · exact Or.inl rfl
    · exact Or.inr (by simp [Config.policyClass, Config.edfSchedClass, hc, reschSchedEdf, reschSchedFp])
  refine Good.ite (fun _ => h.setTask ?_ ?_) (fun _ => h)
  · exact ⟨rfl, rfl, rfl⟩
  · exact ⟨h.ok.prio, h.ok.save, hcls⟩

theorem Good.setScheduler (h : Good s rt) (hc : c.schedDeadline = false) {policy : ℤ}
    (hpol : policy = (s.task rt).policy ∨ policy = reschSchedFp ∨ policy = reschSchedEdf)
    (hp : prio = 0 ∨ (reschPrioMin ≤ prio ∧ prio ≤ reschPrioMax)) :
    Good (setScheduler c k s rt policy prio).1 rt := by
  unfold Resch.setScheduler
  have h₁ : Good (Resch.setPolicy c s rt policy) rt := by
    rcases hpol with rfl | hpol
    · rw [setPolicy_same]; exact h
    · exact h.setPolicy hc hpol
  have h₂ : Good (Resch.setScheduler' c k (Resch.setPolicy c s rt policy) rt prio).1 rt :=
    h₁.setScheduler' hp
  by_cases hk : k.capable = true
  · simpa [hk] using h₂
  · simpa [hk, requestSetScheduler] using h₂

/-- Suspending an active task. -/
theorem Good.jobSuspend (h : Good s rt) (hc : c.schedDeadline = false)
    (ha : s.isActive rt = true) : Good (jobSuspend c k s rt) rt := by
  unfold Resch.jobSuspend
  set s₁ := if (s.task rt).prio ≠ (s.task rt).prioSave then
    (Resch.setScheduler c k s rt (s.task rt).policy (s.task rt).prioSave).1 else s with hs₁
  have h₁ : Good s₁ rt :=
    Good.ite (fun _ => h.setScheduler hc (Or.inl rfl) h.ok.save) (fun _ => h)
  obtain ⟨hcpu, hact⟩ : (s₁.task rt).cpuId = (s.task rt).cpuId ∧ s₁.isActive rt = s.isActive rt := by
    rw [hs₁]; split
    · exact ⟨setScheduler_sameLinks.cpu, setScheduler_sameLinks.active⟩
    · exact ⟨rfl, rfl⟩
  show Good (classDequeueTask s₁ rt (s₁.task rt).prio (s.task rt).cpuId) rt
  rw [classDequeueTask_eq h₁.ok.cls_ne_fair, ← hcpu]
  exact h₁.dequeue (hact.trans ha)

/-- What `resch_task_init` does to a descriptor that is linked nowhere. -/
theorem Good.reschTaskInit (h : Queued s s.place) (hi : s.isActive rt = false)
    (hsave : (s.task rt).prioSave = 0 ∨
      (reschPrioMin ≤ (s.task rt).prioSave ∧ (s.task rt).prioSave ≤ reschPrioMax)) (p : ℕ) :
    Good (reschTaskInit c k s rt p) rt := by
  obtain ⟨t, proc, heq, ht, hps⟩ := reschTaskInit_eq c k s rt p
  have hs : Queued (s.setTask rt fun _ => t) (s.setTask rt fun _ => t).place :=
    h.setTask_inactive hi ht.activeEntry
  rw [heq]
  refine ⟨hs.of_fields rfl fun _ => ⟨rfl, rfl, rfl⟩, ?_⟩
  simp only [Function.update_self]
  exact ⟨by rw [ht.prio]; decide, by rw [hps]; exact hsave, Or.inl ht.cls⟩

end Resch
