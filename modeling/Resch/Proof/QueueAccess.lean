import Resch.Lib.Runs
import Resch.Proof.PolicyClass
import Resch.Spec.QueueAccess

/-!
# Levels of the active queues stay in range

Queues have the levels of the priorities `1..RESCH_PRIO_MAX`. A class that has queues uses the
priority of the task, the one requested, the one saved, or a constant.

* `LevelOk`: the priority of a task of such a class has a level, a saved priority is zero or has
  one, and so have all enqueues and dequeues so far.
* `accesses_in_range`: in runs of calls that are `ranged`, every access is in range.
-/

namespace Resch

open Lib

variable {c : Config} {k : Kernel} {s s' : State} {rt q cpu : ℕ} {prio : ℤ}

/-- The index is one of the array of queues. -/
def IdxOk (i : ℤ) : Prop := 0 ≤ i ∧ i < reschPrioMax

/-- Level 0 is that of the highest priority. -/
theorem idxOk_prioIndex (h : hasLevel prio = true) : IdxOk (prioIndex prio) := by
  have hp := of_decide_eq_true h
  unfold IdxOk prioIndex
  unfold reschPrioMin reschPrioMax maxRtPrio at *
  omega

/-- What the levels that a task uses depend on. -/
def Task.level (t : Task) : SchedClass × ℤ × ℤ × ℤ := (t.cls, t.policy, t.prio, t.prioSave)

/-- **The invariant** -/
structure LevelOk (c : Config) (s : State) : Prop where
  prio : ∀ q, (s.task q).cls ≠ .fair → hasLevel (s.task q).prio = true
  save : ∀ q, (s.task q).prioSave ≠ 0 → hasLevel (s.task q).prioSave = true
  policy : PolicyOk c s
  trace : ∀ a ∈ s.trace, IdxOk a.idx

/-- At first all tasks are fair, and nothing has been enqueued. -/
theorem schedInit_levelOk (c : Config) (jiffies : ℕ) (proc : ℕ → Proc) :
    LevelOk c (schedInit jiffies proc) where
  prio := fun _ h => absurd rfl h
  save := fun _ h => absurd rfl h
  policy := schedInit_policyOk c jiffies proc
  trace := fun _ ha => absurd ha List.not_mem_nil

/-! ## Assignments -/

/-- No access is made, and the tasks use the same levels. -/
structure SameLevels (s s' : State) : Prop where
  trace : s'.trace = s.trace
  task : ∀ q, (s'.task q).level = (s.task q).level

theorem SameLevels.refl (s : State) : SameLevels s s := ⟨rfl, fun _ => rfl⟩

/-- Another field of a task -/
theorem sameLevels_setTask {f : Task → Task} (hf : ∀ t, (f t).level = t.level) :
    SameLevels s (s.setTask rt f) := by
  refine ⟨rfl, fun q => ?_⟩
  by_cases hq : q = rt
  · subst hq
    rw [task_setTask_self]
    exact hf _
  · rw [task_setTask_of_ne f hq]

theorem sameLevels_setProc (p : ℕ) (f : Proc → Proc) : SameLevels s (s.setProc p f) :=
  ⟨rfl, fun _ => rfl⟩

/-- The global list is not made of levels. -/
theorem GlobalOnly.sameLevels (h : GlobalOnly s s') : SameLevels s s' := by
  refine ⟨h.trace, fun q => ?_⟩
  obtain ⟨b, hb⟩ := h.task q
  rw [hb]
  rfl

/-- Components are not queues. -/
theorem trace_onComponents {op : ApiOp} (hop : op.onComponents = true)
    (h : op.exec c k s = some s') : s'.trace = s.trace := by
  cases op with
  | componentCreate =>
    cases h
    unfold apiComponentCreate
    dsimp only
    split <;> rfl
  | componentDestroy cid =>
    cases h
    rfl
  | compose rt cid =>
    obtain ⟨⟨s₁, res⟩, h₁, rfl⟩ := Option.map_eq_some_iff.1 h
    unfold apiCompose at h₁
    split at h₁
    · cases h₁; rfl
    split at h₁
    · cases h₁
    split at h₁
    · cases h₁; rfl
    split at h₁
    · cases h₁; rfl
    split at h₁
    · cases h₁
    obtain ⟨rfl, -⟩ := Prod.mk.inj (Option.some.inj h₁)
    rfl
  | decompose rt =>
    cases h
    unfold apiDecompose
    split <;> rfl
  | _ => cases hop

theorem ComponentOnly.sameTask (h : ComponentOnly s s') (q : ℕ) :
    (s'.task q).level = (s.task q).level := by
  obtain ⟨b, hb⟩ := h.task q
  rw [hb]
  rfl

/-- The four fields on their own -/
theorem SameLevels.fields (h : SameLevels s s') (q : ℕ) :
    (s'.task q).cls = (s.task q).cls ∧ (s'.task q).policy = (s.task q).policy ∧
      (s'.task q).prio = (s.task q).prio ∧ (s'.task q).prioSave = (s.task q).prioSave := by
  have hq := h.task q
  unfold Task.level at hq
  simpa using hq

/-- What keeps levels and accesses keeps the invariant. -/
theorem LevelOk.of_same (h : LevelOk c s) (hs : SameLevels s s') : LevelOk c s' := by
  refine ⟨fun q hq => ?_, fun q hq => ?_, fun q => ?_, ?_⟩
  · rw [(hs.fields q).1] at hq
    rw [(hs.fields q).2.2.1]
    exact h.prio q hq
  · rw [(hs.fields q).2.2.2] at hq ⊢
    exact h.save q hq
  · rw [(hs.fields q).1, (hs.fields q).2.1]
    exact h.policy q
  · rw [hs.trace]
    exact h.trace

section Keep

variable (h : LevelOk c s)

include h

theorem LevelOk.setTask {f : Task → Task} (hf : ∀ t, (f t).level = t.level) :
    LevelOk c (s.setTask rt f) := h.of_same (sameLevels_setTask hf)

theorem LevelOk.setProc (p : ℕ) (f : Proc → Proc) : LevelOk c (s.setProc p f) :=
  h.of_same (sameLevels_setProc p f)

/-- One task gets another class, priority or saved priority. -/
theorem LevelOk.setLevel {f : Task → Task}
    (hprio : (f (s.task rt)).cls ≠ .fair → hasLevel (f (s.task rt)).prio = true)
    (hsave : (f (s.task rt)).prioSave ≠ 0 → hasLevel (f (s.task rt)).prioSave = true)
    (hpol : PolicyOk c (s.setTask rt f)) : LevelOk c (s.setTask rt f) := by
  refine ⟨fun q hq => ?_, fun q hq => ?_, hpol, h.trace⟩
  · by_cases hqr : q = rt
    · subst hqr
      rw [task_setTask_self] at hq ⊢
      exact hprio hq
    · rw [task_setTask_of_ne f hqr] at hq ⊢
      exact h.prio q hq
  · by_cases hqr : q = rt
    · subst hqr
      rw [task_setTask_self] at hq ⊢
      exact hsave hq
    · rw [task_setTask_of_ne f hqr] at hq ⊢
      exact h.save q hq

/-- A priority that has a level, unless the class has no queues -/
theorem LevelOk.setPrio (hp : (s.task rt).cls ≠ .fair → hasLevel prio = true) :
    LevelOk c (s.setPrio rt prio) :=
  h.setLevel hp (h.save rt) (h.policy.of_same (Updates.refl s).setPrio.sameAll)

/-- An access to a level that is in range -/
theorem LevelOk.link {idx : ℤ} (hi : IdxOk idx) (cpu : ℕ) (ins : List ℕ → List ℕ) :
    LevelOk c (s.link rt cpu idx ins) := by
  have hsame : ∀ q, ((s.link rt cpu idx ins).task q).level = (s.task q).level := by
    intro q
    by_cases hq : q = rt
    · subst hq
      rw [task_link_self]
      rfl
    · rw [task_link_of_ne hq]
  have hkeep : LevelOk c { s.link rt cpu idx ins with trace := s.trace } := h.of_same ⟨rfl, hsame⟩
  refine ⟨hkeep.prio, hkeep.save, hkeep.policy, fun a ha => ?_⟩
  rcases List.mem_cons.1 ha with rfl | ha
  · exact hi
  · exact h.trace a ha

theorem LevelOk.unlink {idx : ℤ} (hi : IdxOk idx) (cpu : ℕ) : LevelOk c (s.unlink rt cpu idx) := by
  have hsame : ∀ q, ((s.unlink rt cpu idx).task q).level = (s.task q).level := by
    intro q
    by_cases hq : q = rt
    · subst hq
      rw [task_unlink_self]
      rfl
    · rw [task_unlink_of_ne hq]
  have hkeep : LevelOk c { s.unlink rt cpu idx with trace := s.trace } := h.of_same ⟨rfl, hsame⟩
  refine ⟨hkeep.prio, hkeep.save, hkeep.policy, fun a ha => ?_⟩
  rcases List.mem_cons.1 ha with rfl | ha
  · exact hi
  · exact h.trace a ha

/-- A function that is called for a task, if there is one -/
theorem LevelOk.ifSome {o : Option ℕ} {f : State → ℕ → State} (hf : ∀ q, LevelOk c (f s q)) :
    LevelOk c (ifSome s o f) := by
  cases o with
  | none => exact h
  | some q => exact hf q

/-! ## Queues -/

/-- The level is that of the argument. -/
theorem LevelOk.enqueueTaskAt (hp : hasLevel prio = true) (ins : List ℕ → List ℕ) (cpu : ℕ) :
    LevelOk c (enqueueTaskAt ins s rt prio cpu) := h.link (idxOk_prioIndex hp) cpu ins

/-- So it is here. -/
theorem LevelOk.dequeueTaskAt (hp : hasLevel prio = true) (cpu : ℕ) :
    LevelOk c (dequeueTaskAt s rt prio cpu) := h.unlink (idxOk_prioIndex hp) cpu

/-- EDF enqueues at the argument, and sets the priority of the task to it. -/
theorem LevelOk.edfEnqueueTask (hp : hasLevel prio = true) (cpu : ℕ) :
    LevelOk c (Edf.edfEnqueueTask s rt prio cpu) :=
  (h.enqueueTaskAt hp (deadlineInsert s rt) cpu).setPrio fun _ => hp

/-- A fair task is in no queue. -/
theorem LevelOk.classEnqueueTask (hp : (s.task rt).cls ≠ .fair → hasLevel prio = true) (cpu : ℕ) :
    LevelOk c (classEnqueueTask s rt prio cpu) := by
  unfold Resch.classEnqueueTask
  split
  · exact h
  all_goals
    rename_i hcls
    have hlevel : hasLevel prio = true := hp (by simp [hcls])
  · exact h.enqueueTaskAt hlevel _ cpu
  · exact h.edfEnqueueTask hlevel cpu
  · exact h.enqueueTaskAt hlevel _ cpu

theorem LevelOk.classDequeueTask (hp : (s.task rt).cls ≠ .fair → hasLevel prio = true) (cpu : ℕ) :
    LevelOk c (classDequeueTask s rt prio cpu) := by
  unfold Resch.classDequeueTask
  split
  · exact h
  all_goals
    rename_i hcls
    exact h.dequeueTaskAt (hp (by simp [hcls])) cpu

/-- From a level to that of the priority of the task. -/
theorem LevelOk.requeueTask (hold : (s.task rt).cls ≠ .fair → hasLevel prio = true) :
    LevelOk c (requeueTask s rt prio) := by
  unfold Resch.requeueTask
  have hdeq := h.classDequeueTask hold (s.task rt).cpuId
  refine hdeq.classEnqueueTask (fun hcls => h.prio rt ?_) _
  intro hfair
  refine hcls ?_
  rw [task_classDequeue]
  split <;> exact hfair

/-- It is dequeued at the priority it has, and enqueued at the one requested. -/
theorem LevelOk.moveTask (hold : (s.task rt).cls ≠ .fair → hasLevel prio = true) :
    LevelOk c (moveTask s rt prio) := by
  have hglobal : SameLevels s (if s.isManaged rt then globalListReinsert s rt else s) := by
    split
    · exact globalListReinsert_only.sameLevels
    · exact .refl s
  unfold Resch.moveTask
  generalize (if s.isManaged rt then globalListReinsert s rt else s) = s₁ at hglobal
  dsimp only
  split
  · refine (h.of_same hglobal).requeueTask fun hcls => hold ?_
    rwa [← (hglobal.fields rt).1]
  · exact h.of_same hglobal

/-! ## Setting the scheduler -/

/-- Nothing changes unless Linux accepts. -/
theorem LevelOk.setSchedulerAs {policy : LinuxPolicy}
    (hp : (setSchedulerAs k policy s rt prio).2 = true → (s.task rt).cls ≠ .fair →
      hasLevel prio = true) : LevelOk c (setSchedulerAs k policy s rt prio).1 := by
  unfold Resch.setSchedulerAs schedSetscheduler at hp ⊢
  by_cases hk : k.setscheduler policy prio = true
  · rw [if_pos hk] at hp ⊢
    exact (h.setProc _ _).setPrio (hp rfl)
  · rw [if_neg hk]
    exact h

/-- `SCHED_DEADLINE` takes any priority, so that its level is a condition. -/
theorem LevelOk.deadlineSetScheduler
    (hp : (Deadline.edfSetScheduler c k s rt prio).2 = true → hasLevel prio = true) :
    LevelOk c (Deadline.edfSetScheduler c k s rt prio).1 := by
  unfold Deadline.edfSetScheduler at hp ⊢
  dsimp only at hp ⊢
  have hread : LevelOk c s.rcuReadLock := h.of_same ⟨rfl, fun _ => rfl⟩
  split at hp
  · rename_i hrefused
    rw [if_pos hrefused]
    exact hread
  · rename_i hgranted
    rw [if_neg hgranted]
    have hlevel : hasLevel prio = true := by
      refine hp ?_
      split <;> rfl
    have hset : LevelOk c ((s.rcuReadLock.setProc (s.task rt).task
        fun q => { q with policy := .deadline }).rcuReadUnlock.setPrio rt prio) :=
      LevelOk.setPrio (hread.of_same ⟨rfl, fun _ => rfl⟩) fun _ => hlevel
    split <;> dsimp only
    · exact hset.setProc _ _
    · exact hset.setProc _ _

/-- Whatever the class -/
theorem LevelOk.classSetScheduler
    (hp : (classSetScheduler c k s rt prio).2 = true → (s.task rt).cls ≠ .fair →
      hasLevel prio = true) : LevelOk c (classSetScheduler c k s rt prio).1 := by
  unfold Resch.classSetScheduler at hp ⊢
  cases hcls : (s.task rt).cls <;> rw [hcls] at hp
  · exact h.setSchedulerAs fun _ hne => absurd hcls hne
  · exact h.setSchedulerAs fun hok _ => hp hok (by decide)
  · exact h.setSchedulerAs fun hok _ => hp hok (by decide)
  · exact h.deadlineSetScheduler fun hok => hp hok (by decide)

/-- The priority is the task's from then on. -/
theorem LevelOk.setScheduler'
    (hp : (Resch.classSetScheduler c k s rt prio).2 = true → (s.task rt).cls ≠ .fair →
      hasLevel prio = true) : LevelOk c (setScheduler' c k s rt prio).1 := by
  have hset := h.classSetScheduler hp
  have hsame : Updates rt s (Resch.classSetScheduler c k s rt prio).1 :=
    (Updates.refl s).classSetScheduler
  unfold Resch.setScheduler'
  generalize Resch.classSetScheduler c k s rt prio = r at hset hsame
  obtain ⟨s₁, ok⟩ := r
  dsimp only
  split
  · exact hset
  · split
    · exact hset
    · refine hset.moveTask fun hcls => h.prio rt ?_
      rwa [hsame.same.cls] at hcls

/-- What Linux does not grant to a task of a class with queues has no effect; a priority that was
saved has a level, unless it is zero, which only `SCHED_DEADLINE` grants. -/
theorem LevelOk.setSaved (hdl : (s.task rt).cls = .deadline →
      (Deadline.edfSetScheduler c k s rt (s.task rt).prioSave).2 = true → (s.task rt).prioSave ≠ 0) :
    LevelOk c (Resch.setScheduler' c k s rt (s.task rt).prioSave).1 := by
  refine h.setScheduler' fun hok hcls => h.save rt fun hzero => ?_
  unfold Resch.classSetScheduler at hok
  have hfifo : (Resch.setSchedulerAs k .fifo s rt (s.task rt).prioSave).2 ≠ true := by
    unfold Resch.setSchedulerAs schedSetscheduler
    rw [if_neg]
    · exact Bool.false_ne_true
    · intro hk
      have hrange := k.fifo_range _ hk
      omega
  split at hok
  · rename_i hfair
    exact hcls hfair
  · exact hfifo hok
  · exact hfifo hok
  · rename_i hdeadline
    exact hdl hdeadline hok hzero

/-! ## Accounting -/

theorem LevelOk.limitRttime : LevelOk c (limitRttime c s rt) := h.setProc _ _

theorem LevelOk.unlimitRttime : LevelOk c (unlimitRttime s rt) := h.setProc _ _

/-- FP saves a priority that has a level. -/
theorem LevelOk.fpStartAccount (hcls : (s.task rt).cls ≠ .fair) :
    LevelOk c (Resch.fpStartAccount c s rt) := by
  have hlevel := h.prio rt hcls
  refine LevelOk.setLevel h.limitRttime (h.prio rt) (fun _ => hlevel) ?_
  have hup : Updates rt s (Resch.fpStartAccount c s rt) :=
    (Updates.refl s).limitRttime.setTask ⟨rfl, rfl, rfl, rfl, rfl, rfl⟩
  exact h.policy.of_same hup.sameAll

theorem LevelOk.deadlineStartAccount : LevelOk c (Deadline.edfStartAccount c s rt) := by
  unfold Deadline.edfStartAccount
  refine LevelOk.setProc ?_ _ _
  split
  · exact h
  · exact h.setProc _ _

theorem LevelOk.classStartAccount : LevelOk c (classStartAccount c s rt) := by
  unfold Resch.classStartAccount
  split
  · exact h
  · exact h.fpStartAccount (by rename_i hcls; rw [hcls]; decide)
  · exact h.limitRttime
  · exact h.deadlineStartAccount

theorem LevelOk.classStopAccount : LevelOk c (classStopAccount s rt) := by
  unfold Resch.classStopAccount
  split
  · exact h
  · exact h.unlimitRttime
  · exact h.unlimitRttime
  · exact h.setProc _ _

/-- `accounting` is not in the invariant. -/
theorem LevelOk.startAccount : LevelOk c (startAccount c s rt) := by
  unfold Resch.startAccount
  split
  · exact h
  · have hbudget : LevelOk c (s.setTask rt fun t => { t with budget := budgetLeft c s rt }) :=
      h.setTask fun _ => rfl
    exact hbudget.classStartAccount.setTask fun _ => rfl

theorem LevelOk.stopAccount : LevelOk c (stopAccount c s rt) := by
  unfold Resch.stopAccount
  refine LevelOk.setTask ?_ fun _ => rfl
  split
  · have hbudget : LevelOk c (s.setTask rt fun t => { t with budget := budgetLeft c s rt }) :=
      h.setTask fun _ => rfl
    exact hbudget.classStopAccount.setTask fun _ => rfl
  · exact h

/-- Only the state at the end counts. -/
theorem LevelOk.restartAccount {stop start : State → ℕ → State}
    (hstart : LevelOk c (start (stop s rt) rt)) : LevelOk c (restartAccount stop start s rt) := by
  unfold Resch.restartAccount
  split
  · exact hstart
  · exact h

/-! ## Reserves -/

/-- EDF goes to its background level. -/
theorem LevelOk.edfReserveExpire (hcls : (s.task rt).cls ≠ .fair) :
    LevelOk c (Edf.edfReserveExpire s rt) := by
  unfold Edf.edfReserveExpire
  dsimp only
  split
  · exact h
  · have hdeq : LevelOk c (Edf.edfDequeueTask s rt (s.task rt).prio (s.task rt).cpuId) :=
      h.dequeueTaskAt (h.prio rt hcls) _
    have henq : LevelOk c (Edf.edfEnqueueTask (Edf.edfDequeueTask s rt (s.task rt).prio
        (s.task rt).cpuId) rt reschPrioBackground (s.task rt).cpuId) :=
      hdeq.edfEnqueueTask (by decide) _
    refine henq.ifSome fun next => ?_
    split
    · exact henq
    · exact (henq.setProc _ _).setProc _ _

/-- FP goes to the background level, which Linux accepts or refuses. -/
theorem LevelOk.classReserveExpire : LevelOk c (classReserveExpire c k s rt) := by
  unfold Resch.classReserveExpire
  split
  · exact h
  · exact h.setScheduler' fun _ _ => by decide
  · exact h.edfReserveExpire (by rename_i hcls; rw [hcls]; decide)
  · exact h

/-- FP goes back to the saved priority. -/
theorem LevelOk.fpReserveReplenish (hcls : (s.task rt).cls = .fp) (cputime : ℕ) :
    LevelOk c (fpReserveReplenish c k s rt cputime) := by
  unfold Resch.fpReserveReplenish requestSetScheduler
  have hbudget : LevelOk c (s.setTask rt fun t => { t with budget := t.budget + cputime }) :=
    h.setTask fun _ => rfl
  dsimp only
  split
  · refine hbudget.setSaved fun hdl => ?_
    rw [task_setTask_self] at hdl
    rw [hcls] at hdl
    cases hdl
  · exact hbudget

theorem LevelOk.edfReserveReplenish (cputime : ℕ) :
    LevelOk c (Edf.edfReserveReplenish s rt cputime) := by
  unfold Edf.edfReserveReplenish
  have hbudget : LevelOk c (s.setTask rt fun t => { t with budget := t.budget + cputime }) :=
    h.setTask fun _ => rfl
  dsimp only
  split
  · have henq : LevelOk c (Edf.edfEnqueueTask (Edf.edfDequeueTask (s.setTask rt fun t =>
        { t with budget := t.budget + cputime }) rt reschPrioBackground (s.task rt).cpuId) rt
          reschPrioEdf (s.task rt).cpuId) :=
      LevelOk.edfEnqueueTask (hbudget.dequeueTaskAt (by decide) _) (by decide) _
    split
    · refine LevelOk.setProc (henq.ifSome fun p => ?_) _ _
      exact henq.setProc _ _
    · exact henq
  · exact hbudget

/-- Whatever the class -/
theorem LevelOk.classReserveReplenish (cputime : ℕ) :
    LevelOk c (classReserveReplenish c k s rt cputime) := by
  unfold Resch.classReserveReplenish
  split
  · exact h
  · exact h.fpReserveReplenish ‹_› cputime
  · exact h.edfReserveReplenish cputime
  · exact h

theorem LevelOk.reserveReplenish : LevelOk c (reserveReplenish c k s rt) := by
  unfold Resch.reserveReplenish
  refine LevelOk.setTask ?_ fun _ => rfl
  split
  · exact h.classReserveReplenish _
  · exact h

theorem LevelOk.onReplenish : LevelOk c (onReplenish c k s rt) := by
  unfold Resch.onReplenish
  refine LevelOk.classReserveReplenish ?_ _
  exact h.setTask fun _ => rfl

theorem LevelOk.reserveStop : LevelOk c (reserveStop c s rt) := by
  unfold Resch.reserveStop
  refine LevelOk.setTask (LevelOk.stopAccount ?_) fun _ => rfl
  exact h.setTask fun _ => rfl

/-- The reserve that expires may be replenished at once. -/
theorem LevelOk.apiReserveExpire : LevelOk c (apiReserveExpire c k s rt).1 := by
  unfold Resch.apiReserveExpire
  split
  · exact h
  · have hstop : LevelOk c (if s.isAccounting rt then Resch.stopAccount c s rt else s) := by
      split
      · exact h.stopAccount
      · exact h
    generalize (if s.isAccounting rt then Resch.stopAccount c s rt else s) = s₁ at hstop
    dsimp only
    split
    · exact (hstop.classReserveReplenish _).startAccount
    · dsimp only
      refine LevelOk.setTask ?_ fun _ => rfl
      exact hstop.classReserveExpire

/-! ## Jobs -/

/-- EDF enqueues at its base level, whatever the priority of the task is. -/
theorem LevelOk.edfJobStart : LevelOk c (Edf.edfJobStart s rt) := by
  unfold Edf.edfJobStart
  have henq : LevelOk c (Edf.edfEnqueueTask s rt reschPrioEdf (s.task rt).cpuId) :=
    h.edfEnqueueTask (by decide) _
  dsimp only
  split
  · exact henq.ifSome fun curr => henq.setProc _ _
  · exact henq.setProc _ _

/-- FP enqueues at the priority of the task. Accounting does not touch the queues. -/
theorem LevelOk.jobStart : LevelOk c (jobStart c s rt) := by
  have hclass : LevelOk c (classJobStart s rt) := by
    unfold classJobStart
    split
    · exact h
    · unfold fpJobStart fpEnqueueTask
      exact h.enqueueTaskAt (h.prio rt (by rename_i hcls; rw [hcls]; decide)) _ _
    · exact h.edfJobStart
    · exact h.enqueueTaskAt (by decide) _ _
  unfold Resch.jobStart
  dsimp only
  split
  · exact hclass.startAccount
  · exact hclass

/-- FP and EDF dequeue at the priority of the task, `SCHED_DEADLINE` at the base level. -/
theorem LevelOk.classJobComplete : LevelOk c (classJobComplete s rt) := by
  unfold Resch.classJobComplete
  split
  · exact h
  · exact h.dequeueTaskAt (h.prio rt (by rename_i hcls; rw [hcls]; decide)) _
  · unfold Edf.edfJobComplete
    have hdeq : LevelOk c (Edf.edfDequeueTask s rt (s.task rt).prio (s.task rt).cpuId) :=
      h.dequeueTaskAt (h.prio rt (by rename_i hcls; rw [hcls]; decide)) _
    have hprio : LevelOk c ((Edf.edfDequeueTask s rt (s.task rt).prio (s.task rt).cpuId).setPrio rt
        reschPrioEdf) := hdeq.setPrio fun _ => by decide
    exact hprio.ifSome fun p => hprio.setProc _ _
  · exact h.dequeueTaskAt (by decide) _

/-- The reserve, if there is one, is replenished after that. -/
theorem LevelOk.jobComplete : LevelOk c (jobComplete c k s rt) := by
  unfold Resch.jobComplete
  dsimp only
  generalize c.jiffiesToUsecs (execTime c s rt) = spent
  have hwcet : LevelOk c (if (s.task rt).wcetFixed = false ∧ (s.task rt).wcet < spent then
      s.setTask rt fun t => { t with wcet := spent } else s) := by
    split
    · exact h.setTask fun _ => rfl
    · exact h
  generalize (if (s.task rt).wcetFixed = false ∧ (s.task rt).wcet < spent then
    s.setTask rt fun t => { t with wcet := spent } else s) = s₁ at hwcet
  split
  · exact hwcet.classJobComplete.stopAccount.reserveReplenish
  · exact hwcet.classJobComplete

/-- The release that is due starts the job. -/
theorem LevelOk.jobRelease (hs : jobRelease c s rt = some s') : LevelOk c s' := by
  obtain ⟨s₁, h₁, rfl⟩ := Option.map_eq_some_iff.1 hs
  unfold jobReleaseDone at h₁
  dsimp only at h₁
  split at h₁
  · cases h₁
  · rw [Option.some.injEq] at h₁
    subst h₁
    have hproc := (h.setProc (s.task rt).task fun q => { q with state := .running }).setProc
      (s.task rt).task fun q => { q with cputime := 0 }
    exact LevelOk.jobStart (hproc.setTask fun _ => rfl)

theorem LevelOk.jobReleaseWait (releaseTime : ℕ) : LevelOk c (jobReleaseWait s rt releaseTime) := by
  unfold Resch.jobReleaseWait
  have hset : LevelOk c (s.setTask rt fun t => { t with releaseTime := releaseTime }) :=
    h.setTask fun _ => rfl
  dsimp only
  split
  · exact hset
  · split
    · exact hset.setProc _ _
    · exact hset
  · split
    · exact hset.setProc _ _
    · exact hset
  · exact hset.setProc _ _

/-! ## Migration -/

theorem LevelOk.migrateTask' (cpu : ℕ) : LevelOk c (migrateTask' s rt cpu) := by
  unfold Resch.migrateTask'
  refine LevelOk.setProc ?_ _ _
  exact h.setTask fun _ => rfl

theorem LevelOk.setCpu (cpu : ℕ) : LevelOk c (s.setCpu rt cpu) := h.setTask fun _ => rfl

omit h in
/-- On the way to another CPU, a task has its priority and class. -/
theorem task_transfer (s : State) (rt : ℕ) (prio : ℤ) (cpuSrc cpuDst : ℕ) :
    (((dequeueTaskAt s rt prio cpuSrc).setCpu rt cpuDst).task rt).prio = (s.task rt).prio ∧
      (((dequeueTaskAt s rt prio cpuSrc).setCpu rt cpuDst).task rt).cls = (s.task rt).cls := by
  unfold dequeueTaskAt State.setCpu
  rw [task_setTask_self, task_unlink_self]
  exact ⟨rfl, rfl⟩

/-- Out of a level and to another CPU. -/
theorem LevelOk.transfer (hp : hasLevel prio = true) (cpuSrc cpuDst : ℕ) :
    LevelOk c ((Resch.dequeueTaskAt s rt prio cpuSrc).setCpu rt cpuDst) :=
  LevelOk.setCpu (h.dequeueTaskAt hp cpuSrc) cpuDst

/-- Accounting stops and starts, which saves the priority again. -/
theorem LevelOk.fpRestart (hcls : (s.task rt).cls ≠ .fair) (cpuDst : ℕ) :
    LevelOk c (Resch.restartAccount fpStopAccount (Resch.fpStartAccount c)
      (Resch.migrateTask' s rt cpuDst) rt) := by
  have hup : Updates rt s (fpStopAccount (Resch.migrateTask' s rt cpuDst) rt) :=
    ((Updates.refl s).migrateTask' cpuDst).unlimitRttime
  refine LevelOk.restartAccount (h.migrateTask' cpuDst) ?_
  refine LevelOk.fpStartAccount (LevelOk.unlimitRttime (h.migrateTask' cpuDst)) ?_
  rw [hup.same.cls]
  exact hcls

theorem LevelOk.fpMigrateTask (hcls : (s.task rt).cls ≠ .fair) (cpuDst : ℕ) :
    LevelOk c (fpMigrateTask c s rt cpuDst) := by
  unfold Resch.fpMigrateTask
  dsimp only
  split
  · split
    · obtain ⟨hprio, hcls'⟩ := task_transfer s rt (s.task rt).prio (s.task rt).cpuId cpuDst
      refine LevelOk.fpRestart (LevelOk.enqueueTaskAt (h.transfer (h.prio rt hcls) _ _) ?_ _ _) ?_ _
      · unfold fpDequeueTask
        rw [hprio]
        exact h.prio rt hcls
      · exact ne_of_eq_of_ne ((same_link _ rt _ _ _ rt).cls.trans hcls') hcls
    · refine LevelOk.fpRestart (h.setCpu cpuDst) ?_ _
      unfold State.setCpu
      rw [task_setTask_self]
      exact hcls
  · exact h.fpRestart hcls cpuDst

theorem LevelOk.edfMigrateTask (hcls : (s.task rt).cls ≠ .fair) (cpuDst : ℕ) :
    LevelOk c (Edf.edfMigrateTask c s rt cpuDst) := by
  unfold Edf.edfMigrateTask
  dsimp only
  split
  · split
    · obtain ⟨hprio, -⟩ := task_transfer s rt (s.task rt).prio (s.task rt).cpuId cpuDst
      have hmove : LevelOk c ((Resch.dequeueTaskAt s rt (s.task rt).prio (s.task rt).cpuId).setCpu rt
          cpuDst) := h.transfer (h.prio rt hcls) _ _
      unfold Edf.edfDequeueTask
      generalize (Resch.dequeueTaskAt s rt (s.task rt).prio (s.task rt).cpuId).setCpu rt cpuDst = s₁
        at hmove hprio
      have henq : LevelOk c (Edf.edfEnqueueTask s₁ rt (s₁.task rt).prio cpuDst) :=
        hmove.edfEnqueueTask (by rw [hprio]; exact h.prio rt hcls) _
      generalize Edf.edfEnqueueTask s₁ rt (s₁.task rt).prio cpuDst = s₂ at henq
      generalize (if activeHighestPrioTask s (s.task rt).cpuId = some rt then activeNextPrioTask s rt
        else none) = next
      have hwoken : LevelOk c (Resch.ifSome s₂ next wakeUpProcess) :=
        henq.ifSome fun p => henq.setProc _ _
      have hacc : LevelOk c (Resch.restartAccount Edf.edfStopAccount (Edf.edfStartAccount c)
          (Resch.migrateTask' (Resch.ifSome s₂ next wakeUpProcess) rt cpuDst) rt) :=
        (hwoken.migrateTask' cpuDst).restartAccount
          (LevelOk.limitRttime (hwoken.migrateTask' cpuDst).unlimitRttime)
      refine hacc.ifSome fun curr => ?_
      split
      · exact hacc.setProc _ _
      · exact hacc.setProc _ _
    · exact (h.setCpu cpuDst).migrateTask' cpuDst
  · exact h.migrateTask' cpuDst

theorem LevelOk.deadlineMigrateTask (cpuDst : ℕ) :
    LevelOk c (Deadline.edfMigrateTask c s rt cpuDst) := by
  unfold Deadline.edfMigrateTask
  dsimp only
  split
  · split
    · have hmove : LevelOk c ((Resch.dequeueTaskAt s rt reschPrioEdf (s.task rt).cpuId).setCpu rt
          cpuDst) := h.transfer (by decide) _ _
      unfold Deadline.edfDequeueTask Deadline.edfEnqueueTask
      generalize (Resch.dequeueTaskAt s rt reschPrioEdf (s.task rt).cpuId).setCpu rt cpuDst = s₁
        at hmove
      have henq : LevelOk c (Resch.enqueueTaskAt (deadlineInsert s₁ rt) s₁ rt reschPrioEdf cpuDst) :=
        hmove.enqueueTaskAt (by decide) _ _
      refine (henq.migrateTask' cpuDst).restartAccount (LevelOk.deadlineStartAccount ?_)
      exact (henq.migrateTask' cpuDst).setProc _ _
    · exact (h.setCpu cpuDst).migrateTask' cpuDst
  · exact h.migrateTask' cpuDst

/-- Whatever the class -/
theorem LevelOk.migrateTask (cpuDst : ℕ) : LevelOk c (migrateTask c s rt cpuDst) := by
  unfold Resch.migrateTask
  split
  · exact h
  · exact h.fpMigrateTask (by rename_i hcls; rw [hcls]; decide) cpuDst
  · exact h.edfMigrateTask (by rename_i hcls; rw [hcls]; decide) cpuDst
  · exact h.deadlineMigrateTask cpuDst

/-! ## Calls -/

/-- The task gets the class of a policy, and then asks for a priority. -/
theorem LevelOk.setScheduler {policy : ℤ}
    (hcls : ((setPolicy c s rt policy).task rt).cls ≠ .fair → hasLevel (s.task rt).prio = true)
    (hp : (Resch.classSetScheduler c k (setPolicy c s rt policy) rt prio).2 = true →
      ((setPolicy c s rt policy).task rt).cls ≠ .fair → hasLevel prio = true) :
    LevelOk c (setScheduler c k s rt policy prio).1 := by
  rw [setScheduler_fst]
  refine LevelOk.setScheduler' ?_ hp
  have hpol := h.policy.setPolicy rt policy
  unfold setPolicy at hcls hpol ⊢
  split
  · rename_i hne
    rw [if_pos hne] at hcls hpol
    refine h.setLevel (fun hfair => ?_) (h.save rt) hpol
    rw [task_setTask_self] at hcls
    exact hcls hfair
  · exact h

/-- The saved priority is set first. For `SCHED_DEADLINE` it may be none, hence the condition. -/
theorem LevelOk.jobSuspend
    (hdl : (s.task rt).cls = .deadline → k.acceptsTask c (s.task rt) = true →
      (s.task rt).prioSave ≠ 0) : LevelOk c (jobSuspend c k s rt) := by
  have hset : LevelOk c (if (s.task rt).prio ≠ (s.task rt).prioSave then
      (Resch.setScheduler c k s rt (s.task rt).policy (s.task rt).prioSave).1 else s) := by
    split
    · rw [setScheduler_fst, setPolicy_same]
      refine h.setSaved fun hcls hok => hdl hcls ?_
      unfold Deadline.edfSetScheduler at hok
      dsimp only at hok
      split at hok
      · exact absurd hok Bool.false_ne_true
      · rename_i hno
        exact Bool.not_eq_false _ ▸ fun he => hno (Or.inr he)
    · exact h
  unfold Resch.jobSuspend
  dsimp only
  exact hset.classDequeueTask (hset.prio rt) _

/-- Only FP tasks get this far, and then Linux decides. -/
theorem LevelOk.apiSetPriority
    (hp : (s.task rt).policy = reschSchedFp → k.setscheduler .fifo prio = true →
      prio ≤ reschPrioMax) : LevelOk c (apiSetPriority c k s rt prio).1 := by
  unfold Resch.apiSetPriority
  dsimp only
  split
  · exact h
  · rename_i hpol
    have hfp : (s.task rt).policy = reschSchedFp ∧ (s.task rt).cls = .fp := by
      rcases h.policy.cases rt with hrt | hrt | hrt
      · exact hrt
      · exact absurd (Or.inl hrt.1) hpol
      · exact absurd (Or.inr hrt.1) hpol
    have hset : LevelOk c (Resch.setScheduler c k s rt (s.task rt).policy prio).1 := by
      rw [setScheduler_fst, setPolicy_same]
      refine h.setScheduler' fun hok _ => ?_
      unfold Resch.classSetScheduler at hok
      rw [hfp.2] at hok
      have hk : k.setscheduler .fifo prio = true := by
        unfold fpSetScheduler Resch.setSchedulerAs schedSetscheduler at hok
        by_contra hk
        rw [if_neg hk] at hok
        exact absurd hok Bool.false_ne_true
      exact decide_eq_true ⟨(k.fifo_range prio hk).1, hp hfp.1 hk⟩
    generalize Resch.setScheduler c k s rt (s.task rt).policy prio = r at hset
    split <;> exact hset

/-- A task that leaves the fair class brings its priority. -/
theorem LevelOk.apiSetScheduler {policy : ℤ}
    (hp : policy ≠ (s.task rt).policy → policy = reschSchedFp ∨ policy = reschSchedEdf →
      hasLevel (s.task rt).prio = true) : LevelOk c (apiSetScheduler c k s rt policy).1 := by
  by_cases hne : policy ≠ (s.task rt).policy
  · rw [apiSetScheduler_of_ne hne]
    have hcls : ((setPolicy c s rt policy).task rt).cls ≠ .fair →
        hasLevel (s.task rt).prio = true := by
      intro hfair
      refine hp hne ?_
      unfold setPolicy at hfair
      rw [if_pos (Ne.symm hne), task_setTask_self] at hfair
      unfold Config.policyClass at hfair
      by_contra hno
      obtain ⟨hfp, hedf⟩ := not_or.1 hno
      rw [if_neg hfp, if_neg hedf] at hfair
      exact hfair rfl
    exact h.setScheduler hcls fun _ => hcls
  · unfold Resch.apiSetScheduler
    rw [if_neg hne]
    exact h

/-- Leaving sets the fair policy. -/
theorem LevelOk.apiExit : LevelOk c (apiExit c k s rt).1 := by
  have hjob : LevelOk c (if s.isActive rt then Resch.jobComplete c k s rt else s) := by
    split
    · exact h.jobComplete
    · exact h
  have hdetach : LevelOk c (apiExitDetach c k s rt) := by
    unfold apiExitDetach
    dsimp only
    generalize (if s.isActive rt then Resch.jobComplete c k s rt else s) = s₁ at hjob
    have hstop : LevelOk c (if s₁.hasReserve rt then Resch.reserveStop c s₁ rt else s₁) := by
      split
      · exact hjob.reserveStop
      · exact hjob
    generalize (if s₁.hasReserve rt then Resch.reserveStop c s₁ rt else s₁) = s₂ at hstop
    split
    · exact hstop.of_same globalListRemove_only.sameLevels
    · exact hstop
  have hclear : LevelOk c (apiExitClear (apiExitDetach c k s rt) rt) :=
    hdetach.of_same ⟨rfl, fun _ => rfl⟩
  unfold Resch.apiExit apiExitPolicy
  generalize apiExitClear (apiExitDetach c k s rt) rt = s₁ at hclear
  dsimp only
  split
  · rename_i hpol
    have hfair : ((setPolicy c s₁ rt reschSchedFair).task rt).cls = .fair := by
      unfold setPolicy
      rw [if_pos hpol, task_setTask_self]
      rfl
    exact hclear.setScheduler (fun hne => absurd hfair hne) fun _ hne => absurd hfair hne
  · exact hclear

/-- A task that attaches is fair. `prio_save` stays. -/
theorem LevelOk.reschTaskInit (k : Kernel) (current : ℕ) :
    LevelOk c (reschTaskInit c k s rt current) := by
  have hpol := h.policy.init k rt current
  obtain ⟨t, proc, heq, hfresh, hsave⟩ := reschTaskInit_eq c k s rt current
  rw [heq] at hpol ⊢
  refine ⟨fun q hq => ?_, fun q hq => ?_, hpol, h.trace⟩
  · by_cases hqr : q = rt
    · subst hqr
      simp only [Function.update_self, hfresh.prio]
      decide
    · simp only [Function.update_of_ne hqr] at hq ⊢
      exact h.prio q hq
  · by_cases hqr : q = rt
    · subst hqr
      simp only [Function.update_self, hsave] at hq ⊢
      exact h.save q hq
    · simp only [Function.update_of_ne hqr] at hq ⊢
      exact h.save q hq

end Keep

theorem LevelOk.setPoint (h : LevelOk c s) (rt : ℕ) (p : Point) : LevelOk c (s.setPoint rt p) :=
  h.of_same ⟨rfl, fun _ => rfl⟩

theorem LevelOk.apiRun (h : LevelOk c s) (timeout : ℕ) : LevelOk c (apiRun c s rt timeout) := by
  have hinsert : LevelOk c (globalListInsert s rt) := h.of_same globalListInsert_only.sameLevels
  unfold Resch.apiRun
  generalize globalListInsert s rt = s₁ at hinsert
  refine LevelOk.jobReleaseWait ?_ _
  split
  · exact hinsert.of_same globalListRemove_only.sameLevels
  · exact hinsert

/-- The job of a period ends, late or not. -/
theorem LevelOk.complete (h : LevelOk c s) (k : Kernel) (rt releaseTime : ℕ) :
    LevelOk c (Resch.jobReleaseWait (Resch.jobComplete c k (deadlineMiss s rt).1 rt) rt
      releaseTime) := by
  have hmiss : LevelOk c (deadlineMiss s rt).1 := by
    unfold deadlineMiss
    dsimp only
    exact h.setTask fun _ => rfl
  exact hmiss.jobComplete.jobReleaseWait _

/-! ## The step lemma -/

/-- **Each call keeps the invariant** if it is `ranged`. -/
theorem LevelOk.exec (h : LevelOk c s) {op : ApiOp} (hr : op.ranged c k s = true)
    (hs : op.exec c k s = some s') : LevelOk c s' := by
  cases op with
  | init rt current =>
    cases hs
    exact (h.reschTaskInit k current).setPoint rt _
  | exit rt =>
    cases hs
    exact h.apiExit.setPoint rt _
  | run rt timeout =>
    cases hs
    exact (h.apiRun timeout).setPoint rt _
  | waitForPeriod rt =>
    cases hs
    exact (h.complete k rt _).setPoint rt _
  | waitForInterval rt period =>
    cases hs
    exact (h.complete k rt _).setPoint rt _
  | release rt =>
    obtain ⟨s₁, h₁, rfl⟩ := Option.map_eq_some_iff.1 hs
    exact (h.jobRelease h₁).setPoint rt _
  | setPeriod rt period | setDeadline rt deadline | setWcet rt wcet | setRuntime rt runtime =>
    cases hs
    exact h.setTask fun _ => rfl
  | setPriority rt prio =>
    cases hs
    have hp := of_decide_eq_true hr
    exact h.apiSetPriority fun hpol hk => hp ⟨hpol, hk⟩
  | setScheduler rt policy =>
    cases hs
    have hp := of_decide_eq_true hr
    exact h.apiSetScheduler fun hne hpol => hp ⟨hne, hpol⟩
  | background rt =>
    cases hs
    exact h.apiSetPriority fun _ _ => by decide
  | reserveStart rt cputime xcpu =>
    cases hs
    unfold apiReserveStart reserveStart
    split
    · exact h
    · refine LevelOk.startAccount ?_
      exact h.setTask fun _ => rfl
  | reserveStop rt =>
    cases hs
    unfold apiReserveStop
    split
    · exact h.reserveStop
    · exact h
  | reserveExpire rt =>
    cases hs
    exact h.apiReserveExpire
  | replenishTimer rt =>
    cases hs
    exact h.onReplenish
  | componentCreate | componentDestroy cid | compose rt cid | decompose rt =>
    have honly := componentOnly_exec (by rfl) hs
    exact h.of_same ⟨trace_onComponents (by rfl) hs, honly.sameTask⟩
  | sleep rt =>
    cases hs
    have hp := of_decide_eq_true hr
    exact (h.jobSuspend fun hcls hk => hp ⟨hcls, hk⟩).setPoint rt _
  | suspend rt =>
    cases hs
    have hp := of_decide_eq_true hr
    exact LevelOk.setPoint (LevelOk.setProc (h.jobSuspend fun hcls hk => hp ⟨hcls, hk⟩) _ _) rt _
  | resume rt =>
    cases hs
    exact (h.classEnqueueTask (h.prio rt) _).setPoint rt _
  | wakeUp rt =>
    cases hs
    unfold apiWakeUp
    split
    · exact h
    · split
      · exact h.setProc _ _
      · exact h
  | migrate rt cpu =>
    cases hs
    exact h.migrateTask cpu
  | linux jiffies proc =>
    cases hs
    exact h.of_same ⟨rfl, fun _ => rfl⟩

/-! ## Lookups -/

theorem prio_edfEnqueueTask : ((Edf.edfEnqueueTask s rt prio cpu).task rt).prio = prio := by
  unfold Edf.edfEnqueueTask
  rw [task_setPrio_self]

/-- The task has just been enqueued at the base level. -/
theorem edfJobStartLooks_ok : ∀ i ∈ Edf.edfJobStartLooks s rt, IdxOk i := by
  intro i hi
  unfold Edf.edfJobStartLooks at hi
  dsimp only at hi
  split at hi
  · rw [List.mem_singleton.1 hi, prio_edfEnqueueTask]
    exact idxOk_prioIndex (by decide)
  · exact absurd hi List.not_mem_nil

theorem classReserveReplenishLooks_ok {cputime : ℕ} :
    ∀ i ∈ classReserveReplenishLooks s rt cputime, IdxOk i := by
  intro i hi
  unfold classReserveReplenishLooks Edf.edfReserveReplenishLooks at hi
  split at hi
  · dsimp only at hi
    split at hi
    · split at hi
      · rw [List.mem_singleton.1 hi, prio_edfEnqueueTask]
        exact idxOk_prioIndex (by decide)
      · exact absurd hi List.not_mem_nil
    · exact absurd hi List.not_mem_nil
  · exact absurd hi List.not_mem_nil

/-- A completion looks when it replenishes. -/
theorem jobCompleteLooks_ok : ∀ i ∈ jobCompleteLooks c s rt, IdxOk i := by
  intro i hi
  unfold jobCompleteLooks reserveReplenishLooks at hi
  have hreplenish := (List.mem_ite_nil_right.1 (List.mem_ite_nil_right.1 hi).2).2
  exact classReserveReplenishLooks_ok i hreplenish

/-- **All lookups are in range**: they are at a task's priority, or at EDF's levels. -/
theorem LevelOk.looks (h : LevelOk c s) (op : ApiOp) : ∀ i ∈ op.looks c s, IdxOk i := by
  intro i hi
  unfold ApiOp.looks at hi
  split at hi
  case h_1 rt =>
    split at hi
    · exact jobCompleteLooks_ok i hi
    · exact absurd hi List.not_mem_nil
  case h_2 rt => exact jobCompleteLooks_ok i hi
  case h_3 rt period => exact jobCompleteLooks_ok i hi
  case h_4 rt =>
    cases hdone : jobReleaseDone c s rt with
    | none =>
      rw [hdone] at hi
      exact absurd hi List.not_mem_nil
    | some s₁ =>
      rw [hdone, Option.elim_some] at hi
      split at hi
      · exact edfJobStartLooks_ok i hi
      · exact absurd hi List.not_mem_nil
  case h_5 rt =>
    unfold apiReserveExpireLooks at hi
    split at hi
    · exact absurd hi List.not_mem_nil
    · exact classReserveReplenishLooks_ok i (List.mem_ite_nil_right.1 hi).2
  case h_6 rt => exact classReserveReplenishLooks_ok i hi
  case h_7 rt cpu =>
    split at hi
    case isFalse => exact absurd hi List.not_mem_nil
    case isTrue hedf =>
      have hlevel : hasLevel (s.task rt).prio = true := h.prio rt (by rw [hedf]; decide)
      have hrun : IdxOk (prioIndex reschPrioEdfRun) := idxOk_prioIndex (by decide)
      unfold Edf.edfMigrateTaskLooks at hi
      split at hi
      · split at hi
        · rcases List.mem_cons.1 hi with rfl | hi
          · exact idxOk_prioIndex hlevel
          · rw [List.mem_singleton.1 hi]
            exact hrun
        · rw [List.mem_singleton.1 hi]
          exact hrun
      · exact absurd hi List.not_mem_nil
  case h_8 => exact absurd hi List.not_mem_nil

/-! ## Runs -/

/-- **Accesses of the active queues.** In any sequence of calls on any tasks that are `ranged`,
all enqueues and dequeues and all lookups use an index of the array of queues. -/
theorem accesses_in_range (c : Config) (jiffies : ℕ) (proc : ℕ → Proc) (ops : List (ApiOp × Kernel))
    (hr : Each (callStep c) (fun s a => a.1.ranged c a.2 s = true) (schedInit jiffies proc) ops) :
    Always (callStep c) (fun s => ∀ a ∈ s.trace, IdxOk a.idx) (schedInit jiffies proc) ops ∧
      Each (callStep c) (fun s a => ∀ i ∈ a.1.looks c s, IdxOk i) (schedInit jiffies proc) ops := by
  have hinit := schedInit_levelOk c jiffies proc
  refine ⟨?_, ?_⟩
  · have hok : Always (callStep c) (LevelOk c) (schedInit jiffies proc) ops :=
      Always.of_each (fun s a s' h ha hs => h.exec ha hs) ops _ hinit hr
    exact Always.mono (fun s h => h.trace) ops _ hok
  · exact Each.of_inv (fun s a s' h ha hs => ⟨h.exec ha hs, h.looks a.1⟩) ops _ hinit hr

/-- A task takes the highest priority that has a level, becomes an EDF task and migrates. -/
def highestLevel : List (ApiOp × Kernel) :=
  [(.init 0 1, .accepting), (.setPriority 0 98, .accepting), (.run 0 0, .accepting),
    (.release 0, .accepting), (.setScheduler 0 reschSchedEdf, .accepting), (.migrate 0 0, .accepting),
    (.waitForPeriod 0, .accepting), (.release 0, .accepting)]

theorem accesses_in_range_highestLevel :
    let c := Config.small false
    let s := schedInit 0 fun _ => Proc.fair
    Each (callStep c) (fun s a => a.1.ranged c a.2 s = true) s highestLevel ∧
      Always (callStep c) (fun s => ∀ a ∈ s.trace, IdxOk a.idx) s highestLevel ∧
      Each (callStep c) (fun s a => ∀ i ∈ a.1.looks c s, IdxOk i) s highestLevel := by
  have hr : Each (callStep (Config.small false)) (fun s a => a.1.ranged (Config.small false) a.2 s = true)
      (schedInit 0 fun _ => Proc.fair) highestLevel :=
    Each.of_check (fun _ _ h => h) (by decide +kernel)
  exact ⟨hr, accesses_in_range _ 0 _ highestLevel hr⟩

/-- Linux accepts priority 99 for an FP task, whose first job goes into the level `-1`. -/
theorem accesses_not_in_range :
    ¬ Always (callStep (Config.small false)) (fun s => ∀ a ∈ s.trace, IdxOk a.idx)
      (schedInit 0 fun _ => Proc.fair)
      [(.init 0 1, .accepting), (.setPriority 0 99, .accepting), (.run 0 0, .accepting),
        (.release 0, .accepting)] := by
  intro h
  obtain ⟨s, hs, htrace⟩ := h.final_test (fun s => decide ((⟨-1, true⟩ : Access) ∈ s.trace))
    (by decide +kernel)
  exact absurd (hs _ (of_decide_eq_true htrace)).1 (by decide)

end Resch
