import Resch.Lib.Runs
import Resch.Proof.Exit
import Resch.Proof.ListView
import Resch.Proof.PolicyClass

/-!
# The global list in order of priorities

`global_prio_task` and the loops of the partitioning plugins rely on `task_list` being in
order of `rt->prio`. `__set_scheduler` takes a task out and puts it in again when it
writes the priority; the hooks of `sched_edf.c` write it too, when a job starts or
completes and when a reserve expires or is replenished, and leave the task where it is.
So the list stays in order exactly as long as the level that such a hook writes fits
there (`ApiOp.Fits`, `apiStep_inOrder_iff`).
-/

namespace Resch

open Lib Keyed

variable {c : Config} {k : Kernel} {s s' : State} {rt q : ℕ} {prio : ℤ}

/-- The global list is in order and holds each managed task once; `global_prio_task` misses
no task, and those of a higher priority are before the one it returns. -/
structure InOrder (s : State) : Prop where
  sorted : s.taskList.Pairwise fun p q => (s.task q).prio ≤ (s.task p).prio
  once : ∀ q, s.taskList.count q = if s.isManaged q = true then 1 else 0
  all : ∀ prio, globalPrioTask s prio = none → ∀ q, s.isManaged q = true → prio < (s.task q).prio
  before : ∀ prio rt, globalPrioTask s prio = some rt → ∀ q, s.isManaged q = true →
    (s.task rt).prio < (s.task q).prio → q ∈ s.taskList.takeWhile (· ≠ rt)

/-- The level that the expiration of the reserve of an EDF task writes. -/
def expiredLevel (s : State) (rt : ℕ) : ℤ :=
  if (s.task rt).releaseTime + (s.task rt).period ≤ s.jiffies then
    if (s.task rt).prio = reschPrioBackground then reschPrioEdf else (s.task rt).prio
  else reschPrioBackground

/-- The condition on a step: a level that a hook of `sched_edf.c` writes fits where the task is. -/
def ApiOp.Fits (s : State) : ApiOp → Prop
  | release rt | waitForPeriod rt | waitForInterval rt _ =>
    (s.task rt).cls = .edf → s.view.Fits rt reschPrioEdf
  | reserveExpire rt =>
    (s.task rt).cls = .edf ∧ s.isActive rt = true ∧ s.hasReserve rt = true →
      s.view.Fits rt (expiredLevel s rt)
  | replenishTimer rt =>
    (s.task rt).cls = .edf ∧ AtBackground s rt → s.view.Fits rt reschPrioEdf
  | _ => True

instance (s : State) (op : ApiOp) : Decidable (op.Fits s) := by
  cases op <;> unfold ApiOp.Fits <;> infer_instance

theorem inOrder_iff (h : s.view.Ok) : InOrder s ↔ s.view.Ordered := by
  refine ⟨fun h => h.sorted, fun ho => ⟨ho, fun q => ?_, fun prio hn q hq => ?_, ?_⟩⟩
  · have hm := h.mem q
    split
    · exact List.count_eq_one_of_mem h.nodup (hm.2 ‹_›)
    · exact List.count_eq_zero_of_not_mem fun hq => ‹¬ _› (hm.1 hq)
  · exact h.firstLe_none hn hq
  · intro prio rt hf q hq hlt
    exact firstLe_before h ho hf hq hlt

/-! ## What one step does -/

/-- The list after a step on `rt`: as operations that reinsert leave it, or with a bare
assignment, where `C` is exact. -/
inductive ListStep (rt : ℕ) (C : Prop) (s s' : State) : Prop
  | moves (h : Moves rt s.view s'.view) (hC : C)
  | assign (p : ℤ) (h : s'.view = s.view.assign rt p) (hC : C ↔ s.view.Fits rt p)

theorem ListStep.ordered {C : Prop} (h : ListStep rt C s s') (hok : s.view.Ok)
    (ho : s.view.Ordered) : s'.view.Ok ∧ (s'.view.Ordered ↔ C) := by
  cases h with
  | moves h hC =>
    obtain ⟨hok', ho'⟩ := h.ordered hok ho
    exact ⟨hok', fun _ => hC, fun _ => ho'⟩
  | assign p h hC =>
    rw [h, hC]
    exact ⟨hok.assign, ordered_assign_iff hok ho⟩

theorem ListStep.managed {C : Prop} (h : ListStep rt C s s') (hq : q ≠ rt) :
    s'.isManaged q = s.isManaged q := by
  cases h with
  | moves h _ => exact h.other hq
  | assign p h _ => exact congrFun (congrArg Keyed.linked h) q

/-- A step that writes no priority, or writes `p` if the task is EDF. -/
theorem ListStep.edf {p : ℤ}
    (h : s'.view = if (s.task rt).cls = .edf then s.view.assign rt p else s.view) :
    ListStep rt ((s.task rt).cls = .edf → s.view.Fits rt p) s s' := by
  by_cases he : (s.task rt).cls = .edf
  · rw [if_pos he] at h
    exact .assign p h ⟨fun hC => hC he, fun hf _ => hf⟩
  · rw [if_neg he] at h
    exact .moves (.of_eq h) fun hC => absurd hC he

theorem ListStep.same {C : Prop} (h : s'.view = s.view) (hC : C) : ListStep rt C s s' :=
  .moves (.of_eq h) hC

/-! ## Jobs -/

theorem view_reserveReplenish (h : s.isActive rt = false ∨ (s.task rt).cls = .fair) :
    (reserveReplenish c k s rt).view = s.view := by
  unfold reserveReplenish
  refine (view_setTask rfl rfl).trans ?_
  split
  · rcases h with h | h
    · exact view_classReserveReplenish h _
    · unfold classReserveReplenish
      rw [h]; rfl
  · rfl

theorem view_jobComplete (hc : (s.task rt).cls ≠ .deadline) : (jobComplete c k s rt).view =
    if (s.task rt).cls = .edf then s.view.assign rt reschPrioEdf else s.view := by
  have hdone : ∀ s₁ : State, (s₁.task rt).cls ≠ .deadline →
      (if (classJobComplete s₁ rt).hasReserve rt = true then
        reserveReplenish c k (stopAccount c (classJobComplete s₁ rt) rt) rt
        else classJobComplete s₁ rt).view =
      if (s₁.task rt).cls = .edf then s₁.view.assign rt reschPrioEdf else s₁.view := by
    intro s₁ hc
    have h₁ : (classJobComplete s₁ rt).view =
        if (s₁.task rt).cls = .edf then s₁.view.assign rt reschPrioEdf else s₁.view := by
      unfold classJobComplete
      cases hcls : (s₁.task rt).cls with
      | fair => rfl
      | fp => exact view_unlink
      | edf => exact view_edfJobComplete
      | deadline => exact absurd hcls hc
    -- the job is off the queues before the reserve is replenished
    have hi : (stopAccount c (classJobComplete s₁ rt) rt).isActive rt = false ∨
        ((stopAccount c (classJobComplete s₁ rt) rt).task rt).cls = .fair := by
      by_cases hf : (s₁.task rt).cls = .fair
      · right
        rw [(Updates.refl s₁).classJobComplete.stopAccount.same.cls]
        exact hf
      · left
        rw [isActive_of_frame (stopAccount_accounts.frame _ _)]
        exact classJobComplete_inactive hf
    rw [← h₁]
    split
    · exact (view_reserveReplenish hi).trans (view_of_frame (stopAccount_accounts.frame _ _))
    · rfl
  unfold jobComplete
  dsimp only
  split
  · refine (hdone _ (by simpa using hc)).trans ?_
    rw [task_setTask_self, view_setTask rfl rfl]
  · exact hdone s hc

theorem view_jobReleaseWait {releaseTime : ℕ} : (jobReleaseWait s rt releaseTime).view = s.view := by
  have h : (s.setTask rt fun t => { t with releaseTime := releaseTime }).view = s.view :=
    view_setTask rfl rfl
  unfold jobReleaseWait
  dsimp only
  rw [← h]
  split
  · rfl
  · split <;> rfl
  · split <;> rfl
  · rfl

theorem view_jobRelease (hc : (s.task rt).cls ≠ .deadline) (h : jobRelease c s rt = some s') :
    s'.view = if (s.task rt).cls = .edf then s.view.assign rt reschPrioEdf else s.view := by
  have hcls : ((releasedState s rt).task rt).cls = (s.task rt).cls := (releasedState_keeps s rt).cls
  have hv : (releasedState s rt).view = s.view := view_setTask rfl rfl
  rw [jobRelease_eq h, view_jobStart (by rw [hcls]; exact hc), hcls, hv]

/-- Completing a job and waiting for the next one. -/
theorem view_apiWait (hc : (s.task rt).cls ≠ .deadline) (releaseTime : State → ℕ) :
    (jobReleaseWait (jobComplete c k (deadlineMiss s rt).1 rt) rt
      (releaseTime (jobComplete c k (deadlineMiss s rt).1 rt))).view =
      if (s.task rt).cls = .edf then s.view.assign rt reschPrioEdf else s.view := by
  have hcls : ((deadlineMiss s rt).1.task rt).cls = (s.task rt).cls := by simp [deadlineMiss]
  have hv : (deadlineMiss s rt).1.view = s.view := view_setTask rfl rfl
  rw [view_jobReleaseWait, view_jobComplete (by rw [hcls]; exact hc), hcls, hv]

theorem moves_apiRun (c : Config) (s : State) (rt timeout : ℕ) :
    Moves rt s.view (apiRun c s rt timeout).view := by
  have h₁ : Moves rt s.view (globalListInsert s rt).view := by
    rw [view_globalListInsert]
    exact (Move.insert s.view).moves
  unfold apiRun
  dsimp only
  rw [view_jobReleaseWait]
  split
  · exact h₁.trans moves_globalListRemove
  · exact h₁

/-! ## Reserves -/

/-- Before a reserve expires or is replenished, its accounting stops and its timer is disarmed. -/
structure SameBudget (rt : ℕ) (s s' : State) : Prop where
  view : s'.view = s.view
  cls : (s'.task rt).cls = (s.task rt).cls
  active : s'.isActive rt = s.isActive rt

theorem SameBudget.atBackground (h : SameBudget rt s s') : AtBackground s' rt ↔ AtBackground s rt := by
  have hp : (s'.task rt).prio = (s.task rt).prio := congrFun (congrArg Keyed.key h.view) rt
  unfold AtBackground
  rw [hp, h.active]

theorem listStep_replenish (h : SameBudget rt s s') (hc : (s.task rt).cls ≠ .deadline)
    (cputime : ℕ) : ListStep rt ((s.task rt).cls = .edf ∧ AtBackground s rt → s.view.Fits rt reschPrioEdf)
      s (classReserveReplenish c k s' rt cputime) := by
  by_cases he : (s.task rt).cls = .edf
  swap
  · refine .moves ?_ fun hC => absurd hC.1 he
    rw [← h.view]
    refine moves_classReserveReplenish ?_ ?_ cputime <;> rw [h.cls] <;> assumption
  have hv : (classReserveReplenish c k s' rt cputime).view =
      if AtBackground s' rt then s'.view.assign rt reschPrioEdf else s'.view := by
    unfold classReserveReplenish
    rw [h.cls, he]
    exact view_edfReserveReplenish cputime
  rw [h.view] at hv
  by_cases hd : AtBackground s rt
  · rw [if_pos (h.atBackground.2 hd)] at hv
    exact .assign _ hv ⟨fun hC => hC ⟨he, hd⟩, fun hf _ => hf⟩
  · rw [if_neg (mt h.atBackground.1 hd)] at hv
    exact .same hv fun hC => absurd hC.2 hd

theorem stopAccount_sameBudget (c : Config) (s : State) (rt : ℕ) :
    SameBudget rt s (if s.isAccounting rt = true then stopAccount c s rt else s) := by
  split
  · have hf : (stopAccount c s rt).frame = s.frame := stopAccount_accounts.frame s rt
    exact ⟨view_of_frame hf, (Updates.refl s).stopAccount.same.cls, isActive_of_frame hf rt⟩
  · exact ⟨rfl, rfl, rfl⟩

theorem view_edfExpired {s₁ : State} (h : SameBudget rt s s₁) (he : (s.task rt).cls = .edf)
    (ha : s.isActive rt = true) (cputime : ℕ) :
    (classReserveReplenish c k s₁ rt cputime).view = s.view.assign rt
        (if (s.task rt).prio = reschPrioBackground then reschPrioEdf else (s.task rt).prio) ∧
      (classReserveExpire c k s₁ rt).view = s.view.assign rt reschPrioBackground := by
  have ha₁ : s₁.isActive rt = true := h.active.trans ha
  constructor
  · unfold classReserveReplenish
    rw [h.cls, he]
    refine (view_edfReserveReplenish cputime).trans ?_
    rw [h.view]
    by_cases hp : (s.task rt).prio = reschPrioBackground
    · rw [if_pos (h.atBackground.2 ⟨hp, ha⟩), if_pos hp]
    · rw [if_neg fun hd => hp (h.atBackground.1 hd).1, if_neg hp, view_assign_same rfl]
  · unfold classReserveExpire
    rw [h.cls, he]
    refine view_edfReserveExpire.trans ?_
    rw [if_pos ha₁, h.view]

/-- An expired reserve writes `expiredLevel`, if the task is EDF and active. -/
theorem listStep_reserveExpire (hc : (s.task rt).cls ≠ .deadline) :
    ListStep rt ((s.task rt).cls = .edf ∧ s.isActive rt = true ∧ s.hasReserve rt = true →
      s.view.Fits rt (expiredLevel s rt)) s (apiReserveExpire c k s rt).1 := by
  unfold apiReserveExpire
  by_cases hr : s.hasReserve rt = true
  swap
  · simp only [hr, Bool.not_false, if_true]
    exact .same rfl fun hC => absurd hC.2.2 (by simp)
  simp only [hr, Bool.not_true, Bool.false_eq_true, if_false]
  -- stopping the account changes neither the list nor the priority
  have h₁ := stopAccount_sameBudget c s rt
  obtain ⟨hnext, hj⟩ := stopAccount_next c s rt
  generalize (if s.isAccounting rt = true then stopAccount c s rt else s) = s₁ at h₁ hnext hj ⊢
  rw [hnext, hj]
  have hstart : ∀ s₂ : State, (startAccount c s₂ rt).view = s₂.view :=
    fun s₂ => view_of_frame (startAccount_accounts.frame s₂ rt)
  have htimer : ∀ (s₂ : State) (t : ℕ), (s₂.setTask rt fun x =>
      { x with replenishTimer := some t }).view = s₂.view := fun s₂ t => view_setTask rfl rfl
  have hc₁ : (s₁.task rt).cls ≠ .deadline := by rw [h₁.cls]; exact hc
  by_cases he : (s.task rt).cls = .edf
  swap
  · -- the other classes move the task to where its priority belongs
    have he₁ : (s₁.task rt).cls ≠ .edf := by rw [h₁.cls]; exact he
    refine .moves ?_ fun hC => absurd hC.1 he
    rw [← h₁.view]
    split
    · exact (moves_classReserveReplenish hc₁ he₁ _).trans (.of_eq (hstart _))
    · exact (moves_classReserveExpire hc₁ he₁).trans (.of_eq (htimer _ _))
  -- an EDF task changes its priority in place
  by_cases ha : s.isActive rt = true
  · obtain ⟨hrep, hexp⟩ := view_edfExpired (c := c) (k := k) h₁ he ha (s₁.task rt).reserveTime
    refine .assign (expiredLevel s rt) ?_ ⟨fun hC => hC ⟨he, ha, trivial⟩, fun hf _ => hf⟩
    unfold expiredLevel
    split
    · exact (hstart _).trans hrep
    · exact (htimer _ _).trans hexp
  · have hi : s₁.isActive rt = false := by
      rw [h₁.active]
      simpa using ha
    refine .same ?_ fun hC => absurd hC.2.1 ha
    rw [← h₁.view]
    split
    · exact (hstart _).trans (view_classReserveReplenish hi _)
    · refine (htimer _ _).trans ?_
      unfold classReserveExpire
      rw [h₁.cls, he]
      refine view_edfReserveExpire.trans (if_neg ?_)
      rw [hi]; decide

/-! ## Leaving, sleeping, migrating -/

theorem apiExitDetach_unmanaged : (apiExitDetach c k s rt).isManaged rt = false := by
  have h : ∀ s₂ : State,
      (if s₂.isManaged rt = true then globalListRemove s₂ rt else s₂).isManaged rt = false := by
    intro s₂
    split
    · exact isManaged_globalListRemove
    · simpa using ‹¬ s₂.isManaged rt = true›
  exact h _

theorem moves_apiExitDetach (hc : (s.task rt).cls ≠ .deadline) :
    Moves rt s.view (apiExitDetach c k s rt).view := by
  -- completing the job may write the priority, but then the task leaves the list
  have h₁ : ∃ p, (if s.isActive rt = true then jobComplete c k s rt else s).view =
      s.view.assign rt p := by
    split
    · rw [view_jobComplete hc]
      split
      · exact ⟨_, rfl⟩
      · exact ⟨(s.task rt).prio, (view_assign_same rfl).symm⟩
    · exact ⟨(s.task rt).prio, (view_assign_same rfl).symm⟩
  unfold apiExitDetach
  dsimp only
  generalize (if s.isActive rt = true then jobComplete c k s rt else s) = s₁ at h₁ ⊢
  obtain ⟨p, hp⟩ := h₁
  have h₂ : (if s₁.hasReserve rt = true then reserveStop c s₁ rt else s₁).view =
      s.view.assign rt p := by
    rw [← hp]
    split
    · exact view_reserveStop
    · rfl
  generalize (if s₁.hasReserve rt = true then reserveStop c s₁ rt else s₁) = s₂ at h₂ ⊢
  have hm : s.isManaged rt = s₂.isManaged rt := (congrFun (congrArg Keyed.linked h₂) rt).symm
  have hv : (if s₂.isManaged rt = true then globalListRemove s₂ rt else s₂).view =
      if s.isManaged rt = true then (s.view.assign rt p).remove rt else s.view.assign rt p := by
    rw [hm]
    split
    · rw [view_globalListRemove ‹_›, h₂]
    · exact h₂
  rw [hv]
  exact moves_leave s.view rt p

theorem moves_apiExit (h : PolicyOk c s) (hc : c.schedDeadline = false) (rt : ℕ) :
    Moves rt s.view (apiExit c k s rt).1.view ∧ (apiExit c k s rt).1.isManaged rt = false := by
  have hd : Moves rt s.view (apiExitClear (apiExitDetach c k s rt) rt).view :=
    moves_apiExitDetach (h.not_deadline hc rt)
  have hp : PolicyOk c (apiExitClear (apiExitDetach c k s rt) rt) :=
    h.of_same (apiExitDetach_updates c k s rt).sameAll
  have hm : (apiExitClear (apiExitDetach c k s rt) rt).isManaged rt = false := apiExitDetach_unmanaged
  unfold apiExit apiExitPolicy
  dsimp only
  split
  · exact ⟨hd.trans (moves_setScheduler ((hp.setPolicy rt _).not_deadline hc rt)),
      setScheduler_sameLinks.managed.trans hm⟩
  · exact ⟨hd, hm⟩

theorem moves_jobSuspend (h : PolicyOk c s) (hc : c.schedDeadline = false) (rt : ℕ) :
    Moves rt s.view (jobSuspend c k s rt).view := by
  unfold jobSuspend
  dsimp only
  rw [view_classDequeueTask]
  split
  · exact moves_setScheduler ((h.setPolicy rt _).not_deadline hc rt)
  · exact .refl _

theorem moves_apiSetPriority (h : PolicyOk c s) (hc : c.schedDeadline = false) (rt : ℕ) (prio : ℤ) :
    Moves rt s.view (apiSetPriority c k s rt prio).1.view := by
  rcases apiSetPriority_fst c k s rt prio with h' | h' <;> rw [h']
  · exact .refl _
  · exact moves_setScheduler ((h.setPolicy rt _).not_deadline hc rt)

theorem moves_apiSetScheduler (h : PolicyOk c s) (hc : c.schedDeadline = false) (rt : ℕ)
    (policy : ℤ) : Moves rt s.view (apiSetScheduler c k s rt policy).1.view := by
  by_cases hpol : policy = (s.task rt).policy
  · have : (apiSetScheduler c k s rt policy).1 = s := by simp [apiSetScheduler, hpol]
    rw [this]
    exact .refl _
  · rw [apiSetScheduler_of_ne hpol]
    exact moves_setScheduler ((h.setPolicy rt _).not_deadline hc rt)

theorem view_setCpu {cpu : ℕ} : (s.setCpu rt cpu).view = s.view := view_setTask rfl rfl

theorem view_migrateTask' {cpu : ℕ} : (migrateTask' s rt cpu).view = s.view :=
  view_of_frame (frame_migrateTask' cpu)

theorem view_edfMigrateTask (cpuDst : ℕ) : (Edf.edfMigrateTask c s rt cpuDst).view = s.view := by
  have hacc : Accounts (restartAccount Edf.edfStopAccount (Edf.edfStartAccount c)) :=
    restartAccount_accounts unlimitRttime_accounts limitRttime_accounts
  have hsleep : ∀ (s₁ : State) (P : Prop) [Decidable P] (a b : ℕ), (if P then
      setRunState s₁ a .interruptible else setRunState s₁ b .interruptible).view = s₁.view := by
    intro s₁ P _ a b
    split <;> rfl
  unfold Edf.edfMigrateTask
  dsimp only
  split
  swap
  · exact view_migrateTask'
  split
  swap
  · exact view_migrateTask'.trans view_setCpu
  refine (view_ifSome fun q => ?_).trans ((view_of_frame (hacc.frame _ _)).trans ?_)
  · exact hsleep _ _ _ _
  refine view_migrateTask'.trans ((view_ifSome fun q => rfl).trans ?_)
  -- the task goes into the level of the priority that it has
  have hd : ((Edf.edfDequeueTask s rt (s.task rt).prio (s.task rt).cpuId).setCpu rt cpuDst).view =
      s.view := view_setCpu.trans view_unlink
  rw [view_edfEnqueueTask, view_assign_same rfl, hd]

theorem view_fpMigrateTask (cpuDst : ℕ) : (fpMigrateTask c s rt cpuDst).view = s.view := by
  have hacc : Accounts (restartAccount fpStopAccount (fpStartAccount c)) :=
    restartAccount_accounts unlimitRttime_accounts fpStartAccount_accounts
  unfold fpMigrateTask
  dsimp only
  refine (view_of_frame (hacc.frame _ _)).trans (view_migrateTask'.trans ?_)
  split
  · split
    · exact view_link.trans (view_setCpu.trans view_unlink)
    · exact view_setCpu
  · rfl

theorem view_migrateTask (hc : (s.task rt).cls ≠ .deadline) (cpuDst : ℕ) :
    (migrateTask c s rt cpuDst).view = s.view := by
  unfold migrateTask
  split
  · rfl
  · exact view_fpMigrateTask cpuDst
  · exact view_edfMigrateTask cpuDst
  · exact absurd ‹_› hc

/-! ## The step lemma -/

theorem moves_init (c : Config) (k : Kernel) (rt current : ℕ) (hm : s.isManaged rt = false) :
    Moves rt s.view (reschTaskInit c k s rt current).view := by
  obtain ⟨t, proc, heq, ht, -⟩ := reschTaskInit_eq c k s rt current
  have hv : (reschTaskInit c k s rt current).view = s.view.assign rt reschPrioMin := by
    rw [heq]
    refine view_eq rfl (fun q => ?_) fun q => ?_
    · by_cases hq : q = rt
      · subst hq; simp [Keyed.assign, ht.prio]
      · simp [Keyed.assign, State.view, hq]
    · by_cases hq : q = rt
      · subst hq
        refine Eq.trans ?_ hm.symm
        simp [State.isManaged, ht.globalEntry]
      · simp [Keyed.assign, State.view, State.isManaged, hq]
  have hl : s.view.linked rt = false := hm
  have := moves_leave s.view rt reschPrioMin
  rw [hl] at this
  rw [hv]
  exact this

/-- **A call that consists of hooks** of one task, as a step on the list. -/
theorem ApiOp.listStep {op : ApiOp} (hop : op.hookOf = some rt) (h : PolicyOk c s)
    (hc : c.schedDeadline = false) (hs : op.exec c k s = some s') :
    ListStep rt (op.Fits s) s s' := by
  have hn := h.not_deadline hc rt
  cases op with
  | run q timeout =>
    cases hop; cases hs
    exact .moves (moves_apiRun c s rt timeout) trivial
  | waitForPeriod q =>
    cases hop; cases hs
    exact .edf (view_apiWait hn fun s => (s.task rt).releaseTime + (s.task rt).period)
  | waitForInterval q period =>
    cases hop; cases hs
    exact .edf (view_apiWait hn fun s => s.jiffies + period)
  | release q =>
    cases hop
    obtain ⟨s₁, h₁, rfl⟩ := Option.map_eq_some_iff.1 hs
    have hv := view_jobRelease hn h₁
    exact .edf hv
  | sleep q =>
    cases hop; cases hs
    exact .moves (moves_jobSuspend h hc rt) trivial
  | suspend q =>
    cases hop; cases hs
    exact .moves (moves_jobSuspend h hc rt) trivial
  | resume q =>
    cases hop; cases hs
    exact .same (view_classEnqueueTask rfl) trivial
  | setPeriod q period =>
    cases hop; cases hs
    exact .same (view_setTask rfl rfl) trivial
  | setDeadline q deadline =>
    cases hop; cases hs
    exact .same (view_setTask rfl rfl) trivial
  | setWcet q wcet =>
    cases hop; cases hs
    exact .same (view_setTask rfl rfl) trivial
  | setRuntime q runtime =>
    cases hop; cases hs
    exact .same (view_setTask rfl rfl) trivial
  | setPriority q prio =>
    cases hop; cases hs
    exact .moves (moves_apiSetPriority h hc rt prio) trivial
  | background q =>
    cases hop; cases hs
    exact .moves (moves_apiSetPriority h hc rt _) trivial
  | reserveStart q cputime xcpu =>
    cases hop; cases hs
    refine .same ?_ trivial
    unfold apiReserveStart
    split
    · rfl
    · exact view_reserveStart cputime xcpu
  | reserveStop q =>
    cases hop; cases hs
    refine .same ?_ trivial
    unfold apiReserveStop
    split
    · exact view_reserveStop
    · rfl
  | reserveExpire q =>
    cases hop; cases hs
    exact listStep_reserveExpire hn
  | replenishTimer q =>
    cases hop; cases hs
    refine listStep_replenish ⟨view_setTask rfl rfl, ?_, ?_⟩ hn _
    · rw [task_setTask_self]
    · exact setTask_field (·.activeEntry) (by rfl) rt
  | wakeUp q =>
    cases hop; cases hs
    refine .same ?_ trivial
    unfold apiWakeUp
    split
    · rfl
    · split <;> rfl
  | migrate q cpu =>
    cases hop; cases hs
    exact .same (view_migrateTask hn cpu) trivial
  | init | exit | setScheduler | componentCreate | componentDestroy | compose | decompose | linux =>
    cases hop

theorem view_of_componentOnly (h : ComponentOnly s s') : s'.view = s.view := by
  refine view_congr h.taskList (fun q => ?_) fun q => ?_ <;> obtain ⟨b, hb⟩ := h.task q
  · rw [hb]
  · unfold State.isManaged
    rw [hb]

/-- What holds in every state of a run, whether the list is in order or not. -/
structure ListInv (c : Config) (s : State) : Prop where
  policy : PolicyOk c s
  ok : s.view.Ok
  gone : ∀ q, s.point q = .detached → s.isManaged q = false

/-- A step on `rt` that changes the place of no other process. -/
theorem ListInv.of_listStep {C : Prop} (h : ListInv c s) (ho : s.view.Ordered)
    (hl : ListStep rt C s s') (hpol : PolicyOk c s') (hp : ∀ q, q ≠ rt → s'.point q = s.point q)
    (hrt : s'.point rt = .detached → s'.isManaged rt = false) :
    ListInv c s' ∧ (s'.view.Ordered ↔ C) := by
  obtain ⟨hok, hiff⟩ := hl.ordered h.ok ho
  refine ⟨⟨hpol, hok, fun q hq => ?_⟩, hiff⟩
  by_cases hqr : q = rt
  · subst hqr; exact hrt hq
  · rw [hp q hqr] at hq
    rw [hl.managed hqr]
    exact h.gone q hq

/-- **The step lemma.** While the list is in order, a step keeps it so iff the level it
writes fits. -/
theorem ListInv.step (h : ListInv c s) (ho : s.view.Ordered) (hc : c.schedDeadline = false)
    {op : ApiOp} (hen : op.enabled s = true) (hs : op.exec c k s = some s') :
    ListInv c s' ∧ (s'.view.Ordered ↔ op.Fits s) := by
  have hpol := h.policy.step hen hs
  rcases hop : op.hookOf with _ | rt
  swap
  · have hp := ApiOp.point hop hen hs
    exact h.of_listStep ho (ApiOp.listStep hop h.policy hc hs) hpol hp.1 fun hd => absurd hd hp.2
  -- the calls that leave the list alone
  have still : ∀ s₁ : State, PolicyOk c s₁ → s₁.view = s.view → s₁.point = s.point →
      ListInv c s₁ ∧ (s₁.view.Ordered ↔ True) := by
    intro s₁ hp₁ hv hpt
    have hm : s₁.isManaged = s.isManaged := congrArg Keyed.linked hv
    refine h.of_listStep ho (.same hv trivial : ListStep 0 True s s₁) hp₁ (fun q _ => congrFun hpt q)
      fun hd => ?_
    rw [hm]
    exact h.gone 0 (hpt ▸ hd)
  cases op with
  | init rt current =>
    cases hs
    have hd : s.point rt = .detached := of_decide_eq_true hen
    have hpt : (reschTaskInit c k s rt current).point = s.point := by
      obtain ⟨t, proc, heq, -⟩ := reschTaskInit_eq c k s rt current
      rw [heq]
    have hl : ListStep rt True s ((reschTaskInit c k s rt current).setPoint rt .user) :=
      .moves (moves_init c k rt current (h.gone rt hd)) trivial
    refine h.of_listStep ho hl hpol (fun q hq => ?_) fun hd' => ?_
    · rw [point_setPoint_of_ne _ hq, hpt]
    · rw [point_setPoint_self] at hd'
      cases hd'
  | exit rt =>
    cases hs
    obtain ⟨hm, hu⟩ := moves_apiExit (k := k) h.policy hc rt
    have hl : ListStep rt True s ((apiExit c k s rt).1.setPoint rt .detached) := .moves hm trivial
    refine h.of_listStep ho hl hpol (fun q hq => ?_) fun _ => hu
    rw [point_setPoint_of_ne _ hq, apiExit_point]
  | setScheduler rt policy =>
    cases hs
    have hpt : (apiSetScheduler c k s rt policy).1.point = s.point := by
      by_cases hp : policy = (s.task rt).policy
      · simp [apiSetScheduler, hp]
      · rw [apiSetScheduler_of_ne hp]
        exact (setScheduler_rest ..).1
    have ha : s.point rt = .user := of_decide_eq_true hen
    have hl : ListStep rt True s (apiSetScheduler c k s rt policy).1 :=
      .moves (moves_apiSetScheduler h.policy hc rt policy) trivial
    refine h.of_listStep ho hl hpol (fun q _ => congrFun hpt q) fun hd => ?_
    rw [hpt, ha] at hd
    cases hd
  | componentCreate | componentDestroy cid | compose rt cid | decompose rt =>
    have ho' := componentOnly_exec (by rfl) hs
    exact still s' hpol (view_of_componentOnly ho') ho'.point
  | linux jiffies proc =>
    cases hs
    exact still _ hpol rfl rfl
  | _ => cases hop

theorem schedInit_listInv (c : Config) (jiffies : ℕ) (proc : ℕ → Proc) :
    ListInv c (schedInit jiffies proc) ∧ (schedInit jiffies proc).view.Ordered := by
  refine ⟨⟨schedInit_policyOk c jiffies proc, ⟨List.nodup_nil, fun q => ?_⟩, fun q _ => rfl⟩,
    List.Pairwise.nil⟩
  simp [State.view, schedInit, State.isManaged, Task.zero]

/-- **The global list is in order in every state of a run of calls iff every level that a
hook of `sched_edf.c` writes in it fits.** -/
theorem apiStep_inOrder_iff (c : Config) (hc : c.schedDeadline = false) (jiffies : ℕ)
    (proc : ℕ → Proc) (run : List (ApiOp × Kernel)) :
    Always (apiStep c fun _ => true) InOrder (schedInit jiffies proc) run ↔
      Each (apiStep c fun _ => true) (fun s a => a.1.Fits s) (schedInit jiffies proc) run := by
  have hstep : ∀ s a s', ListInv c s → InOrder s → apiStep c (fun _ => true) s a = some s' →
      ListInv c s' ∧ (InOrder s' ↔ a.1.Fits s) := by
    intro s a s' hi ho hs
    unfold apiStep at hs
    split at hs
    swap
    · cases hs
    rename_i hen
    obtain ⟨hi', hiff⟩ := hi.step ((inOrder_iff hi.ok).1 ho) hc (by simpa using hen) hs
    exact ⟨hi', (inOrder_iff hi'.ok).trans hiff⟩
  obtain ⟨hi, ho⟩ := schedInit_listInv c jiffies proc
  exact always_iff_each (fun s a s' hi ho hs _ => (hstep s a s' hi ho hs).1)
    (fun s a s' hi ho hs => (hstep s a s' hi ho hs).2) run _ hi ((inOrder_iff hi.ok).2 ho)

/-- Two EDF tasks behind an FP task. The second one is put behind the first, whose job has started, and
gets the same priority with its own first job. -/
theorem apiStep_inOrder_three :
    Always (apiStep (.small false) fun _ => true) InOrder (schedInit 0 fun _ => .fair)
      [(.init 0 1, .accepting), (.setScheduler 0 reschSchedEdf, .accepting), (.run 0 0, .accepting),
        (.release 0, .accepting), (.init 1 2, .accepting), (.setPriority 1 10, .accepting),
        (.run 1 0, .accepting), (.init 2 3, .accepting),
        (.setScheduler 2 reschSchedEdf, .accepting), (.run 2 0, .accepting),
        (.release 2, .accepting), (.waitForPeriod 0, .accepting), (.release 1, .accepting),
        (.exit 1, .accepting)] :=
  (apiStep_inOrder_iff (.small false) rfl 0 (fun _ => .fair) _).2
    (Each.of_check (fun _ _ => of_decide_eq_true) (by decide +kernel))

/-- An EDF task that starts its first job after an FP task: it is put at the end of the list
with the priority `1`, and stays there with the priority `3`. -/
theorem apiStep_not_inOrder :
    ¬ Always (apiStep (.small false) fun _ => true) InOrder (schedInit 0 fun _ => .fair)
      [(.init 0 1, .accepting), (.setPriority 0 2, .accepting), (.run 0 0, .accepting),
        (.init 1 2, .accepting), (.setScheduler 1 reschSchedEdf, .accepting), (.run 1 0, .accepting),
        (.release 1, .accepting)] := by
  intro h
  obtain ⟨s, hs, ht⟩ := h.final_test (fun s => decide (¬ s.taskList.Pairwise fun p q =>
    (s.task q).prio ≤ (s.task p).prio)) (by decide +kernel)
  exact of_decide_eq_true ht hs.sorted

end Resch
