import Resch.Lib.Keyed
import Resch.Proof.ApiHooks
import Resch.Proof.Frame

/-!
# What each function does to the global list

`State.view` is the global list with the priorities it is kept in order of. Without
`SCHED_DEADLINE` every function does one of three things to it: nothing, operations that
reinsert the task (`Moves`), or, in the hooks of the class of `sched_edf.c`, a bare
assignment of `rt->prio`.
-/

namespace Resch

open Lib Keyed

variable {c : Config} {k : Kernel} {s s' : State} {rt q cpu p : ℕ} {prio : ℤ}

/-- The global list and the priorities it is in order of. -/
def State.view (s : State) : Keyed ℕ ℤ where
  list := s.taskList
  key := fun q => (s.task q).prio
  linked := s.isManaged

/-! ## Assignments -/

theorem view_of_frame (h : s'.frame = s.frame) : s'.view = s.view := by
  have : s'.frame.view = s.frame.view := by rw [h]
  exact this

theorem view_eq {v : Keyed ℕ ℤ} (hl : s'.taskList = v.list) (hp : ∀ q, (s'.task q).prio = v.key q)
    (hm : ∀ q, s'.isManaged q = v.linked q) : s'.view = v := by
  unfold State.view
  rw [hl, funext hp, funext hm]

theorem view_congr (hl : s'.taskList = s.taskList) (hp : ∀ q, (s'.task q).prio = (s.task q).prio)
    (hm : ∀ q, s'.isManaged q = s.isManaged q) : s'.view = s.view := view_eq hl hp hm

theorem view_setTask {f : Task → Task} (hp : (f (s.task rt)).prio = (s.task rt).prio)
    (hm : (f (s.task rt)).globalEntry = (s.task rt).globalEntry) : (s.setTask rt f).view = s.view :=
  view_congr rfl (setTask_field (·.prio) hp) (setTask_field (·.globalEntry) hm)

@[simp] theorem view_setProc {f : Proc → Proc} : (s.setProc p f).view = s.view := rfl

@[simp] theorem view_setRunState {st : RunState} : (setRunState s q st).view = s.view := rfl

@[simp] theorem view_wakeUpProcess : (wakeUpProcess s q).view = s.view := rfl

theorem view_ifSome {o : Option ℕ} {f : State → ℕ → State} (hf : ∀ q, (f s q).view = s.view) :
    (ifSome s o f).view = s.view := by
  cases o with
  | none => rfl
  | some q => exact hf q

@[simp] theorem view_setPrio : (s.setPrio rt prio).view = s.view.assign rt prio := by
  refine view_eq rfl (fun q => ?_) fun q => isManaged_setPrio
  by_cases hq : q = rt
  · subst hq; simp [Keyed.assign]
  · simp [task_setPrio_of_ne hq, Keyed.assign, State.view, hq]

@[simp] theorem view_link {idx : ℤ} {ins : List ℕ → List ℕ} :
    (s.link rt cpu idx ins).view = s.view := by
  refine view_congr rfl (fun q => ?_) fun q => isManaged_link
  by_cases hq : q = rt
  · subst hq; simp
  · rw [task_link_of_ne hq]

@[simp] theorem view_unlink {idx : ℤ} : (s.unlink rt cpu idx).view = s.view := by
  refine view_congr rfl (fun q => ?_) fun q => isManaged_unlink
  by_cases hq : q = rt
  · subst hq; simp
  · rw [task_unlink_of_ne hq]

/-- An assignment of the priority that a task has. -/
theorem view_assign_same (h : (s.task rt).prio = prio) : s.view.assign rt prio = s.view := by
  subst h
  exact assign_self

/-! ## The functions of the global list -/

theorem view_globalListInsert : (globalListInsert s rt).view = s.view.insert rt := by
  have hp : ∀ q, ((globalListInsert s rt).task q).prio = (s.task q).prio :=
    globalListInsert_only.prio_eq
  by_cases hm : s.isManaged rt = true
  · have h : globalListInsert s rt = s := if_pos hm
    have hv : s.view.insert rt = s.view := if_pos hm
    rw [h, hv]
  · have h : s.view.insert rt = _ := if_neg hm
    rw [h]
    refine view_eq ?_ hp fun q => ?_
    · exact congrArg State.taskList (if_neg hm)
    · by_cases hq : q = rt
      · subst hq
        simpa using isManaged_globalListInsert
      · dsimp only
        rw [Function.update_of_ne hq]
        exact congrArg Task.globalEntry ((Update.insert s).task_of_ne hq)

theorem view_globalListRemove (hm : s.isManaged rt = true) :
    (globalListRemove s rt).view = s.view.remove rt := by
  refine view_eq (congrArg State.taskList (if_pos hm)) globalListRemove_only.prio_eq fun q => ?_
  by_cases hq : q = rt
  · subst hq
    simpa [Keyed.remove] using isManaged_globalListRemove
  · unfold Keyed.remove
    dsimp only
    rw [Function.update_of_ne hq]
    exact congrArg Task.globalEntry ((Update.remove s).task_of_ne hq)

theorem moves_globalListRemove : Moves rt s.view (globalListRemove s rt).view := by
  by_cases hm : s.isManaged rt = true
  · rw [view_globalListRemove hm]
    exact (Move.remove s.view).moves
  · have : globalListRemove s rt = s := if_neg hm
    rw [this]
    exact .refl _

theorem view_globalListReinsert (hm : s.isManaged rt = true) :
    (globalListReinsert s rt).view = s.view.reinsert rt := by
  unfold globalListReinsert Keyed.reinsert
  rw [view_globalListInsert, view_globalListRemove hm]
  exact (if_pos hm).symm

/-! ## Queueing -/

theorem view_edfEnqueueTask :
    (Edf.edfEnqueueTask s rt prio cpu).view = s.view.assign rt prio := by
  unfold Edf.edfEnqueueTask enqueueTaskAt
  rw [view_setPrio, view_link]

theorem view_classDequeueTask : (classDequeueTask s rt prio cpu).view = s.view := by
  unfold classDequeueTask
  split
  · rfl
  all_goals exact view_unlink

/-- An enqueue at the level of `rt->prio`. -/
theorem view_classEnqueueTask (h : (s.task rt).prio = prio) :
    (classEnqueueTask s rt prio cpu).view = s.view := by
  unfold classEnqueueTask
  split
  · rfl
  · exact view_link
  · exact view_edfEnqueueTask.trans (view_assign_same h)
  · exact view_link

theorem view_requeueTask {prioOld : ℤ} : (requeueTask s rt prioOld).view = s.view := by
  unfold requeueTask
  refine (view_classEnqueueTask ?_).trans view_classDequeueTask
  exact congrFun (congrArg Keyed.key view_classDequeueTask) rt

theorem view_moveTask {prioOld : ℤ} : (moveTask s rt prioOld).view = s.view.reinsert rt := by
  have h₁ : (if s.isManaged rt = true then globalListReinsert s rt else s).view =
      s.view.reinsert rt := by
    split
    · exact view_globalListReinsert ‹_›
    · exact (if_neg ‹_›).symm
  unfold moveTask
  dsimp only
  rw [← h₁]
  generalize (if s.isManaged rt = true then globalListReinsert s rt else s) = s₁
  split
  · exact view_requeueTask
  · rfl

/-! ## Setting the scheduler -/

/-- Without `SCHED_DEADLINE`, a class asks `sched_setscheduler`. -/
theorem classSetScheduler_as (hc : (s.task rt).cls ≠ .deadline) :
    ∃ policy, classSetScheduler c k s rt prio = setSchedulerAs k policy s rt prio := by
  unfold classSetScheduler
  split
  · exact ⟨_, rfl⟩
  · exact ⟨_, rfl⟩
  · exact ⟨_, rfl⟩
  · exact absurd ‹_› hc

theorem moves_setScheduler' (hc : (s.task rt).cls ≠ .deadline) :
    Moves rt s.view (setScheduler' c k s rt prio).1.view := by
  obtain ⟨policy, hp⟩ : ∃ policy, classSetScheduler c k s rt prio =
      setSchedulerAs k policy s rt prio := classSetScheduler_as hc
  rw [setScheduler'_as hp]
  split
  · split
    · exact .of_eq rfl
    · rw [view_moveTask, view_setPrio]
      exact (Move.rekey s.view prio).moves
  · exact .refl _

theorem view_setPolicy {policy : ℤ} : (setPolicy c s rt policy).view = s.view := by
  unfold setPolicy
  split
  · exact view_setTask rfl rfl
  · rfl

theorem moves_setScheduler {policy : ℤ} (hc : ((setPolicy c s rt policy).task rt).cls ≠ .deadline) :
    Moves rt s.view (setScheduler c k s rt policy prio).1.view := by
  rw [setScheduler_fst]
  have hm : Moves rt (setPolicy c s rt policy).view
      (setScheduler' c k (setPolicy c s rt policy) rt prio).1.view := moves_setScheduler' hc
  rwa [view_setPolicy] at hm

/-! ## Reserves -/

theorem view_edfReserveExpire : (Edf.edfReserveExpire s rt).view =
    if s.isActive rt = true then s.view.assign rt reschPrioBackground else s.view := by
  unfold Edf.edfReserveExpire
  dsimp only
  by_cases ha : s.isActive rt = true
  · simp only [ha, Bool.not_true, Bool.false_eq_true, if_false, if_true]
    refine (view_ifSome fun q => ?_).trans (view_edfEnqueueTask.trans ?_)
    · split <;> rfl
    · unfold Edf.edfDequeueTask dequeueTaskAt
      rw [view_unlink]
  · simp [ha]

/-- Whether `edf_reserve_replenish` takes a task out of the background level. -/
def AtBackground (s : State) (rt : ℕ) : Prop :=
  (s.task rt).prio = reschPrioBackground ∧ s.isActive rt = true

instance (s : State) (rt : ℕ) : Decidable (AtBackground s rt) := inferInstanceAs (Decidable (_ ∧ _))

theorem view_edfReserveReplenish (cputime : ℕ) : (Edf.edfReserveReplenish s rt cputime).view =
    if AtBackground s rt then s.view.assign rt reschPrioEdf else s.view := by
  have hb : (s.setTask rt fun t => { t with budget := t.budget + cputime }).view = s.view :=
    view_setTask rfl rfl
  have hact : (s.setTask rt fun t => { t with budget := t.budget + cputime }).isActive rt =
      s.isActive rt := setTask_field (·.activeEntry) (by rfl) rt
  have he : ∀ (s₁ : State) (x : ℕ), (Edf.edfEnqueueTask (Edf.edfDequeueTask s₁ rt
      reschPrioBackground x) rt reschPrioEdf x).view = s₁.view.assign rt reschPrioEdf := by
    intro s₁ x
    refine view_edfEnqueueTask.trans ?_
    unfold Edf.edfDequeueTask dequeueTaskAt
    rw [view_unlink]
  by_cases hd : AtBackground s rt
  · rw [if_pos hd, ← hb, ← he _ (s.task rt).cpuId]
    unfold Edf.edfReserveReplenish
    dsimp only
    rw [task_setTask_self, hact, if_pos (show _ ∧ _ from hd)]
    split
    · exact view_wakeUpProcess.trans (view_ifSome fun q => rfl)
    · rfl
  · rw [if_neg hd, ← hb]
    unfold Edf.edfReserveReplenish
    dsimp only
    rw [task_setTask_self, hact, if_neg (show ¬ (_ ∧ _) from hd)]

theorem moves_classReserveReplenish (hc : (s.task rt).cls ≠ .deadline) (he : (s.task rt).cls ≠ .edf)
    (cputime : ℕ) : Moves rt s.view (classReserveReplenish c k s rt cputime).view := by
  unfold classReserveReplenish
  split
  · exact .refl _
  · have hb : (s.setTask rt fun t => { t with budget := t.budget + cputime }).view = s.view :=
      view_setTask rfl rfl
    unfold fpReserveReplenish
    dsimp only
    rw [← hb]
    split
    · exact moves_setScheduler' (by simpa using hc)
    · exact .refl _
  · exact absurd ‹_› he
  · exact absurd ‹_› hc

theorem moves_classReserveExpire (hc : (s.task rt).cls ≠ .deadline) (he : (s.task rt).cls ≠ .edf) :
    Moves rt s.view (classReserveExpire c k s rt).view := by
  unfold classReserveExpire
  split
  · exact .refl _
  · exact moves_setScheduler' hc
  · exact absurd ‹_› he
  · exact absurd ‹_› hc

/-- An inactive task is replenished without a change of priority. -/
theorem view_classReserveReplenish (hi : s.isActive rt = false) (cputime : ℕ) :
    (classReserveReplenish c k s rt cputime).view = s.view := by
  have hb : (s.setTask rt fun t => { t with budget := t.budget + cputime }).view = s.view :=
    view_setTask rfl rfl
  have hact : (s.setTask rt fun t => { t with budget := t.budget + cputime }).isActive rt = false :=
    (setTask_field (·.activeEntry) (by rfl) rt).trans hi
  unfold classReserveReplenish
  split
  · rfl
  · unfold fpReserveReplenish
    dsimp only
    rw [hact]
    simpa using hb
  · rw [view_edfReserveReplenish, if_neg]
    rintro ⟨-, ha⟩
    rw [hi] at ha; cases ha
  · rfl

theorem view_reserveStart (cputime : ℕ) (xcpu : Bool) :
    (reserveStart c s rt cputime xcpu).view = s.view := by
  unfold reserveStart
  exact (view_of_frame (startAccount_accounts.frame _ _)).trans (view_setTask rfl rfl)

theorem view_reserveStop : (reserveStop c s rt).view = s.view :=
  view_of_frame (reserveStop_accounts.frame s rt)

/-! ## Jobs -/

theorem view_edfJobStart : (Edf.edfJobStart s rt).view = s.view.assign rt reschPrioEdf := by
  unfold Edf.edfJobStart
  dsimp only
  have he : (Edf.edfEnqueueTask s rt reschPrioEdf (s.task rt).cpuId).view =
      s.view.assign rt reschPrioEdf := view_edfEnqueueTask
  rw [← he]
  split
  · exact view_ifSome fun q => rfl
  · rfl

theorem view_edfJobComplete : (Edf.edfJobComplete s rt).view = s.view.assign rt reschPrioEdf := by
  unfold Edf.edfJobComplete
  dsimp only
  refine (view_ifSome fun q => rfl).trans (view_setPrio.trans ?_)
  unfold Edf.edfDequeueTask dequeueTaskAt
  rw [view_unlink]

theorem view_jobStart (hc : (s.task rt).cls ≠ .deadline) : (jobStart c s rt).view =
    if (s.task rt).cls = .edf then s.view.assign rt reschPrioEdf else s.view := by
  have h₁ : (classJobStart s rt).view =
      if (s.task rt).cls = .edf then s.view.assign rt reschPrioEdf else s.view := by
    unfold classJobStart
    cases hcls : (s.task rt).cls with
    | fair => rfl
    | fp => exact view_link
    | edf => exact view_edfJobStart
    | deadline => exact absurd hcls hc
  unfold jobStart
  dsimp only
  rw [← h₁]
  split
  · exact view_of_frame (startAccount_accounts.frame _ _)
  · rfl

end Resch
