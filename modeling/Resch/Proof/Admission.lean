import Resch.Proof.AdmissionFaults
import Resch.Proof.EdfWmFaults
import Resch.Spec.Admission

/-!
# Divisors of `task_run` along runs

The tests divide by the periods of all tasks on the CPUs. Each of them had a period when it was
admitted, but `api_set_period` changes the period of a task that is already placed, too, and the
plugins EDF-US and FP-US do not skip tasks without a period.

* `admission_avoids`: no step divides by zero in a run where no task that is on a CPU gets a period of
  zero microseconds (`Meets`).
-/

namespace Resch.Checked

open Lib

variable {c : Config} {pl : Plugin} {s s' s'' : Admission} {rt p cpu fuel : ℕ} {mask : ℕ → Bool}
  {accepts : Bool}

/-- The test of the plugin on `cpu` takes the task into account. -/
def Plugin.onCpu (s : Admission) (p cpu : ℕ) : Plugin → Bool
  | edfFf | fpFf => s.taskIsOnCpu p cpu
  | edfWm => s.edfWm.splitIsOnCpu p cpu || s.taskIsOnCpu p cpu
  | fpPm => s.toFppm.fppmTaskIsOnCpu p cpu
  | edfUs | fpUs => false

/-- Some test takes the task into account. -/
def Plugin.Counts (c : Config) (pl : Plugin) (s : Admission) (p : ℕ) : Prop :=
  p ∈ s.list ∧ ∃ cpu < c.nrRtCpus, pl.onCpu s p cpu = true

/-- The periods that `task_run` divides by, apart from those of the other tasks -/
def Plugin.Runs (c : Config) (s : Admission) (rt fuel : ℕ) : Plugin → Prop
  | edfUs | fpUs => (s.task rt).period ≠ 0
  | pl => (pl.Counts c s rt ∨ (s.task rt).period ≠ 0 → c.usecs (s.task rt).period ≠ 0) ∧
    match pl with
    | edfWm => EdfWm.WindowsFit c (s.clearSplitTask c rt .edfWm).edfWm rt fuel
    | fpPm => FpPm.BoundsDivide c s.toFppm rt
    | _ => True

/-- The condition on a step: a task that is counted, or placed, has a period of some microseconds. -/
def AdmissionOp.Meets (c : Config) (pl : Plugin) (s : Admission) : AdmissionOp → Prop
  | setPeriod rt period => pl.Counts c s rt → c.usecs period ≠ 0
  | follow rt cpu => pl.Counts c (s.setTask rt fun t => { t with cpuId := cpu }) rt →
      c.usecs (s.task rt).period ≠ 0
  | run rt fuel _ _ => pl.Runs c (s.core fun t => t.globalListInsert rt) rt fuel
  | _ => True

/-! ## What a step keeps -/

/-- What the tests read of the task `p` is the same, but that it may leave the list. -/
structure AlikeAt (p : ℕ) (s s' : Admission) : Prop where
  cpuId : (s'.task p).cpuId = (s.task p).cpuId
  period : (s'.task p).period = (s.task p).period
  fppmTask : s'.fppmTask p = s.fppmTask p
  edfWmTask : s'.edfWmTask p = s.edfWmTask p
  mem : p ∈ s'.list → p ∈ s.list
  attached : s'.attached p = s.attached p

/-- At most `rt` differs, and it keeps its period. -/
structure Kept (rt : ℕ) (s s' : Admission) : Prop where
  other : ∀ p, p ≠ rt → AlikeAt p s s'
  period : (s'.task rt).period = (s.task rt).period
  attached : s'.attached rt = s.attached rt

theorem AlikeAt.refl (p : ℕ) (s : Admission) : AlikeAt p s s := ⟨rfl, rfl, rfl, rfl, id, rfl⟩

theorem AlikeAt.trans (h : AlikeAt p s s') (h' : AlikeAt p s' s'') : AlikeAt p s s'' :=
  ⟨h'.cpuId.trans h.cpuId, h'.period.trans h.period, h'.fppmTask.trans h.fppmTask,
    h'.edfWmTask.trans h.edfWmTask, fun hin => h.mem (h'.mem hin), h'.attached.trans h.attached⟩

theorem Kept.refl (rt : ℕ) (s : Admission) : Kept rt s s := ⟨fun p _ => .refl p s, rfl, rfl⟩

theorem Kept.trans (h : Kept rt s s') (h' : Kept rt s' s'') : Kept rt s s'' :=
  ⟨fun p hp => (h.other p hp).trans (h'.other p hp), h'.period.trans h.period,
    h'.attached.trans h.attached⟩

theorem Kept.of_alike (h : ∀ p, AlikeAt p s s') : Kept rt s s' :=
  ⟨fun p _ => h p, (h rt).period, (h rt).attached⟩

theorem setTask_other (f : RtTask → RtTask) (hp : p ≠ rt) : AlikeAt p s (s.setTask rt f) := by
  have htask : (s.setTask rt f).task p = s.task p := Function.update_of_ne hp ..
  exact ⟨congrArg RtTask.cpuId htask, congrArg RtTask.period htask, rfl, rfl, id, rfl⟩

theorem setTask_self (f : RtTask → RtTask) : (s.setTask rt f).task rt = f (s.task rt) :=
  Function.update_self ..

/-- The tests read the CPU and the period. -/
theorem setTask_alike {f : RtTask → RtTask}
    (hf : ∀ t, (f t).cpuId = t.cpuId ∧ (f t).period = t.period) (p : ℕ) :
    AlikeAt p s (s.setTask rt f) := by
  by_cases hp : p = rt
  · rw [hp]
    exact ⟨by rw [setTask_self, (hf _).1], by rw [setTask_self, (hf _).2], rfl, rfl, id, rfl⟩
  · exact setTask_other f hp

theorem assign_kept (s : Admission) (rt cpu : ℕ) :
    Kept rt s (s.setTask rt fun t => { t with cpuId := cpu }) :=
  ⟨fun _ hp => setTask_other _ hp, by rw [setTask_self], rfl⟩

theorem globalListInsert_kept (s : Admission) (rt : ℕ) :
    Kept rt s (s.core fun t => t.globalListInsert rt) := by
  obtain ⟨htask, hft, -⟩ := FppmState.globalListInsert_same s.toFppmState rt
  refine ⟨fun p hp => ⟨?_, ?_, congrFun hft p, rfl, fun hin => ?_, rfl⟩, ?_, rfl⟩
  · exact congrArg (fun t => (t p).cpuId) htask
  · exact congrArg (fun t => (t p).period) htask
  · exact (FppmState.mem_globalListInsert.1 hin).resolve_left hp
  · exact congrArg (fun t => (t rt).period) htask

theorem globalListRemove_alike (s : Admission) (rt p : ℕ) :
    AlikeAt p s (s.core fun t => t.globalListRemove rt) :=
  ⟨rfl, rfl, rfl, rfl, fun hin => (FppmState.mem_globalListRemove.1 hin).1, rfl⟩

theorem clearSplitTask_kept (c : Config) (pl : Plugin) (s : Admission) (rt : ℕ) :
    Kept rt s (s.clearSplitTask c rt pl) := by
  cases pl with
  | edfFf | fpFf | edfUs | fpUs => exact .refl rt s
  | edfWm => exact ⟨fun p hp => ⟨rfl, rfl, rfl, Function.update_of_ne hp .., id, rfl⟩, rfl, rfl⟩
  | fpPm => exact ⟨fun p hp => ⟨rfl, rfl, Function.update_of_ne hp .., rfl, id, rfl⟩, rfl, rfl⟩

/-- `set_scheduler` writes the priority and the policy. -/
theorem setScheduler_alike {policy prio : ℤ} (p : ℕ) :
    AlikeAt p s (s.setScheduler rt accepts policy prio) := by
  unfold Admission.setScheduler
  dsimp only
  generalize (if policy = reschSchedFp ∨ policy = reschSchedEdf then policy else reschSchedFair) = policy
  split
  swap
  · exact ⟨rfl, rfl, rfl, rfl, id, rfl⟩
  obtain ⟨hft, -, hmem, -⟩ := FppmState.setScheduler_spec s.toFppmState rt policy prio
  have hset : AlikeAt p s (s.setTask rt fun t => { t with prio := prio }) := by
    refine setTask_alike (fun t => ?_) p
    exact ⟨rfl, rfl⟩
  have htask : (s.toFppmState.setScheduler rt policy prio).task = s.task ∨
      (s.toFppmState.setScheduler rt policy prio).task =
        (s.setTask rt fun t => { t with prio := prio }).task := by
    unfold FppmState.setScheduler
    dsimp only
    split
    · exact Or.inl rfl
    · split
      · exact Or.inr (FppmState.globalListInsert_same _ rt).1
      · exact Or.inr rfl
  refine ⟨?_, ?_, congrFun hft p, rfl, (hmem p).1, rfl⟩
  · rcases htask with h | h
    · exact congrArg (fun t => (t p).cpuId) h
    · exact (congrArg (fun t => (t p).cpuId) h).trans hset.cpuId
  · rcases htask with h | h
    · exact congrArg (fun t => (t p).period) h
    · exact (congrArg (fun t => (t p).period) h).trans hset.period

theorem setPolicy_alike {policy prio : ℤ} (p : ℕ) :
    AlikeAt p s (Admission.setPolicy rt accepts policy prio s) := by
  unfold Admission.setPolicy
  split
  · exact setScheduler_alike p
  · exact .refl p s

theorem settle_kept {cpuDst : ℕ} {schedule : Admission → Admission}
    (h : ∀ t p, AlikeAt p t (schedule t)) : Kept rt s (s.settle c rt accepts cpuDst schedule) := by
  unfold Admission.settle
  split
  · refine (Kept.of_alike (h s)).trans ⟨fun _ hp => setTask_other _ hp, ?_, rfl⟩
    rw [setTask_self]
  · exact .of_alike setScheduler_alike

/-- A plugin that skips tasks without a period. -/
theorem periodic_kept {x : Except Fault Admission} (hx : ∀ t, x = .ok t → Kept rt s t)
    (h : (if (s.task rt).period = 0 then return s else x) = .ok s') :
    Kept rt s s' ∧ ((s.task rt).period = 0 → s' = s) := by
  split at h
  · cases h
    exact ⟨.refl rt s, fun _ => rfl⟩
  · rename_i hp
    exact ⟨hx s' h, fun h0 => absurd h0 hp⟩

theorem edfFfRun_kept (h : Plugin.edfFfRun c s rt fuel mask accepts = .ok s') :
    Kept rt s s' ∧ ((s.task rt).period = 0 → s' = s) := by
  refine periodic_kept (fun t ht => ?_) h
  obtain ⟨cpuDst, -, ht⟩ := bind_eq_ok.1 ht
  cases ht
  exact (assign_kept s rt cpuDst).trans (settle_kept fun _ => setPolicy_alike)

theorem fpFfRun_kept (h : Plugin.fpFfRun c s rt mask accepts = .ok s') :
    Kept rt s s' ∧ ((s.task rt).period = 0 → s' = s) := by
  refine periodic_kept (fun t ht => ?_) h
  obtain ⟨cpuDst, -, ht⟩ := bind_eq_ok.1 ht
  cases ht
  exact (assign_kept s rt cpuDst).trans (settle_kept fun _ => setPolicy_alike)

theorem edfWmRun_kept (h : Plugin.edfWmRun c s rt fuel mask accepts = .ok s') :
    Kept rt s s' ∧ ((s.task rt).period = 0 → s' = s) := by
  refine periodic_kept (fun t ht => ?_) h
  obtain ⟨⟨u, cpuDst⟩, -, ht⟩ := bind_eq_ok.1 ht
  cases ht
  have hset : ∀ et, Kept rt s { s.clearSplitTask c rt .edfWm with
      edfWmTask := Function.update (s.clearSplitTask c rt .edfWm).edfWmTask rt et } := fun et =>
    (clearSplitTask_kept c .edfWm s rt).trans
      ⟨fun _ hp => ⟨rfl, rfl, rfl, Function.update_of_ne hp .., id, rfl⟩, rfl, rfl⟩
  refine ((hset (u.edfWmTask rt)).trans (assign_kept _ rt cpuDst)).trans (settle_kept fun t p => ?_)
  split
  · refine AlikeAt.trans (setTask_alike (fun t => ?_) p) (setScheduler_alike p)
    exact ⟨rfl, rfl⟩
  · exact setPolicy_alike p

theorem fpPmRun_kept (h : Plugin.fpPmRun c s rt mask accepts = .ok s') :
    Kept rt s s' ∧ ((s.task rt).period = 0 → s' = s) := by
  refine periodic_kept (fun t ht => ?_) h
  obtain ⟨⟨cpuDst, ft⟩, -, ht⟩ := bind_eq_ok.1 ht
  cases ht
  have hset : Kept rt s { s.clearSplitTask c rt .fpPm with
      fppmTask := Function.update (s.clearSplitTask c rt .fpPm).fppmTask rt ft } :=
    (clearSplitTask_kept c .fpPm s rt).trans
      ⟨fun _ hp => ⟨rfl, rfl, Function.update_of_ne hp .., rfl, id, rfl⟩, rfl, rfl⟩
  refine (hset.trans (assign_kept _ rt cpuDst)).trans (settle_kept fun t p => ?_)
  split
  · exact setScheduler_alike p
  · exact setPolicy_alike p

theorem usRun_kept {threshold : ℕ} (h : Plugin.usRun c s rt accepts threshold = .ok s') :
    Kept rt s s' := by
  obtain ⟨q, -, h⟩ := bind_eq_ok.1 h
  cases h
  refine Kept.trans (.of_alike fun p => .trans ?_ (setScheduler_alike p)) (assign_kept _ rt _)
  split
  · exact setScheduler_alike p
  · exact .refl p s

/-- What `task_run` keeps. The plugins with a test leave a task without a period as it is. -/
theorem taskRun_kept (h : pl.taskRun c s rt fuel mask accepts = .ok s') :
    Kept rt s s' ∧ ((s.task rt).period = 0 → s' = s ∨ pl = .edfUs ∨ pl = .fpUs) := by
  cases pl with
  | edfFf => exact ⟨(edfFfRun_kept h).1, fun h0 => Or.inl ((edfFfRun_kept h).2 h0)⟩
  | fpFf => exact ⟨(fpFfRun_kept h).1, fun h0 => Or.inl ((fpFfRun_kept h).2 h0)⟩
  | edfWm => exact ⟨(edfWmRun_kept h).1, fun h0 => Or.inl ((edfWmRun_kept h).2 h0)⟩
  | fpPm => exact ⟨(fpPmRun_kept h).1, fun h0 => Or.inl ((fpPmRun_kept h).2 h0)⟩
  | edfUs => exact ⟨usRun_kept h, fun _ => Or.inr (Or.inl rfl)⟩
  | fpUs => exact ⟨usRun_kept h, fun _ => Or.inr (Or.inr rfl)⟩

/-! ## The invariant -/

/-- The tasks in the list have attached, and those that are counted have periods. -/
structure Admitted (c : Config) (pl : Plugin) (s : Admission) : Prop where
  attached : ∀ p ∈ s.list, s.attached p = true
  period : ∀ p, pl.Counts c s p → c.usecs (s.task p).period ≠ 0

theorem onCpu_congr (hc : (s'.task p).cpuId = (s.task p).cpuId)
    (hf : s'.fppmTask p = s.fppmTask p) (he : s'.edfWmTask p = s.edfWmTask p) :
    pl.onCpu s' p cpu = pl.onCpu s p cpu := by
  cases pl with
  | edfFf | fpFf =>
    unfold Plugin.onCpu TaskSet.taskIsOnCpu
    dsimp only
    rw [hc]
  | edfWm =>
    unfold Plugin.onCpu TaskSet.taskIsOnCpu Resch.EdfWm.splitIsOnCpu Admission.edfWm
    simp only [hc, he]
  | fpPm =>
    unfold Plugin.onCpu
    dsimp only
    exact FpPm.isOnCpu_congr hc (congrArg FppmTask.runtime hf)
  | edfUs | fpUs => rfl

theorem AlikeAt.counts (h : AlikeAt p s s') : pl.Counts c s' p → pl.Counts c s p := by
  rintro ⟨hin, cpu, hcpu, hon⟩
  rw [onCpu_congr h.cpuId h.fppmTask h.edfWmTask] at hon
  exact ⟨h.mem hin, cpu, hcpu, hon⟩

/-- A task is as it was, or it is the one that a step is about. -/
theorem Admitted.step (hi : Admitted c pl s) (h : ∀ p, p ≠ rt → AlikeAt p s s')
    (ha : rt ∈ s'.list → s'.attached rt = true)
    (hp : pl.Counts c s' rt → c.usecs (s'.task rt).period ≠ 0) : Admitted c pl s' := by
  refine ⟨fun p hin => ?_, fun p hcount => ?_⟩
  · by_cases hprt : p = rt
    · rw [hprt] at hin ⊢
      exact ha hin
    · rw [(h p hprt).attached]
      exact hi.attached p ((h p hprt).mem hin)
  · by_cases hprt : p = rt
    · rw [hprt] at hcount ⊢
      exact hp hcount
    · rw [(h p hprt).period]
      exact hi.period p ((h p hprt).counts hcount)

theorem Admitted.alike (hi : Admitted c pl s) (h : ∀ p, AlikeAt p s s') : Admitted c pl s' := by
  refine ⟨fun p hin => ?_, fun p hcount => ?_⟩
  · rw [(h p).attached]
    exact hi.attached p ((h p).mem hin)
  · rw [(h p).period]
    exact hi.period p ((h p).counts hcount)

/-! ## The steps -/

theorem exit_alike (hs : (AdmissionOp.exit rt accepts).exec c pl s = .ok s') :
    (∀ p, p ≠ rt → AlikeAt p s s') ∧ rt ∉ s'.list := by
  cases hs
  generalize ht : (s.core fun t => t.globalListRemove rt).clearSplitTask c rt pl = t
  have hrest : ∀ p, p ≠ rt → AlikeAt p s t := by
    intro p hp
    rw [← ht]
    exact (globalListRemove_alike s rt p).trans ((clearSplitTask_kept c pl _ rt).other p hp)
  have hout : rt ∉ t.list := by
    have hlist : t.list = (s.core fun t => t.globalListRemove rt).list := by
      rw [← ht]
      cases pl <;> rfl
    rw [hlist]
    exact fun hin => (FppmState.mem_globalListRemove.1 hin).2 rfl
  have hsched : ∀ p, AlikeAt p t
      (if t.policy rt ≠ reschSchedFair then t.setScheduler rt accepts reschSchedFair 0 else t) := by
    intro p
    split
    · exact setScheduler_alike p
    · exact .refl p t
  refine ⟨fun p hp => ?_, fun hin => hout ((hsched rt).mem hin)⟩
  have h := (hrest p hp).trans (hsched p)
  exact ⟨h.cpuId, h.period, h.fppmTask, h.edfWmTask, h.mem,
    (Function.update_of_ne hp ..).trans h.attached⟩

/-- `api_run` is about one task. If that counts afterwards, it has been placed, or it counted before. -/
theorem run_kept (hs : (AdmissionOp.run rt fuel mask accepts).exec c pl s = .ok s') :
    Kept rt s s' ∧ (pl.Runs c (s.core fun t => t.globalListInsert rt) rt fuel → pl.Counts c s' rt →
      c.usecs (s.task rt).period ≠ 0) := by
  obtain ⟨t, hrun, hs⟩ := bind_eq_ok.1 hs
  cases hs
  have hinsert := globalListInsert_kept s rt
  generalize (s.core fun t => t.globalListInsert rt) = u at hrun hinsert
  obtain ⟨htask, haper⟩ := taskRun_kept hrun
  have hlast : ∀ p, AlikeAt p t
      (if t.policy rt = reschSchedFair then t.core fun t => t.globalListRemove rt else t) := by
    intro p
    split
    · exact globalListRemove_alike t rt p
    · exact .refl p t
  refine ⟨(hinsert.trans htask).trans (.of_alike hlast), fun hm hcount => ?_⟩
  rw [← hinsert.period]
  have hcount := (hlast rt).counts hcount
  have hsome : pl ≠ .edfUs ∧ pl ≠ .fpUs := by
    constructor
    all_goals
      rintro rfl
      obtain ⟨-, k, -, hon⟩ := hcount
      cases hon
  have hne : pl.Counts c u rt ∨ (u.task rt).period ≠ 0 := by
    by_cases h0 : (u.task rt).period = 0
    · rcases haper h0 with rfl | h | h
      · exact Or.inl hcount
      · exact absurd h hsome.1
      · exact absurd h hsome.2
    · exact Or.inr h0
  cases pl with
  | edfUs => exact absurd rfl hsome.1
  | fpUs => exact absurd rfl hsome.2
  | edfFf | edfWm | fpFf | fpPm => exact hm.1 hne

/-- **One step.** -/
theorem exec_admitted (op : AdmissionOp) (hi : Admitted c pl s) (he : op.enabled s = true)
    (hm : op.Meets c pl s) (hs : op.exec c pl s = .ok s') : Admitted c pl s' := by
  cases op with
  | init rt =>
    cases hs
    -- who calls `init` has not been attached
    have hout : rt ∉ s.list := by
      intro hin
      rw [AdmissionOp.enabled, hi.attached rt hin] at he
      cases he
    refine @Admitted.step c pl s _ rt hi (fun p hp => ?_) (fun hin => absurd hin hout)
      fun hcount => absurd hcount.1 hout
    have h := setTask_other (s := s) (AdmissionOp.initTask c) hp
    exact ⟨h.cpuId, h.period, h.fppmTask, h.edfWmTask, h.mem, Function.update_of_ne hp ..⟩
  | exit rt accepts =>
    obtain ⟨hother, hout⟩ := exit_alike hs
    exact hi.step hother (fun hin => absurd hin hout) fun hcount => absurd hcount.1 hout
  | run rt fuel mask accepts =>
    obtain ⟨hkept, hcount⟩ := run_kept hs
    -- only `run` can put the task on a CPU
    refine hi.step hkept.other (fun _ => hkept.attached.trans he) fun h => ?_
    rw [hkept.period]
    exact hcount hm h
  | setPeriod rt period =>
    cases hs
    refine @Admitted.step c pl s _ rt hi (fun p hp => setTask_other _ hp) (hi.attached rt) fun h => ?_
    rw [setTask_self]
    obtain ⟨hin, cpu, hcpu, hon⟩ := h
    have hc : ((s.setTask rt fun t => { t with period := period, deadline :=
        if t.deadline = 0 then period else t.deadline }).task rt).cpuId = (s.task rt).cpuId := by
      rw [setTask_self]
    rw [onCpu_congr hc (by rfl) (by rfl)] at hon
    exact hm ⟨hin, cpu, hcpu, hon⟩
  -- the CPU alone changes
  | follow rt cpu =>
    cases hs
    refine @Admitted.step c pl s _ rt hi (fun p hp => setTask_other _ hp) (hi.attached rt) fun h => ?_
    rw [setTask_self]
    exact hm h
  | setDeadline rt d =>
    cases hs
    refine hi.alike (setTask_alike fun t => ?_)
    exact ⟨rfl, rfl⟩
  | setWcet rt d =>
    cases hs
    refine hi.alike (setTask_alike fun t => ?_)
    exact ⟨rfl, rfl⟩
  | setRuntime rt d =>
    cases hs
    refine hi.alike (setTask_alike fun t => ?_)
    exact ⟨rfl, rfl⟩
  | renewWcet rt d =>
    cases hs
    refine hi.alike (setTask_alike fun t => ?_)
    exact ⟨rfl, rfl⟩
  | writePrio rt d =>
    cases hs
    refine hi.alike (setTask_alike fun t => ?_)
    exact ⟨rfl, rfl⟩
  | setPriority rt prio accepts =>
    cases hs
    refine hi.alike fun p => ?_
    split
    · exact .refl p s
    · exact setScheduler_alike p
  | setScheduler rt policy accepts =>
    cases hs
    exact hi.alike setPolicy_alike
  | setCosts sw rel mig =>
    cases hs
    exact hi.alike fun p => ⟨rfl, rfl, rfl, rfl, id, rfl⟩

/-! ## The divisions -/

theorem edfFfRun_avoids (h : ∀ p, Plugin.edfFf.Counts c s p → c.usecs (s.task p).period ≠ 0)
    (hm : Plugin.edfFf.Runs c s rt fuel) :
    Avoids .divideByZero (Plugin.edfFfRun c s rt fuel mask accepts) := by
  unfold Plugin.edfFfRun
  refine .ite (fun _ => .pure _) fun hp => ?_
  refine (EdfFf.cpuWorstFit_avoids (fun cpu hcpu p hin hon => ?_) (hm.1 (Or.inr hp))).bind
    fun cpuDst _ => .pure _
  exact h p ⟨hin, cpu, hcpu, decide_eq_true hon⟩

theorem fpFfRun_avoids (h : ∀ p, Plugin.fpFf.Counts c s p → c.usecs (s.task p).period ≠ 0)
    (hm : Plugin.fpFf.Runs c s rt fuel) :
    Avoids .divideByZero (Plugin.fpFfRun c s rt mask accepts) := by
  unfold Plugin.fpFfRun
  refine .ite (fun _ => .pure _) fun hp => ?_
  refine (FpFf.partition_avoids (fun cpu hcpu p hin hon => ?_) (hm.1 (Or.inr hp))).bind
    fun cpuDst _ => .pure _
  exact h p ⟨hin, cpu, hcpu, decide_eq_true hon⟩

theorem edfWmRun_avoids (h : ∀ p, Plugin.edfWm.Counts c s p → c.usecs (s.task p).period ≠ 0)
    (hm : Plugin.edfWm.Runs c s rt fuel) :
    Avoids .divideByZero (Plugin.edfWmRun c s rt fuel mask accepts) := by
  unfold Plugin.edfWmRun
  refine .ite (fun _ => .pure _) fun hp => ?_
  have hclear := clearSplitTask_kept c .edfWm s rt
  have hrt := hm.1 (Or.inr hp)
  refine (EdfWm.place_avoids (fun cpu hcpu => ⟨hrt, fun p hin hon => ?_⟩) hm.2).bind fun r _ => .pure _
  by_cases hprt : p = rt
  · rw [hprt]
    exact hrt
  · have hcount : Plugin.edfWm.Counts c (s.clearSplitTask c rt .edfWm) p :=
      ⟨hin, cpu, hcpu, Bool.or_eq_true_iff.2 hon⟩
    exact h p ((hclear.other p hprt).counts hcount)

theorem fpPmRun_avoids (h : ∀ p, Plugin.fpPm.Counts c s p → c.usecs (s.task p).period ≠ 0)
    (hm : Plugin.fpPm.Runs c s rt fuel) :
    Avoids .divideByZero (Plugin.fpPmRun c s rt mask accepts) := by
  unfold Plugin.fpPmRun
  refine .ite (fun _ => .pure _) fun hp => ?_
  have hclear := clearSplitTask_kept c .fpPm s rt
  have hrt := hm.1 (Or.inr hp)
  have hb : FpPm.BoundsDivide c (s.clearSplitTask c rt .fpPm).toFppm rt := hm.2
  have hplace : Avoids .divideByZero (FpPm.place c (s.clearSplitTask c rt .fpPm).toFppm rt mask) := by
    refine FpPm.place_avoids (fun cpu hcpu p hin hon => ?_) hrt hb
    by_cases hprt : p = rt
    · rw [hprt]
      exact hrt
    · have hcount : Plugin.fpPm.Counts c (s.clearSplitTask c rt .fpPm) p := ⟨hin, cpu, hcpu, hon⟩
      exact h p ((hclear.other p hprt).counts hcount)
  exact hplace.bind fun r _ => .pure _

theorem usRun_avoids {threshold : ℕ} (h : (s.task rt).period ≠ 0) :
    Avoids .divideByZero (Plugin.usRun c s rt accepts threshold) := by
  unfold Plugin.usRun
  exact (Avoids.div fun _ => h).bind fun q _ => .pure _

theorem taskRun_avoids (h : ∀ p, p ≠ rt → pl.Counts c s p → c.usecs (s.task p).period ≠ 0)
    (hm : pl.Runs c s rt fuel) : Avoids .divideByZero (pl.taskRun c s rt fuel mask accepts) := by
  have hall : (pl.Counts c s rt → c.usecs (s.task rt).period ≠ 0) →
      ∀ p, pl.Counts c s p → c.usecs (s.task p).period ≠ 0 := by
    intro hrt p
    by_cases hprt : p = rt
    · rw [hprt]
      exact hrt
    · exact h p hprt
  cases pl with
  | edfFf => exact edfFfRun_avoids (hall fun hrt => hm.1 (Or.inl hrt)) hm
  | edfWm => exact edfWmRun_avoids (hall fun hrt => hm.1 (Or.inl hrt)) hm
  | fpFf => exact fpFfRun_avoids (hall fun hrt => hm.1 (Or.inl hrt)) hm
  | fpPm => exact fpPmRun_avoids (hall fun hrt => hm.1 (Or.inl hrt)) hm
  | edfUs | fpUs => exact usRun_avoids hm

theorem exec_avoids (op : AdmissionOp) (hi : Admitted c pl s) (hm : op.Meets c pl s) :
    Avoids .divideByZero (op.exec c pl s) := by
  cases op with
  | run rt fuel mask accepts =>
    have hinsert := globalListInsert_kept s rt
    refine (taskRun_avoids (fun p hp hcount => ?_) hm).bind fun t _ => .pure _
    rw [(hinsert.other p hp).period]
    exact hi.period p ((hinsert.other p hp).counts hcount)
  | init | exit | setPeriod | setDeadline | setWcet | setRuntime | setPriority | setScheduler | renewWcet
  | writePrio | follow | setCosts => exact .pure _

/-! ## The runs -/

/-- No step of the run divides by zero. -/
def NeverByZero (c : Config) (pl : Plugin) (s : Admission) (ops : List AdmissionOp) : Prop :=
  EachStep (AdmissionOp.step c pl) (fun s op => Avoids .divideByZero (op.step c pl s)) s ops

/-- **`task_run` divides by no zero** in a run where no task on a CPU gets a period of zero
microseconds, and none without a period is placed or tested. -/
theorem admission_avoids (c : Config) (pl : Plugin) (switchCost releaseCost migrationCost : ℕ)
    (ops : List AdmissionOp)
    (h : EachStep (AdmissionOp.step c pl) (fun s op => op.enabled s = true → op.Meets c pl s)
      (Admission.start switchCost releaseCost migrationCost) ops) :
    NeverByZero c pl (Admission.start switchCost releaseCost migrationCost) ops := by
  refine EachStep.of_inv (I := Admitted c pl) (fun s op hi hm => ?_) (fun s op s' hi hm hs => ?_) ops _
    ⟨nofun, fun p hcount => nomatch hcount.1⟩ h
  · unfold AdmissionOp.step
    exact .ite (fun he => exec_avoids op hi (hm he)) fun _ => .pure _
  · unfold AdmissionOp.step at hs
    split at hs
    · rename_i he
      exact exec_admitted op hi he (hm he) hs
    · cases hs
      exact hi

/-- A test that is enough for `Meets` under FP-FF: every task that runs has a period. -/
def meetsTest (c : Config) (s : Admission) : AdmissionOp → Bool
  | .setPeriod _ period => decide (c.usecs period ≠ 0)
  | .run rt _ _ _ => decide (c.usecs (s.task rt).period ≠ 0)
  | .follow _ _ => false
  | _ => true

/-- The owner of a task sets its period to infinity after the admission, and another task runs. -/
def aperiodicRun : List AdmissionOp :=
  [.init 0, .setPeriod 0 10, .run 0 0 (fun _ => true) true, .setPeriod 0 0,
    .init 1, .setPeriod 1 10, .run 1 0 (fun _ => true) true]

/-- The same without the change -/
def periodicRun : List AdmissionOp :=
  [.init 0, .setPeriod 0 10, .run 0 0 (fun _ => true) true,
    .init 1, .setPeriod 1 10, .run 1 0 (fun _ => true) true]

theorem admission_avoids_periodic :
    NeverByZero (Config.small false) .fpFf (Admission.start 0 0 0) periodicRun := by
  refine admission_avoids (Config.small false) .fpFf 0 0 0 periodicRun ?_
  have hcheck : checkSteps (AdmissionOp.step (Config.small false) .fpFf)
      (meetsTest (Config.small false)) (Admission.start 0 0 0) periodicRun = true := by decide +kernel
  refine EachStep.of_check (fun s op h _ => ?_) _ _ hcheck
  cases op with
  | setPeriod rt period => exact fun _ => of_decide_eq_true h
  | follow rt cpu => cases h
  | run rt fuel mask accepts =>
    have htask := congrArg (fun t => (t rt).period)
      (FppmState.globalListInsert_same s.toFppmState rt).1
    refine ⟨fun _ => ?_, trivial⟩
    exact htask ▸ of_decide_eq_true h
  | init | exit | setDeadline | setWcet | setRuntime | setPriority | setScheduler | renewWcet | writePrio
  | setCosts => trivial

theorem admission_not_avoids : ¬ ∀ (c : Config) (pl : Plugin)
    (switchCost releaseCost migrationCost : ℕ) (ops : List AdmissionOp),
    NeverByZero c pl (Admission.start switchCost releaseCost migrationCost) ops := by
  intro h
  have hrun := EachStep.avoids _ _ (h (Config.small false) .fpFf 0 0 0 aperiodicRun)
  exact hrun.faultOf_ne (by decide +kernel)

end Resch.Checked
