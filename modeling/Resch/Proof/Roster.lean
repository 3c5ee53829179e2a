import Resch.Proof.Admission

/-!
# Tasks that keep their parameters while they are in the list

FP-FF and EDF-FF have in common how a task comes and goes: it attaches, sets its parameters, is submitted
once, and exits.

* `Out`: a task is out of the list and on no CPU, and the others are as before.
* `exec_quiet`: a step that is no submission takes a task out in this way, or changes no task.
* `taskRun_cases`: a task that is submitted is taken out, or stays in the list where it has been placed.
-/

namespace Resch.Checked

open Lib

variable {c : Config} {pl : Plugin} {s s' t : Admission} {rt k cpu : ℕ} {accepts : Bool}
  {policy prio : ℤ}

/-- The tasks in the list are attached, and those that are not in it are on no CPU. -/
structure Roster (c : Config) (s : Admission) : Prop where
  nodup : s.list.Nodup
  attached : ∀ k ∈ s.list, s.attached k = true
  unplaced : ∀ k, s.attached k = true → k ∉ s.list → (s.task k).cpuId = c.cpuUndefined

/-- `rt` is not in the list, and on no CPU if it is attached. The others are as before. -/
structure Out (c : Config) (rt : ℕ) (s s' : Admission) : Prop where
  list : s'.list = s.list.filter (· ≠ rt)
  task : ∀ k, k ≠ rt → s'.task k = s.task k
  attached : ∀ k, k ≠ rt → s'.attached k = s.attached k
  unplaced : s'.attached rt = true → (s'.task rt).cpuId = c.cpuUndefined

/-- The list, the tasks in it and out of it, and who is attached -/
structure SameRoster (s s' : Admission) : Prop where
  list : s'.list = s.list
  task : s'.task = s.task
  attached : s'.attached = s.attached

theorem Out.mem_iff (h : Out c rt s s') : k ∈ s'.list ↔ k ∈ s.list ∧ k ≠ rt := by
  rw [h.list, List.mem_filter, decide_eq_true_iff]

theorem Out.same (h : Out c rt s s') (hk : k ∈ s'.list) : s'.task k = s.task k :=
  h.task k (h.mem_iff.1 hk).2

/-- **A task leaves, or changes outside the list.** -/
theorem Roster.out (h : Roster c s) (ho : Out c rt s s') : Roster c s' := by
  refine ⟨?_, fun k hk => ?_, fun k hka hk => ?_⟩
  · rw [ho.list]
    exact h.nodup.filter _
  · obtain ⟨hin, hkr⟩ := ho.mem_iff.1 hk
    rw [ho.attached k hkr]
    exact h.attached k hin
  · by_cases hkr : k = rt
    · rw [hkr] at hka ⊢
      exact ho.unplaced hka
    · rw [ho.task k hkr]
      rw [ho.attached k hkr] at hka
      exact h.unplaced k hka fun hin => hk (ho.mem_iff.2 ⟨hin, hkr⟩)

theorem Roster.same (h : Roster c s) (hs : SameRoster s s') : Roster c s' := by
  refine ⟨?_, ?_, ?_⟩
  · rw [hs.list]
    exact h.nodup
  · rw [hs.list, hs.attached]
    exact h.attached
  · rw [hs.list, hs.attached, hs.task]
    exact h.unplaced

theorem SameRoster.of_eq (ht : s'.toTaskSet = s.toTaskSet) (ha : s'.attached = s.attached) :
    SameRoster s s' := ⟨congrArg TaskSet.list ht, congrArg TaskSet.task ht, ha⟩

/-- A task that is not in the list may change, but for its CPU. -/
theorem Roster.setTask (h : Roster c s) (hrt : rt ∉ s.list) {f : RtTask → RtTask}
    (hf : ∀ t, (f t).cpuId = t.cpuId) : Out c rt s (s.setTask rt f) := by
  refine ⟨?_, fun k hk => Function.update_of_ne hk .., fun _ _ => rfl, fun ha => ?_⟩
  · refine (List.filter_eq_self.2 fun k hk => decide_eq_true ?_).symm
    rintro rfl
    exact hrt hk
  · rw [setTask_self, hf]
    exact h.unplaced rt ha hrt

/-! ## `set_scheduler` -/

theorem setScheduler_attached :
    (s.setScheduler rt accepts policy prio).attached = s.attached := by
  unfold Admission.setScheduler
  dsimp only
  split <;> rfl

/-- `set_scheduler` with the priority that the task has -/
theorem setScheduler_same (h : prio = (s.task rt).prio) :
    (s.setScheduler rt accepts policy prio).toTaskSet = s.toTaskSet := by
  unfold Admission.setScheduler
  dsimp only
  split
  · show ((FppmState.setScheduler _ rt _ prio).toTaskSet) = _
    unfold FppmState.setScheduler
    dsimp only
    rw [if_pos h]
  · rfl

/-- It is called for a task that does not have the policy. -/
theorem setPolicy_same (h : prio = (s.task rt).prio) :
    SameRoster s (Admission.setPolicy rt accepts policy prio s) := by
  unfold Admission.setPolicy
  split
  · exact .of_eq (setScheduler_same h) setScheduler_attached
  · exact ⟨rfl, rfl, rfl⟩

theorem globalListInsert_others (s : FppmState) (rt : ℕ) :
    (s.globalListInsert rt).list.filter (· ≠ rt) = s.list.filter (· ≠ rt) := by
  unfold FppmState.globalListInsert
  split
  · rfl
  · exact filter_insertBefore (by simp) s.list

/-- `set_scheduler` moves the task in the list and changes no other one. -/
theorem setScheduler_others (s : Admission) (rt : ℕ) (accepts : Bool) (policy prio : ℤ) :
    (∀ k, k ≠ rt → (s.setScheduler rt accepts policy prio).task k = s.task k) ∧
      (s.setScheduler rt accepts policy prio).list.filter (· ≠ rt) = s.list.filter (· ≠ rt) := by
  have hcore : ∀ (t : FppmState) (policy : ℤ),
      (∀ k, k ≠ rt → (t.setScheduler rt policy prio).task k = t.task k) ∧
        (t.setScheduler rt policy prio).list.filter (· ≠ rt) = t.list.filter (· ≠ rt) := by
    intro t policy
    unfold FppmState.setScheduler
    dsimp only
    split
    · exact ⟨fun _ _ => rfl, rfl⟩
    split
    · refine ⟨fun k hk => ?_, ?_⟩
      · rw [(FppmState.globalListInsert_same _ rt).1]
        exact Function.update_of_ne hk ..
      · rw [globalListInsert_others]
        unfold FppmState.globalListRemove
        rw [List.filter_filter]
        refine List.filter_congr fun x _ => ?_
        exact Bool.and_self _
    · exact ⟨fun k hk => Function.update_of_ne hk .., rfl⟩
  unfold Admission.setScheduler
  dsimp only
  split
  · exact hcore s.toFppmState _
  · exact ⟨fun _ _ => rfl, rfl⟩

/-- A task is out after `set_scheduler` if it was out before. -/
theorem Out.setScheduler (h : Out c rt s s') : Out c rt s (s'.setScheduler rt accepts policy prio) := by
  have hrt : rt ∉ s'.list := fun hin => (h.mem_iff.1 hin).2 rfl
  obtain ⟨hother, hlist⟩ := setScheduler_others s' rt accepts policy prio
  have halike := @setScheduler_alike s' rt accepts policy prio rt
  have hout : rt ∉ (s'.setScheduler rt accepts policy prio).list := fun hin => hrt (halike.mem hin)
  have hself : ∀ {l : List ℕ}, rt ∉ l → l.filter (· ≠ rt) = l := by
    intro l hl
    refine List.filter_eq_self.2 fun k hk => decide_eq_true ?_
    rintro rfl
    exact hl hk
  refine ⟨?_, fun k hk => (hother k hk).trans (h.task k hk), fun k hk => ?_, fun ha => ?_⟩
  · rw [← hself hout, hlist, hself hrt, h.list]
  · rw [setScheduler_attached]
    exact h.attached k hk
  · rw [halike.cpuId]
    rw [halike.attached] at ha
    exact h.unplaced ha

/-- A task that is not in the list is out. -/
theorem Roster.out_refl (h : Roster c s) (hrt : rt ∉ s.list) : Out c rt s s := by
  have hout := h.setTask hrt (f := id) fun _ => rfl
  exact ⟨hout.list, fun _ _ => rfl, fun _ _ => rfl, fun ha => h.unplaced rt ha hrt⟩

/-! ## Steps beside submissions -/

/-- The step is no submission, and leaves the parameters of the tasks in the list and their CPUs as they
are. -/
def AdmissionOp.Quiet (s : Admission) : AdmissionOp → Prop
  | init _ | exit _ _ | setScheduler _ _ _ | setCosts _ _ _ => True
  | run _ _ _ _ => False
  | setPeriod rt _ | setDeadline rt _ | setWcet rt _ | setRuntime rt _ | setPriority rt _ _
  | renewWcet rt _ | writePrio rt _ => rt ∉ s.list
  | follow rt cpu => cpu = (s.task rt).cpuId

theorem init_out (h : Roster c s) (hna : s.attached rt = false)
    (hs : (AdmissionOp.init rt).exec c pl s = .ok s') : Out c rt s s' := by
  cases hs
  have hrt : rt ∉ s.list := by
    intro hin
    rw [h.attached rt hin] at hna
    cases hna
  refine ⟨(h.out_refl hrt).list, fun k hk => Function.update_of_ne hk .., fun k hk => ?_, fun _ => ?_⟩
  · exact Function.update_of_ne hk ..
  · show ((s.setTask rt (AdmissionOp.initTask c)).task rt).cpuId = _
    rw [setTask_self]
    rfl

theorem exit_out (hs : (AdmissionOp.exit rt accepts).exec c pl s = .ok s') : Out c rt s s' := by
  cases hs
  generalize hu : (s.core fun t => t.globalListRemove rt).clearSplitTask c rt pl = u
  have hsame : u.list = s.list.filter (· ≠ rt) ∧ u.task = s.task ∧ u.attached = s.attached := by
    rw [← hu]
    cases pl <;> exact ⟨rfl, rfl, rfl⟩
  generalize hv : (if u.policy rt ≠ reschSchedFair then u.setScheduler rt accepts reschSchedFair 0
    else u) = v
  have hrt : rt ∉ u.list := by
    rw [hsame.1, List.mem_filter, decide_eq_true_iff]
    exact fun hin => hin.2 rfl
  have hkeep : v.list = u.list ∧ (∀ k, k ≠ rt → v.task k = u.task k) ∧ v.attached = u.attached := by
    rw [← hv]
    split
    · obtain ⟨hother, hlist⟩ := setScheduler_others u rt accepts reschSchedFair 0
      have hout := (@setScheduler_alike u rt accepts reschSchedFair 0 rt).mem
      refine ⟨?_, hother, setScheduler_attached⟩
      rwa [List.filter_eq_self.2 fun k hk => decide_eq_true ?_,
        List.filter_eq_self.2 fun k hk => decide_eq_true ?_] at hlist
      · rintro rfl
        exact hrt hk
      · rintro rfl
        exact hrt (hout hk)
    · exact ⟨rfl, fun _ _ => rfl, rfl⟩
  obtain ⟨hlist, htask, hatt⟩ := hsame
  refine ⟨hkeep.1.trans hlist, fun k hk => ?_, fun k hk => ?_, fun ha => ?_⟩
  · exact (hkeep.2.1 k hk).trans (congrFun htask k)
  · exact (Function.update_of_ne hk ..).trans ((congrFun hkeep.2.2 k).trans (congrFun hatt k))
  · cases (Function.update_self ..).symm.trans ha

/-- **A quiet step** takes a task out, or changes no task. -/
theorem exec_quiet (op : AdmissionOp) (h : Roster c s) (he : op.enabled s = true) (hq : op.Quiet s)
    (hs : op.exec c pl s = .ok s') : (∃ rt, Out c rt s s') ∨ SameRoster s s' := by
  cases op with
  | run rt fuel mask accepts => exact hq.elim
  | init rt =>
    refine Or.inl ⟨rt, init_out h ?_ hs⟩
    rw [AdmissionOp.enabled, Bool.not_eq_true'] at he
    exact he
  | exit rt accepts => exact Or.inl ⟨rt, exit_out hs⟩
  | setPeriod rt | setDeadline rt | setWcet rt | setRuntime rt | renewWcet rt | writePrio rt =>
    cases hs
    exact Or.inl ⟨rt, h.setTask hq fun _ => rfl⟩
  | setPriority rt prio accepts =>
    cases hs
    refine Or.inl ⟨rt, ?_⟩
    split
    · exact h.out_refl hq
    · exact (h.out_refl hq).setScheduler
  | setScheduler rt policy accepts =>
    cases hs
    exact Or.inr (setPolicy_same rfl)
  | follow rt cpu =>
    cases hs
    have hsame : (fun t : RtTask => { t with cpuId := cpu }) (s.task rt) = s.task rt := by
      rw [hq]
    refine Or.inr ⟨rfl, ?_, rfl⟩
    show Function.update s.task rt _ = _
    rw [hsame, Function.update_eq_self]
  | setCosts sw rel mig =>
    cases hs
    exact Or.inr ⟨rfl, rfl, rfl⟩

/-- A step that is not taken keeps what the others keep. -/
theorem step_keeps {I : Admission → Prop} {op : AdmissionOp} (h : I s)
    (hexec : op.enabled s = true → op.exec c pl s = .ok s' → I s')
    (hs : op.step c pl s = .ok s') : I s' := by
  unfold AdmissionOp.step at hs
  split at hs
  · rename_i he
    exact hexec he hs
  · cases hs
    exact h

/-! ## Submissions -/

/-- A task is inserted, and on no CPU yet. -/
theorem Roster.insert (h : Roster c s) (ha : s.attached rt = true) :
    Roster c (s.core fun t => t.globalListInsert rt) := by
  have htask : (s.core fun t => t.globalListInsert rt).task = s.task :=
    (FppmState.globalListInsert_same s.toFppmState rt).1
  have hmem : ∀ k, k ∈ (s.core fun t => t.globalListInsert rt).list ↔ k = rt ∨ k ∈ s.list :=
    fun k => FppmState.mem_globalListInsert
  refine ⟨?_, fun k hk => ?_, fun k hka hk => ?_⟩
  · show (FppmState.globalListInsert _ rt).list.Nodup
    unfold FppmState.globalListInsert
    split
    · exact h.nodup
    · rename_i hrt
      exact (insertBefore_perm _ rt s.list).nodup_iff.2 (List.nodup_cons.2 ⟨hrt, h.nodup⟩)
  · rcases (hmem k).1 hk with rfl | hk
    · exact ha
    · exact h.attached k hk
  · rw [htask]
    exact h.unplaced k hka fun hin => hk ((hmem k).2 (Or.inr hin))

/-- A task in the list may be placed. -/
theorem Roster.placed (h : Roster c s) (hrt : rt ∈ s.list) (hl : s'.list = s.list)
    (ha : s'.attached = s.attached) (ht : ∀ k, k ≠ rt → s'.task k = s.task k) : Roster c s' := by
  refine ⟨?_, ?_, fun k hka hk => ?_⟩
  · rw [hl]
    exact h.nodup
  · rw [hl, ha]
    exact h.attached
  · rw [ha] at hka
    rw [hl] at hk
    rw [ht k]
    · exact h.unplaced k hka hk
    · rintro rfl
      exact hk hrt

/-- `set_scheduler` with the policy of a plugin -/
theorem setPolicy_policy (hp : policy = reschSchedFp ∨ policy = reschSchedEdf) :
    (Admission.setPolicy rt accepts policy prio s).policy rt = policy := by
  unfold Admission.setPolicy
  split
  · unfold Admission.setScheduler
    dsimp only
    rw [if_pos hp]
    split
    · show (FppmState.setScheduler _ rt policy _).policy rt = _
      rw [(FppmState.setScheduler_spec _ rt policy _).2.1, Function.update_self]
    · exact Function.update_self ..
  · rename_i h
    exact not_not.1 h

/-- A task that no CPU accepts gets the fair policy. -/
theorem setScheduler_fair : (s.setScheduler rt accepts reschSchedFair prio).policy rt =
    reschSchedFair := by
  have hfair : (if reschSchedFair = reschSchedFp ∨ reschSchedFair = reschSchedEdf then reschSchedFair
      else reschSchedFair) = reschSchedFair := ite_self _
  unfold Admission.setScheduler
  dsimp only
  rw [hfair]
  split
  · show (FppmState.setScheduler _ rt reschSchedFair _).policy rt = _
    rw [(FppmState.setScheduler_spec _ rt reschSchedFair _).2.1, Function.update_self]
  · exact Function.update_self ..

/-- A task that has been placed is in the list with the policy of the plugin, and nothing else has
changed. -/
theorem settle_placed (hp : policy = reschSchedFp ∨ policy = reschSchedEdf)
    (hcpu : cpu ≠ c.cpuUndefined)
    (ht : t = (s.setTask rt fun t => { t with cpuId := cpu }).settle c rt accepts cpu
      (Admission.setPolicy rt accepts policy
        ((s.setTask rt fun t => { t with cpuId := cpu }).task rt).prio)) :
    t.list = s.list ∧ t.attached = s.attached ∧ t.policy rt = policy ∧
      t.task = Function.update s.task rt { s.task rt with cpuId := cpu, migratory := false } := by
  unfold Admission.settle at ht
  rw [if_pos hcpu] at ht
  generalize hu : s.setTask rt (fun t => { t with cpuId := cpu }) = u at ht
  have hsame := @setPolicy_same u rt accepts policy _ rfl
  have hpolicy := @setPolicy_policy u rt accepts policy (u.task rt).prio hp
  generalize Admission.setPolicy rt accepts policy (u.task rt).prio u = v at ht hsame hpolicy
  obtain ⟨hlist, htask, hatt⟩ := hsame
  subst ht hu
  refine ⟨hlist, hatt, hpolicy, ?_⟩
  show Function.update v.task rt { v.task rt with cpuId := cpu, migratory := false } = _
  rw [htask, setTask_self]
  show Function.update (Function.update s.task rt _) rt _ = _
  rw [Function.update_idem]

/-- **A submission** to a plugin that chooses a CPU: the task is out if none accepts it, and otherwise in
the list where it has been placed. A task without a period the plugin does not look at. -/
theorem taskRun_cases (h : Roster c s) (ha : s.attached rt = true) (hrt : rt ∉ s.list)
    (hp : policy = reschSchedFp ∨ policy = reschSchedEdf) {u : Admission}
    (hu : u = s.core fun t => t.globalListInsert rt) {place : Except Fault ℕ}
    (hrun : (if (u.task rt).period = 0 then .ok u else place >>= fun cpu =>
      .ok ((u.setTask rt fun t => { t with cpuId := cpu }).settle c rt accepts cpu
        (Admission.setPolicy rt accepts policy
          ((u.setTask rt fun t => { t with cpuId := cpu }).task rt).prio))) = .ok t)
    (hs : s' = if t.policy rt = reschSchedFair then t.core fun t => t.globalListRemove rt else t) :
    Out c rt s s' ∨ ((s.task rt).period = 0 ∧ s' = u) ∨ ∃ cpu, place = .ok cpu ∧
      (s.task rt).period ≠ 0 ∧ cpu ≠ c.cpuUndefined ∧ Roster c s' ∧ s'.list = u.list ∧
      s'.task = Function.update s.task rt { s.task rt with cpuId := cpu, migratory := false } := by
  have htask : u.task = s.task := by
    rw [hu]
    exact (FppmState.globalListInsert_same s.toFppmState rt).1
  have hatt : u.attached = s.attached := by
    rw [hu]
    rfl
  have hothers : u.list.filter (· ≠ rt) = s.list.filter (· ≠ rt) := by
    rw [hu]
    exact globalListInsert_others s.toFppmState rt
  have hins : Roster c u := by
    rw [hu]
    exact h.insert ha
  have hcpu := h.unplaced rt ha hrt
  rw [htask] at hrun
  by_cases hperiod : (s.task rt).period = 0
  · rw [if_pos hperiod, Except.ok.injEq] at hrun
    rw [← hrun] at hs
    by_cases hfair : u.policy rt = reschSchedFair
    · rw [if_pos hfair] at hs
      subst hs
      refine Or.inl ⟨hothers, fun k _ => congrFun htask k, fun k _ => congrFun hatt k, fun _ => ?_⟩
      exact (congrArg RtTask.cpuId (congrFun htask rt)).trans hcpu
    · rw [if_neg hfair] at hs
      exact Or.inr (Or.inl ⟨hperiod, hs⟩)
  · rw [if_neg hperiod] at hrun
    obtain ⟨cpu, hplace, hrun⟩ := bind_eq_ok.1 hrun
    have ht := (Except.ok.inj hrun).symm
    by_cases hdef : cpu = c.cpuUndefined
    · -- no CPU accepts it
      unfold Admission.settle at ht
      rw [if_neg (not_not.2 hdef), hdef] at ht
      obtain ⟨hother, hlist⟩ := setScheduler_others (u.setTask rt fun t =>
        { t with cpuId := c.cpuUndefined }) rt accepts reschSchedFair 0
      have halike := @setScheduler_alike (u.setTask rt fun t => { t with cpuId := c.cpuUndefined }) rt
        accepts reschSchedFair 0 rt
      have hfair : t.policy rt = reschSchedFair := by
        rw [ht]
        exact setScheduler_fair
      have hatt' : t.attached = s.attached := by
        rw [ht]
        exact setScheduler_attached.trans hatt
      rw [← ht] at hother hlist halike
      rw [if_pos hfair] at hs
      subst hs
      refine Or.inl ⟨hlist.trans hothers, fun k hk => ?_, fun k _ => congrFun hatt' k, fun _ => ?_⟩
      · refine (hother k hk).trans ((Function.update_of_ne hk ..).trans (congrFun htask k))
      · show (t.task rt).cpuId = _
        rw [halike.cpuId, setTask_self]
    · obtain ⟨hlist, hatt', hpol, htask'⟩ := settle_placed hp hdef ht
      have hne : t.policy rt ≠ reschSchedFair := by
        rw [hpol]
        rcases hp with rfl | rfl <;> decide
      rw [if_neg hne] at hs
      subst hs
      rw [htask] at htask'
      have hin : rt ∈ u.list := by
        rw [hu]
        exact FppmState.mem_globalListInsert.2 (Or.inl rfl)
      refine Or.inr (Or.inr ⟨cpu, hplace, hperiod, hdef, hins.placed hin hlist hatt' fun k hk => ?_,
        hlist, htask'⟩)
      rw [htask', Function.update_of_ne hk, htask]

end Resch.Checked
