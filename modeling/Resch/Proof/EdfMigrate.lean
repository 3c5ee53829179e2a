import Resch.Proof.EdfHooks

/-!
# Migrating

`edf_migrate_task` looks for the current task of the destination at the level
`RESCH_PRIO_EDF_RUN`, which is always empty, so it never puts anyone to sleep there.
`EdfOp.FitsIn` is the exact condition under which a migration does no harm
(`EdfOk.migrate_runs_iff`).
-/

namespace Resch

open Lib

variable {c : Config} {k : Kernel} {s s' : State} {rt q cpu x : ℕ} {prio : ℤ}

/-! ## Migrating -/

theorem EdfOk.migrateTask' (h : EdfOk s) (ha : s.Attached rt) (cpuDst : ℕ) :
    EdfOk (migrateTask' s rt cpuDst) := by
  have hok := h.ok rt ha
  have h₁ : EdfOk (s.setTask rt fun t => { t with cpumask := fun x => decide (x = cpuDst) }) :=
    h.setTask ha rfl ⟨hok.prio, hok.save, hok.cls⟩ (Or.inl ⟨⟨rfl, rfl, rfl⟩, rfl⟩)
  unfold Resch.migrateTask'
  exact h₁.setProc _ _

theorem EdfOk.restartAccount (h : EdfOk s) :
    EdfOk (restartAccount Edf.edfStopAccount (Edf.edfStartAccount c) s rt) := by
  unfold Resch.restartAccount Edf.edfStartAccount limitRttime Edf.edfStopAccount unlimitRttime
  split
  · exact (h.setProc _ _).setProc _ _
  · exact h

/-- An inactive task can be assigned to another CPU. -/
theorem EdfOk.setCpu (h : EdfOk s) (ha : s.Attached rt) (hi : s.isActive rt = false) (cpuDst : ℕ) :
    EdfOk (s.setCpu rt cpuDst) := by
  have hok := h.ok rt ha
  exact h.setTask ha rfl ⟨hok.prio, hok.save, hok.cls⟩ (Or.inr ⟨hi, hi⟩)

theorem task_migrateTask' (s : State) (rt cpuDst q : ℕ) :
    ((Resch.migrateTask' s rt cpuDst).task q).task = (s.task q).task := by
  unfold Resch.migrateTask'
  rw [task_setProc]
  exact setTask_field (·.task) (by rfl) q

/-- Neither queues nor states of processes are written after the move. -/
theorem migrate_end (s : State) (rt cpuDst : ℕ) :
    walk (restartAccount Edf.edfStopAccount (Edf.edfStartAccount c) (migrateTask' s rt cpuDst) rt) x =
        walk s x ∧
      stateOf (restartAccount Edf.edfStopAccount (Edf.edfStartAccount c) (migrateTask' s rt cpuDst) rt) q =
        stateOf s q := by
  have hacc : Accounts (restartAccount Edf.edfStopAccount (Edf.edfStartAccount c)) :=
    restartAccount_accounts unlimitRttime_accounts limitRttime_accounts
  have hf := (hacc.frame (migrateTask' s rt cpuDst) rt).trans (frame_migrateTask' cpuDst)
  have hs := (hacc.states (migrateTask' s rt cpuDst) rt).trans (states_migrateTask' cpuDst)
  generalize restartAccount Edf.edfStopAccount (Edf.edfStartAccount c) (migrateTask' s rt cpuDst) rt = s'
    at hf hs ⊢
  have htask : (s'.frame.task q).task = (s.frame.task q).task := by rw [hf]
  refine ⟨walk_of_lo (lo_of_frame hf), ?_⟩
  show s'.states (s'.task q).task = s.states (s.task q).task
  rw [hs]
  exact congrArg _ htask

/-- **What a migration of an active task does**: it moves the task, and wakes its successor
up if the task was the highest one. Nobody is put to sleep: the level that the current task
of the destination is looked for at is empty. -/
theorem EdfOk.migrated (h : EdfOk s) (ha : s.isActive rt = true) {cpuDst : ℕ}
    (hne : (s.task rt).cpuId ≠ cpuDst) :
    ∃ s₁, Moved s s₁ rt cpuDst (s.task rt).prio ∧ EdfOk (Edf.edfMigrateTask c s rt cpuDst) ∧
      (∀ x, walk (Edf.edfMigrateTask c s rt cpuDst) x = walk s₁ x) ∧
      ∀ q, stateOf (Edf.edfMigrateTask c s rt cpuDst) q = stateOf (Resch.ifSome s₁
        (if (walk s (s.task rt).cpuId).head? = some rt then nextIn (walk s (s.task rt).cpuId) rt
          else none) wakeUpProcess) q := by
  have h₀ := h.dequeue ha
  have hatt : (s.unlink rt (s.task rt).cpuId (prioIndex (s.task rt).prio)).Attached rt := h.attached ha
  have hi : (s.unlink rt (s.task rt).cpuId (prioIndex (s.task rt).prio)).isActive rt = false :=
    isActive_dequeueTaskAt _ _ _ _
  have hcurr : activePrioTask (s.unlink rt (s.task rt).cpuId (prioIndex (s.task rt).prio)) cpuDst
      reschPrioEdfRun = none := by
    unfold activePrioTask
    rw [queue_eq_nil h₀.queued h₀.levels (by decide) (by decide)]; rfl
  have h₀' := h₀.setCpu hatt hi cpuDst
  have m : Moved s (Edf.edfEnqueueTask ((s.unlink rt (s.task rt).cpuId
      (prioIndex (s.task rt).prio)).setCpu rt cpuDst) rt (s.task rt).prio cpuDst) rt cpuDst
      (s.task rt).prio := by
    refine Moved.of_out h₀' hatt ?_ (by simp [State.setCpu]) (h.levels rt ha) (fun x => walk_unlink)
      ?_ ?_ rfl
    · simp [State.setCpu, State.isActive]
    · intro q
      refine (stateOf_of_proc (s.unlink rt _ _) ((s.unlink rt _ _).setCpu rt cpuDst) rfl
        (fun q => ?_) q).trans (stateOf_unlink s rt (s.task rt).cpuId (prioIndex (s.task rt).prio) q)
      exact setTask_field (·.task) (by rfl) q
    · intro q
      obtain ⟨hp, hd⟩ := keys_unlink s rt (s.task rt).cpuId (prioIndex (s.task rt).prio) q
      exact ⟨(setTask_field (·.prio) (by rfl) q).trans hp,
        (setTask_field (·.deadlineTime) (by rfl) q).trans hd⟩
  have hprio : (((s.unlink rt (s.task rt).cpuId (prioIndex (s.task rt).prio)).setCpu rt
      cpuDst).task rt).prio = (s.task rt).prio := by simp [State.setCpu]
  refine ⟨_, m, ?_⟩
  unfold Edf.edfMigrateTask
  dsimp only
  rw [if_pos hne, if_pos ha, highest_eq h.queued h.levels, next_eq h.queued h.levels ha]
  unfold Edf.edfDequeueTask dequeueTaskAt
  rw [hprio, hcurr]
  generalize Edf.edfEnqueueTask ((s.unlink rt (s.task rt).cpuId
    (prioIndex (s.task rt).prio)).setCpu rt cpuDst) rt (s.task rt).prio cpuDst = s₁ at m ⊢
  have hatt₁ : s₁.Attached rt := by unfold State.Attached; rw [m.point]; exact h.attached ha
  generalize (if (walk s (s.task rt).cpuId).head? = some rt then nextIn (walk s (s.task rt).cpuId) rt
    else none) = o
  have h₁ : EdfOk (Resch.ifSome s₁ o wakeUpProcess) := m.inv.ifSome fun q => m.inv.wakeUp q
  have hatt₂ : (Resch.ifSome s₁ o wakeUpProcess).Attached rt := by cases o <;> exact hatt₁
  have hlo : ∀ x, walk (Resch.ifSome s₁ o wakeUpProcess) x = walk s₁ x := by
    intro x; cases o <;> rfl
  refine ⟨(h₁.migrateTask' hatt₂ cpuDst).restartAccount, fun x => ?_, fun q => ?_⟩
  · exact (migrate_end (q := rt) _ rt cpuDst).1.trans (hlo x)
  · exact (migrate_end (x := 0) _ rt cpuDst).2

/-- The condition on a migration of an active task to another CPU: the highest task of a CPU
goes to a CPU without active tasks, and any other task to a CPU whose highest task it does
not get ahead of. -/
def EdfOp.FitsIn (s : State) : EdfOp → Prop
  | migrate rt cpuDst => s.isActive rt = true → (s.task rt).cpuId ≠ cpuDst →
    if activeHighestPrioTask s (s.task rt).cpuId = some rt then activeHighestPrioTask s cpuDst = none
    else ∃ h, activeHighestPrioTask s cpuDst = some h ∧ ahead s rt h = false
  | _ => True

/-- **The highest task migrates**: it runs on, and its successor runs as well. -/
theorem EdfOk.migrate_head (h : EdfOk s) (ha : s.isActive rt = true) (hr : WalksRun s) {cpuDst : ℕ}
    (hne : (s.task rt).cpuId ≠ cpuDst) {t : List ℕ} (hl : walk s (s.task rt).cpuId = rt :: t)
    (hf : (walk s (s.task rt).cpuId).filter (· ≠ rt) = t) :
    WalksRun (Edf.edfMigrateTask c s rt cpuDst) ↔ walk s cpuDst = [] := by
  obtain ⟨s₁, m, -, hwalk, hstate⟩ := h.migrated (c := c) ha hne
  have hold := hr (s.task rt).cpuId
  rw [hl] at hold
  have hst : ∀ q, stateOf (Edf.edfMigrateTask c s rt cpuDst) q =
      if t.head? = some q then .running else stateOf s q := by
    intro q
    rw [hstate, hl, List.head?_cons, if_pos rfl, nextIn_cons_self]
    cases t with
    | nil => exact m.states q
    | cons n t =>
      have hna : s.isActive n = true := (h.mem_walk.1 (by rw [hl]; simp : n ∈ walk s _)).1
      have hatt : s₁.Attached n := by unfold State.Attached; rw [m.point]; exact h.attached hna
      have hint : stateOf s₁ n = .interruptible := (m.states n).trans (hold.2 n (by simp))
      refine (stateOf_wakeUp m.inv hatt (Or.inl hint) q).trans ?_
      rw [m.states, List.head?_cons]
      simp only [Option.some.injEq, eq_comm]
  have hsrc : ∀ q, q ∈ t → q ∈ walk s (s.task rt).cpuId := fun q hq => by rw [hl]; simp [hq]
  have hdst : (walk s cpuDst).filter (· ≠ rt) = walk s cpuDst := h.filter_walk fun hc => hne hc.2
  constructor
  · -- two tasks run on the destination
    intro hbad
    rw [List.eq_nil_iff_forall_not_mem]
    intro y hy
    obtain ⟨z, hz⟩ : ∃ z, (walk s cpuDst).head? = some z := by
      cases hw : walk s cpuDst with
      | nil => rw [hw] at hy; cases hy
      | cons z l => exact ⟨z, rfl⟩
    have hzm : z ∈ walk s cpuDst := List.mem_of_mem_head? (by rw [hz]; rfl)
    have hzr : stateOf (Edf.edfMigrateTask c s rt cpuDst) z = .running := by
      rw [hst, (hr cpuDst).head hz]; split <;> rfl
    have hrtr : stateOf (Edf.edfMigrateTask c s rt cpuDst) rt = .running := by
      rw [hst, hold.1]; split <;> rfl
    have hbad := hbad cpuDst
    rw [hwalk, m.walks, if_pos rfl, hdst] at hbad
    have heq : rt = z := hbad.unique (by decide) (by simp) (by simp [hzm]) hrtr hzr
    rw [← heq, h.mem_walk] at hzm
    exact hne hzm.2
  · intro hempty x
    rw [hwalk, m.walks]
    by_cases hxd : x = cpuDst
    · rw [if_pos hxd, hxd, hempty]
      refine ⟨?_, by simp⟩
      rw [hst, hold.1]; split <;> rfl
    rw [if_neg hxd]
    by_cases hxs : x = (s.task rt).cpuId
    · rw [hxs, hf]
      have hn : t.Nodup := by
        have : (walk s (s.task rt).cpuId).Nodup := walk_nodup h.queued
        rw [hl] at this
        exact (List.nodup_cons.1 this).2
      cases t with
      | nil => trivial
      | cons n t =>
        refine ⟨by rw [hst]; exact if_pos rfl, fun q hq => ?_⟩
        rw [hst, if_neg]
        · exact hold.2 q (by simp [hq])
        · rw [List.head?_cons, Option.some.injEq]
          rintro rfl
          exact (List.nodup_cons.1 hn).1 hq
    · rw [h.filter_walk fun hc => hxs hc.2.symm]
      refine (hr x).congr fun q hq => ?_
      rw [hst, if_neg]
      intro hc
      have := h.mem_walk.1 (hsrc q (List.mem_of_mem_head? (by rw [hc]; rfl)))
      exact hxs ((h.mem_walk.1 hq).2.symm.trans this.2)

/-- **A sleeping task migrates**: it sleeps on. -/
theorem EdfOk.migrate_tail (h : EdfOk s) (ha : s.isActive rt = true) (hr : WalksRun s) {cpuDst y : ℕ}
    (hne : (s.task rt).cpuId ≠ cpuDst) {t : List ℕ} (hl : walk s (s.task rt).cpuId = y :: t)
    (hy : y ≠ rt) (hrt : rt ∈ t)
    (hf : (walk s (s.task rt).cpuId).filter (· ≠ rt) = y :: t.filter (· ≠ rt)) :
    WalksRun (Edf.edfMigrateTask c s rt cpuDst) ↔
      ∃ z, (walk s cpuDst).head? = some z ∧ ahead s rt z = false := by
  obtain ⟨s₁, m, -, hwalk, hstate⟩ := h.migrated (c := c) ha hne
  have hold := hr (s.task rt).cpuId
  rw [hl] at hold
  have hst : ∀ q, stateOf (Edf.edfMigrateTask c s rt cpuDst) q = stateOf s q := by
    intro q
    rw [hstate, hl, List.head?_cons, if_neg (by simpa using hy)]
    exact m.states q
  have hsleep : stateOf s rt = .interruptible := hold.2 rt hrt
  have hdst : (walk s cpuDst).filter (· ≠ rt) = walk s cpuDst := h.filter_walk fun hc => hne hc.2
  have hwd : walk (Edf.edfMigrateTask c s rt cpuDst) cpuDst =
      insertBefore (ahead s rt) rt (walk s cpuDst) := by
    rw [hwalk, m.walks, if_pos rfl, hdst]; rfl
  rcases insertBefore_cases (ahead s rt) rt (walk s cpuDst) with ⟨hi, hfirst⟩ | ⟨z, t₂, hd, hz, hi⟩
  · -- it becomes the highest task, and sleeps
    constructor
    · intro hbad
      have hbad := hbad cpuDst
      rw [hwd, hi] at hbad
      have := hbad.1
      rw [hst, hsleep] at this; cases this
    · rintro ⟨z, hz, hno⟩
      rw [hfirst z (by rw [hz]; rfl)] at hno; cases hno
  · refine ⟨fun _ => ⟨z, by rw [hd]; rfl, hz⟩, fun _ x => ?_⟩
    by_cases hxd : x = cpuDst
    · rw [hxd, hwd, hi]
      have hr := hr cpuDst
      rw [hd] at hr
      refine ⟨(hst z).trans hr.1, fun q hq => ?_⟩
      rw [hst]
      rcases mem_insertBefore.1 hq with rfl | hq
      · exact hsleep
      · exact hr.2 q hq
    rw [hwalk, m.walks, if_neg hxd]
    by_cases hxs : x = (s.task rt).cpuId
    · rw [hxs, hf]
      refine ⟨(hst y).trans hold.1, fun q hq => ?_⟩
      rw [hst]; exact hold.2 q (List.mem_filter.1 hq).1
    · rw [h.filter_walk fun hc => hxs hc.2.symm]
      exact (hr x).congr fun q _ => hst q

theorem EdfOk.migrate (h : EdfOk s) (hatt : s.Attached rt) (cpuDst : ℕ) :
    EdfOk (Edf.edfMigrateTask c s rt cpuDst) := by
  by_cases hne : (s.task rt).cpuId = cpuDst
  · have : Edf.edfMigrateTask c s rt cpuDst = Resch.migrateTask' s rt cpuDst := by
      simp [Edf.edfMigrateTask, hne]
    rw [this]; exact h.migrateTask' hatt cpuDst
  by_cases ha : s.isActive rt = true
  · obtain ⟨s₁, -, hinv, -⟩ := h.migrated (c := c) ha hne
    exact hinv
  · have : Edf.edfMigrateTask c s rt cpuDst = Resch.migrateTask' (s.setCpu rt cpuDst) rt cpuDst := by
      simp [Edf.edfMigrateTask, hne, ha]
    rw [this]; exact (h.setCpu hatt (by simpa using ha) cpuDst).migrateTask' hatt cpuDst

/-- **Migrating** keeps the tasks of all CPUs dispatched iff the task fits in. -/
theorem EdfOk.migrate_runs_iff (h : EdfOk s) (hr : WalksRun s) (cpuDst : ℕ) :
    WalksRun (Edf.edfMigrateTask c s rt cpuDst) ↔ (EdfOp.migrate rt cpuDst).FitsIn s := by
  have hstates : ∀ s' : State, s'.states = s.states → (∀ q, (s'.task q).task = (s.task q).task) →
      s'.lo = s.lo → WalksRun s' := by
    intro s' hs ht hlo x
    rw [walk_of_lo hlo]
    refine (hr x).congr fun q _ => ?_
    show s'.states (s'.task q).task = s.states (s.task q).task
    rw [hs, ht]
  by_cases hne : (s.task rt).cpuId = cpuDst
  · have heq : Edf.edfMigrateTask c s rt cpuDst = Resch.migrateTask' s rt cpuDst := by
      simp [Edf.edfMigrateTask, hne]
    refine ⟨fun _ _ hc => absurd hne hc, fun _ => ?_⟩
    rw [heq]
    exact hstates _ (states_migrateTask' cpuDst) (task_migrateTask' s rt cpuDst) rfl
  by_cases ha : s.isActive rt = true
  swap
  · have heq : Edf.edfMigrateTask c s rt cpuDst = Resch.migrateTask' (s.setCpu rt cpuDst) rt cpuDst := by
      simp [Edf.edfMigrateTask, hne, ha]
    refine ⟨fun _ hc => absurd hc ha, fun _ => ?_⟩
    rw [heq]
    refine hstates _ (states_migrateTask' cpuDst) (fun q => ?_) rfl
    refine (task_migrateTask' (s.setCpu rt cpuDst) rt cpuDst q).trans ?_
    exact setTask_field (·.task) (by rfl) q
  have hfits : (EdfOp.migrate rt cpuDst).FitsIn s ↔
      if (walk s (s.task rt).cpuId).head? = some rt then (walk s cpuDst).head? = none
      else ∃ z, (walk s cpuDst).head? = some z ∧ ahead s rt z = false := by
    unfold EdfOp.FitsIn
    dsimp only
    rw [highest_eq h.queued h.levels, highest_eq h.queued h.levels]
    exact ⟨fun hf => hf ha hne, fun hf _ _ => hf⟩
  rw [hfits]
  rcases h.walk_cases ha with ⟨t, hl, hf⟩ | ⟨y, t, hl, hy, hrt, hf⟩
  · rw [h.migrate_head ha hr hne hl hf, hl, List.head?_cons, if_pos rfl, List.head?_eq_none_iff]
  · rw [h.migrate_tail ha hr hne hl hy hrt hf, hl, List.head?_cons, if_neg (by simpa using hy)]

end Resch
