import Resch.Lib.Runs
import Resch.Proof.EdfMigrate

/-!
# Runs of EDF tasks

The step lemma for all hooks, and runs: the tasks of all CPUs are dispatched in every state
of a run iff every migration in it fits in.
-/

namespace Resch

open Lib

variable {c : Config} {k : Kernel} {s s' : State} {rt q cpu x : ℕ} {prio : ℤ}

/-! ## Attaching and releasing -/

theorem states_reschTaskInit (c : Config) (k : Kernel) (s : State) (rt p : ℕ) :
    (reschTaskInit c k s rt p).states = s.states := by
  unfold reschTaskInit
  dsimp only
  rw [states_setTask]
  have hproc : ((s.setTask rt fun t =>
      { t with task := p, cpumask := fun x => decide (x < c.nrRtCpus) }).setProc p fun q =>
        { q with cpusAllowed := fun x => q.cpusAllowed x && decide (x < c.nrRtCpus) }).states =
      s.states := states_setProc fun _ => rfl
  split
  · exact (states_migrateTask' _).trans hproc
  · exact hproc

/-- What attaching leaves: a fresh descriptor of class EDF, and the states of all processes. -/
theorem attach_eq (hc : c.schedDeadline = false) (s : State) (rt p : ℕ) :
    ∃ t proc, (apiSetScheduler c k (reschTaskInit c k s rt p) rt reschSchedEdf).1 =
        { s with task := Function.update s.task rt t, proc := proc } ∧
      t.task = p ∧ t.prio = reschPrioMin ∧ t.cls = .edf ∧ t.activeEntry = false ∧
      t.prioSave = (s.task rt).prioSave ∧ ∀ x, (proc x).state = (s.proc x).state := by
  obtain ⟨t, proc, heq, ht, hsave⟩ := reschTaskInit_eq c k s rt p
  have hstates := states_reschTaskInit c k s rt p
  rw [heq] at hstates
  have hproc : ∀ x, (proc x).state = (s.proc x).state := congrFun hstates
  rw [heq]
  set s₀ : State := { s with task := Function.update s.task rt t, proc := proc } with hs₀
  have htask : s₀.task rt = t := by simp [hs₀]
  have hpol : reschSchedEdf ≠ (s₀.task rt).policy := by rw [htask, ht.policy]; decide
  rw [apiSetScheduler_of_ne hpol, setScheduler_fst]
  set s₁ := setPolicy c s₀ rt reschSchedEdf with hs₁
  have hs₁' : s₁ = { s with
      task := Function.update s.task rt { t with policy := reschSchedEdf, cls := .edf }, proc := proc } := by
    rw [hs₁]
    unfold setPolicy
    rw [if_pos hpol.symm]
    simp [State.setTask, hs₀, Config.policyClass, reschSchedEdf, reschSchedFp, Config.edfSchedClass, hc]
  have htask₁ : s₁.task rt = { t with policy := reschSchedEdf, cls := .edf } := by simp [hs₁']
  have hclass : classSetScheduler c k s₁ rt (s₀.task rt).prio =
      setSchedulerAs k .fifo s₁ rt (s₀.task rt).prio := by
    unfold classSetScheduler
    rw [htask₁]; rfl
  have hsame : (s₁.task rt).prio = (s₀.task rt).prio := by rw [htask₁, htask]
  rw [setScheduler'_as hclass, if_pos hsame]
  refine ⟨{ t with policy := reschSchedEdf, cls := .edf }, ?_⟩
  split
  · refine ⟨_, by rw [hs₁']; rfl, ht.task, ht.prio, rfl, ht.activeEntry, hsave, fun x => ?_⟩
    refine Eq.trans ?_ (hproc x)
    by_cases hx : x = t.task
    · subst hx; simp
    · simp [hx]
  · exact ⟨proc, hs₁', ht.task, ht.prio, rfl, ht.activeEntry, hsave, hproc⟩

/-- A task attaches: it is queued nowhere, and gets a process of its own. -/
theorem EdfOk.attach (h : EdfOk s) (hc : c.schedDeadline = false) (hd : s.point rt = .detached) :
    EdfOk ((EdfOp.attach rt).exec c k s) ∧
      (∀ x, walk ((EdfOp.attach rt).exec c k s) x = walk s x) ∧
      ∀ q, q ≠ rt → stateOf ((EdfOp.attach rt).exec c k s) q = stateOf s q := by
  obtain ⟨t, proc, heq, htask, hprio, hcls, hact, hsave, hproc⟩ := attach_eq (k := k) hc s rt (rt + 1)
  obtain ⟨hi, hsave₀⟩ := h.detached rt hd
  unfold EdfOp.exec
  dsimp only
  rw [heq]
  have hother : ∀ q, q ≠ rt → Function.update s.task rt t q = s.task q :=
    fun q hq => Function.update_of_ne hq _ _
  have hself : Function.update s.task rt t rt = t := Function.update_self _ _ _
  have hisact : ∀ q, (Function.update s.task rt t q).activeEntry = (s.task q).activeEntry := by
    intro q
    by_cases hq : q = rt
    · subst hq; rw [hself, hact]; exact hi.symm
    · rw [hother q hq]
  have hne : ∀ {q}, s.isActive q = true → q ≠ rt := by
    rintro q hq rfl
    rw [hi] at hq; cases hq
  refine ⟨⟨?_, ?_, ?_, ?_, ?_, ?_⟩, fun x => rfl, fun q hq => ?_⟩
  · have hs : Queued (s.setTask rt fun _ => t) (s.setTask rt fun _ => t).place :=
      h.queued.setTask_inactive hi hact
    exact hs.of_fields rfl fun _ => ⟨rfl, rfl, rfl⟩
  · intro q hq
    show TaskOk (Function.update s.task rt t q)
    by_cases hqr : q = rt
    · subst hqr
      rw [hself]
      exact ⟨by rw [hprio]; decide, Or.inl (hsave.trans hsave₀), Or.inr hcls⟩
    · rw [hother q hqr]
      refine h.ok q ?_
      simpa [State.Attached, State.setPoint, hqr] using hq
  · intro q hq
    have hqr : q ≠ rt := by
      rintro rfl
      simp [State.setPoint] at hq
    have hq' : s.point q = .detached := by simpa [State.setPoint, hqr] using hq
    obtain ⟨h₁, h₂⟩ := h.detached q hq'
    exact ⟨(hisact q).trans h₁, (congrArg Task.prioSave (hother q hqr)).trans h₂⟩
  · intro q
    by_cases hqr : q = rt
    · subst hqr
      simp [State.setPoint, htask]
    · have := h.own q
      simpa [State.setPoint, hqr] using this
  · intro q hq
    have hq' : s.isActive q = true := (hisact q).symm.trans hq
    have := h.levels q hq'
    rwa [← hother q (hne hq')] at this
  · intro cpu
    refine (h.sorted cpu).imp_of_mem fun {a b} hma hmb hab => ?_
    rw [not_ahead_iff] at hab ⊢
    simp only [State.setPoint]
    rw [hother a (hne (h.mem_walk.1 hma).1), hother b (hne (h.mem_walk.1 hmb).1)]
    exact hab
  · show (proc (Function.update s.task rt t q).task).state = stateOf s q
    rw [hproc, hother q hq]; rfl

/-- The end of `job_release` of a task that is not queued. -/
theorem EdfOk.release (h : EdfOk s) (ha : s.Attached rt) (hi : s.isActive rt = false) (d : ℕ) :
    EdfOk ((EdfOp.release rt d).exec c k s) ∧
      (∀ x, walk ((EdfOp.release rt d).exec c k s) x = walk s x) ∧
      ∀ q, q ≠ rt → stateOf ((EdfOp.release rt d).exec c k s) q = stateOf s q := by
  have hok := h.ok rt ha
  refine ⟨?_, fun x => rfl, fun q hq => ?_⟩
  · unfold EdfOp.exec
    refine (h.runState rt .running).setTask ha ?_ ⟨?_, ?_, ?_⟩ (Or.inr ⟨hi, hi⟩)
    · rfl
    · exact hok.prio
    · exact hok.save
    · exact hok.cls
  refine (stateOf_of_proc (setRunState s rt .running) ((EdfOp.release rt d).exec c k s) rfl
    (fun q => ?_) q).trans ?_
  · unfold EdfOp.exec
    exact setTask_field (·.task) (by rfl) q
  · rw [stateOf_setRunState h ha, if_neg hq]

/-! ## Runs -/

/-- **The step lemma.** Every step keeps the invariant, and it keeps the tasks dispatched iff
it fits in. -/
theorem EdfOk.step (h : EdfOk s) (hc : c.schedDeadline = false) (hr : WalksRun s) (op : EdfOp)
    (hen : op.enabled s = true) :
    EdfOk (op.exec c k s) ∧ (WalksRun (op.exec c k s) ↔ op.FitsIn s) := by
  -- a task that is queued nowhere changes
  have apart : ∀ {s' : State} {rt : ℕ}, s.isActive rt = false → (∀ x, walk s' x = walk s x) →
      (∀ q, q ≠ rt → stateOf s' q = stateOf s q) → WalksRun s' := by
    intro s' rt hi hwalk hst x
    rw [hwalk]
    refine (hr x).congr fun q hq => hst q ?_
    rintro rfl
    rw [(h.mem_walk.1 hq).1] at hi; cases hi
  cases op with
  | attach rt =>
    have hd : s.point rt = .detached := of_decide_eq_true hen
    obtain ⟨hinv, hwalk, hst⟩ := h.attach (c := c) (k := k) hc hd
    exact ⟨hinv, fun _ => trivial, fun _ => apart (h.detached rt hd).1 hwalk hst⟩
  | release rt d =>
    simp only [EdfOp.enabled, Bool.and_eq_true, decide_eq_true_eq, Bool.not_eq_true'] at hen
    obtain ⟨hinv, hwalk, hst⟩ := h.release (c := c) (k := k) hen.1 hen.2 d
    exact ⟨hinv, fun _ => trivial, fun _ => apart hen.2 hwalk hst⟩
  | jobStart rt =>
    simp only [EdfOp.enabled, Bool.and_eq_true, decide_eq_true_eq, Bool.not_eq_true'] at hen
    exact ⟨h.jobStart hen.1.1 hen.2, fun _ => trivial, fun _ => h.jobStart_runs hen.1.1 hen.2 hen.1.2 hr⟩
  | jobComplete rt =>
    simp only [EdfOp.enabled, Bool.and_eq_true, decide_eq_true_eq] at hen
    exact ⟨h.jobComplete hen.2, fun _ => trivial, fun _ => h.jobComplete_runs hen.2 hen.1.2 hr⟩
  | reserveExpire rt =>
    exact ⟨h.reserveExpire, fun _ => trivial, fun _ => h.reserveExpire_runs hr⟩
  | reserveReplenish rt cputime =>
    have ha : s.Attached rt := of_decide_eq_true hen
    exact ⟨h.reserveReplenish ha cputime, fun _ => trivial, fun _ => h.reserveReplenish_runs ha cputime hr⟩
  | migrate rt cpuDst =>
    exact ⟨h.migrate (of_decide_eq_true hen) cpuDst, h.migrate_runs_iff hr cpuDst⟩

theorem schedInit_edfOk (jiffies : ℕ) (proc : ℕ → Proc) : EdfOk (schedInit jiffies proc) := by
  refine ⟨schedInit_queued jiffies proc, fun q hq => absurd rfl hq, fun q _ => ⟨rfl, rfl⟩,
    fun q => rfl, fun q hq => ?_, fun cpu => List.Pairwise.nil⟩
  cases hq

/-- **On each CPU the highest task runs and the others sleep, in every state of a run, iff
every task that migrates in it fits in.** -/
theorem edfClassStep_dispatched_iff (c : Config) (hc : c.schedDeadline = false) (jiffies : ℕ)
    (proc : ℕ → Proc) (run : List (EdfOp × Kernel)) :
    Always (edfClassStep c) Dispatched (schedInit jiffies proc) run ↔
      Each (edfClassStep c) (fun s a => a.1.FitsIn s) (schedInit jiffies proc) run := by
  have hstep : ∀ s a s', EdfOk s → Dispatched s → edfClassStep c s a = some s' →
      EdfOk s' ∧ (Dispatched s' ↔ a.1.FitsIn s) := by
    intro s a s' hi hd hs
    unfold edfClassStep at hs
    split at hs
    swap
    · cases hs
    rename_i hen
    cases hs
    obtain ⟨hi', hiff⟩ := hi.step (k := a.2) hc (hi.dispatched_iff_walk.1 hd) a.1 hen
    exact ⟨hi', hi'.dispatched_iff_walk.trans hiff⟩
  refine always_iff_each (I := EdfOk) (fun s a s' hi hd hs _ => (hstep s a s' hi hd hs).1)
    (fun s a s' hi hd hs => (hstep s a s' hi hd hs).2) run _ (schedInit_edfOk jiffies proc) ?_
  intro q hq
  cases hq

instance (op : EdfOp) (s : State) : Decidable (op.FitsIn s) :=
  match op with
  | .migrate rt cpuDst =>
    decidable_of_iff (s.isActive rt = true → (s.task rt).cpuId ≠ cpuDst →
      if activeHighestPrioTask s (s.task rt).cpuId = some rt then
        activeHighestPrioTask s cpuDst = none
      else ∃ h ∈ activeHighestPrioTask s cpuDst, ahead s rt h = false) Iff.rfl
  | .attach _ | .release _ _ | .jobStart _ | .jobComplete _ | .reserveExpire _
  | .reserveReplenish _ _ => .isTrue trivial

/-- Three tasks on two CPUs. One that waits migrates to where it waits behind another task, and one that
runs to a CPU where no job is left. -/
theorem edfClassStep_dispatched_three :
    Always (edfClassStep { Config.small false with nrRtCpus := 2 }) Dispatched
      (schedInit 0 fun _ => .fair)
      [(.attach 0, .accepting), (.migrate 0 0, .accepting), (.attach 1, .accepting),
        (.migrate 1 1, .accepting), (.attach 2, .accepting), (.migrate 2 1, .accepting),
        (.release 0 10, .accepting), (.release 1 20, .accepting), (.release 2 30, .accepting),
        (.jobStart 0, .accepting), (.jobStart 1, .accepting), (.jobStart 2, .accepting),
        (.migrate 2 0, .accepting), (.jobComplete 0, .accepting), (.jobComplete 2, .accepting),
        (.migrate 1 0, .accepting), (.jobComplete 1, .accepting)] :=
  (edfClassStep_dispatched_iff { Config.small false with nrRtCpus := 2 } rfl 0 (fun _ => .fair) _).2
    (Each.of_check (fun _ _ => of_decide_eq_true) (by decide +kernel))

/-- A task that runs on one CPU migrates to another one, where a task runs already. -/
theorem edfClassStep_not_dispatched :
    ¬ Always (edfClassStep { Config.small false with nrRtCpus := 2 }) Dispatched
      (schedInit 0 fun _ => .fair)
      [(.attach 0, .accepting), (.migrate 0 0, .accepting), (.attach 1, .accepting),
        (.migrate 1 1, .accepting), (.release 0 10, .accepting), (.release 1 20, .accepting),
        (.jobStart 0, .accepting), (.jobStart 1, .accepting), (.migrate 0 1, .accepting)] := by
  intro h
  obtain ⟨s, hs, ht⟩ := h.final_test (fun s => s.isActive 0 && s.isActive 1 &&
    decide ((s.task 0).cpuId = (s.task 1).cpuId ∧ stateOf s 0 = .running ∧ stateOf s 1 = .running))
    (by decide +kernel)
  simp only [Bool.and_eq_true, decide_eq_true_eq] at ht
  obtain ⟨⟨ha₀, ha₁⟩, hcpu, hr₀, hr₁⟩ := ht
  obtain ⟨x, hx, -, hw₀⟩ := hs 0 ha₀
  obtain ⟨y, hy, -, hw₁⟩ := hs 1 ha₁
  rw [hcpu, hy, Option.some.injEq] at hx
  have h₀ : 0 = x := by
    by_contra hne
    rw [hw₀ hne] at hr₀; cases hr₀
  have h₁ : 1 = y := by
    by_contra hne
    rw [hw₁ hne] at hr₁; cases hr₁
  omega

end Resch
