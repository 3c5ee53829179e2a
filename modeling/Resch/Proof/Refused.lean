import Resch.Proof.PolicyClass

/-!
# What a refused change of scheduler leaves behind

`set_scheduler` assigns policy and class before it asks the class, and does not take them
back if Linux refuses the change; the class of `sched_deadline.c` then also keeps its
`rcu_read_lock`. `api_set_priority` asks for the policy that the task has, and only for FP
tasks, so it does no harm (`setScheduler_failure_iff`).
-/

namespace Resch

open Lib

variable {c : Config} {k : Kernel} {s s' : State} {rt : ℕ} {policy prio : ℤ}

/-- The task is as before: its policy, class and priority, its place in the global list and in
the active queues. No `rcu_read_lock` is held that was not held before. -/
structure Unchanged (rt : ℕ) (s s' : State) : Prop where
  policy : (s'.task rt).policy = (s.task rt).policy
  cls : (s'.task rt).cls = (s.task rt).cls
  prio : (s'.task rt).prio = (s.task rt).prio
  taskList : s'.taskList = s.taskList
  lo : s'.lo = s.lo
  rcu : s'.rcu = s.rcu

theorem Unchanged.refl (rt : ℕ) (s : State) : Unchanged rt s s := ⟨rfl, rfl, rfl, rfl, rfl, rfl⟩

/-- Whether Linux refuses what a class asks it for. -/
def Kernel.refuses (c : Config) (k : Kernel) (t : Task) (prio : ℤ) : SchedClass → Bool
  | .fair => !k.setscheduler .normal prio
  | .fp | .edf => !k.setscheduler .fifo prio
  | .deadline => decide (t.task = 0) || !k.acceptsTask c t

/-- Whether a privileged caller that asks for a policy and a priority is refused. -/
def Kernel.Refuses (c : Config) (k : Kernel) (t : Task) (policy prio : ℤ) : Prop :=
  k.capable = true ∧ k.refuses c t prio (c.policyClass policy).2 = true

/-- The policy asked for is taken for the one that the task has, and is not EDF under
`SCHED_DEADLINE`. -/
def Config.Harmless (c : Config) (t : Task) (policy : ℤ) : Prop :=
  (c.policyClass policy).1 = t.policy ∧ (c.policyClass policy).2 ≠ .deadline

/-! ## The class -/

theorem setSchedulerAs_ok (policy : LinuxPolicy) :
    (setSchedulerAs k policy s rt prio).2 = k.setscheduler policy prio := by
  unfold setSchedulerAs schedSetscheduler
  cases hk : k.setscheduler policy prio <;> simp

theorem setSchedulerAs_refused {policy : LinuxPolicy} (h : k.setscheduler policy prio = false) :
    (setSchedulerAs k policy s rt prio).1 = s := by
  unfold setSchedulerAs schedSetscheduler
  simp [h]

/-- A class fails iff Linux refuses. -/
theorem classSetScheduler_ok :
    (classSetScheduler c k s rt prio).2 = !k.refuses c (s.task rt) prio (s.task rt).cls := by
  unfold classSetScheduler
  cases hc : (s.task rt).cls with
  | fair => exact (setSchedulerAs_ok _).trans (by simp [Kernel.refuses])
  | fp => exact (setSchedulerAs_ok _).trans (by simp [Kernel.refuses])
  | edf => exact (setSchedulerAs_ok _).trans (by simp [Kernel.refuses])
  | deadline =>
    unfold Deadline.edfSetScheduler Kernel.refuses Kernel.acceptsTask
    dsimp only
    split
    · rename_i h
      rcases h with h | h <;> simp [h]
    · rename_i h
      rw [not_or] at h
      split <;> simp [h.1, h.2]

/-- A class that fails has written nothing, but may have taken the read lock. -/
theorem classSetScheduler_refused (h : (classSetScheduler c k s rt prio).2 = false) :
    (classSetScheduler c k s rt prio).1 =
      if (s.task rt).cls = .deadline then s.rcuReadLock else s := by
  have hr : (classSetScheduler c k s rt prio).2 =
      !k.refuses c (s.task rt) prio (s.task rt).cls := classSetScheduler_ok
  rw [h] at hr
  have hr' : k.refuses c (s.task rt) prio (s.task rt).cls = true := by simpa using hr.symm
  unfold classSetScheduler
  cases hc : (s.task rt).cls with
  | fair =>
    rw [hc] at hr'
    exact setSchedulerAs_refused (by simpa [Kernel.refuses] using hr')
  | fp =>
    rw [hc] at hr'
    exact setSchedulerAs_refused (by simpa [Kernel.refuses] using hr')
  | edf =>
    rw [hc] at hr'
    exact setSchedulerAs_refused (by simpa [Kernel.refuses] using hr')
  | deadline =>
    rw [hc] at hr'
    unfold Deadline.edfSetScheduler
    dsimp only
    rw [if_pos rfl, if_pos]
    simpa [Kernel.refuses, Kernel.acceptsTask] using hr'

theorem setScheduler'_snd :
    (setScheduler' c k s rt prio).2 = (classSetScheduler c k s rt prio).2 := by
  unfold setScheduler'
  dsimp only
  cases h : (classSetScheduler c k s rt prio).2
  · simp
  · simp only [Bool.not_true, Bool.false_eq_true, if_false]
    split <;> rfl

theorem setScheduler'_refused (h : (setScheduler' c k s rt prio).2 = false) :
    (setScheduler' c k s rt prio).1 =
      if (s.task rt).cls = .deadline then s.rcuReadLock else s := by
  rw [setScheduler'_snd] at h
  rw [← classSetScheduler_refused h]
  unfold setScheduler'
  simp [h]

/-! ## `set_scheduler` -/

theorem setPolicy_task (h : PolicyOk c s) (rt : ℕ) (policy : ℤ) :
    (setPolicy c s rt policy).task rt =
      { s.task rt with policy := (c.policyClass policy).1, cls := (c.policyClass policy).2 } := by
  unfold setPolicy
  split
  · exact task_setTask_self _
  · rename_i hp
    rw [not_not] at hp
    rw [← hp, h rt]

/-- `set_scheduler` reports failure iff it is refused. -/
theorem setScheduler_fails_iff (h : PolicyOk c s) :
    (setScheduler c k s rt policy prio).2 = false ↔ k.Refuses c (s.task rt) policy prio := by
  have hcls := congrArg Task.cls (setPolicy_task h rt policy)
  have href : k.refuses c ((setPolicy c s rt policy).task rt) prio =
      k.refuses c (s.task rt) prio := by
    rw [setPolicy_task h rt policy]
    funext cls
    cases cls <;> rfl
  unfold setScheduler Kernel.Refuses
  dsimp only
  cases k.capable
  · simp
  · simp only [if_true, true_and]
    rw [setScheduler'_snd, classSetScheduler_ok, hcls, href]
    simp

/-- What a refused `set_scheduler` leaves behind. -/
theorem setScheduler_refused (h : PolicyOk c s) (hf : (setScheduler c k s rt policy prio).2 = false) :
    Unchanged rt s (setScheduler c k s rt policy prio).1 ↔ c.Harmless (s.task rt) policy := by
  have htask := setPolicy_task h rt policy
  have hrest := setPolicy_rest c s rt policy
  have hrcu : (setPolicy c s rt policy).rcu = s.rcu := by
    unfold setPolicy
    split <;> rfl
  have hk : k.capable = true := ((setScheduler_fails_iff h).1 hf).1
  have hf' : (setScheduler' c k (setPolicy c s rt policy) rt prio).2 = false := by
    simpa [setScheduler, hk] using hf
  rw [setScheduler_fst, setScheduler'_refused hf', htask]
  dsimp only
  have hcls : (c.policyClass policy).1 = (s.task rt).policy →
      (c.policyClass policy).2 = (s.task rt).cls := by
    intro hp
    have hq := policyClass_idem c policy
    rw [hp, h rt] at hq
    exact (congrArg Prod.snd hq).symm
  unfold Config.Harmless
  split
  · rename_i hd
    refine ⟨fun hu => ?_, fun hh => absurd hd hh.2⟩
    have : s.rcu + 1 = s.rcu := by
      rw [← hrcu]
      exact hu.rcu.trans hrcu.symm
    omega
  · rename_i hd
    constructor
    · intro hu
      have := hu.policy
      rw [htask] at this
      exact ⟨this, hd⟩
    · rintro ⟨hp, -⟩
      refine ⟨?_, ?_, ?_, hrest.taskList, hrest.lo, hrcu⟩ <;> rw [htask]
      · exact hp
      · exact hcls hp

/-! ## The calls -/

theorem apiSetScheduler_fails_iff (h : PolicyOk c s) :
    (apiSetScheduler c k s rt policy).2 = resFault ↔
      policy ≠ (s.task rt).policy ∧ k.Refuses c (s.task rt) policy (s.task rt).prio := by
  unfold apiSetScheduler
  split
  · rename_i hp
    rw [← setScheduler_fails_iff h]
    dsimp only
    split <;> simp_all [resSuccess, resFault]
  · rename_i hp
    simp [resSuccess, resFault, not_not.1 hp]

theorem apiSetPriority_unchanged (h : PolicyOk c s)
    (hf : (apiSetPriority c k s rt prio).2 = resFault) :
    Unchanged rt s (apiSetPriority c k s rt prio).1 := by
  by_cases hp : (s.task rt).policy = reschSchedEdf ∨ (s.task rt).policy = reschSchedFair
  · have : apiSetPriority c k s rt prio = (s, resFault) := if_pos hp
    rw [this]
    exact .refl rt s
  have hfp : (s.task rt).policy = reschSchedFp := by
    rcases h.cases rt with ⟨hq, -⟩ | ⟨hq, -⟩ | ⟨hq, -⟩
    · exact hq
    · exact absurd (Or.inl hq) hp
    · exact absurd (Or.inr hq) hp
  have hcall : apiSetPriority c k s rt prio =
      ((setScheduler c k s rt (s.task rt).policy prio).1,
        if (setScheduler c k s rt (s.task rt).policy prio).2 = true then resSuccess else resFault) := by
    unfold apiSetPriority
    rw [if_neg hp]
    dsimp only
    split <;> rfl
  rw [hcall] at hf ⊢
  have hfail : (setScheduler c k s rt (s.task rt).policy prio).2 = false := by
    by_contra hne
    rw [Bool.not_eq_false] at hne
    simp [hne, resSuccess, resFault] at hf
  refine (setScheduler_refused h hfail).2 ⟨?_, ?_⟩ <;> rw [h rt]
  rcases h.cases rt with ⟨-, hc⟩ | ⟨hq, -⟩ | ⟨hq, -⟩
  · rw [hc]
    intro hd
    cases hd
  · rw [hfp] at hq; cases hq
  · rw [hfp] at hq; cases hq

/-- The states that calls reach. -/
theorem policyOk_of_reach {jiffies : ℕ} {proc : ℕ → Proc}
    (h : Reach (apiStep c fun _ => true) (schedInit jiffies proc) s) : PolicyOk c s := by
  refine h.inv (schedInit_policyOk c jiffies proc) fun s a s' hs hstep => ?_
  unfold apiStep at hstep
  split at hstep
  · rename_i hen
    exact hs.step (by simpa using hen) hstep
  · cases hstep

/-- **A refused change leaves the task as it was iff** it asks for the policy that the task has,
and not for EDF under `SCHED_DEADLINE`. -/
theorem setScheduler_failure_iff (c : Config) (jiffies : ℕ) (proc : ℕ → Proc) (s : State)
    (h : Reach (apiStep c fun _ => true) (schedInit jiffies proc) s) (k : Kernel) (rt : ℕ)
    (policy prio : ℤ) :
    (((setScheduler c k s rt policy prio).2 = false →
        Unchanged rt s (setScheduler c k s rt policy prio).1) ↔
      (k.Refuses c (s.task rt) policy prio → c.Harmless (s.task rt) policy)) ∧
    (((apiSetScheduler c k s rt policy).2 = resFault →
        Unchanged rt s (apiSetScheduler c k s rt policy).1) ↔
      (policy ≠ (s.task rt).policy ∧ k.Refuses c (s.task rt) policy (s.task rt).prio →
        c.Harmless (s.task rt) policy)) ∧
    ((apiSetPriority c k s rt prio).2 = resFault →
      Unchanged rt s (apiSetPriority c k s rt prio).1) := by
  have hp := policyOk_of_reach h
  refine ⟨?_, ?_, apiSetPriority_unchanged hp⟩
  · rw [← setScheduler_fails_iff hp]
    exact forall_congr' fun hf => setScheduler_refused hp hf
  · rw [← apiSetScheduler_fails_iff hp]
    refine forall_congr' fun hf => ?_
    obtain ⟨hne, hr⟩ := (apiSetScheduler_fails_iff hp).1 hf
    rw [apiSetScheduler_of_ne hne]
    exact setScheduler_refused hp ((setScheduler_fails_iff hp).2 hr)

/-- Two FP tasks are in the list and have jobs. -/
def twoJobs : List (ApiOp × Kernel) :=
  [(.init 0 1, .accepting), (.setPriority 0 10, .accepting), (.run 0 0, .accepting),
    (.init 1 2, .accepting), (.setPriority 1 20, .accepting), (.run 1 0, .accepting),
    (.release 0, .accepting), (.release 1, .accepting)]

def withTwoJobs : State :=
  (Lib.final (apiStep (.small false) fun _ => true) (schedInit 0 fun _ => .fair) twoJobs).getD
    (schedInit 0 fun _ => .fair)

/-- The one that waits asks for a higher priority, and Linux refuses it. -/
theorem setScheduler_failure_two :
    withTwoJobs.taskList = [1, 0] ∧ withTwoJobs.isActive 0 = true ∧
      (setScheduler (.small false) .refusing withTwoJobs 0 reschSchedFp 50).2 = false ∧
      Unchanged 0 withTwoJobs
        (setScheduler (.small false) .refusing withTwoJobs 0 reschSchedFp 50).1 ∧
      (apiSetPriority (.small false) .refusing withTwoJobs 0 50).2 = resFault ∧
      Unchanged 0 withTwoJobs (apiSetPriority (.small false) .refusing withTwoJobs 0 50).1 := by
  have hreach : Reach (apiStep (.small false) fun _ => true) (schedInit 0 fun _ => .fair)
      withTwoJobs := .of_isSome (by decide +kernel)
  obtain ⟨hset, -, hprio⟩ := setScheduler_failure_iff (.small false) 0 (fun _ => .fair) _ hreach
    .refusing 0 reschSchedFp 50
  have hrefused : (setScheduler (.small false) .refusing withTwoJobs 0 reschSchedFp 50).2 = false := by
    decide +kernel
  have hfault : (apiSetPriority (.small false) .refusing withTwoJobs 0 50).2 = resFault := by
    decide +kernel
  refine ⟨by decide +kernel, by decide +kernel, hrefused, ?_, hfault, hprio hfault⟩
  exact hset.2 (fun _ => ⟨by decide +kernel, by decide⟩) hrefused

/-- A task that asks for EDF and is refused has the policy EDF afterwards. -/
theorem setScheduler_failure_changes :
    ¬ ∀ s, Reach (apiStep (.small false) fun _ => true) (schedInit 0 fun _ => .fair) s →
      ∀ (k : Kernel) (rt : ℕ) (policy : ℤ), (apiSetScheduler (.small false) k s rt policy).2 = resFault →
        Unchanged rt s (apiSetScheduler (.small false) k s rt policy).1 := by
  intro h
  have hu := h _ (.next (.init 0 1, .accepting) .init rfl) .refusing 0 reschSchedEdf (by decide +kernel)
  exact absurd hu.policy (by decide +kernel)

end Resch
