import Resch.Proof.Refused
import Resch.Proof.Reserve

/-!
# A successful request and Linux

`api_init` leaves the process with CFS, but gives its descriptor the policy FP; `set_scheduler`
keeps the new policy if Linux refuses it. `api_set_scheduler` asks nothing of Linux if the descriptor
has the policy already.

* `realTime_setScheduler`: where Linux is asked and agrees, it has the task in the class of the policy.
* `realTime_iff`: in a run, each successful request of a privileged caller makes its task a real-time
  task iff none asks for the policy of the descriptor while Linux has the task elsewhere.
-/

namespace Resch

open Lib

variable {c : Config} {k : Kernel} {s s' : State} {rt : ℕ} {policy prio : ℤ}

/-- The real-time class of Linux for FP and EDF. -/
def Config.linuxClass (c : Config) (policy : ℤ) : LinuxPolicy :=
  if policy = reschSchedEdf ∧ c.schedDeadline = true then .deadline else .fifo

/-- Linux has the task in the class of the policy, an FP task with its priority. -/
structure RealTime (c : Config) (policy : ℤ) (rt : ℕ) (s : State) : Prop where
  cls : (s.procOf rt).policy = c.linuxClass policy
  prio : policy = reschSchedFp → (s.procOf rt).rtPriority = (s.task rt).prio

/-- **A request is honest**: if a privileged caller is told of success, the task is a real-time task
afterwards. -/
def Honest (c : Config) (s : State) (a : ApiOp × Kernel) : Prop :=
  match a.1 with
  | .setScheduler rt policy =>
    a.2.capable = true → policy = reschSchedFp ∨ policy = reschSchedEdf →
      (apiSetScheduler c a.2 s rt policy).2 = resSuccess →
        RealTime c policy rt (apiSetScheduler c a.2 s rt policy).1
  | .setPriority rt prio =>
    a.2.capable = true → (apiSetPriority c a.2 s rt prio).2 = resSuccess →
      RealTime c reschSchedFp rt (apiSetPriority c a.2 s rt prio).1
  | _ => True

/-- A privileged caller asks for the policy of the descriptor only where Linux agrees with the
descriptor. -/
def InStep (c : Config) (s : State) (a : ApiOp × Kernel) : Prop :=
  match a.1 with
  | .setScheduler rt policy =>
    a.2.capable = true → policy = reschSchedFp ∨ policy = reschSchedEdf →
      (s.task rt).policy = policy → RealTime c policy rt s
  | _ => True

/-! ## Linux is asked -/

theorem proc_requeueTask : (requeueTask s rt prio).proc = s.proc := by
  unfold requeueTask classDequeueTask classEnqueueTask
  dsimp only
  split <;> split <;> rfl

/-- The lists are no business of Linux. -/
theorem procOf_moveTask : (moveTask s rt prio).procOf rt = s.procOf rt := by
  unfold State.procOf
  have hu : Updates rt s (moveTask s rt prio) := (Updates.refl s).moveTask
  rw [hu.same.task]
  refine congrFun ?_ _
  unfold moveTask
  dsimp only
  have hg : (if s.isManaged rt = true then globalListReinsert s rt else s).proc = s.proc := by
    split
    · exact globalListReinsert_only.proc
    · rfl
  generalize (if s.isManaged rt = true then globalListReinsert s rt else s) = s₁ at hg ⊢
  split
  · exact proc_requeueTask.trans hg
  · exact hg

/-- A class that agrees has been agreed to by Linux. -/
theorem realTime_classSetScheduler (hp : c.policyClass policy = (policy, (s.task rt).cls))
    (hreal : policy = reschSchedFp ∨ policy = reschSchedEdf)
    (hok : (classSetScheduler c k s rt prio).2 = true) :
    RealTime c policy rt (classSetScheduler c k s rt prio).1 := by
  have hfifo : ∀ {s₁ : State}, (setSchedulerAs k .fifo s₁ rt prio).2 = true →
      (((setSchedulerAs k .fifo s₁ rt prio).1.procOf rt).policy = .fifo ∧
        ((setSchedulerAs k .fifo s₁ rt prio).1.procOf rt).rtPriority =
          ((setSchedulerAs k .fifo s₁ rt prio).1.task rt).prio) := by
    intro s₁ hok
    rw [setSchedulerAs_ok] at hok
    unfold setSchedulerAs schedSetscheduler State.procOf
    simp [hok, State.setProc]
  rcases hreal with rfl | rfl
  · have hcls : (s.task rt).cls = .fp := (congrArg Prod.snd hp).symm
    unfold classSetScheduler at hok ⊢
    rw [hcls] at hok ⊢
    obtain ⟨hpol, hprio⟩ := hfifo hok
    exact ⟨hpol, fun _ => hprio⟩
  · have hcls : (s.task rt).cls = c.edfSchedClass := (congrArg Prod.snd hp).symm
    unfold Config.edfSchedClass at hcls
    unfold classSetScheduler at hok ⊢
    cases hd : c.schedDeadline
    · rw [hd, if_neg Bool.false_ne_true] at hcls
      rw [hcls] at hok ⊢
      refine ⟨(hfifo hok).1.trans ?_, fun h => by cases h⟩
      unfold Config.linuxClass
      rw [hd]
      simp
    · rw [hd, if_pos rfl] at hcls
      rw [hcls] at hok ⊢
      refine ⟨?_, fun h => by cases h⟩
      unfold Config.linuxClass
      rw [hd, if_pos ⟨rfl, rfl⟩]
      unfold Deadline.edfSetScheduler at hok ⊢
      dsimp only at hok ⊢
      split at hok
      · cases hok
      · -- both branches on the reserve write flags only
        rename_i hno
        rw [if_neg hno]
        unfold State.procOf
        split <;>
          simp [State.setProc, State.rcuReadUnlock, State.rcuReadLock, State.setPrio, State.setTask]

/-- `__set_scheduler` of a task that has the policy. -/
theorem realTime_setScheduler' (hp : c.policyClass policy = (policy, (s.task rt).cls))
    (hreal : policy = reschSchedFp ∨ policy = reschSchedEdf)
    (hok : (setScheduler' c k s rt prio).2 = true) :
    RealTime c policy rt (setScheduler' c k s rt prio).1 := by
  rw [setScheduler'_snd] at hok
  have hr := realTime_classSetScheduler hp hreal hok
  have hu : Updates rt s (classSetScheduler c k s rt prio).1 := (Updates.refl s).classSetScheduler
  unfold setScheduler'
  generalize hs₁ : classSetScheduler c k s rt prio = r at *
  obtain ⟨s₁, ok⟩ := r
  dsimp only at hok hr hu ⊢
  rw [hok, Bool.not_true, if_neg Bool.false_ne_true]
  split
  · exact hr
  · refine ⟨?_, fun hfp => ?_⟩
    · rw [procOf_moveTask]
      exact hr.cls
    · have hcls : (s₁.task rt).cls = .fp := by
        rw [hfp] at hp
        exact hu.same.cls.trans (congrArg Prod.snd hp).symm
      rw [procOf_moveTask, prio_moveTask hcls]
      exact hr.prio hfp

/-- **A change that Linux agrees to** makes the task a real-time task. -/
theorem realTime_setScheduler (h : PolicyOk c s) (hk : k.capable = true)
    (hreal : policy = reschSchedFp ∨ policy = reschSchedEdf)
    (hok : (setScheduler c k s rt policy prio).2 = true) :
    RealTime c policy rt (setScheduler c k s rt policy prio).1 := by
  have hpol : (c.policyClass policy).1 = policy := by
    rcases hreal with rfl | rfl <;> rfl
  unfold setScheduler at hok ⊢
  dsimp only at hok ⊢
  rw [if_pos hk] at hok ⊢
  refine realTime_setScheduler' ?_ hreal hok
  rw [setPolicy_task h rt policy]
  exact Prod.ext hpol rfl

/-! ## The calls -/

/-- `api_set_priority` asks Linux in each case. -/
theorem realTime_apiSetPriority (h : PolicyOk c s) (hk : k.capable = true)
    (hok : (apiSetPriority c k s rt prio).2 = resSuccess) :
    RealTime c reschSchedFp rt (apiSetPriority c k s rt prio).1 := by
  unfold apiSetPriority at hok ⊢
  dsimp only at hok ⊢
  split at hok
  · cases hok
  · rename_i hno
    have hfp : (s.task rt).policy = reschSchedFp := by
      rcases h.cases rt with ⟨hq, -⟩ | ⟨hq, -⟩ | ⟨hq, -⟩
      · exact hq
      · exact absurd (Or.inl hq) hno
      · exact absurd (Or.inr hq) hno
    rw [if_neg hno]
    split at hok
    · rename_i hset
      rw [if_pos hset]
      rw [hfp] at hset ⊢
      exact realTime_setScheduler h hk (Or.inl rfl) hset
    · cases hok

/-- `api_set_scheduler` asks Linux only for another policy. -/
theorem realTime_apiSetScheduler (h : PolicyOk c s) (hk : k.capable = true)
    (hreal : policy = reschSchedFp ∨ policy = reschSchedEdf) (hne : (s.task rt).policy ≠ policy)
    (hok : (apiSetScheduler c k s rt policy).2 = resSuccess) :
    RealTime c policy rt (apiSetScheduler c k s rt policy).1 := by
  rw [apiSetScheduler_of_ne hne.symm]
  refine realTime_setScheduler h hk hreal ?_
  unfold apiSetScheduler at hok
  rw [if_pos hne.symm] at hok
  dsimp only at hok
  split at hok
  · assumption
  · cases hok

/-- One request -/
theorem honest_iff_inStep (h : PolicyOk c s) (a : ApiOp × Kernel) : Honest c s a ↔ InStep c s a := by
  obtain ⟨op, k⟩ := a
  unfold Honest InStep
  cases op with
  | setScheduler rt policy =>
    dsimp only
    constructor
    · -- the call does nothing and reports success
      intro hhonest hk hreal hpol
      have hcall : apiSetScheduler c k s rt policy = (s, resSuccess) := by
        unfold apiSetScheduler
        rw [if_neg (not_not.2 hpol.symm)]
      rw [hcall] at hhonest
      exact hhonest hk hreal rfl
    · intro hin hk hreal hok
      by_cases hpol : (s.task rt).policy = policy
      · have hcall : apiSetScheduler c k s rt policy = (s, resSuccess) := by
          unfold apiSetScheduler
          rw [if_neg (not_not.2 hpol.symm)]
        rw [hcall]
        exact hin hk hreal hpol
      · exact realTime_apiSetScheduler h hk hreal hpol hok
  | setPriority rt prio => exact iff_of_true (fun hk hok => realTime_apiSetPriority h hk hok) trivial
  | _ => exact Iff.rfl

/-- **Each successful request makes its task a real-time task** iff no privileged caller asks for
the policy that the descriptor has while Linux does not have the task in its class. -/
theorem realTime_iff (c : Config) (jiffies : ℕ) (proc : ℕ → Proc) (ops : List (ApiOp × Kernel)) :
    Each (apiStep c fun _ => true) (Honest c) (schedInit jiffies proc) ops ↔
      Each (apiStep c fun _ => true) (InStep c) (schedInit jiffies proc) ops := by
  refine Each.iff_of_inv (fun s a s' hs hstep => ?_) (fun s a _ hs _ => honest_iff_inStep hs a) ops _
    (schedInit_policyOk c jiffies proc)
  unfold apiStep at hstep
  split at hstep
  · rename_i hen
    exact hs.step (by simpa using hen) hstep
  · cases hstep

/-- A task just attached asks for FP; one that was refused EDF asks for EDF again. Both are told of
success, and both stay with CFS. -/
theorem realTime_not :
    ¬ Each (apiStep (.small false) fun _ => true) (Honest (.small false)) (schedInit 0 fun _ => .fair)
      [(.init 0 1, .accepting), (.setScheduler 0 reschSchedFp, .accepting)] ∧
    ¬ Each (apiStep (.small false) fun _ => true) (Honest (.small false)) (schedInit 0 fun _ => .fair)
      [(.init 0 1, .accepting), (.setScheduler 0 reschSchedEdf, .refusing),
        (.setScheduler 0 reschSchedEdf, .accepting)] := by
  constructor
  · intro h
    have hcall := (((h _ rfl).2) _ rfl).1
    exact absurd (hcall rfl (Or.inl rfl) (by decide +kernel)).cls (by decide +kernel)
  · intro h
    have hcall := ((((h _ rfl).2) _ rfl).2 _ rfl).1
    exact absurd (hcall rfl (Or.inr rfl) (by decide +kernel)).cls (by decide +kernel)

end Resch
