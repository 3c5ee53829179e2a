import Resch.Spec.ApiRun
import Resch.Proof.Hooks

/-!
# API calls as updates

Most calls are made of the hooks of one task, hence of updates of that task
(`ApiOp.updates`). The exceptions are attaching, leaving, changing the policy, and the
calls on components.
-/

namespace Resch

variable {c : Config} {k : Kernel} {s s' : State} {rt q : ℕ} {prio : ℤ}

theorem Updates.jobReleaseWait (h : Updates rt s s') (releaseTime : ℕ) :
    Updates rt s (jobReleaseWait s' rt releaseTime) := by
  have h₁ : Updates rt s (s'.setTask rt fun t => { t with releaseTime }) := by
    refine h.setTask ?_
    exact ⟨rfl, rfl, rfl, rfl, rfl, rfl⟩
  unfold Resch.jobReleaseWait
  simp only
  split
  · exact h₁
  · exact Updates.ite (fun _ => h₁.setProc) (fun _ => h₁)
  · exact Updates.ite (fun _ => h₁.setProc) (fun _ => h₁)
  · exact h₁.setProc

/-- The state in which a job is released. -/
def releasedState (s : State) (rt : ℕ) : State :=
  (resetExecTime (setRunState s rt .running) rt).setTask rt fun t =>
    { t with deadlineTime := t.releaseTime + t.deadline }

theorem jobReleaseDone_eq (h : jobReleaseDone c s rt = some s') : s' = releasedState s rt := by
  unfold jobReleaseDone at h
  simp only at h
  split at h
  · cases h
  · exact (Option.some.inj h).symm

theorem Updates.released (h : Updates rt s s') : Updates rt s (releasedState s' rt) := by
  refine Updates.setTask (h.setProc.setProc) ?_
  exact ⟨rfl, rfl, rfl, rfl, rfl, rfl⟩

theorem releasedState_keeps (s : State) (rt : ℕ) : (s.task rt).Keeps ((releasedState s rt).task rt) := by
  simp only [releasedState, task_setTask_self]
  exact ⟨rfl, rfl, rfl, rfl, rfl, rfl⟩

theorem jobRelease_eq (h : jobRelease c s rt = some s') :
    s' = jobStart c (releasedState s rt) rt := by
  unfold jobRelease at h
  obtain ⟨s₁, h₁, rfl⟩ := Option.map_eq_some_iff.1 h
  rw [jobReleaseDone_eq h₁]

theorem Updates.jobRelease (hi : (s.task rt).cls ≠ .fair → s.isActive rt = false)
    (h : jobRelease c s rt = some s') : Updates rt s s' := by
  rw [jobRelease_eq h]
  have hk := releasedState_keeps s rt
  refine (Updates.refl s).released.jobStart fun hc => ?_
  rw [hk.cls] at hc
  exact hk.active.trans (hi hc)

theorem Updates.apiRun (h : Updates rt s s') (timeout : ℕ) : Updates rt s (apiRun c s' rt timeout) := by
  unfold Resch.apiRun
  have h₁ : Updates rt s (globalListInsert s' rt) := h.tail (.insert s')
  exact Updates.jobReleaseWait (Updates.ite (fun _ => h₁.tail (.remove _)) (fun _ => h₁)) _

theorem Updates.missed (h : Updates rt s s') : Updates rt s (deadlineMiss s' rt).1 := by
  unfold deadlineMiss
  dsimp only
  refine h.setTask ?_
  exact ⟨rfl, rfl, rfl, rfl, rfl, rfl⟩

theorem Updates.apiWaitForPeriod (h : Updates rt s s') :
    Updates rt s (apiWaitForPeriod c k s' rt).1 := h.missed.jobComplete.jobReleaseWait _

theorem Updates.apiWaitForInterval (h : Updates rt s s') (period : ℕ) :
    Updates rt s (apiWaitForInterval c k s' rt period).1 := h.missed.jobComplete.jobReleaseWait _

theorem apiSetPriority_fst (c : Config) (k : Kernel) (s : State) (rt : ℕ) (prio : ℤ) :
    (apiSetPriority c k s rt prio).1 = s ∨
      (apiSetPriority c k s rt prio).1 = (setScheduler c k s rt (s.task rt).policy prio).1 := by
  unfold apiSetPriority
  simp only
  split
  · exact Or.inl rfl
  · right
    split <;> simp_all

theorem Updates.apiSetPriority (h : Updates rt s s') :
    Updates rt s (apiSetPriority c k s' rt prio).1 := by
  rcases apiSetPriority_fst c k s' rt prio with h' | h' <;> rw [h']
  · exact h
  · exact h.setScheduler

theorem Updates.apiReserveStart (h : Updates rt s s') (cputime : ℕ) (xcpu : Bool) :
    Updates rt s (apiReserveStart c s' rt cputime xcpu).1 := by
  unfold Resch.apiReserveStart
  split
  · exact h
  · exact h.reserveStart cputime xcpu

theorem Updates.apiReserveStop (h : Updates rt s s') : Updates rt s (apiReserveStop c s' rt).1 := by
  unfold Resch.apiReserveStop
  split
  · exact h.reserveStop
  · exact h

theorem Updates.apiReserveExpire (h : Updates rt s s') :
    Updates rt s (apiReserveExpire c k s' rt).1 := by
  unfold Resch.apiReserveExpire
  by_cases hr : s'.hasReserve rt = true
  swap
  · simpa [hr] using h
  simp only [hr, Bool.not_true, Bool.false_eq_true, if_false]
  have h₁ : Updates rt s (if s'.isAccounting rt = true then Resch.stopAccount c s' rt else s') :=
    Updates.ite (fun _ => h.stopAccount) (fun _ => h)
  generalize (if s'.isAccounting rt = true then Resch.stopAccount c s' rt else s') = s₁ at h₁ ⊢
  split <;> dsimp only
  · exact (h₁.classReserveReplenish _).startAccount
  · refine h₁.classReserveExpire.setTask ?_
    exact ⟨rfl, rfl, rfl, rfl, rfl, rfl⟩

theorem Updates.apiWakeUp (h : Updates rt s s') : Updates rt s (apiWakeUp s' rt).1 := by
  unfold Resch.apiWakeUp
  split
  · exact h
  · split
    · exact h.setProc
    · exact h

theorem apiExitDetach_updates (c : Config) (k : Kernel) (s : State) (rt : ℕ) :
    Updates rt s (apiExitDetach c k s rt) := by
  have h₁ : Updates rt s (if s.isActive rt = true then jobComplete c k s rt else s) :=
    Updates.ite (fun _ => (Updates.refl s).jobComplete) (fun _ => .refl s)
  unfold apiExitDetach
  dsimp only
  generalize (if s.isActive rt = true then jobComplete c k s rt else s) = s₁ at h₁ ⊢
  have h₂ : Updates rt s (if s₁.hasReserve rt = true then reserveStop c s₁ rt else s₁) :=
    Updates.ite (fun _ => h₁.reserveStop) (fun _ => h₁)
  generalize (if s₁.hasReserve rt = true then reserveStop c s₁ rt else s₁) = s₂ at h₂ ⊢
  exact Updates.ite (fun _ => h₂.tail (.remove s₂)) (fun _ => h₂)

/-- `api_exit` after the pid map writes one descriptor, and not the pid map. -/
theorem apiExitPolicy_rest (c : Config) (k : Kernel) (s : State) (rt : ℕ) :
    (∀ q, q ≠ rt → (apiExitPolicy c k s rt).task q = s.task q) ∧
      (apiExitPolicy c k s rt).pidMap = s.pidMap := by
  unfold apiExitPolicy
  split
  · exact ⟨fun q hq => setScheduler_task_of_ne hq, (setScheduler_rest ..).2.1⟩
  · exact ⟨fun _ _ => rfl, rfl⟩

theorem apiExit_point (c : Config) (k : Kernel) (s : State) (rt : ℕ) :
    (apiExit c k s rt).1.point = s.point := by
  have hp : (apiExitDetach c k s rt).point = s.point := (apiExitDetach_updates c k s rt).rest.1
  unfold apiExit apiExitPolicy
  dsimp only
  split
  · exact (setScheduler_rest ..).1.trans hp
  · exact hp

/-- The calls that consist of hooks of one task. -/
def ApiOp.hookOf : ApiOp → Option ℕ
  | run rt _ | waitForPeriod rt | waitForInterval rt _ | release rt | setPeriod rt _
  | setDeadline rt _ | setWcet rt _ | setRuntime rt _ | setPriority rt _ | background rt
  | reserveStart rt _ _ | reserveStop rt | reserveExpire rt | replenishTimer rt | sleep rt
  | suspend rt | resume rt | wakeUp rt | migrate rt _ => some rt
  | _ => none

/-- The step does not start or resume a job of a task that its class has queued. -/
def ApiOp.StartsInactive (s : State) : ApiOp → Prop
  | release rt => (s.task rt).cls ≠ .fair → s.isActive rt = false
  | resume rt => s.isActive rt = false
  | _ => True

theorem setPoint_same (s : State) (rt : ℕ) : s.setPoint rt (s.point rt) = s := by
  simp [State.setPoint]

/-- Where the process of the task is after the call. -/
def ApiOp.pointAfter (s : State) (op : ApiOp) : Point :=
  match op with
  | run _ _ | waitForPeriod _ | waitForInterval _ _ => .release
  | release _ | resume _ => .user
  | sleep _ | suspend _ => .suspend
  | _ => op.hookOf.elim .detached s.point

/-- **A call that consists of hooks** is a sequence of updates. -/
theorem ApiOp.hookUpdates {op : ApiOp} (hop : op.hookOf = some rt) (hstart : op.StartsInactive s)
    (h : op.exec c k s = some s') :
    ∃ s₁, Updates rt s s₁ ∧ s' = s₁.setPoint rt (op.pointAfter s) := by
  have stay : ∀ {s₁}, Updates rt s s₁ → s' = s₁ →
      ∃ s₁, Updates rt s s₁ ∧ s' = s₁.setPoint rt (s.point rt) := by
    intro s₁ hu hs
    refine ⟨s₁, hu, ?_⟩
    rw [← hu.rest.1, setPoint_same]
    exact hs
  have data : ∀ f : Task → Task, (∀ t : Task, t.Keeps (f t)) → Updates rt s (s.setTask rt f) :=
    fun f hf => (Updates.refl s).setTask (hf _)
  cases op with
  | run q timeout =>
    cases hop; cases h
    exact ⟨_, (Updates.refl s).apiRun timeout, rfl⟩
  | waitForPeriod q =>
    cases hop; cases h
    exact ⟨_, (Updates.refl s).apiWaitForPeriod, rfl⟩
  | waitForInterval q period =>
    cases hop; cases h
    exact ⟨_, (Updates.refl s).apiWaitForInterval period, rfl⟩
  | release q =>
    cases hop
    obtain ⟨s₁, h₁, rfl⟩ := Option.map_eq_some_iff.1 h
    exact ⟨s₁, Updates.jobRelease hstart h₁, rfl⟩
  | sleep q =>
    cases hop; cases h
    exact ⟨_, (Updates.refl s).jobSuspend, rfl⟩
  | suspend q =>
    cases hop; cases h
    exact ⟨_, (Updates.refl s).jobSuspend.setProc, rfl⟩
  | resume q =>
    cases hop; cases h
    exact ⟨_, (Updates.refl s).jobResume hstart, rfl⟩
  | setPeriod q period =>
    cases hop; cases h
    refine stay (data _ ?_) rfl
    exact fun _ => ⟨rfl, rfl, rfl, rfl, rfl, rfl⟩
  | setDeadline q deadline =>
    cases hop; cases h
    refine stay (data _ ?_) rfl
    exact fun _ => ⟨rfl, rfl, rfl, rfl, rfl, rfl⟩
  | setWcet q wcet =>
    cases hop; cases h
    refine stay (data _ ?_) rfl
    exact fun _ => ⟨rfl, rfl, rfl, rfl, rfl, rfl⟩
  | setRuntime q runtime =>
    cases hop; cases h
    refine stay (data _ ?_) rfl
    exact fun _ => ⟨rfl, rfl, rfl, rfl, rfl, rfl⟩
  | setPriority q prio =>
    cases hop; cases h
    exact stay (Updates.refl s).apiSetPriority rfl
  | background q =>
    cases hop; cases h
    exact stay (Updates.refl s).apiSetPriority rfl
  | reserveStart q cputime xcpu =>
    cases hop; cases h
    exact stay ((Updates.refl s).apiReserveStart cputime xcpu) rfl
  | reserveStop q =>
    cases hop; cases h
    exact stay (Updates.refl s).apiReserveStop rfl
  | reserveExpire q =>
    cases hop; cases h
    exact stay (Updates.refl s).apiReserveExpire rfl
  | replenishTimer q =>
    cases hop; cases h
    exact stay (Updates.refl s).onReplenish rfl
  | wakeUp q =>
    cases hop; cases h
    exact stay (Updates.refl s).apiWakeUp rfl
  | migrate q cpu =>
    cases hop; cases h
    exact stay ((Updates.refl s).migrateTask cpu) rfl
  | init | exit | setScheduler | componentCreate | componentDestroy | compose | decompose | linux =>
    cases hop

/-- A call of an attached task does not detach it. -/
theorem ApiOp.pointAfter_ne_detached {op : ApiOp} (hop : op.hookOf = some rt)
    (hen : op.enabled s = true) : op.pointAfter s ≠ .detached := by
  have user : s.point rt = .user → s.point rt ≠ .detached := by
    intro h
    rw [h]
    decide
  cases op with
  | run | waitForPeriod | waitForInterval | release | resume | sleep | suspend => simp [pointAfter]
  | setPeriod | setDeadline | setWcet | setRuntime | setPriority | background | reserveStart
  | reserveStop | reserveExpire =>
    cases hop
    exact user (of_decide_eq_true hen)
  | replenishTimer q =>
    cases hop
    simp only [enabled, Bool.and_eq_true, decide_eq_true_eq] at hen
    exact hen.1
  | wakeUp | migrate =>
    cases hop
    have hatt : s.Attached rt := of_decide_eq_true hen
    exact hatt
  | init | exit | setScheduler | componentCreate | componentDestroy | compose | decompose | linux =>
    cases hop

/-- The same for a call that is enabled; its process stays attached. -/
theorem ApiOp.updates {op : ApiOp} (hop : op.hookOf = some rt) (hen : op.enabled s = true)
    (hstart : op.StartsInactive s) (h : op.exec c k s = some s') :
    ∃ s₁ p, Updates rt s s₁ ∧ s' = s₁.setPoint rt p ∧ p ≠ .detached := by
  obtain ⟨s₁, hu, hs⟩ := ApiOp.hookUpdates hop hstart h
  exact ⟨s₁, _, hu, hs, ApiOp.pointAfter_ne_detached hop hen⟩

end Resch
