import Resch.Lib.Runs
import Resch.Proof.ApiHooks

/-!
# The class of a task is the one of its policy

`set_scheduler` assigns `rt->policy` and `rt->class` together, and no other function but
`resch_task_init` writes them. So in every state that calls reach, the class of each task
is the one that `set_scheduler` takes for its policy (`PolicyOk.step`).
-/

namespace Resch

open Lib

variable {c : Config} {k : Kernel} {s s' : State} {rt q cpu : ℕ} {prio : ℤ}

/-- Each task has a policy that `set_scheduler` assigns, and the class of that policy. -/
def PolicyOk (c : Config) (s : State) : Prop :=
  ∀ q, c.policyClass (s.task q).policy = ((s.task q).policy, (s.task q).cls)

theorem PolicyOk.of_same (h : PolicyOk c s) (ht : ∀ q, (s.task q).Same (s'.task q)) :
    PolicyOk c s' := by
  intro q
  rw [(ht q).policy, (ht q).cls]
  exact h q

/-- The policy taken for a policy is taken for itself. -/
theorem policyClass_idem (c : Config) (policy : ℤ) :
    c.policyClass (c.policyClass policy).1 = c.policyClass policy := by
  unfold Config.policyClass
  split
  · rfl
  · split <;> rfl

/-- The policies in use. -/
theorem PolicyOk.cases (h : PolicyOk c s) (q : ℕ) :
    ((s.task q).policy = reschSchedFp ∧ (s.task q).cls = .fp) ∨
      ((s.task q).policy = reschSchedEdf ∧ (s.task q).cls = c.edfSchedClass) ∨
      ((s.task q).policy = reschSchedFair ∧ (s.task q).cls = .fair) := by
  have hq := h q
  unfold Config.policyClass at hq
  split at hq
  · exact Or.inl ⟨‹_›, (Prod.mk.inj hq).2.symm⟩
  · split at hq
    · exact Or.inr (Or.inl ⟨‹_›, (Prod.mk.inj hq).2.symm⟩)
    · obtain ⟨hp, hc⟩ := Prod.mk.inj hq
      exact Or.inr (Or.inr ⟨hp.symm, hc.symm⟩)

/-- Without `SCHED_DEADLINE` no task has its class. -/
theorem PolicyOk.not_deadline (h : PolicyOk c s) (hc : c.schedDeadline = false) (q : ℕ) :
    (s.task q).cls ≠ .deadline := by
  rcases h.cases q with ⟨-, hq⟩ | ⟨-, hq⟩ | ⟨-, hq⟩ <;> rw [hq]
  · decide
  · simp [Config.edfSchedClass, hc]
  · decide

/-! ## Hooks -/

theorem Updates.sameAll (h : Updates rt s s') (q : ℕ) : (s.task q).Same (s'.task q) := by
  by_cases hq : q = rt
  · subst hq; exact h.same
  · rw [h.task_of_ne hq]; exact ⟨rfl, rfl, rfl, rfl⟩

theorem same_link (s : State) (rt cpu : ℕ) (idx : ℤ) (ins : List ℕ → List ℕ) (q : ℕ) :
    (s.task q).Same ((s.link rt cpu idx ins).task q) := by
  by_cases hq : q = rt
  · subst hq; rw [task_link_self]; exact ⟨rfl, rfl, rfl, rfl⟩
  · rw [task_link_of_ne hq]; exact ⟨rfl, rfl, rfl, rfl⟩

/-- An enqueue, of an active task also. -/
theorem same_classEnqueueTask (q : ℕ) : (s.task q).Same ((classEnqueueTask s rt prio cpu).task q) := by
  unfold classEnqueueTask
  split
  · exact ⟨rfl, rfl, rfl, rfl⟩
  · exact same_link s rt cpu (prioIndex prio) (· ++ [rt]) q
  · exact (same_link s rt cpu (prioIndex prio) _ q).trans ((Updates.refl _).setPrio.sameAll q)
  · exact same_link s rt cpu (prioIndex prio) _ q

/-- A job start, of an active task also. -/
theorem same_jobStart (q : ℕ) : (s.task q).Same ((jobStart c s rt).task q) := by
  have h₁ : (s.task q).Same ((classJobStart s rt).task q) := by
    unfold classJobStart
    split
    · exact ⟨rfl, rfl, rfl, rfl⟩
    · exact same_link s rt _ (prioIndex (s.task rt).prio) (· ++ [rt]) q
    · have hl : (s.task q).Same ((Edf.edfEnqueueTask s rt reschPrioEdf (s.task rt).cpuId).task q) :=
        (same_link s rt _ (prioIndex reschPrioEdf) _ q).trans ((Updates.refl _).setPrio.sameAll q)
      unfold Edf.edfJobStart ifSome
      dsimp only
      split
      · split <;> exact hl
      · exact hl
    · exact same_link s rt _ (prioIndex reschPrioEdf) (deadlineInsert s rt) q
  unfold jobStart
  dsimp only
  split
  · exact h₁.trans ((Updates.refl _).startAccount.sameAll q)
  · exact h₁

theorem same_jobRelease (h : jobRelease c s rt = some s') (q : ℕ) :
    (s.task q).Same (s'.task q) := by
  rw [jobRelease_eq h]
  exact ((Updates.refl s).released.sameAll q).trans (same_jobStart q)

/-- A call that consists of hooks of one task writes no policy and no class. -/
theorem ApiOp.sameAll {op : ApiOp} (hop : op.hookOf = some rt) (hen : op.enabled s = true)
    (h : op.exec c k s = some s') (q : ℕ) : (s.task q).Same (s'.task q) := by
  cases op with
  | release rt =>
    obtain ⟨s₁, h₁, rfl⟩ := Option.map_eq_some_iff.1 h
    exact same_jobRelease h₁ q
  | resume rt =>
    cases h
    exact same_classEnqueueTask q
  | _ =>
    obtain ⟨s₁, p, hu, rfl, -⟩ := ApiOp.updates hop hen trivial h
    exact hu.sameAll q

theorem point_jobRelease (h : jobRelease c s rt = some s') : s'.point = s.point := by
  have hclass : ∀ s₁ : State, (classJobStart s₁ rt).point = s₁.point := by
    intro s₁
    unfold classJobStart
    split
    · rfl
    · rfl
    · unfold Edf.edfJobStart ifSome
      dsimp only
      split
      · split <;> rfl
      · rfl
    · rfl
  rw [jobRelease_eq h]
  refine Eq.trans ?_ (hclass (releasedState s rt))
  unfold jobStart
  dsimp only
  split
  · exact (Updates.refl _).startAccount.rest.1
  · rfl

theorem point_classEnqueueTask : (classEnqueueTask s rt prio cpu).point = s.point := by
  unfold classEnqueueTask
  split <;> rfl

/-- A call of one task that does not leave moves no other process, and detaches none. -/
theorem ApiOp.point {op : ApiOp} (hop : op.hookOf = some rt) (hen : op.enabled s = true)
    (h : op.exec c k s = some s') :
    (∀ q, q ≠ rt → s'.point q = s.point q) ∧ s'.point rt ≠ .detached := by
  have placed : ∀ {s₁ : State} {p : Point}, s₁.point = s.point → p ≠ .detached →
      (∀ q, q ≠ rt → (s₁.setPoint rt p).point q = s.point q) ∧
        (s₁.setPoint rt p).point rt ≠ .detached := by
    intro s₁ p h₁ hp
    refine ⟨fun q hq => ?_, ?_⟩
    · rw [point_setPoint_of_ne p hq, h₁]
    · rw [point_setPoint_self]; exact hp
  cases op with
  | release q =>
    cases hop
    obtain ⟨s₁, h₁, rfl⟩ := Option.map_eq_some_iff.1 h
    exact placed (point_jobRelease h₁) (by decide)
  | resume q =>
    cases hop; cases h
    exact placed point_classEnqueueTask (by decide)
  | _ =>
    obtain ⟨s₁, p, hu, rfl, hp⟩ := ApiOp.updates hop hen trivial h
    exact placed hu.rest.1 hp

/-! ## Calls on components -/

/-- Only components, their map, and the heads linked into them differ. -/
structure ComponentOnly (s s' : State) : Prop where
  task : ∀ q, ∃ b, s'.task q = { s.task q with componentEntry := b }
  taskList : s'.taskList = s.taskList
  point : s'.point = s.point

theorem ComponentOnly.refl (s : State) : ComponentOnly s s :=
  ⟨fun q => ⟨(s.task q).componentEntry, rfl⟩, rfl, rfl⟩

theorem componentOnly_entry (component : ℕ → Component) (b : Bool) :
    ComponentOnly s ({ s with component := component }.setTask rt fun t =>
      { t with componentEntry := b }) := by
  refine ⟨fun q => ?_, rfl, rfl⟩
  by_cases hq : q = rt
  · subst hq; exact ⟨b, task_setTask_self _⟩
  · exact ⟨(s.task q).componentEntry, task_setTask_of_ne _ hq⟩

def ApiOp.onComponents : ApiOp → Bool
  | componentCreate | componentDestroy _ | compose _ _ | decompose _ => true
  | _ => false

theorem componentOnly_exec {op : ApiOp} (hop : op.onComponents = true)
    (h : op.exec c k s = some s') : ComponentOnly s s' := by
  cases op with
  | componentCreate =>
    cases h
    unfold apiComponentCreate
    dsimp only
    split <;> exact ⟨fun q => ⟨(s.task q).componentEntry, rfl⟩, rfl, rfl⟩
  | componentDestroy cid =>
    cases h
    exact ⟨fun q => ⟨(s.task q).componentEntry, rfl⟩, rfl, rfl⟩
  | compose rt cid =>
    obtain ⟨⟨s₁, res⟩, h₁, rfl⟩ := Option.map_eq_some_iff.1 h
    unfold apiCompose at h₁
    split at h₁
    · cases h₁; exact .refl s
    split at h₁
    · cases h₁
    split at h₁
    · cases h₁; exact .refl s
    split at h₁
    · cases h₁; exact .refl s
    split at h₁
    · cases h₁
    obtain ⟨rfl, -⟩ := Prod.mk.inj (Option.some.inj h₁)
    exact componentOnly_entry _ _
  | decompose rt =>
    cases h
    unfold apiDecompose
    split
    · exact componentOnly_entry _ _
    · exact .refl s
  | _ => cases hop

/-! ## Calls that write policy and class -/

theorem PolicyOk.setPolicy (h : PolicyOk c s) (rt : ℕ) (policy : ℤ) :
    PolicyOk c (setPolicy c s rt policy) := by
  intro q
  by_cases hq : q = rt
  · subst hq
    unfold Resch.setPolicy
    split
    · rw [task_setTask_self]
      exact policyClass_idem c policy
    · exact h q
  · rw [(setPolicy_rest c s rt policy).task_of_ne q hq]
    exact h q

theorem PolicyOk.setScheduler (h : PolicyOk c s) (k : Kernel) (rt : ℕ) (policy prio : ℤ) :
    PolicyOk c (setScheduler c k s rt policy prio).1 :=
  (h.setPolicy rt policy).of_same (setScheduler_updates c k s rt policy prio).sameAll

theorem PolicyOk.init (h : PolicyOk c s) (k : Kernel) (rt current : ℕ) :
    PolicyOk c (reschTaskInit c k s rt current) := by
  obtain ⟨t, proc, heq, ht, -⟩ := reschTaskInit_eq c k s rt current
  intro q
  rw [heq]
  by_cases hq : q = rt
  · subst hq
    simp only [Function.update_self]
    rw [ht.policy, ht.cls]
    rfl
  · simp only [Function.update_of_ne hq]
    exact h q

theorem PolicyOk.exit (h : PolicyOk c s) (k : Kernel) (rt : ℕ) : PolicyOk c (apiExit c k s rt).1 := by
  have h₁ : PolicyOk c (apiExitClear (apiExitDetach c k s rt) rt) :=
    h.of_same (apiExitDetach_updates c k s rt).sameAll
  unfold apiExit apiExitPolicy
  dsimp only
  split
  · exact h₁.setScheduler k rt _ _
  · exact h₁

theorem PolicyOk.apiSetScheduler (h : PolicyOk c s) (k : Kernel) (rt : ℕ) (policy : ℤ) :
    PolicyOk c (apiSetScheduler c k s rt policy).1 := by
  by_cases hpol : policy = (s.task rt).policy
  · have : (Resch.apiSetScheduler c k s rt policy).1 = s := by simp [Resch.apiSetScheduler, hpol]
    rw [this]; exact h
  · rw [apiSetScheduler_of_ne hpol]
    exact h.setScheduler k rt policy _

/-! ## The step lemma -/

theorem PolicyOk.step (h : PolicyOk c s) {op : ApiOp} (hen : op.enabled s = true)
    (hs : op.exec c k s = some s') : PolicyOk c s' := by
  rcases ho : op.hookOf with _ | rt
  swap
  · exact h.of_same (ApiOp.sameAll ho hen hs)
  cases op with
  | init rt current =>
    cases hs
    exact h.init k rt current
  | exit rt =>
    cases hs
    exact h.exit k rt
  | setScheduler rt policy =>
    cases hs
    exact h.apiSetScheduler k rt policy
  | componentCreate | componentDestroy cid | compose rt cid | decompose rt =>
    intro q
    obtain ⟨b, hb⟩ := (componentOnly_exec (by rfl) hs).task q
    rw [hb]
    exact h q
  | linux jiffies proc =>
    cases hs
    exact h
  | _ => cases ho

/-- After `sched_init`. -/
theorem schedInit_policyOk (c : Config) (jiffies : ℕ) (proc : ℕ → Proc) :
    PolicyOk c (schedInit jiffies proc) := fun _ => rfl

end Resch
