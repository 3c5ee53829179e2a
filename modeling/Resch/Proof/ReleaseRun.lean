import Resch.Proof.Unwritten
import Resch.Spec.ReleaseRun

/-!
# Whether `job_release` returns

The loop of `job_release` tests `rt->runtime`, which its body does not write.

* `returns_iff`: a task comes back iff it is not an EDF task of a `SCHED_DEADLINE` build without a
  runtime.
* `always_returns_iff`: in a run, every task that sleeps in `job_release` will come back iff each
  `api_run`, `api_wait_for_period` and `api_wait_for_interval` is made by a task with a runtime, or
  whose policy after `task_run` is not EDF.
-/

namespace Resch

open Lib

variable {c : Config} {k : Kernel} {s s' : State} {rt q : ℕ} {policy prio : ℤ} {now : ℕ → ℕ}
  {turns : ℕ}

/-! ## The loop -/

/-- The fields that the loop depends on. -/
def Task.loopOn (t : Task) : ℤ × ℕ := (t.policy, t.runtime)

/-- The loop is entered, and never left. -/
def Task.Loops (c : Config) (t : Task) : Prop :=
  c.schedDeadline = true ∧ t.policy = reschSchedEdf ∧ t.runtime = 0

theorem loops_congr {t t' : Task} (h : t'.loopOn = t.loopOn) : t'.Loops c ↔ t.Loops c := by
  obtain ⟨hp, hr⟩ := Prod.mk.inj h
  unfold Task.Loops
  rw [hp, hr]

/-- **A task comes back** from `job_release`, whenever the turns are made. -/
def Returns (c : Config) (s : State) (rt : ℕ) : Prop :=
  ∀ now, ∃ turns s', jobReleaseTurns c now turns s rt = some s'

/-- Without a runtime no number of turns is enough. -/
theorem releaseLoop_none : ∀ (turns : ℕ) {s : State}, (s.task rt).runtime = 0 →
    releaseLoop rt now turns s = none := by
  intro turns
  induction turns with
  | zero => exact fun _ => rfl
  | succ turns ih =>
    intro s h
    unfold releaseLoop
    rw [if_pos h.le]
    refine ih ?_
    -- the body writes the deadline and the release time only
    unfold releaseTurn
    rw [task_setTask_self]
    exact h

theorem releaseLoop_some (h : (s.task rt).runtime ≠ 0) : releaseLoop rt now (turns + 1) s = some s :=
  if_neg (by omega)

/-- `jobReleaseDone` is what `job_release` does with enough turns. -/
theorem jobReleaseTurns_iff : (∃ turns, jobReleaseTurns c now turns s rt = some s') ↔
    jobReleaseDone c s rt = some s' := by
  unfold jobReleaseTurns jobReleaseDone
  dsimp only
  generalize ((resetExecTime (setRunState s rt .running) rt).setTask rt fun t =>
    { t with deadlineTime := t.releaseTime + t.deadline }) = s₁
  by_cases hedf : c.schedDeadline = true ∧ (s₁.task rt).policy = reschSchedEdf
  · simp only [if_pos hedf]
    by_cases h0 : (s₁.task rt).runtime = 0
    · rw [if_pos ⟨hedf.1, hedf.2, h0⟩]
      constructor
      · rintro ⟨turns, h⟩
        rw [releaseLoop_none turns h0] at h
        cases h
      · intro h
        cases h
    · rw [if_neg fun h => h0 h.2.2]
      constructor
      · rintro ⟨turns, h⟩
        cases turns with
        | zero => cases h
        | succ turns => rwa [releaseLoop_some h0] at h
      · intro h
        exact ⟨1, (releaseLoop_some h0).trans h⟩
  · simp only [if_neg hedf]
    rw [if_neg fun h => hedf ⟨h.1, h.2.1⟩]
    exact ⟨fun ⟨_, h⟩ => h, fun h => ⟨0, h⟩⟩

theorem loopOn_unwritten : Unwritten Task.loopOn := by
  constructor <;> exact fun _ _ => rfl

/-- **A task comes back** unless it is an EDF task without a runtime. -/
theorem returns_iff : Returns c s rt ↔ ¬ (s.task rt).Loops c := by
  have hpart : (releasedState s rt).part Task.loopOn = s.part Task.loopOn :=
    loopOn_unwritten.releasedState
  have hloops : ((releasedState s rt).task rt).Loops c ↔ (s.task rt).Loops c :=
    loops_congr (congrFun (congrArg Prod.fst hpart) rt)
  have hdone : (∃ s', jobReleaseDone c s rt = some s') ↔
      ¬ ((releasedState s rt).task rt).Loops c := by
    constructor
    · rintro ⟨s', h⟩ hl
      have hnone : jobReleaseDone c s rt = none := if_pos hl
      rw [hnone] at h
      cases h
    · intro hl
      exact ⟨_, if_neg hl⟩
  rw [← hloops, ← hdone]
  constructor
  · intro h
    obtain ⟨turns, s', ht⟩ := h fun _ => 0
    exact ⟨s', jobReleaseTurns_iff.1 ⟨turns, ht⟩⟩
  · rintro ⟨s', h⟩ now
    obtain ⟨turns, ht⟩ := jobReleaseTurns_iff.2 h
    exact ⟨turns, s', ht⟩

/-! ## What a step does to the other tasks, and to sleeping ones -/

/-- The task is asleep in `job_release` in both states, and its policy and runtime are the same. -/
structure Slept (q : ℕ) (s s' : State) : Prop where
  point : s.point q = .release
  loopOn : (s'.task q).loopOn = (s.task q).loopOn

/-- Policy, runtime and point of a task are as before. -/
theorem slept_of_part (h : s'.part Task.loopOn = s.part Task.loopOn) (hq : s'.point q = .release) :
    Slept q s s' :=
  ⟨(congrFun (congrArg Prod.snd h) q).symm.trans hq, congrFun (congrArg Prod.fst h) q⟩

/-- The same, where the process of another task goes elsewhere. -/
theorem slept_setPoint {p : Point} (h : s'.part Task.loopOn = s.part Task.loopOn)
    (hp : p ≠ .release ∨ q ≠ rt) (hq : (s'.setPoint rt p).point q = .release) :
    Slept q s (s'.setPoint rt p) := by
  by_cases hqrt : q = rt
  · subst hqrt
    rw [point_setPoint_self] at hq
    rcases hp with hp | hp
    · exact absurd hq hp
    · exact absurd rfl hp
  · rw [point_setPoint_of_ne p hqrt] at hq
    obtain ⟨hpt, ht⟩ := slept_of_part h hq
    exact ⟨hpt, ht⟩

/-- A step of a process in its own code that writes its own descriptor. -/
theorem slept_of_user (hu : s.point rt = .user) (ht : ∀ q, q ≠ rt → s'.task q = s.task q)
    (hp : s'.point = s.point) (hq : s'.point q = .release) : Slept q s s' := by
  rw [hp] at hq
  have hne : q ≠ rt := by
    rintro rfl
    rw [hu] at hq
    cases hq
  exact ⟨hq, congrArg Task.loopOn (ht q hne)⟩

/-- The task whose process goes to sleep in `job_release`. -/
def ApiOp.sleeper : ApiOp → Option ℕ
  | run rt _ | waitForPeriod rt | waitForInterval rt _ => some rt
  | _ => none

theorem part_reserveStart (cputime : ℕ) (xcpu : Bool) :
    (apiReserveStart c s rt cputime xcpu).1.part Task.loopOn = s.part Task.loopOn := by
  unfold apiReserveStart reserveStart
  split
  · rfl
  · exact (loopOn_unwritten.startAccount fun _ _ => rfl).trans (part_setTask rfl)

theorem part_reserveStop : (reserveStop c s rt).part Task.loopOn = s.part Task.loopOn := by
  unfold reserveStop
  exact (part_setTask rfl).trans
    ((loopOn_unwritten.stopAccount fun _ _ => rfl).trans (part_setTask rfl))

theorem part_reserveExpire :
    (apiReserveExpire c k s rt).1.part Task.loopOn = s.part Task.loopOn := by
  unfold apiReserveExpire
  split
  · rfl
  dsimp only
  have hstop : (if s.isAccounting rt = true then stopAccount c s rt else s).part Task.loopOn =
      s.part Task.loopOn := by
    split
    · exact loopOn_unwritten.stopAccount fun _ _ => rfl
    · rfl
  generalize (if s.isAccounting rt = true then stopAccount c s rt else s) = s₁ at hstop ⊢
  split
  · exact (loopOn_unwritten.startAccount fun _ _ => rfl).trans
      ((loopOn_unwritten.classReserveReplenish _).trans hstop)
  · dsimp only
    exact (part_setTask rfl).trans (loopOn_unwritten.classReserveExpire.trans hstop)

theorem part_jobRelease (h : jobRelease c s rt = some s') :
    s'.part Task.loopOn = s.part Task.loopOn := by
  rw [jobRelease_eq h]
  exact (loopOn_unwritten.jobStart fun _ _ => rfl).trans loopOn_unwritten.releasedState

/-- A call up to the sleep in `job_release`. -/
theorem part_waitForPeriod :
    (apiWaitForPeriod c k s rt).1.part Task.loopOn = s.part Task.loopOn :=
  (loopOn_unwritten.jobReleaseWait _).trans
    ((loopOn_unwritten.jobComplete (fun _ _ => rfl) fun _ => rfl).trans loopOn_unwritten.deadlineMiss)

theorem part_waitForInterval (period : ℕ) :
    (apiWaitForInterval c k s rt period).1.part Task.loopOn = s.part Task.loopOn :=
  (loopOn_unwritten.jobReleaseWait _).trans
    ((loopOn_unwritten.jobComplete (fun _ _ => rfl) fun _ => rfl).trans loopOn_unwritten.deadlineMiss)

theorem part_apiRun (timeout : ℕ) : (apiRun c s rt timeout).part Task.loopOn = s.part Task.loopOn := by
  have hins : (globalListInsert s rt).part Task.loopOn = s.part Task.loopOn :=
    loopOn_unwritten.globalOnly globalListInsert_only
  unfold apiRun
  dsimp only
  refine (loopOn_unwritten.jobReleaseWait _).trans ?_
  split
  · exact (loopOn_unwritten.globalOnly globalListRemove_only).trans hins
  · exact hins

/-- **What an API call does to tasks asleep in `job_release`**: those that do not go to sleep by it
were asleep before, and their policy and runtime are kept. -/
theorem ApiOp.slept {op : ApiOp} (hen : op.enabled s = true) (h : op.exec c k s = some s')
    (hq : s'.point q = .release) (hs : op.sleeper ≠ some q) : Slept q s s' := by
  have hne : ∀ {rt : ℕ}, op.sleeper = some rt → q ≠ rt := by
    rintro rt hop rfl
    exact hs hop
  cases op with
  | init rt current =>
    cases h
    obtain ⟨t, proc, heq, -, -⟩ := reschTaskInit_eq c k s rt current
    rw [heq] at hq ⊢
    -- `init` leaves `rt` in user mode
    by_cases hqrt : q = rt
    · subst hqrt
      rw [point_setPoint_self] at hq
      cases hq
    · rw [point_setPoint_of_ne _ hqrt] at hq
      refine ⟨hq, congrArg Task.loopOn ?_⟩
      exact Function.update_of_ne hqrt ..
  | exit rt =>
    cases h
    by_cases hqrt : q = rt
    · subst hqrt
      rw [point_setPoint_self] at hq
      cases hq
    · rw [point_setPoint_of_ne _ hqrt, apiExit_point] at hq
      refine ⟨hq, congrArg Task.loopOn ?_⟩
      exact ((apiExitPolicy_rest c k _ rt).1 q hqrt).trans
        ((apiExitDetach_updates c k s rt).task_of_ne hqrt)
  | run rt timeout =>
    cases h
    exact slept_setPoint (part_apiRun timeout) (Or.inr (hne rfl)) hq
  | waitForPeriod rt =>
    cases h
    exact slept_setPoint part_waitForPeriod (Or.inr (hne rfl)) hq
  | waitForInterval rt period =>
    cases h
    exact slept_setPoint (part_waitForInterval period) (Or.inr (hne rfl)) hq
  | release rt =>
    obtain ⟨s₁, h₁, rfl⟩ := Option.map_eq_some_iff.1 h
    exact slept_setPoint (part_jobRelease h₁) (Or.inl (by decide)) hq
  | setPeriod rt period =>
    cases h
    exact slept_of_part (part_setTask rfl) hq
  | setDeadline rt deadline =>
    cases h
    exact slept_of_part (part_setTask rfl) hq
  | setWcet rt wcet =>
    cases h
    exact slept_of_user (of_decide_eq_true hen) (fun q hq => task_setTask_of_ne _ hq) rfl hq
  | setRuntime rt runtime =>
    cases h
    exact slept_of_user (of_decide_eq_true hen) (fun q hq => task_setTask_of_ne _ hq) rfl hq
  | setPriority rt prio =>
    cases h
    exact slept_of_part loopOn_unwritten.apiSetPriority hq
  | background rt =>
    cases h
    exact slept_of_part loopOn_unwritten.apiSetPriority hq
  | setScheduler rt policy =>
    cases h
    -- an equal policy is answered at once
    by_cases hpol : policy = (s.task rt).policy
    · have hcall : (apiSetScheduler c k s rt policy).1 = s := by
        unfold apiSetScheduler
        rw [if_neg (not_not.2 hpol)]
      rw [hcall] at hq ⊢
      exact ⟨hq, rfl⟩
    · rw [apiSetScheduler_of_ne hpol] at hq ⊢
      exact slept_of_user (of_decide_eq_true hen) (fun q hq => setScheduler_task_of_ne hq)
        (setScheduler_rest ..).1 hq
  | reserveStart rt cputime xcpu =>
    cases h
    exact slept_of_part (part_reserveStart cputime xcpu) hq
  | reserveStop rt =>
    cases h
    refine slept_of_part ?_ hq
    unfold apiReserveStop
    split
    · exact part_reserveStop
    · rfl
  | reserveExpire rt =>
    cases h
    exact slept_of_part part_reserveExpire hq
  | replenishTimer rt =>
    cases h
    exact slept_of_part (loopOn_unwritten.onReplenish fun _ => rfl) hq
  | componentCreate => exact slept_of_part (loopOn_unwritten.componentOnly (componentOnly_exec rfl h)) hq
  | componentDestroy cid =>
    exact slept_of_part (loopOn_unwritten.componentOnly (componentOnly_exec rfl h)) hq
  | compose rt cid => exact slept_of_part (loopOn_unwritten.componentOnly (componentOnly_exec rfl h)) hq
  | decompose rt => exact slept_of_part (loopOn_unwritten.componentOnly (componentOnly_exec rfl h)) hq
  | sleep rt =>
    cases h
    exact slept_setPoint (loopOn_unwritten.jobSuspend c k s rt) (Or.inl (by decide)) hq
  | suspend rt =>
    cases h
    exact slept_setPoint ((part_setRunState _).trans (loopOn_unwritten.jobSuspend c k s rt))
      (Or.inl (by decide)) hq
  | resume rt =>
    cases h
    exact slept_setPoint loopOn_unwritten.classEnqueueTask (Or.inl (by decide)) hq
  | wakeUp rt =>
    cases h
    exact slept_of_part part_apiWakeUp hq
  | migrate rt cpu =>
    cases h
    exact slept_of_part loopOn_unwritten.migrateTask hq
  | linux jiffies proc =>
    cases h
    exact ⟨hq, rfl⟩

/-! ## `task_run` -/

/-- The policy that `task_run` asks for. -/
def TaskRun.asks (policy : ℤ) : TaskRun → Option ℤ
  | skip => none
  | assign _ always p _ => if always = true ∨ policy ≠ p then some p else none
  | window _ _ _ => some reschSchedEdf
  | reject => some reschSchedFair
  | submit p _ _ => some p

/-- The policy of the task after `task_run`. -/
def TaskRun.policyAfter (c : Config) (policy : ℤ) (r : TaskRun) : ℤ :=
  (r.asks policy).elim policy fun p => if policy = p then policy else (c.policyClass p).1

/-- What a step did to the fields of `rt`, and that it did nothing to the others. -/
structure LoopOnly (rt : ℕ) (policy : ℤ) (s s' : State) : Prop where
  self : (s'.task rt).loopOn = (policy, (s.task rt).runtime)
  others : ∀ q, q ≠ rt → (s'.task q).loopOn = (s.task q).loopOn
  point : s'.point = s.point

theorem LoopOnly.part {s₁ : State} (h : LoopOnly rt policy s s₁)
    (hp : s'.part Task.loopOn = s₁.part Task.loopOn) : LoopOnly rt policy s s' := by
  have ht : ∀ q, (s'.task q).loopOn = (s₁.task q).loopOn := congrFun (congrArg Prod.fst hp)
  exact ⟨(ht rt).trans h.self, fun q hq => (ht q).trans (h.others q hq),
    (congrArg Prod.snd hp).trans h.point⟩

theorem loopOnly_of_part (hp : s'.part Task.loopOn = s.part Task.loopOn) :
    LoopOnly rt (s.task rt).policy s s' :=
  LoopOnly.part ⟨rfl, fun _ _ => rfl, rfl⟩ hp

/-- `set_scheduler` assigns the policy, whether Linux agrees or not. -/
theorem loopOnly_setScheduler (c : Config) (k : Kernel) (s : State) (rt : ℕ) (p prio : ℤ) :
    LoopOnly rt (if (s.task rt).policy = p then (s.task rt).policy else (c.policyClass p).1) s
      (setScheduler c k s rt p prio).1 := by
  refine LoopOnly.part ?_ (loopOn_unwritten.setScheduler p)
  unfold setPolicy
  by_cases hp : (s.task rt).policy = p
  · rw [if_neg (not_not.2 hp), if_pos hp]
    exact ⟨rfl, fun _ _ => rfl, rfl⟩
  · rw [if_pos hp, if_neg hp]
    refine ⟨?_, fun q hq => congrArg Task.loopOn (task_setTask_of_ne _ hq), rfl⟩
    rw [task_setTask_self]
    rfl

/-- A change of the state beforehand that the loop does not depend on. -/
theorem LoopOnly.of_part {s₁ : State} (h : LoopOnly rt policy s₁ s')
    (hp : s₁.part Task.loopOn = s.part Task.loopOn) : LoopOnly rt policy s s' := by
  have ht : ∀ q, (s₁.task q).loopOn = (s.task q).loopOn := congrFun (congrArg Prod.fst hp)
  refine ⟨h.self.trans ?_, fun q hq => (h.others q hq).trans (ht q),
    h.point.trans (congrArg Prod.snd hp)⟩
  rw [(Prod.mk.inj (ht rt)).2]

/-- Another runtime stands in the descriptor while `set_scheduler` runs. -/
theorem loopOnly_share (c : Config) (k : Kernel) (s : State) (rt : ℕ) (p prio : ℤ) (f : Task → Task)
    (hf : (f (s.task rt)).policy = (s.task rt).policy) :
    LoopOnly rt (if (s.task rt).policy = p then (s.task rt).policy else (c.policyClass p).1) s
      ((setScheduler c k (s.setTask rt f) rt p prio).1.setTask rt fun t =>
        { t with runtime := (s.task rt).runtime }) := by
  have hset := loopOnly_setScheduler c k (s.setTask rt f) rt p prio
  have hpol : ((s.setTask rt f).task rt).policy = (s.task rt).policy := by
    rw [task_setTask_self]
    exact hf
  rw [hpol] at hset
  refine ⟨?_, fun q hq => ?_, hset.point⟩
  · rw [task_setTask_self]
    exact Prod.ext (Prod.mk.inj hset.self).1 rfl
  · rw [task_setTask_of_ne _ hq]
    exact (hset.others q hq).trans (congrArg Task.loopOn (task_setTask_of_ne _ hq))

/-- **What `task_run` leaves**: the policy it asked for, and the runtime as it was. -/
theorem loopOnly_taskRun (c : Config) (k : Kernel) (s : State) (rt : ℕ) (r : TaskRun) :
    LoopOnly rt (r.policyAfter c (s.task rt).policy) s (taskRun c k s rt r) := by
  have hcpu : ∀ cpu, (s.setCpu rt cpu).part Task.loopOn = s.part Task.loopOn := fun cpu =>
    loopOn_unwritten.setCpu
  have hpol : ∀ cpu, ((s.setCpu rt cpu).task rt).policy = (s.task rt).policy := by
    intro cpu
    exact congrArg Prod.fst (congrFun (congrArg Prod.fst (hcpu cpu)) rt)
  cases r with
  | skip => exact loopOnly_of_part rfl
  | assign cpu always p prio =>
    unfold taskRun TaskRun.policyAfter TaskRun.asks
    dsimp only
    refine LoopOnly.part ?_ (loopOn_unwritten.migrateTask.trans (part_setTask rfl))
    rw [hpol cpu]
    split
    · have hset := loopOnly_setScheduler c k (s.setCpu rt cpu) rt p prio
      rw [hpol cpu] at hset
      exact hset.of_part (hcpu cpu)
    · exact loopOnly_of_part (hcpu cpu)
  | window cpu deadline share =>
    unfold taskRun TaskRun.policyAfter TaskRun.asks
    dsimp only
    refine LoopOnly.part ?_ (loopOn_unwritten.migrateTask.trans (part_setTask rfl))
    have hshare := loopOnly_share c k (s.setCpu rt cpu) rt reschSchedEdf
      (((s.setCpu rt cpu).setTask rt fun t =>
        { t with deadline := deadline, runtime := share }).task rt).prio
      (fun t => { t with deadline := deadline, runtime := share }) rfl
    rw [hpol] at hshare
    exact hshare.of_part (hcpu cpu)
  | reject =>
    have hset := loopOnly_setScheduler c k (s.setCpu rt c.reschCpuUndefined) rt reschSchedFair 0
    rw [hpol] at hset
    exact hset.of_part (hcpu _)
  | submit p prio cpu =>
    exact (loopOnly_setScheduler c k s rt p prio).part loopOn_unwritten.migrateTask

theorem loopOnly_apiRunPlugin (c : Config) (k : Kernel) (s : State) (rt timeout : ℕ) (r : TaskRun) :
    LoopOnly rt (r.policyAfter c (s.task rt).policy) s (apiRunPlugin c k s rt timeout r) := by
  have hins : (globalListInsert s rt).part Task.loopOn = s.part Task.loopOn :=
    loopOn_unwritten.globalOnly globalListInsert_only
  have hpol : ((globalListInsert s rt).task rt).policy = (s.task rt).policy :=
    (Prod.mk.inj (congrFun (congrArg Prod.fst hins) rt)).1
  have hrun := loopOnly_taskRun c k (globalListInsert s rt) rt r
  rw [hpol] at hrun
  refine (hrun.of_part hins).part ?_
  unfold apiRunPlugin
  dsimp only
  refine (loopOn_unwritten.jobReleaseWait _).trans ?_
  split
  · exact loopOn_unwritten.globalOnly globalListRemove_only
  · rfl

/-! ## Runs -/

/-- Every task asleep in `job_release` will come back. -/
def AllReturn (c : Config) (s : State) : Prop := ∀ rt, s.point rt = .release → Returns c s rt

/-- A task that calls `api_run` or waits for its next job has a runtime, or a policy that is not EDF:
the one that it has, or the one that `task_run` gives it. -/
def Provided (c : Config) (s : State) (a : ReleaseOp × Kernel) : Prop :=
  match a.1 with
  | .api op => ∀ rt, op.sleeper = some rt → ¬ (s.task rt).Loops c
  | .run rt _ r => ¬ ({ s.task rt with policy := r.policyAfter c (s.task rt).policy } : Task).Loops c
  | .plugin _ _ _ => True

/-- The task that goes to sleep keeps policy and runtime. -/
theorem ApiOp.slept_self {op : ApiOp} (h : op.exec c k s = some s') (hs : op.sleeper = some rt) :
    s'.point rt = .release ∧ (s'.task rt).loopOn = (s.task rt).loopOn := by
  cases op with
  | run q timeout =>
    cases hs
    cases h
    exact ⟨point_setPoint_self _, congrFun (congrArg Prod.fst (part_apiRun timeout)) rt⟩
  | waitForPeriod q =>
    cases hs
    cases h
    exact ⟨point_setPoint_self _, congrFun (congrArg Prod.fst part_waitForPeriod) rt⟩
  | waitForInterval q period =>
    cases hs
    cases h
    exact ⟨point_setPoint_self _, congrFun (congrArg Prod.fst (part_waitForInterval period)) rt⟩
  | _ => cases hs

/-- One step -/
theorem AllReturn.step_iff (h : AllReturn c s) {a : ReleaseOp × Kernel}
    (hs : releaseStep c s a = some s') : AllReturn c s' ↔ Provided c s a := by
  obtain ⟨op, k⟩ := a
  unfold releaseStep at hs
  split at hs
  swap
  · cases hs
  rename_i hen
  have kept : ∀ {q : ℕ}, Slept q s s' → Returns c s' q := by
    rintro q ⟨hpt, hloop⟩
    rw [returns_iff, loops_congr hloop]
    exact returns_iff.1 (h q hpt)
  cases op with
  | api op =>
    constructor
    · intro hall rt hsl
      obtain ⟨hpt, hloop⟩ := ApiOp.slept_self hs hsl
      rw [← loops_congr hloop]
      exact returns_iff.1 (hall rt hpt)
    · intro hprov q hq
      by_cases hsl : op.sleeper = some q
      · rw [returns_iff, loops_congr (ApiOp.slept_self hs hsl).2]
        exact hprov q hsl
      · exact kept (ApiOp.slept hen hs hq hsl)
  | run rt timeout r =>
    cases hs
    obtain ⟨hself, hothers, hpoint⟩ := loopOnly_apiRunPlugin c k s rt timeout r
    have hloops : (((apiRunPlugin c k s rt timeout r).setPoint rt .release).task rt).Loops c ↔
        ({ s.task rt with policy := r.policyAfter c (s.task rt).policy } : Task).Loops c :=
      loops_congr hself
    constructor
    · intro hall hl
      exact returns_iff.1 (hall rt (point_setPoint_self _)) (hloops.2 hl)
    · intro hprov q hq
      by_cases hqrt : q = rt
      · subst hqrt
        rw [returns_iff, hloops]
        exact hprov
      · rw [point_setPoint_of_ne _ hqrt, hpoint] at hq
        exact kept ⟨hq, hothers q hqrt⟩
  | plugin rt policy prio =>
    cases hs
    refine iff_of_true (fun q hq => kept ?_) trivial
    exact slept_of_user (of_decide_eq_true hen) (fun q hq => setScheduler_task_of_ne hq)
      (setScheduler_rest ..).1 hq

/-- **Every task comes back from `job_release`** iff each `api_run` and each wait is made by a task
that has a runtime, or whose policy is not EDF. -/
theorem always_returns_iff (c : Config) (jiffies : ℕ) (proc : ℕ → Proc)
    (ops : List (ReleaseOp × Kernel)) :
    Always (releaseStep c) (AllReturn c) (schedInit jiffies proc) ops ↔
      Each (releaseStep c) (Provided c) (schedInit jiffies proc) ops := by
  refine @always_iff_each _ _ (releaseStep c) (fun _ => True) (AllReturn c) (Provided c)
    (fun _ _ _ _ _ _ _ => trivial) (fun s a s' _ hall hs => hall.step_iff hs) ops _ trivial ?_
  intro rt h
  cases h

/-- The task `0` is asleep in `job_release`, and will enter the loop. -/
def stuck (s : State) : Bool :=
  decide (s.point 0 = .release) && decide ((s.task 0).policy = reschSchedEdf) &&
    decide ((s.task 0).runtime = 0)

theorem not_always_returns {start : State} {ops : List (ReleaseOp × Kernel)}
    (h : (final (releaseStep (.small true)) start ops).any stuck = true) :
    ¬ Always (releaseStep (.small true)) (AllReturn (.small true)) start ops := by
  intro hall
  obtain ⟨s, hs, hst⟩ := hall.final_test stuck h
  simp only [stuck, Bool.and_eq_true, decide_eq_true_eq] at hst
  exact returns_iff.1 (hs 0 hst.1.1) ⟨rfl, hst.1.2, hst.2⟩

/-- A task without any parameters that is refused EDF calls `api_run`; so does one that EDF-FF takes
for schedulable. Neither returns. -/
theorem always_returns_not :
    ¬ Always (releaseStep (.small true)) (AllReturn (.small true)) (schedInit 0 fun _ => .fair)
      [(.api (.init 0 1), .accepting), (.api (.setScheduler 0 reschSchedEdf), .refusing),
        (.api (.run 0 0), .accepting)] ∧
    ¬ Always (releaseStep (.small true)) (AllReturn (.small true)) (schedInit 0 fun _ => .fair)
      [(.api (.init 0 1), .accepting), (.api (.setPeriod 0 100), .accepting),
        (.run 0 0 (.assign 0 false reschSchedEdf 1), .accepting)] :=
  ⟨not_always_returns (by decide +kernel), not_always_returns (by decide +kernel)⟩

end Resch
