import Resch.Proof.ApiHooks
import Resch.Spec.AcctRun

/-!
# The calls with their hooks are the calls

With a plugin that does nothing, recording the accounting hooks changes nothing
(`acctExec_core`).
-/

namespace Resch

variable {c : Config} {k : Kernel} {s : AcctState} {rt cpu : ℕ}

/-- `core` is the state without the record of the hooks. -/
@[simp] theorem core_on (f : State → State) : (s.on f).core = f s.core := rfl

@[simp] theorem core_record (e : AcctEvent) : (s.record e).core = s.core := rfl

/-- The event that is recorded is not part of `core`. -/
@[simp] theorem startAccount_core : (s.startAccount c rt).core = startAccount c s.core rt := by
  unfold AcctState.startAccount Resch.startAccount
  split <;> rfl

@[simp] theorem stopAccount_core : (s.stopAccount c rt).core = stopAccount c s.core rt := by
  unfold AcctState.stopAccount Resch.stopAccount
  dsimp only
  split <;> rfl

/-- Two events are recorded besides. -/
@[simp] theorem restartAccount_core {cls : SchedClass} {stop start : State → ℕ → State} :
    (s.restartAccount rt cls stop start).core = restartAccount stop start s.core rt := by
  unfold AcctState.restartAccount Resch.restartAccount
  split <;> rfl

/-- In each class, migration stops and restarts accounting. -/
theorem fpMigrateTask_core : (s.fpMigrateTask c rt cpu).core = fpMigrateTask c s.core rt cpu := by
  unfold AcctState.fpMigrateTask Resch.fpMigrateTask
  simp only [core_on, restartAccount_core, apply_ite AcctState.core]

theorem edfMigrateTask_core :
    (s.edfMigrateTask c rt cpu).core = Edf.edfMigrateTask c s.core rt cpu := by
  unfold AcctState.edfMigrateTask Edf.edfMigrateTask
  simp only [core_on, restartAccount_core, apply_ite AcctState.core]

theorem deadlineMigrateTask_core :
    (s.deadlineMigrateTask c rt cpu).core = Deadline.edfMigrateTask c s.core rt cpu := by
  unfold AcctState.deadlineMigrateTask Deadline.edfMigrateTask
  simp only [core_on, restartAccount_core, apply_ite AcctState.core]

/-- Each class has its function. -/
theorem migrateTask_core : (s.migrateTask c rt cpu).core = migrateTask c s.core rt cpu := by
  unfold AcctState.migrateTask Resch.migrateTask
  cases (s.core.task rt).cls with
  | fair => rfl
  | fp => exact fpMigrateTask_core
  | edf => exact edfMigrateTask_core
  | deadline => exact deadlineMigrateTask_core

/-- The plugin makes no calls. -/
@[simp] theorem plugin_nil : s.plugin c k [] = s := rfl

/-- The class, the plugin's calls, of which there are none, and the account -/
theorem jobStart_core : (s.jobStart c k rt []).core = jobStart c s.core rt := by
  unfold AcctState.jobStart Resch.jobStart
  dsimp only
  rw [plugin_nil, apply_ite AcctState.core]
  simp only [core_on, startAccount_core]

@[simp] theorem jobComplete_core :
    (s.jobComplete c k rt []).core = jobComplete c k s.core rt := by
  unfold AcctState.jobComplete Resch.jobComplete
  dsimp only
  rw [plugin_nil, apply_ite AcctState.core]
  simp only [core_on, stopAccount_core]

@[simp] theorem reserveStop_core : (s.reserveStop c rt).core = reserveStop c s.core rt := by
  unfold AcctState.reserveStop Resch.reserveStop
  simp only [core_on, core_record, stopAccount_core]

/-- A task that is active is accounted for at once. -/
theorem apiReserveStart_core (cputime : ℕ) (xcpu : Bool) :
    (s.apiReserveStart c rt cputime xcpu).core = (apiReserveStart c s.core rt cputime xcpu).1 := by
  unfold AcctState.apiReserveStart AcctState.reserveStart Resch.apiReserveStart Resch.reserveStart
  simp only [core_on, startAccount_core, apply_ite AcctState.core, apply_ite Prod.fst]

theorem apiReserveStop_core : (s.apiReserveStop c rt).core = (apiReserveStop c s.core rt).1 := by
  unfold AcctState.apiReserveStop Resch.apiReserveStop
  simp only [reserveStop_core, apply_ite AcctState.core, apply_ite Prod.fst]

/-- The state after the stop is the same in both, whether or not one was needed. -/
theorem apiReserveExpire_core :
    (s.apiReserveExpire c k rt).core = (apiReserveExpire c k s.core rt).1 := by
  have hstop : (if s.core.isAccounting rt = true then s.stopAccount c rt else s).core =
      if s.core.isAccounting rt = true then stopAccount c s.core rt else s.core := by
    rw [apply_ite AcctState.core, stopAccount_core]
  unfold AcctState.apiReserveExpire Resch.apiReserveExpire
  dsimp only
  rw [← hstop]
  split
  · rfl
  rw [apply_ite AcctState.core, apply_ite Prod.fst, startAccount_core]
  rfl

/-- The job is completed and the reserve stopped only if there is one. -/
theorem apiExit_core :
    (s.apiExit c k rt .default).core = (apiExit c k s.core rt).1 := by
  have hjob : (if s.core.isActive rt = true then s.jobComplete c k rt [] else s).core =
      if s.core.isActive rt = true then jobComplete c k s.core rt else s.core := by
    rw [apply_ite AcctState.core, jobComplete_core]
  have hstop : ∀ s : AcctState, (if s.core.hasReserve rt = true then s.reserveStop c rt else s).core =
      if s.core.hasReserve rt = true then reserveStop c s.core rt else s.core := by
    intro s
    rw [apply_ite AcctState.core, reserveStop_core]
  unfold AcctState.apiExit PluginCalls.default Resch.apiExit apiExitDetach
  dsimp only
  rw [plugin_nil, ← hjob, ← hstop]
  rfl

theorem apiRun_core (timeout : ℕ) :
    (s.apiRun c k rt timeout []).core = apiRun c s.core rt timeout := by
  unfold AcctState.apiRun Resch.apiRun
  dsimp only
  rw [plugin_nil]
  rfl

/-- `api_wait_for_period` and `api_wait_for_interval` differ in the release time. -/
theorem waitFor_core (release : State → ℕ) : (s.waitFor c k rt [] release).core =
    jobReleaseWait (jobComplete c k (deadlineMiss s.core rt).1 rt) rt
      (release (jobComplete c k (deadlineMiss s.core rt).1 rt)) := by
  unfold AcctState.waitFor
  simp only [core_on, jobComplete_core]

/-- The release that comes in time starts a job. -/
theorem jobRelease_core :
    (s.jobRelease c k rt []).map (·.core) = jobRelease c s.core rt := by
  unfold AcctState.jobRelease Resch.jobRelease
  rw [Option.map_map]
  refine Option.map_congr fun core _ => ?_
  exact jobStart_core

/-- **With a plugin that does nothing the calls are those of `ApiOp.exec`.** -/
theorem acctExec_core (c : Config) (k : Kernel) (s : AcctState) (op : ApiOp) :
    (acctExec c k .default s op).map (·.core) = op.exec c k s.core := by
  have other : ∀ r : Option State,
      (r.map fun core => ({ s with core } : AcctState)).map (·.core) = r := by
    intro r
    cases r <;> rfl
  cases op with
  | exit rt => exact congrArg (fun s : State => some (s.setPoint rt .detached)) apiExit_core
  | run rt timeout => exact congrArg (fun s : State => some (s.setPoint rt .release)) (apiRun_core _)
  | waitForPeriod rt =>
    exact congrArg (fun s : State => some (s.setPoint rt .release)) (waitFor_core _)
  | waitForInterval rt period =>
    exact congrArg (fun s : State => some (s.setPoint rt .release)) (waitFor_core _)
  | release rt =>
    unfold acctExec ApiOp.exec
    dsimp only
    rw [← jobRelease_core (k := k), Option.map_map, Option.map_map]
    rfl
  | reserveStart rt cputime xcpu => exact congrArg some (apiReserveStart_core _ _)
  | reserveStop rt => exact congrArg some apiReserveStop_core
  | reserveExpire rt => exact congrArg some apiReserveExpire_core
  | migrate rt cpu => exact congrArg some migrateTask_core
  | _ =>
    unfold acctExec
    exact other _

end Resch
