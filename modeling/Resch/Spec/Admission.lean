import Resch.Spec.EdfFf
import Resch.Spec.FpPmChecked
import Resch.Spec.GlobalPlugin

/-!
# Runs of API calls under an admission plugin

Tasks attach, set their parameters and run. `task_run` of the plugin decides where a task goes, with
checked divisions. `api_run` inserts the task into the global list before, and removes it if it got
the fair policy. Each call of `set_scheduler` comes with the answer of Linux, and each call of
`task_run` with the turns that its loops may have.
-/

namespace Resch.Checked

open Lib

/-- The plugins with an admission test, or a test of the utilisation -/
inductive Plugin
  | edfFf | edfWm | fpFf | fpPm | edfUs | fpUs
  deriving DecidableEq

/-- The state of the core and of the plugin that is loaded -/
structure Admission extends FppmState where
  edfWmTask : ℕ → EdfWmTask
  attached : ℕ → Bool

namespace Admission

variable (c : Config) (s : Admission) (rt : ℕ)

def edfWm : EdfWm := { toTaskSet := s.toTaskSet, edfWmTask := s.edfWmTask }

/-- Change the core's part of the state. -/
def core (f : FppmState → FppmState) : Admission := { s with toFppmState := f s.toFppmState }

def setTask (f : RtTask → RtTask) : Admission := s.core fun t => t.setTask rt (f (t.task rt))

/-- `set_scheduler`, with the answer of Linux. The policy is assigned before Linux is asked; an unknown
one is taken for FAIR. -/
def setScheduler (accepts : Bool) (policy prio : ℤ) : Admission :=
  let policy := if policy = reschSchedFp ∨ policy = reschSchedEdf then policy else reschSchedFair
  if accepts then s.core fun t => t.setScheduler rt policy prio
  else { s with policy := Function.update s.policy rt policy }

/-- `clear_split_task` of the plugins that split tasks -/
def clearSplitTask : Plugin → Admission
  | .edfWm => { s with edfWmTask := Function.update s.edfWmTask rt (EdfWmTask.clear c) }
  | .fpPm => { s with fppmTask := Function.update s.fppmTask rt (FppmTask.clear c) }
  | .edfFf | .fpFf | .edfUs | .fpUs => s

/-- The end of `task_run`: the task goes to the CPU `cpuDst`, with the policy of the plugin, or it
gets the fair policy. -/
def settle (accepts : Bool) (cpuDst : ℕ) (schedule : Admission → Admission) : Admission :=
  if cpuDst ≠ c.cpuUndefined then
    (schedule s).setTask rt fun t => { t with cpuId := cpuDst, migratory := false }
  else s.setScheduler rt accepts reschSchedFair 0

/-- `set_scheduler` for a task that does not have the policy -/
def setPolicy (accepts : Bool) (policy prio : ℤ) (s : Admission) : Admission :=
  if s.policy rt ≠ policy then s.setScheduler rt accepts policy prio else s

end Admission

namespace Plugin

variable (c : Config) (s : Admission) (rt fuel : ℕ) (mask : ℕ → Bool) (accepts : Bool)

def edfFfRun : Except Fault Admission := do
  if (s.task rt).period = 0 then return s
  else
    let cpuDst ← EdfFf.cpuWorstFit c s.toTaskSet rt fuel mask
    let s := s.setTask rt fun t => { t with cpuId := cpuDst }
    return s.settle c rt accepts cpuDst
      (Admission.setPolicy rt accepts reschSchedEdf (s.task rt).prio)

def fpFfRun : Except Fault Admission := do
  if (s.task rt).period = 0 then return s
  else
    let cpuDst ← FpFf.partition c s.toTaskSet rt mask
    let s := s.setTask rt fun t => { t with cpuId := cpuDst }
    return s.settle c rt accepts cpuDst
      (Admission.setPolicy rt accepts reschSchedFp (s.task rt).prio)

def edfWmRun : Except Fault Admission := do
  if (s.task rt).period = 0 then return s
  else
    let s := s.clearSplitTask c rt .edfWm
    let (t, cpuDst) ← EdfWm.place c s.edfWm rt fuel mask
    let et := t.edfWmTask rt
    let s := { s with edfWmTask := Function.update s.edfWmTask rt et }
    let s := s.setTask rt fun t => { t with cpuId := cpuDst }
    return s.settle c rt accepts cpuDst fun s =>
      if 0 < et.deadline then
        (s.setTask rt fun t => { t with deadline := et.deadline }).setScheduler rt accepts
          reschSchedEdf (s.task rt).prio
      else Admission.setPolicy rt accepts reschSchedEdf reschPrioEdf s

def fpPmRun : Except Fault Admission := do
  if (s.task rt).period = 0 then return s
  else
    let s := s.clearSplitTask c rt .fpPm
    let (cpuDst, ft) ← FpPm.place c s.toFppm rt mask
    let s := { s with fppmTask := Function.update s.fppmTask rt ft }
    let s := s.setTask rt fun t => { t with cpuId := cpuDst }
    return s.settle c rt accepts cpuDst fun s =>
      if ft.firstCpu ≠ ft.lastCpu then s.setScheduler rt accepts reschSchedFp fppmPrioMigratory
      else Admission.setPolicy rt accepts reschSchedFp (s.task rt).prio s

/-- `task_run` of EDF-US and FP-US, with the threshold of the plugin -/
def usRun (threshold : ℕ) : Except Fault Admission := do
  let u := cint (← div (c.jiffies (ulong ((s.task rt).wcet * 100))) (s.task rt).period)
  let s := if threshold < u then s.setScheduler rt accepts reschSchedFp pluginPrioHigh else s
  let s := s.setScheduler rt accepts reschSchedFp pluginPrioHigh
  return s.setTask rt fun t => { t with cpuId := pluginCpuMain }

/-- `task_run` -/
def taskRun : Plugin → Except Fault Admission
  | edfFf => edfFfRun c s rt fuel mask accepts
  | edfWm => edfWmRun c s rt fuel mask accepts
  | fpFf => fpFfRun c s rt mask accepts
  | fpPm => fpPmRun c s rt mask accepts
  | edfUs => usRun c s rt accepts (c.nrRtCpus * 100 / (2 * c.nrRtCpus - 1))
  | fpUs => usRun c s rt accepts (c.nrRtCpus * 100 / (3 * c.nrRtCpus - 2))

end Plugin

/-! ## Runs -/

/-- The calls, and what goes on beside them -/
inductive AdmissionOp
  | init (rt : ℕ)
  | exit (rt : ℕ) (accepts : Bool)
  | run (rt fuel : ℕ) (mask : ℕ → Bool) (accepts : Bool)
  | setPeriod (rt period : ℕ)
  | setDeadline (rt deadline : ℕ)
  | setWcet (rt wcet : ℕ)
  | setRuntime (rt runtime : ℕ)
  | setPriority (rt : ℕ) (prio : ℤ) (accepts : Bool)
  | setScheduler (rt : ℕ) (policy : ℤ) (accepts : Bool)
  /-- `job_complete` renews the execution time of the task. -/
  | renewWcet (rt wcet : ℕ)
  /-- A hook of the class writes the priority, and does not move the task in the list. -/
  | writePrio (rt : ℕ) (prio : ℤ)
  /-- A job goes on to another CPU, or `follow_load_balance` finds its task there. -/
  | follow (rt cpu : ℕ)
  /-- The costs are set from user space. -/
  | setCosts (switchCost releaseCost migrationCost : ℕ)

namespace AdmissionOp

/-- `resch_task_init` -/
def initTask (c : Config) (t : RtTask) : RtTask :=
  { t with
    period := 0
    deadline := 0
    wcet := 0
    runtime := 0
    prio := reschPrioMin
    cpuId := c.cpuUndefined
    migratory := true }

/-- The task that a step is about -/
def task : AdmissionOp → Option ℕ
  | init _ | setCosts _ _ _ => none
  | exit rt _ | run rt _ _ _ | setPeriod rt _ | setDeadline rt _ | setWcet rt _ | setRuntime rt _
  | setPriority rt _ _ | setScheduler rt _ _ | renewWcet rt _ | writePrio rt _ | follow rt _ => some rt

/-- A call is made on an id that `api_init` has given, which gives only such as are free. -/
def enabled (s : Admission) : AdmissionOp → Bool
  | init rt => !s.attached rt
  | op => op.task.all s.attached

/-- What a step does. -/
def exec (c : Config) (pl : Plugin) (s : Admission) : AdmissionOp → Except Fault Admission
  | init rt => return { s.setTask rt (initTask c) with
      policy := Function.update s.policy rt reschSchedFp
      attached := Function.update s.attached rt true }
  | exit rt accepts => do
    let s := s.core fun t => t.globalListRemove rt
    let s := s.clearSplitTask c rt pl
    let s := if s.policy rt ≠ reschSchedFair then s.setScheduler rt accepts reschSchedFair 0 else s
    return { s with attached := Function.update s.attached rt false }
  | run rt fuel mask accepts => do
    let s ← pl.taskRun c (s.core fun t => t.globalListInsert rt) rt fuel mask accepts
    return if s.policy rt = reschSchedFair then s.core fun t => t.globalListRemove rt else s
  | setPeriod rt period => return s.setTask rt fun t =>
      { t with period := period, deadline := if t.deadline = 0 then period else t.deadline }
  | setDeadline rt deadline => return s.setTask rt fun t => { t with deadline := deadline }
  | setWcet rt wcet => return s.setTask rt fun t =>
      { t with wcet := wcet, runtime := if t.runtime = 0 then wcet else t.runtime }
  | setRuntime rt runtime => return s.setTask rt fun t =>
      { t with runtime := runtime, wcet := if t.wcet = 0 then runtime else t.wcet }
  | setPriority rt prio accepts =>
    return if s.policy rt = reschSchedEdf ∨ s.policy rt = reschSchedFair then s
      else s.setScheduler rt accepts (s.policy rt) prio
  | setScheduler rt policy accepts =>
    return Admission.setPolicy rt accepts policy (s.task rt).prio s
  | renewWcet rt wcet => return s.setTask rt fun t => { t with wcet := wcet }
  | writePrio rt prio => return s.setTask rt fun t => { t with prio := prio }
  | follow rt cpu => return s.setTask rt fun t => { t with cpuId := cpu }
  | setCosts switchCost releaseCost migrationCost =>
    return { s with switchCost, releaseCost, migrationCost }

/-- The step function; a step that is not enabled is not taken. -/
def step (c : Config) (pl : Plugin) (s : Admission) (op : AdmissionOp) : Except Fault Admission :=
  if op.enabled s then op.exec c pl s else return s

end AdmissionOp

/-- The core and the plugin have been loaded, and no task has attached. -/
def Admission.start (switchCost releaseCost migrationCost : ℕ) : Admission where
  list := []
  task _ := ⟨0, 0, 0, 0, 0, 0, false⟩
  switchCost := switchCost
  releaseCost := releaseCost
  migrationCost := migrationCost
  fppmTask _ := ⟨0, 0, none, fun _ => 0⟩
  cpuAvailable _ := true
  policy _ := 0
  edfWmTask _ := ⟨0, 0, none, 0, fun _ => 0⟩
  attached _ := false

end Resch.Checked
