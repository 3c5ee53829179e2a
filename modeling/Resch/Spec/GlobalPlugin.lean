import Resch.Lib.Insert
import Resch.Spec.Config
import Mathlib.Logic.Function.Basic

/-!
# Global scheduler plugins (`g-edf.c`, `g-fp.c`, `edf-us.c`, `fp-us.c`)

The plugins keep a list of running and a list of waiting jobs, and which CPUs run one.
They share their code and differ in three things (`GlobalPlugin`): the comparison that the
lists and `__job_start` use, the policy and priority that a task has during its jobs, and
what `task_run` does first. `set_scheduler` is taken as accepted by Linux.
-/

namespace Resch

open Lib

/-- `GEDF_PRIO_HIGH`, `GFP_PRIO_HIGH`, `EDF_US_PRIO_HIGH` and `FPUS_PRIO_HIGH` -/
def pluginPrioHigh : ℤ := reschPrioKthread - 1

/-- `GEDF_CPU_MAIN`, `GFP_CPU_MAIN`, `EDF_US_CPU_MAIN` and `FPUS_CPU_MAIN` -/
def pluginCpuMain : ℕ := 0

/-- The fields of `resch_task_t` that the plugins use, and those of their own descriptor:
`base` is `gfp_task_t.prio`, and `submitted` says that its list entries are initialised. -/
structure PluginTask where
  prio : ℤ
  policy : ℤ
  cpuId : ℕ
  deadlineTime : ℕ
  wcet : ℕ
  period : ℕ
  base : ℤ
  submitted : Bool

namespace PluginTask

/-- `set_scheduler` -/
def setScheduler (t : PluginTask) (policy prio : ℤ) : PluginTask :=
  { t with policy := policy, prio := prio }

/-- `set_high_prio` -/
def setHighPrio (t : PluginTask) : PluginTask := t.setScheduler reschSchedFp pluginPrioHigh

end PluginTask

structure PluginState where
  task : ℕ → PluginTask
  runList : List ℕ
  waitList : List ℕ
  cpuRun : ℕ → Bool

namespace PluginState

variable (s : PluginState) (gt : ℕ)

def setTask (f : PluginTask → PluginTask) : PluginState :=
  { s with task := Function.update s.task gt (f (s.task gt)) }

/-- `migrate_task` -/
def migrateTask (cpu : ℕ) : PluginState := s.setTask gt fun t => { t with cpuId := cpu }

def runListRemove : PluginState := { s with runList := s.runList.filter (· ≠ gt) }

def waitListRemove : PluginState := { s with waitList := s.waitList.filter (· ≠ gt) }

/-- The last task of the list. -/
def getLowestPrioTask : Option ℕ := s.runList.getLast?

/-- The first task of the list. -/
def getNextTask : Option ℕ := s.waitList.head?

end PluginState

/-- What the plugins differ in. `before a b` says that a list has `a` before `b`, and that a
job of `a` preempts one of `b`; `own` is the policy and the priority that `__job_start`
puts back. -/
structure GlobalPlugin where
  before : PluginTask → PluginTask → Bool
  own : PluginTask → ℤ × ℤ
  submit : PluginTask → Option PluginTask

namespace GlobalPlugin

variable (g : GlobalPlugin) (nrRtCpus : ℕ) (s : PluginState) (gt : ℕ)

def runListInsert : PluginState :=
  if gt ∈ s.runList then s
  else { s with
    runList := insertBefore (fun p => g.before (s.task gt) (s.task p)) gt s.runList }

def waitListInsert : PluginState :=
  if gt ∈ s.waitList then s
  else { s with
    waitList := insertBefore (fun p => g.before (s.task gt) (s.task p)) gt s.waitList }

/-- `set_edf_prio` and `set_fp_prio` -/
def putBack : PluginState :=
  s.setTask gt fun t => t.setScheduler (g.own t).1 (g.own t).2

/-- `__job_start` from the label `run` on -/
def run (cpuDst : ℕ) : PluginState :=
  let s := { s with cpuRun := Function.update s.cpuRun cpuDst true }
  let s := g.runListInsert s gt
  let s := if (s.task gt).cpuId ≠ cpuDst then s.migrateTask gt cpuDst else s
  g.putBack s gt

/-- `__job_start` where the job has to wait -/
def wait : PluginState := g.putBack (g.waitListInsert s gt) gt

/-- `__job_start` -/
def jobStart : PluginState :=
  if s.cpuRun (s.task gt).cpuId = false then g.run s gt (s.task gt).cpuId
  else
    match (List.range nrRtCpus).find? fun cpu => !s.cpuRun cpu with
    | some cpuDst => g.run s gt cpuDst
    | none =>
      match s.getLowestPrioTask with
      | some p =>
        if g.before (s.task gt) (s.task p) then
          let cpuDst := (s.task p).cpuId
          g.run (g.waitListInsert (s.runListRemove p) p) gt cpuDst
        else g.wait s gt
      | none => g.wait s gt

/-- `task_run` -/
def taskRun : Option PluginState :=
  (g.submit (s.task gt)).map fun t =>
    (s.setTask gt fun _ => { t with submitted := true }.setHighPrio).migrateTask gt pluginCpuMain

/-- `job_complete` -/
def jobComplete : PluginState :=
  let s := s.setTask gt PluginTask.setHighPrio
  let s := if gt ∈ s.waitList then s.waitListRemove gt else s.runListRemove gt
  match s.getNextTask with
  | some next =>
    let s := g.runListInsert (s.waitListRemove next) next
    if (s.task next).cpuId ≠ (s.task gt).cpuId then s.migrateTask next (s.task gt).cpuId else s
  | none => { s with cpuRun := Function.update s.cpuRun (s.task gt).cpuId false }

end GlobalPlugin

/-! ## The plugins -/

/-- `g-edf.c` -/
def gEdf : GlobalPlugin where
  before a b := decide (a.deadlineTime < b.deadlineTime)
  own _ := (reschSchedEdf, reschPrioEdf)
  submit t := some t

/-- `g-fp.c` -/
def gFp : GlobalPlugin where
  before a b := decide (b.prio < a.prio)
  own t := (reschSchedFp, t.base)
  submit t := some { t with base := t.prio }

/-- `task_run` of `fp-us.c`: a heavy task gets the high priority for its own. -/
def fpUsSubmit (c : Config) (t : PluginTask) : Option PluginTask :=
  if t.period = 0 then none
  else
    let u := c.usecsToJiffies (t.wcet * 100) / t.period
    let t := if c.nrRtCpus * 100 / (3 * c.nrRtCpus - 2) < u then t.setHighPrio else t
    some { t with base := t.prio }

/-- `fp-us.c` -/
def fpUs (c : Config) : GlobalPlugin where
  before := gFp.before
  own := gFp.own
  submit := fpUsSubmit c

/-- `task_run` of `edf-us.c`: the high priority that a heavy task gets is that of all tasks. -/
def edfUsSubmit (c : Config) (t : PluginTask) : Option PluginTask :=
  if t.period = 0 then none
  else
    let u := c.usecsToJiffies (t.wcet * 100) / t.period
    some (if c.nrRtCpus * 100 / (2 * c.nrRtCpus - 1) < u then t.setHighPrio else t)

/-- `edf-us.c` -/
def edfUs (c : Config) : GlobalPlugin where
  before := gEdf.before
  own := gEdf.own
  submit := edfUsSubmit c

/-! ## Runs -/

/-- The calls of the core, and the assignment of a deadline by `job_release`. -/
inductive PluginOp
  | taskRun (rt : ℕ)
  | release (rt deadlineTime : ℕ)
  | jobStart (rt : ℕ)
  | jobComplete (rt : ℕ)

/-- The task is in a list. -/
def PluginState.Listed (s : PluginState) (rt : ℕ) : Prop := rt ∈ s.runList ∨ rt ∈ s.waitList

instance (s : PluginState) (rt : ℕ) : Decidable (s.Listed rt) := inferInstanceAs (Decidable (_ ∨ _))

/-- A job starts when its task has been submitted and the last job is complete, and a deadline
is assigned between jobs. -/
def PluginOp.enabled (s : PluginState) : PluginOp → Bool
  | taskRun rt | release rt _ => decide ¬ s.Listed rt
  | jobStart rt => (s.task rt).submitted && decide ¬ s.Listed rt
  | jobComplete rt => decide (s.Listed rt)

def PluginOp.exec (g : GlobalPlugin) (nrRtCpus : ℕ) (s : PluginState) : PluginOp → Option PluginState
  | taskRun rt => g.taskRun s rt
  | release rt d => some (s.setTask rt fun t => { t with deadlineTime := d })
  | jobStart rt => some (g.jobStart nrRtCpus s rt)
  | jobComplete rt => some (g.jobComplete s rt)

def pluginStep (g : GlobalPlugin) (nrRtCpus : ℕ) (s : PluginState) (op : PluginOp) :
    Option PluginState :=
  if op.enabled s then op.exec g nrRtCpus s else none

/-- Steps of which the completions are of running jobs only. -/
def runningStep (g : GlobalPlugin) (nrRtCpus : ℕ) (s : PluginState) : PluginOp → Option PluginState
  | .jobComplete rt => if rt ∈ s.runList then pluginStep g nrRtCpus s (.jobComplete rt) else none
  | op => pluginStep g nrRtCpus s op

/-- The plugin has been loaded, and no task has been submitted. -/
def pluginInit (task : ℕ → PluginTask) : PluginState where
  task rt := { task rt with submitted := false }
  runList := []
  waitList := []
  cpuRun := fun _ => false

end Resch
