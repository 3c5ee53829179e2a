import Resch.Lib.Insert
import Resch.Spec.FpPm

/-!
# Submitting tasks to FP-PM (`fp-pm.c`)

`partition` tries to place a task whole, and what its response-time analyses find decides on
which CPUs `split` may place shares of it: a CPU is unavailable once an analysis has met a share
there that is not the last one. `api_run` inserts the task into the global list before it calls
`task_run`, and removes it if it got the fair policy. `set_scheduler` is taken as accepted by
Linux.
-/

namespace Resch

open Lib

def fppmPrioMigratory : ℤ := reschPrioKthread - 1

namespace Fppm

variable (c : Config) (s : Fppm) (rt cpu : ℕ)

/-- The task has a share on the CPU, which is not its last one. -/
def splitGoesOn (hp : ℕ) : Bool := s.splitIsOnCpu hp cpu && decide ((s.fppmTask hp).lastCpu ≠ cpu)

/-- What `fppm_response_time_analysis` does to `cpu_available` -/
def markCpu : Fppm :=
  let hps := s.list.takeWhile fun hp => decide ((s.task rt).prio ≤ (s.task hp).prio)
  { s with cpuAvailable :=
      if hps.any (s.splitGoesOn cpu) then Function.update s.cpuAvailable cpu false
      else s.cpuAvailable }

/-- `Rk` of `partition` with the task to be placed taken into account -/
def addResponse (Rk Dk Pi Ci : ℕ) : ℕ :=
  let F := cint (Dk / Pi)
  if ulong (Pi * F + Ci) ≤ Dk then ulong (Rk + Ci * (F + 1)) else ulong (Rk + Dk - F * (Pi - Ci))

/-- The loop of `partition` over the tasks of at most the priority of `rt`; the result says
whether all of them stay schedulable. -/
def partitionTasks : List ℕ → Fppm → Bool × Fppm
  | [], s => (true, s)
  | lp :: lps, s =>
    if s.fppmTaskIsOnCpu lp cpu then
      let Dk := c.usecs (s.task lp).deadline
      let Rk := addResponse (s.fppmResponseTimeAnalysis c lp cpu) Dk
        (c.usecs (s.task rt).period) ((s.task rt).C c)
      if Dk < Rk then (false, s.markCpu lp cpu) else partitionTasks lps (s.markCpu lp cpu)
    else partitionTasks lps s

/-- The loop of `partition` over the CPUs; `mask` is `cpus_allowed`. -/
def partitionLoop (mask : ℕ → Bool) : List ℕ → Fppm → ℕ × Fppm
  | [], s => (c.cpuUndefined, s)
  | cpu :: cpus, s =>
    if mask cpu then
      let Ri := s.fppmResponseTimeAnalysis c rt cpu
      let s := s.markCpu rt cpu
      if c.usecs (s.task rt).deadline < Ri then partitionLoop mask cpus s
      else
        let lps := s.list.dropWhile fun lp => decide ((s.task rt).prio < (s.task lp).prio)
        match partitionTasks c rt cpu lps s with
        | (true, s) => (cpu, s)
        | (false, s) => partitionLoop mask cpus s
    else partitionLoop mask cpus s

/-- `partition` -/
def partition (mask : ℕ → Bool) : ℕ × Fppm :=
  partitionLoop c rt mask (List.range c.nrRtCpus) s

/-- `clear_split_task` and the reset of `cpu_available` -/
def reset : Fppm :=
  { s with
    fppmTask := Function.update s.fppmTask rt (FppmTask.clear c)
    cpuAvailable := fun _ => true }

/-- The CPU and the shares that `task_run` decides on; `cpu_available` is not kept, since it is
reset before it is read again. -/
def place (mask : ℕ → Bool) : ℕ × FppmTask :=
  let (cpuDst, s) := (s.reset c rt).partition c rt mask
  if cpuDst ≠ c.cpuUndefined then (cpuDst, s.fppmTask rt)
  else
    let (ft, cpuDst) := s.split c rt
    (cpuDst, ft)

end Fppm

/-- `policy` is that of the tasks. -/
structure FppmState extends Fppm where
  policy : ℕ → ℤ

namespace FppmState

variable (c : Config) (s : FppmState) (rt : ℕ)

/-- `__global_list_insert` -/
def globalListInsert : FppmState :=
  if rt ∈ s.list then s
  else { s with
    list := insertBefore (fun p => decide ((s.task p).prio < (s.task rt).prio)) rt s.list }

/-- `__global_list_remove` -/
def globalListRemove : FppmState := { s with list := s.list.filter (· ≠ rt) }

def setTask (t : RtTask) : FppmState := { s with task := Function.update s.task rt t }

/-- `set_scheduler` -/
def setScheduler (policy prio : ℤ) : FppmState :=
  let t : FppmState := { s with policy := Function.update s.policy rt policy }
  if prio = (s.task rt).prio then t
  else
    let t := t.setTask rt { s.task rt with prio := prio }
    if rt ∈ s.list then (t.globalListRemove rt).globalListInsert rt else t

/-- `task_run` -/
def taskRun (mask : ℕ → Bool) : FppmState :=
  if (s.task rt).period = 0 then s
  else
    let (cpuDst, ft) := s.place c rt mask
    let s : FppmState := { s with fppmTask := Function.update s.fppmTask rt ft }
    let s := s.setTask rt { s.task rt with cpuId := cpuDst }
    if cpuDst ≠ c.cpuUndefined then
      let s :=
        if ft.firstCpu ≠ ft.lastCpu then s.setScheduler rt reschSchedFp fppmPrioMigratory
        else if s.policy rt ≠ reschSchedFp then s.setScheduler rt reschSchedFp (s.task rt).prio
        else s
      s.setTask rt { s.task rt with migratory := false }
    else s.setScheduler rt reschSchedFair 0

/-- `api_run`, up to the first job -/
def apiRun (mask : ℕ → Bool) : FppmState :=
  let s := (s.globalListInsert rt).taskRun c rt mask
  if s.policy rt = reschSchedFair then s.globalListRemove rt else s

/-- `api_exit`, which calls `task_exit` -/
def apiExit : FppmState :=
  let s := s.globalListRemove rt
  let s : FppmState := { s with fppmTask := Function.update s.fppmTask rt (FppmTask.clear c) }
  if s.policy rt ≠ reschSchedFair then s.setScheduler rt reschSchedFair 0 else s

end FppmState

/-! ## Runs -/

inductive FppmOp
  /-- A task attaches, with the parameters that it sets before it runs. -/
  | attach (rt : ℕ) (t : RtTask) (policy : ℤ)
  | taskRun (rt : ℕ) (mask : ℕ → Bool)
  | taskExit (rt : ℕ)

def fppmStep (c : Config) (s : FppmState) : FppmOp → Option FppmState
  | .attach rt t policy =>
    if rt ∈ s.list then none
    else some { s.setTask rt t with policy := Function.update s.policy rt policy }
  | .taskRun rt mask => some (s.apiRun c rt mask)
  | .taskExit rt => some (s.apiExit c rt)

/-- The plugin has been loaded, and no task has been submitted. -/
def fppmInit (switchCost releaseCost migrationCost : ℕ) (task : ℕ → RtTask) : FppmState where
  list := []
  task := task
  switchCost := switchCost
  releaseCost := releaseCost
  migrationCost := migrationCost
  fppmTask _ := ⟨0, 0, none, fun _ => 0⟩
  cpuAvailable _ := true
  policy _ := reschSchedFair

end Resch
