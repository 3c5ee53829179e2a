import Mathlib.Logic.Function.Basic
import Resch.Spec.Checked
import Resch.Spec.EdfTest

/-!
# Submitting tasks to FP-FF (`fp-ff.c`)

A task goes to the first CPU of its mask on which it and the tasks of at most its priority pass
the response-time test. Arithmetic is that of the `unsigned long`s and the `int` `F` of the
source, and divisions are checked. `api_run` has inserted the task into the global list before.
-/

namespace Resch.Checked.FpFf

open Lib

variable (c : Config) (s : TaskSet) (rt cpu : ℕ)

/-- What a task with period `P` and execution time `C` adds to a response time, for a window of
`L` microseconds -/
def interference (L P C : ℕ) : Except Fault ℕ := do
  let F := cint (← div L P)
  return if ulong (P * F + C) ≤ L then ulong (C * (F + 1)) else ulong (L - F * (P - C))

/-- The same on natural numbers, where nothing wraps -/
def interferenceNat (L P C : ℕ) : ℕ :=
  let F := L / P
  if P * F + C ≤ L then C * (F + 1) else L - F * (P - C)

/-- `response_time_analysis` -/
def responseTimeAnalysis : Except Fault ℕ := do
  let L := c.usecs (s.task rt).deadline
  let hps := s.list.takeWhile fun hp => decide ((s.task rt).prio ≤ (s.task hp).prio)
  let ret ← hps.foldlM (fun ret hp => do
    if s.taskIsOnCpu hp cpu ∧ hp ≠ rt then
      return ulong (ret + (← interference L (c.usecs (s.task hp).period) ((s.task hp).C c)))
    else return ret) 0
  let overheadCpu ← schedOverheadCpu c s cpu L
  let overheadTask ← schedOverheadTask c s rt L
  return ulong (ret + (s.task rt).C c + overheadCpu + overheadTask)

/-- The loop of `partition` over the tasks of at most the priority of `rt`; the result says
whether all of them stay schedulable. -/
def partitionTasks : List ℕ → Except Fault Bool
  | [] => return true
  | lp :: lps => do
    if s.taskIsOnCpu lp cpu then
      let Rk ← responseTimeAnalysis c s lp cpu
      let Dk := c.usecs (s.task lp).deadline
      let Ii ← interference Dk (c.usecs (s.task rt).period) ((s.task rt).C c)
      if Dk < ulong (Rk + Ii) then return false else partitionTasks lps
    else partitionTasks lps

/-- The loop of `partition` over the CPUs; `mask` is `cpus_allowed`. -/
def partitionLoop (mask : ℕ → Bool) : List ℕ → Except Fault ℕ
  | [] => return c.cpuUndefined
  | cpu :: cpus => do
    if mask cpu then
      let Ri ← responseTimeAnalysis c s rt cpu
      if c.usecs (s.task rt).deadline < Ri then partitionLoop mask cpus
      else
        let lps := s.list.dropWhile fun lp => decide ((s.task rt).prio < (s.task lp).prio)
        if ← partitionTasks c s rt cpu lps then return cpu else partitionLoop mask cpus
    else partitionLoop mask cpus

/-- `partition` -/
def partition (mask : ℕ → Bool) : Except Fault ℕ :=
  partitionLoop c s rt mask (List.range c.nrRtCpus)

/-- What `task_run` does with the CPU that `partition` has found, up to `set_scheduler` and
`migrate_task` -/
def assign (cpuDst : ℕ) : TaskSet :=
  let t := { s.task rt with cpuId := cpuDst }
  let t := if cpuDst ≠ c.cpuUndefined then { t with migratory := false } else t
  { s with task := Function.update s.task rt t }

/-- `task_run` -/
def taskRun (mask : ℕ → Bool) : Except Fault TaskSet := do
  if (s.task rt).period = 0 then return s
  else
    let cpuDst ← partition c s rt mask
    return assign c s rt cpuDst

end Resch.Checked.FpFf
