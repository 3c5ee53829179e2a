import Resch.Spec.FpFf
import Resch.Spec.FpPmRun

/-!
# Submitting tasks to FP-PM with checked divisions (`fp-pm.c`)

The functions of `Fppm` that decide where a task is placed, with the divisions as the processor
makes them.
-/

namespace Resch.Checked.FpPm

open Lib

variable (c : Config) (s : Fppm) (rt cpu : ℕ)

/-- What `hp` adds to the response time of `rt` on the CPU over `L` microseconds -/
def interference (hp L : ℕ) : Except Fault ℕ :=
  let Ck :=
    if s.splitIsOnCpu hp cpu then (s.fppmTask hp).runtime cpu
    else if (s.task hp).cpuId = cpu ∧ hp ≠ rt then (s.task hp).C c
    else 0
  if Ck ≠ 0 then FpFf.interference L (c.usecs (s.task hp).period) Ck else return 0

/-- `fppm_response_time_analysis`, less the CPU it may make unavailable -/
def fppmResponseTimeAnalysis : Except Fault ℕ := do
  let L := c.usecs (s.task rt).deadline
  let hps := s.list.takeWhile fun hp => decide ((s.task rt).prio ≤ (s.task hp).prio)
  let ret ← hps.foldlM (fun ret hp => do
    return ulong (ret + (← interference c s rt cpu hp L))) 0
  let overheadCpu ← schedOverheadCpu c s.toTaskSet cpu L
  let overheadTask ← schedOverheadTask c s.toTaskSet rt L
  return ulong (ret + (s.task rt).C c + overheadCpu + overheadTask)

/-- The loop of `partition` over the tasks of at most the priority of `rt` -/
def partitionTasks : List ℕ → Fppm → Except Fault (Bool × Fppm)
  | [], s => return (true, s)
  | lp :: lps, s => do
    if s.fppmTaskIsOnCpu lp cpu then
      let Rk ← fppmResponseTimeAnalysis c s lp cpu
      let Dk := c.usecs (s.task lp).deadline
      let Ii ← FpFf.interference Dk (c.usecs (s.task rt).period) ((s.task rt).C c)
      if Dk < ulong (Rk + Ii) then return (false, s.markCpu lp cpu)
      else partitionTasks lps (s.markCpu lp cpu)
    else partitionTasks lps s

/-- The loop of `partition` over the CPUs; `mask` is `cpus_allowed`. -/
def partitionLoop (mask : ℕ → Bool) : List ℕ → Fppm → Except Fault (ℕ × Fppm)
  | [], s => return (c.cpuUndefined, s)
  | cpu :: cpus, s => do
    if mask cpu then
      let Ri ← fppmResponseTimeAnalysis c s rt cpu
      let s := s.markCpu rt cpu
      if c.usecs (s.task rt).deadline < Ri then partitionLoop mask cpus s
      else
        let lps := s.list.dropWhile fun lp => decide ((s.task rt).prio < (s.task lp).prio)
        match ← partitionTasks c rt cpu lps s with
        | (true, s) => return (cpu, s)
        | (false, s) => partitionLoop mask cpus s
    else partitionLoop mask cpus s

/-- `partition` -/
def partition (mask : ℕ → Bool) : Except Fault (ℕ × Fppm) :=
  partitionLoop c rt mask (List.range c.nrRtCpus) s

/-- The closed form of `split` -/
def splitBound (Rk Dk Pi : ℕ) : Except Fault ℕ := do
  let F := cint (← div Dk Pi)
  if F = 0 then div (ulong (Dk - Rk)) (ulong (F + 1))
  else if ulong ((F * Pi - Rk) * (F + 1)) ≤ ulong (F * (Dk - Rk)) then
    div (ulong (Dk - Rk)) (ulong (F + 1))
  else return ulong (Pi - (← div Rk (ulong F) : ℕ))

/-- The loop of `split` over the tasks of one CPU -/
def splitRuntimeLoop : List ℕ → ℕ → Except Fault ℕ
  | [], splitRuntime => return splitRuntime
  | lp :: lps, splitRuntime => do
    if s.fppmTaskIsOnCpu lp cpu then
      let Rk ← fppmResponseTimeAnalysis c s lp cpu
      let Dk := c.usecs (s.task lp).deadline
      if Dk < Rk then return 0
      else
        let tmp ← splitBound Rk Dk (c.usecs (s.task rt).period)
        splitRuntimeLoop lps (if tmp < splitRuntime ∨ splitRuntime = 0 then tmp else splitRuntime)
    else splitRuntimeLoop lps splitRuntime

/-- The loop of `split` over the CPUs -/
def splitLoop : List ℕ → FppmTask → ℕ → Except Fault FppmTask
  | [], ft, _ => return ft
  | cpu :: cpus, ft, sum => do
    if s.cpuAvailable cpu then
      let share ← splitRuntimeLoop c s rt cpu s.list 0
      let ft := ft.addShare c cpu share
      let sum := ulong (sum + share)
      if (s.task rt).C c ≤ sum then
        return { ft with
          runtime := Function.update ft.runtime cpu (ulong (share - (sum - (s.task rt).C c)))
          lastCpu := cpu }
      else splitLoop cpus ft sum
    else splitLoop cpus ft sum

/-- `split`: the new state of `fppm_task[rt->rid]` and the CPU returned -/
def split : Except Fault (FppmTask × ℕ) := do
  let ft ← splitLoop c s rt (List.range c.nrRtCpus) (FppmTask.clear c) 0
  return if ft.lastCpu ≠ c.cpuUndefined then ({ ft with rt := some rt }, ft.firstCpu)
    else (FppmTask.clear c, c.cpuUndefined)

/-- The CPU and the shares that `task_run` decides on -/
def place (mask : ℕ → Bool) : Except Fault (ℕ × FppmTask) := do
  let (cpuDst, s) ← partition c (s.reset c rt) rt mask
  if cpuDst ≠ c.cpuUndefined then return (cpuDst, s.fppmTask rt)
  else
    let (ft, cpuDst) ← split c s rt
    return (cpuDst, ft)

end Resch.Checked.FpPm
