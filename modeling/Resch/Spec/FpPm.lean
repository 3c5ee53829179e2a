import Resch.Spec.Placement
import Mathlib.Logic.Function.Basic

/-!
# Splitting a task under fixed priorities (`fp-pm.c`)

`fppm_response_time_analysis` and `split`. A task that fits on no CPU gets a share of several:
on each available CPU in turn, the share is what the tasks there can bear, until the shares
add up to the execution time. `split` begins with the shares that `clear_split_task` leaves.
-/

namespace Resch

/-- `fppm_task_t` -/
structure FppmTask where
  firstCpu : ℕ
  lastCpu : ℕ
  rt : Option ℕ
  runtime : ℕ → ℕ

/-- `clear_split_task` -/
def FppmTask.clear (c : Config) : FppmTask := ⟨c.cpuUndefined, c.cpuUndefined, none, fun _ => 0⟩

/-- A CPU with its share; it is the first one if no other has a share. -/
def FppmTask.addShare (c : Config) (ft : FppmTask) (cpu share : ℕ) : FppmTask :=
  { ft with
    runtime := Function.update ft.runtime cpu share
    firstCpu := if ft.firstCpu = c.cpuUndefined ∧ 0 < share then cpu else ft.firstCpu }

structure Fppm extends TaskSet where
  fppmTask : ℕ → FppmTask
  cpuAvailable : ℕ → Bool

/-- The closed form of `split`: what a task with response time `Rk` and deadline `Dk` can bear
of a task with period `Pi`. -/
def splitBound (Rk Dk Pi : ℕ) : ℕ :=
  let F := cint (Dk / Pi)
  if F = 0 then ulong (Dk - Rk) / ulong (F + 1)
  else if ulong ((F * Pi - Rk) * (F + 1)) ≤ ulong (F * (Dk - Rk)) then
    ulong (Dk - Rk) / ulong (F + 1)
  else ulong (Pi - (Rk / ulong F : ℕ))

namespace Fppm

variable (c : Config) (s : Fppm) (rt cpu : ℕ)

/-- `split_is_on_cpu` -/
def splitIsOnCpu : Bool := 0 < (s.fppmTask rt).runtime cpu

/-- `fppm_task_is_on_cpu` -/
def fppmTaskIsOnCpu : Bool := (s.task rt).cpuId = cpu || s.splitIsOnCpu rt cpu

/-- What `hp` adds to the response time of `rt` on the CPU over `L` microseconds. -/
def interference (hp L : ℕ) : ℕ :=
  let Pk := c.usecs (s.task hp).period
  let Ck :=
    if s.splitIsOnCpu hp cpu then (s.fppmTask hp).runtime cpu
    else if (s.task hp).cpuId = cpu ∧ hp ≠ rt then (s.task hp).C c
    else 0
  if Ck ≠ 0 then
    let F := cint (L / Pk)
    if ulong (Pk * F + Ck) ≤ L then ulong (Ck * (F + 1)) else ulong (L - F * (Pk - Ck))
  else 0

/-- `fppm_response_time_analysis`, less the CPU it may make unavailable, which is the one that
`split` has already got to. -/
def fppmResponseTimeAnalysis : ℕ :=
  let L := c.usecs (s.task rt).deadline
  let hps := s.list.takeWhile fun hp => decide ((s.task rt).prio ≤ (s.task hp).prio)
  let ret := hps.foldl (fun ret hp => ulong (ret + s.interference c rt cpu hp L)) 0
  ulong (ret + (s.task rt).C c + s.schedOverheadCpu c cpu L + s.schedOverheadTask c rt L)

/-- The loop of `split` over the tasks of one CPU -/
def splitRuntimeLoop : List ℕ → ℕ → ℕ
  | [], splitRuntime => splitRuntime
  | lp :: lps, splitRuntime =>
    if s.fppmTaskIsOnCpu lp cpu then
      let Rk := s.fppmResponseTimeAnalysis c lp cpu
      let Dk := c.usecs (s.task lp).deadline
      if Dk < Rk then 0
      else
        let tmp := splitBound Rk Dk (c.usecs (s.task rt).period)
        splitRuntimeLoop lps (if tmp < splitRuntime ∨ splitRuntime = 0 then tmp else splitRuntime)
    else splitRuntimeLoop lps splitRuntime

/-- The share of `rt` that `split` computes for a CPU. -/
def splitRuntime : ℕ := s.splitRuntimeLoop c rt cpu s.list 0

/-- The loop of `split` over the CPUs -/
def splitLoop : List ℕ → FppmTask → ℕ → FppmTask
  | [], ft, _ => ft
  | cpu :: cpus, ft, sum =>
    if s.cpuAvailable cpu then
      let share := s.splitRuntime c rt cpu
      let ft := ft.addShare c cpu share
      let sum := ulong (sum + share)
      if (s.task rt).C c ≤ sum then
        { ft with
          runtime := Function.update ft.runtime cpu (ulong (share - (sum - (s.task rt).C c)))
          lastCpu := cpu }
      else splitLoop cpus ft sum
    else splitLoop cpus ft sum

/-- `split`: the new state of `fppm_task[rt->rid]` and the CPU returned -/
def split : FppmTask × ℕ :=
  let ft := s.splitLoop c rt (List.range c.nrRtCpus) (FppmTask.clear c) 0
  if ft.lastCpu ≠ c.cpuUndefined then ({ ft with rt := some rt }, ft.firstCpu)
  else (FppmTask.clear c, c.cpuUndefined)

end Fppm

end Resch
