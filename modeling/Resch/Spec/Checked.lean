import Resch.Lib.Checked
import Resch.Spec.Placement

/-!
# The scheduling overheads with checked divisions (`sched.c`)

`TaskSet.schedOverheadTask` and `TaskSet.schedOverheadCpu`, with the divisions as the processor
makes them: by zero, they stop the kernel.
-/

namespace Resch.Checked

open Lib

/-- `div_round_up` -/
def divRoundUp (x y : ℕ) : Except Fault ℕ := do
  if (← mod x y) = 0 then div x y
  else return (← div x y) + 1

variable (c : Config) (s : TaskSet) (rt cpu interval : ℕ)

/-- `sched_overhead_task` -/
def schedOverheadTask : Except Fault ℕ := do
  let nrJobs ← divRoundUp interval (c.usecs (s.task rt).period)
  let overhead := ulong (nrJobs * (s.switchCost + s.releaseCost))
  return if (s.task rt).migratory then ulong (overhead + nrJobs * s.migrationCost) else overhead

/-- `sched_overhead_cpu` -/
def schedOverheadCpu : Except Fault ℕ := do
  let overhead ← s.list.foldlM (fun overhead rt => do
    if (s.task rt).cpuId = cpu then
      return ulong (overhead + (← schedOverheadTask c s rt interval))
    else return overhead) 0
  return ulong (overhead + (ulong (c.jiffies interval * s.switchCost) / 2 : ℕ))

end Resch.Checked
