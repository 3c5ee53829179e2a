import Resch.Spec.CoreRun

/-!
# EDF tasks under `sched_edf.c`

The hooks of the class of `sched_edf.c` as steps of a system of EDF tasks. A job is
started and completed by the process of the task, hence by one that runs; the other
hooks are called at any time. The process of the task with id `rt` is `rt + 1`.
-/

namespace Resch

/-- One step. `release` is the end of `job_release`, which sets the deadline of the next job. -/
inductive EdfOp
  | attach (rt : ℕ)
  | release (rt deadlineTime : ℕ)
  | jobStart (rt : ℕ)
  | jobComplete (rt : ℕ)
  | reserveExpire (rt : ℕ)
  | reserveReplenish (rt cputime : ℕ)
  | migrate (rt cpuDst : ℕ)

/-- Whether a step can be taken. -/
def EdfOp.enabled (s : State) : EdfOp → Bool
  | attach rt => decide (s.point rt = .detached)
  | release rt _ => decide (s.Attached rt) && !s.isActive rt
  | jobStart rt => decide (s.Attached rt ∧ (s.procOf rt).state = .running) && !s.isActive rt
  | jobComplete rt => decide (s.Attached rt ∧ (s.procOf rt).state = .running) && s.isActive rt
  | reserveExpire rt | reserveReplenish rt _ | migrate rt _ => decide (s.Attached rt)

/-- What a step does. A task attaches and changes its policy to EDF. -/
def EdfOp.exec (c : Config) (k : Kernel) (s : State) : EdfOp → State
  | attach rt =>
    (apiSetScheduler c k (reschTaskInit c k s rt (rt + 1)) rt reschSchedEdf).1.setPoint rt .user
  | release rt deadlineTime =>
    (setRunState s rt .running).setTask rt fun t => { t with deadlineTime := deadlineTime }
  | jobStart rt => Edf.edfJobStart s rt
  | jobComplete rt => Edf.edfJobComplete s rt
  | reserveExpire rt => Edf.edfReserveExpire s rt
  | reserveReplenish rt cputime => Edf.edfReserveReplenish s rt cputime
  | migrate rt cpuDst => Edf.edfMigrateTask c s rt cpuDst

/-- The step function; what Linux answers comes with each step. -/
def edfClassStep (c : Config) (s : State) (a : EdfOp × Kernel) : Option State :=
  if a.1.enabled s then some (a.1.exec c a.2 s) else none

end Resch
