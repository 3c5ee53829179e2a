import Resch.Spec.Api

/-!
# Runs of the queue operations

The functions that write the active queues, as steps of a system: jobs start and
complete, priorities and classes change, tasks migrate, reserves expire and are
replenished, tasks suspend and resume. A step is enabled when the process of its task
is where the call can come from; nothing else is asked of the order of steps.
-/

namespace Resch

/-- One step of the core. `setTimes` stands for all functions that write the timing
parameters of a task, and `linux` for what Linux and the passing of time do. -/
inductive CoreOp
  | attach (rt current : ℕ)
  | setTimes (rt runtime period deadline releaseTime deadlineTime : ℕ)
  | reserveStart (rt cputime : ℕ) (xcpu : Bool)
  | jobStart (rt : ℕ)
  | jobComplete (rt : ℕ)
  | setPriority (rt : ℕ) (prio : ℤ)
  | setClass (rt : ℕ) (policy : ℤ)
  | migrate (rt cpu : ℕ)
  | reserveExpire (rt : ℕ)
  | reserveReplenish (rt cputime : ℕ)
  | replenishTimer (rt : ℕ)
  | suspend (rt : ℕ)
  | resume (rt : ℕ)
  | linux (jiffies : ℕ) (proc : ℕ → Proc)

/-- Assign where the process of a task is. -/
def State.setPoint (s : State) (rt : ℕ) (p : Point) : State :=
  { s with point := Function.update s.point rt p }

/-- `rt` is attached. -/
def State.Attached (s : State) (rt : ℕ) : Prop := s.point rt ≠ .detached

instance (s : State) (rt : ℕ) : Decidable (s.Attached rt) := inferInstanceAs (Decidable (_ ≠ _))

/-- Whether a step can be taken. A priority is one of `1..RESCH_PRIO_MAX`, and the classes
are FP and EDF. -/
def CoreOp.enabled (s : State) : CoreOp → Bool
  | attach rt _ => decide (s.point rt = .detached)
  | setTimes rt _ _ _ _ _ => decide (s.Attached rt)
  | reserveStart rt _ _ => decide (s.Attached rt)
  | jobStart rt => decide (s.point rt = .user) && !s.isActive rt
  | jobComplete rt => decide (s.point rt = .user) && s.isActive rt
  | setPriority rt prio => decide (s.Attached rt ∧ reschPrioMin ≤ prio ∧ prio ≤ reschPrioMax)
  | setClass rt policy => decide (s.Attached rt ∧ (policy = reschSchedFp ∨ policy = reschSchedEdf))
  | migrate rt _ => decide (s.Attached rt)
  | reserveExpire rt => decide (s.Attached rt)
  | reserveReplenish rt _ => decide (s.Attached rt)
  | replenishTimer rt => decide (s.Attached rt)
  | suspend rt => decide (s.point rt = .user)
  | resume rt => decide (s.point rt = .suspend)
  | linux _ _ => true

/-- What a step does. -/
def CoreOp.run (c : Config) (k : Kernel) (s : State) : CoreOp → State
  | attach rt current => (reschTaskInit c k s rt current).setPoint rt .user
  | setTimes rt runtime period deadline releaseTime deadlineTime =>
    s.setTask rt fun t =>
      { t with runtime, period, deadline, releaseTime, deadlineTime }
  | reserveStart rt cputime xcpu => Resch.reserveStart c s rt cputime xcpu
  | jobStart rt => Resch.jobStart c s rt
  | jobComplete rt => Resch.jobComplete c k s rt
  | setPriority rt prio => (setScheduler' c k s rt prio).1
  | setClass rt policy => (apiSetScheduler c k s rt policy).1
  | migrate rt cpu => migrateTask c s rt cpu
  | reserveExpire rt => classReserveExpire c k s rt
  | reserveReplenish rt cputime => classReserveReplenish c k s rt cputime
  | replenishTimer rt => onReplenish c k s rt
  | suspend rt => (jobSuspend c k s rt).setPoint rt .suspend
  | resume rt => (jobResume s rt).setPoint rt .user
  | linux jiffies proc => { s with jiffies, proc }

/-- The step function; what Linux answers comes with each step. -/
def coreStep (c : Config) (s : State) (a : CoreOp × Kernel) : Option State :=
  if a.1.enabled s then some (a.1.run c a.2 s) else none

/-! ## EDF tasks under `SCHED_DEADLINE` -/

/-- Whether `sched_setattr` accepts the parameters of a task. -/
def Kernel.acceptsTask (c : Config) (k : Kernel) (t : Task) : Bool :=
  k.setattr (t.runtime * 1000) (c.jiffiesToNsecs t.deadline) (c.jiffiesToNsecs t.period)

/-- Whether a step can be taken in a system of EDF tasks whose parameters Linux accepts. -/
def CoreOp.enabledEdf (c : Config) (k : Kernel) (s : State) : CoreOp → Bool
  | attach rt current => decide (s.point rt = .detached ∧ current ≠ 0)
  | setTimes rt _ _ _ _ _ => decide (s.Attached rt)
  | setClass rt policy =>
    decide (s.Attached rt ∧ policy = reschSchedEdf) && k.acceptsTask c (s.task rt)
  | jobStart rt =>
    decide (s.point rt = .user ∧ (s.task rt).policy = reschSchedEdf) && !s.isActive rt
  | jobComplete rt =>
    decide (s.point rt = .user ∧ (s.task rt).policy = reschSchedEdf) && s.isActive rt
  | migrate rt _ => decide (s.Attached rt ∧ (s.task rt).policy = reschSchedEdf)
  | suspend rt =>
    decide (s.point rt = .user ∧ (s.task rt).policy = reschSchedEdf) && k.acceptsTask c (s.task rt)
  | resume rt => decide (s.point rt = .suspend)
  | linux _ _ => true
  | reserveStart _ _ _ | setPriority _ _ | reserveExpire _ | reserveReplenish _ _
  | replenishTimer _ => false

/-- The step function of such a system. -/
def edfStep (c : Config) (s : State) (a : CoreOp × Kernel) : Option State :=
  if a.1.enabledEdf c a.2 s then some (a.1.run c a.2 s) else none

end Resch
