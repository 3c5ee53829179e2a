import Resch.Spec.CoreRun

/-!
# EDF tasks in the active queues

The hooks of `sched_edf.c` on any number of tasks and CPUs, between FP tasks that are enqueued and
dequeued at levels of their own. `OrderState` keeps beside the core when each task last arrived in a
queue and whether its reserve has expired, which is not read by any hook.
-/

namespace Resch

/-- The core, the number of arrivals, the arrival of each task, and the tasks whose reserves have
expired. -/
structure OrderState where
  core : State
  clock : ℕ
  arrived : ℕ → ℕ
  expired : ℕ → Bool

/-- One step. `release` sets the deadline of the next job; a task is attached to a class and a CPU. -/
inductive OrderOp
  | attach (rt : ℕ) (cls : SchedClass) (cpu : ℕ)
  | release (rt deadlineTime : ℕ)
  | jobStart (rt : ℕ)
  | jobComplete (rt : ℕ)
  | reserveExpire (rt : ℕ)
  | reserveReplenish (rt cputime : ℕ)
  | migrate (rt cpuDst : ℕ)
  | fpEnqueue (rt : ℕ) (prio : ℤ) (cpu : ℕ)
  | fpDequeue (rt : ℕ)

namespace OrderState

def start (jiffies : ℕ) (proc : ℕ → Proc) : OrderState where
  core := schedInit jiffies proc
  clock := 0
  arrived := fun _ => 0
  expired := fun _ => false

/-- `rt` arrives in a queue, at the level of expired tasks or at the other one. -/
def arrive (s : OrderState) (rt : ℕ) (expired : Bool) : OrderState :=
  { s with
    clock := s.clock + 1
    arrived := Function.update s.arrived rt s.clock
    expired := Function.update s.expired rt expired }

/-- A task of the EDF class. -/
def isEdf (s : OrderState) (rt : ℕ) : Bool := decide ((s.core.task rt).cls = .edf)

end OrderState

namespace OrderOp

/-- Whether a step can be taken: deadline, class and CPU are written while a task is not active, and
no FP task has one of the two levels of the EDF class. -/
def enabled (s : OrderState) : OrderOp → Bool
  | attach rt _ _ | release rt _ => !s.core.isActive rt
  | jobStart rt => s.isEdf rt && !s.core.isActive rt
  | jobComplete rt => s.isEdf rt && s.core.isActive rt
  | reserveExpire rt | reserveReplenish rt _ | migrate rt _ => s.isEdf rt
  | fpEnqueue rt prio _ => decide ((s.core.task rt).cls = .fp ∧ reschPrioMin ≤ prio ∧
      prio ≤ reschPrioMax ∧ prio ≠ reschPrioEdf ∧ prio ≠ reschPrioBackground) && !s.core.isActive rt
  | fpDequeue rt => decide ((s.core.task rt).cls = .fp) && s.core.isActive rt

/-- What a step does in the core. -/
def core (c : Config) (s : State) : OrderOp → State
  | attach rt cls cpu => s.setTask rt fun t => { t with cls := cls, cpuId := cpu }
  | release rt deadlineTime => s.setTask rt fun t => { t with deadlineTime := deadlineTime }
  | jobStart rt => Edf.edfJobStart s rt
  | jobComplete rt => Edf.edfJobComplete s rt
  | reserveExpire rt => Edf.edfReserveExpire s rt
  | reserveReplenish rt cputime => Edf.edfReserveReplenish s rt cputime
  | migrate rt cpuDst => Edf.edfMigrateTask c s rt cpuDst
  | fpEnqueue rt prio cpu =>
    fpEnqueueTask (s.setTask rt fun t => { t with prio := prio, cpuId := cpu }) rt prio cpu
  | fpDequeue rt => fpDequeueTask s rt (s.task rt).prio (s.task rt).cpuId

/-- Whether an EDF task arrives in a queue. -/
def arrives (s : OrderState) : OrderOp → Bool
  | jobStart _ => true
  | reserveExpire rt => s.core.isActive rt
  | reserveReplenish rt _ => s.core.isActive rt && s.expired rt
  | migrate rt cpuDst => s.core.isActive rt && !s.core.isOnCpu rt cpuDst
  | _ => false

/-- The task of a step -/
def task : OrderOp → ℕ
  | attach rt _ _ | release rt _ | jobStart rt | jobComplete rt | reserveExpire rt
  | reserveReplenish rt _ | migrate rt _ | fpEnqueue rt _ _ | fpDequeue rt => rt

/-- Whether the reserve of the task of a step has expired after it, if the task arrives in a queue. -/
def expires (s : OrderState) : OrderOp → Bool
  | reserveExpire _ => true
  | migrate rt _ => s.expired rt
  | _ => false

end OrderOp

/-- The step function. -/
def orderStep (c : Config) (s : OrderState) (a : OrderOp) : Option OrderState :=
  if a.enabled s then
    let t : OrderState := if a.arrives s then s.arrive a.task (a.expires s) else s
    some { t with core := a.core c s.core }
  else none

end Resch
