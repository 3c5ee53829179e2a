import Resch.Spec.State

/-!
# Scheduling classes: setting the scheduler, enqueueing and dequeueing

The `set_scheduler`, `enqueue_task` and `dequeue_task` hooks of `sched_fair.c`,
`sched_fp.c`, `sched_edf.c` and `sched_deadline.c`, and their dispatch through
`rt->class`. The FP and the two EDF classes enqueue and dequeue alike, up to where
in the level's list a task goes. Only the EDF class of `sched_edf.c` also writes the
level into `rt->prio`.
-/

namespace Resch

open Lib

variable (c : Config) (k : Kernel)

/-- Linux's `sched_setscheduler`. -/
def schedSetscheduler (s : State) (p : ℕ) (policy : LinuxPolicy) (prio : ℤ) : State × Bool :=
  if k.setscheduler policy prio then
    (s.setProc p fun q => { q with policy := policy, rtPriority := prio }, true)
  else (s, false)

/-- Ask Linux for a policy, and record the priority if it agrees. -/
def setSchedulerAs (policy : LinuxPolicy) (s : State) (rt : ℕ) (prio : ℤ) : State × Bool :=
  let (s, ok) := schedSetscheduler k s (s.task rt).task policy prio
  if ok then (s.setPrio rt prio, true) else (s, false)

/-- Enqueue at the level of `prio`, where `ins` says. -/
def enqueueTaskAt (ins : List ℕ → List ℕ) (s : State) (rt : ℕ) (prio : ℤ) (cpu : ℕ) : State :=
  s.link rt cpu (prioIndex prio) ins

/-- Dequeue from the level of `prio`. -/
def dequeueTaskAt (s : State) (rt : ℕ) (prio : ℤ) (cpu : ℕ) : State :=
  s.unlink rt cpu (prioIndex prio)

/-- The place of `rt` in a level that is in order of deadlines. -/
def deadlineInsert (s : State) (rt : ℕ) : List ℕ → List ℕ :=
  insertBefore (fun p => decide ((s.task rt).deadlineTime < (s.task p).deadlineTime)) rt

/-! ## `sched_fair.c` -/

def fairSetScheduler (s : State) (rt : ℕ) (prio : ℤ) : State × Bool :=
  setSchedulerAs k .normal s rt prio

def fairEnqueueTask (s : State) (_rt : ℕ) (_prio : ℤ) (_cpu : ℕ) : State := s

def fairDequeueTask (s : State) (_rt : ℕ) (_prio : ℤ) (_cpu : ℕ) : State := s

/-! ## `sched_fp.c` -/

def fpSetScheduler (s : State) (rt : ℕ) (prio : ℤ) : State × Bool :=
  setSchedulerAs k .fifo s rt prio

def fpEnqueueTask (s : State) (rt : ℕ) (prio : ℤ) (cpu : ℕ) : State :=
  enqueueTaskAt (· ++ [rt]) s rt prio cpu

def fpDequeueTask (s : State) (rt : ℕ) (prio : ℤ) (cpu : ℕ) : State := dequeueTaskAt s rt prio cpu

/-! ## `sched_edf.c` -/

namespace Edf

def edfSetScheduler (s : State) (rt : ℕ) (prio : ℤ) : State × Bool :=
  setSchedulerAs k .fifo s rt prio

def edfEnqueueTask (s : State) (rt : ℕ) (prio : ℤ) (cpu : ℕ) : State :=
  (enqueueTaskAt (deadlineInsert s rt) s rt prio cpu).setPrio rt prio

def edfDequeueTask (s : State) (rt : ℕ) (prio : ℤ) (cpu : ℕ) : State := dequeueTaskAt s rt prio cpu

end Edf

/-! ## `sched_deadline.c` -/

namespace Deadline

/-- The read lock is released only if Linux accepts the parameters. -/
def edfSetScheduler (s : State) (rt : ℕ) (prio : ℤ) : State × Bool :=
  let t := s.task rt
  let s := s.rcuReadLock
  if t.task = 0 ∨ k.setattr (t.runtime * 1000) (c.jiffiesToNsecs t.deadline)
      (c.jiffiesToNsecs t.period) = false then (s, false)
  else
    let s := s.setProc t.task fun q => { q with policy := .deadline }
    let s := s.rcuReadUnlock
    let s := s.setPrio rt prio
    if s.hasReserve rt then
      (s.setProc t.task fun q => { q with dlExhaustive := false, dlFcbs := true }, true)
    else
      (s.setProc t.task fun q => { q with dlExhaustive := true, dlFcbs := false }, true)

def edfEnqueueTask (s : State) (rt : ℕ) (prio : ℤ) (cpu : ℕ) : State :=
  enqueueTaskAt (deadlineInsert s rt) s rt prio cpu

def edfDequeueTask (s : State) (rt : ℕ) (prio : ℤ) (cpu : ℕ) : State := dequeueTaskAt s rt prio cpu

end Deadline

/-! ## Dispatch -/

/-- `rt->class->set_scheduler(rt, prio)` -/
def classSetScheduler (s : State) (rt : ℕ) (prio : ℤ) : State × Bool :=
  match (s.task rt).cls with
  | .fair => fairSetScheduler k s rt prio
  | .fp => fpSetScheduler k s rt prio
  | .edf => Edf.edfSetScheduler k s rt prio
  | .deadline => Deadline.edfSetScheduler c k s rt prio

/-- `rt->class->enqueue_task(rt, prio, cpu)` -/
def classEnqueueTask (s : State) (rt : ℕ) (prio : ℤ) (cpu : ℕ) : State :=
  match (s.task rt).cls with
  | .fair => fairEnqueueTask s rt prio cpu
  | .fp => fpEnqueueTask s rt prio cpu
  | .edf => Edf.edfEnqueueTask s rt prio cpu
  | .deadline => Deadline.edfEnqueueTask s rt prio cpu

/-- `rt->class->dequeue_task(rt, prio, cpu)` -/
def classDequeueTask (s : State) (rt : ℕ) (prio : ℤ) (cpu : ℕ) : State :=
  match (s.task rt).cls with
  | .fair => fairDequeueTask s rt prio cpu
  | .fp => fpDequeueTask s rt prio cpu
  | .edf => Edf.edfDequeueTask s rt prio cpu
  | .deadline => Deadline.edfDequeueTask s rt prio cpu

end Resch
