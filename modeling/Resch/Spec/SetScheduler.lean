import Resch.Spec.Classes

/-!
# The global list and changing the scheduler of a task (`sched.c`)

`setScheduler'` is `__set_scheduler`, which asks the class and then moves the task
in the global list and in its active queue; `setScheduler` assigns policy and class
first. A caller without `CAP_SYS_NICE` hands the change to the kernel thread of its
CPU and sleeps until that thread has served the request, and is told nothing of the
result.
-/

namespace Resch

open Lib

variable (c : Config) (k : Kernel)

/-- `__global_list_insert`: before the first task of lower priority; a task that is in
the list stays where it is. -/
def globalListInsert (s : State) (rt : ℕ) : State :=
  if s.isManaged rt then s
  else
    { s with
      taskList := insertBefore (fun p => decide ((s.task p).prio < (s.task rt).prio)) rt s.taskList
      task := Function.update s.task rt { s.task rt with globalEntry := true } }

/-- `__global_list_remove` -/
def globalListRemove (s : State) (rt : ℕ) : State :=
  if s.isManaged rt then
    { s with
      taskList := s.taskList.filter (· ≠ rt)
      task := Function.update s.task rt { s.task rt with globalEntry := false } }
  else s

/-- `global_list_reinsert` -/
def globalListReinsert (s : State) (rt : ℕ) : State := globalListInsert (globalListRemove s rt) rt

/-- `requeue_task`: out of the level of the old priority, into that of the new one. -/
def requeueTask (s : State) (rt : ℕ) (prioOld : ℤ) : State :=
  let cpu := (s.task rt).cpuId
  let prioNew := (s.task rt).prio
  classEnqueueTask (classDequeueTask s rt prioOld cpu) rt prioNew cpu

/-- The second half of `__set_scheduler`: move the task in both kinds of lists. -/
def moveTask (s : State) (rt : ℕ) (prioOld : ℤ) : State :=
  let s := if s.isManaged rt then globalListReinsert s rt else s
  if s.isActive rt then requeueTask s rt prioOld else s

/-- `__set_scheduler` -/
def setScheduler' (s : State) (rt : ℕ) (prio : ℤ) : State × Bool :=
  let prioOld := (s.task rt).prio
  let (s, ok) := classSetScheduler c k s rt prio
  if !ok then (s, false)
  else if prioOld = (s.task rt).prio then (s, true)
  else (moveTask s rt prioOld, true)

/-- `request_set_scheduler`, served by `set_scheduler_thread` before the caller goes on. -/
def requestSetScheduler (s : State) (rt : ℕ) (prio : ℤ) : State := (setScheduler' c k s rt prio).1

/-- The policy and class that `set_scheduler` assigns. An unknown policy is taken for FAIR. -/
def Config.policyClass (policy : ℤ) : ℤ × SchedClass :=
  if policy = reschSchedFp then (reschSchedFp, .fp)
  else if policy = reschSchedEdf then (reschSchedEdf, c.edfSchedClass)
  else (reschSchedFair, .fair)

/-- Assign policy and class, if the policy is a different one. -/
def setPolicy (s : State) (rt : ℕ) (policy : ℤ) : State :=
  if (s.task rt).policy ≠ policy then
    s.setTask rt fun t => { t with policy := (c.policyClass policy).1, cls := (c.policyClass policy).2 }
  else s

/-- `set_scheduler` -/
def setScheduler (s : State) (rt : ℕ) (policy prio : ℤ) : State × Bool :=
  let s := setPolicy c s rt policy
  if k.capable then setScheduler' c k s rt prio
  else (requestSetScheduler c k s rt prio, true)

/-- `api_set_priority` -/
def apiSetPriority (s : State) (rt : ℕ) (prio : ℤ) : State × ℤ :=
  let policy := (s.task rt).policy
  if policy = reschSchedEdf ∨ policy = reschSchedFair then (s, resFault)
  else
    let (s, ok) := setScheduler c k s rt policy prio
    if ok then (s, resSuccess) else (s, resFault)

/-- `api_set_scheduler` -/
def apiSetScheduler (s : State) (rt : ℕ) (policy : ℤ) : State × ℤ :=
  if policy ≠ (s.task rt).policy then
    let (s, ok) := setScheduler c k s rt policy (s.task rt).prio
    if ok then (s, resSuccess) else (s, resFault)
  else (s, resSuccess)

end Resch
