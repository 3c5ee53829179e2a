import Resch.Spec.ApiRun

/-!
# Levels of the active queues that calls use (`sched.h`, `sched_edf.c`)

`State.trace` has the levels of all enqueues and dequeues. `ApiOp.looks` are the levels at which
a call asks `active_prio_task` and `active_next_prio_task` for a task; only the EDF class of
`sched_edf.c` does, and nothing asks `active_prev_prio_task` unless preemptions are traced.
Calls here are made by any process, on any task and at any moment.
-/

namespace Resch

variable (c : Config) (k : Kernel) (s : State)

/-- Every call can be made at every moment. -/
def callStep (a : ApiOp × Kernel) : Option State := a.1.exec c a.2 s

/-! ## Lookups -/

namespace Edf

/-- Level of the lookup in `edf_job_start` -/
def edfJobStartLooks (rt : ℕ) : List ℤ :=
  let cpu := (s.task rt).cpuId
  let s := edfEnqueueTask s rt reschPrioEdf cpu
  if activeHighestPrioTask s cpu = some rt then [prioIndex (s.task rt).prio] else []

/-- Level of the lookup in `edf_reserve_replenish` -/
def edfReserveReplenishLooks (rt cputime : ℕ) : List ℤ :=
  let cpu := (s.task rt).cpuId
  let s := s.setTask rt fun t => { t with budget := t.budget + cputime }
  if (s.task rt).prio = reschPrioBackground ∧ s.isActive rt = true then
    let s := edfDequeueTask s rt reschPrioBackground cpu
    let s := edfEnqueueTask s rt reschPrioEdf cpu
    if activeHighestPrioTask s cpu = some rt ∧ (s.procOf rt).state = .interruptible then
      [prioIndex (s.task rt).prio]
    else []
  else []

/-- Levels of the lookups in `edf_migrate_task` -/
def edfMigrateTaskLooks (rt cpuDst : ℕ) : List ℤ :=
  if (s.task rt).cpuId ≠ cpuDst ∧ s.isActive rt = true then
    if activeHighestPrioTask s (s.task rt).cpuId = some rt then
      [prioIndex (s.task rt).prio, prioIndex reschPrioEdfRun]
    else [prioIndex reschPrioEdfRun]
  else []

end Edf

def classReserveReplenishLooks (rt cputime : ℕ) : List ℤ :=
  if (s.task rt).cls = .edf then Edf.edfReserveReplenishLooks s rt cputime else []

def reserveReplenishLooks (rt : ℕ) : List ℤ :=
  let t := s.task rt
  if s.jiffies < t.releaseTime + t.period ∨ t.replenishTimer = none then
    classReserveReplenishLooks s rt t.reserveTime
  else []

def jobCompleteLooks (rt : ℕ) : List ℤ :=
  let spent := c.jiffiesToUsecs (execTime c s rt)
  let s :=
    if (s.task rt).wcetFixed = false ∧ (s.task rt).wcet < spent then
      s.setTask rt fun t => { t with wcet := spent }
    else s
  let s := classJobComplete s rt
  if s.hasReserve rt then reserveReplenishLooks (stopAccount c s rt) rt else []

def apiReserveExpireLooks (rt : ℕ) : List ℤ :=
  if !s.hasReserve rt then []
  else
    let s := if s.isAccounting rt then stopAccount c s rt else s
    if (s.task rt).releaseTime + (s.task rt).period ≤ s.jiffies then
      classReserveReplenishLooks s rt (s.task rt).reserveTime
    else []

def ApiOp.looks : ApiOp → List ℤ
  | exit rt => if s.isActive rt then jobCompleteLooks c s rt else []
  | waitForPeriod rt | waitForInterval rt _ => jobCompleteLooks c (deadlineMiss s rt).1 rt
  | release rt =>
    (jobReleaseDone c s rt).elim [] fun s =>
      if (s.task rt).cls = .edf then Edf.edfJobStartLooks s rt else []
  | reserveExpire rt => apiReserveExpireLooks c s rt
  | replenishTimer rt =>
    let s := s.setTask rt fun t => { t with replenishTimer := none }
    classReserveReplenishLooks s rt (s.task rt).reserveTime
  | migrate rt cpu => if (s.task rt).cls = .edf then Edf.edfMigrateTaskLooks s rt cpu else []
  | _ => []

/-! ## Priorities -/

/-- The priorities that have a level. -/
def hasLevel (prio : ℤ) : Bool := decide (reschPrioMin ≤ prio ∧ prio ≤ reschPrioMax)

/-- A call leaves no task of a class with queues with a priority that has no level: Linux does not
accept more than `RESCH_PRIO_MAX` for an FP task, a task changes to such a class only with a
priority that has a level, and a `SCHED_DEADLINE` task sleeps only if it has saved a priority. -/
def ApiOp.ranged : ApiOp → Bool
  | setPriority rt prio =>
    decide ((s.task rt).policy = reschSchedFp ∧ k.setscheduler .fifo prio = true →
      prio ≤ reschPrioMax)
  | setScheduler rt policy =>
    decide (policy ≠ (s.task rt).policy ∧ (policy = reschSchedFp ∨ policy = reschSchedEdf) →
      hasLevel (s.task rt).prio = true)
  | sleep rt | suspend rt =>
    decide ((s.task rt).cls = .deadline ∧ k.acceptsTask c (s.task rt) = true →
      (s.task rt).prioSave ≠ 0)
  | _ => true

end Resch
