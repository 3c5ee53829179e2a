import Mathlib.Algebra.Group.Nat.Defs
import Resch.Spec.SetScheduler

/-!
# Jobs, accounting, reserves and migration

The remaining hooks of the scheduling classes with their dispatch, and the functions
of `sched.c` and `reservation.c` that call them: `job_start`, `job_complete`,
`start_account`, `stop_account`, `reserve_replenish`, `migrate_task`. The plugin
functions are the default ones, which do nothing.
-/

namespace Resch

variable (c : Config) (k : Kernel)

/-- `x - y` for `unsigned long`. -/
def ulongSub (x y : ℕ) : ℕ := (x + 2 ^ 64 - y) % 2 ^ 64

/-- `exec_time`: the CPU time of the process in jiffies. -/
def execTime (s : State) (rt : ℕ) : ℕ := c.usecsToJiffies ((s.procOf rt).cputime / 1000)

/-- `reset_exec_time` -/
def resetExecTime (s : State) (rt : ℕ) : State :=
  s.setProc (s.task rt).task fun q => { q with cputime := 0 }

/-- Assign `rt->task->state`. -/
def setRunState (s : State) (rt : ℕ) (st : RunState) : State :=
  s.setProc (s.task rt).task fun q => { q with state := st }

/-- `wake_up_process(rt->task)`; a stopped process is not woken. -/
def wakeUpProcess (s : State) (rt : ℕ) : State :=
  s.setProc (s.task rt).task fun q =>
    if q.state = .interruptible ∨ q.state = .uninterruptible then { q with state := .running } else q

/-- `__migrate_task`: let Linux run the task on one CPU only. -/
def migrateTask' (s : State) (rt cpu : ℕ) : State :=
  let s := s.setTask rt fun t => { t with cpumask := fun x => decide (x = cpu) }
  s.setProc (s.task rt).task fun q => { q with cpusAllowed := (s.task rt).cpumask }

/-! ## Accounting -/

/-- Limit the CPU time of the process to the budget. -/
def limitRttime (s : State) (rt : ℕ) : State :=
  s.setProc (s.task rt).task fun q =>
    { q with rlimRttime := some (c.jiffiesToUsecs (ulongSub (s.task rt).budget (execTime c s rt))) }

/-- Take the limit on CPU time off. -/
def unlimitRttime (s : State) (rt : ℕ) : State :=
  s.setProc (s.task rt).task fun q => { q with rlimRttime := none }

def fairStartAccount (s : State) (_rt : ℕ) : State := s

def fairStopAccount (s : State) (_rt : ℕ) : State := s

/-- Also saves the priority, which `fpReserveReplenish` and `jobSuspend` put back. -/
def fpStartAccount (s : State) (rt : ℕ) : State :=
  (limitRttime c s rt).setTask rt fun t => { t with prioSave := t.prio }

def fpStopAccount (s : State) (rt : ℕ) : State := unlimitRttime s rt

def Edf.edfStartAccount (s : State) (rt : ℕ) : State := limitRttime c s rt

def Edf.edfStopAccount (s : State) (rt : ℕ) : State := unlimitRttime s rt

/-- The budget is left to `SCHED_DEADLINE`, unless the task has no reserve. -/
def Deadline.edfStartAccount (s : State) (rt : ℕ) : State :=
  let s := if s.hasReserve rt then s
    else s.setProc (s.task rt).task fun q =>
      { q with dlRuntime := c.jiffiesToNsecs (s.task rt).budget }
  s.setProc (s.task rt).task fun q => { q with dlExhaustive := false, dlFcbs := true }

def Deadline.edfStopAccount (s : State) (rt : ℕ) : State :=
  s.setProc (s.task rt).task fun q => { q with dlExhaustive := true, dlFcbs := false }

/-- `rt->class->start_account(rt)` -/
def classStartAccount (s : State) (rt : ℕ) : State :=
  match (s.task rt).cls with
  | .fair => fairStartAccount s rt
  | .fp => fpStartAccount c s rt
  | .edf => Edf.edfStartAccount c s rt
  | .deadline => Deadline.edfStartAccount c s rt

/-- `rt->class->stop_account(rt)` -/
def classStopAccount (s : State) (rt : ℕ) : State :=
  match (s.task rt).cls with
  | .fair => fairStopAccount s rt
  | .fp => fpStopAccount s rt
  | .edf => Edf.edfStopAccount s rt
  | .deadline => Deadline.edfStopAccount s rt

/-- What is left of the reserve. -/
def budgetLeft (s : State) (rt : ℕ) : ℕ :=
  (s.task rt).reserveTime - min (execTime c s rt) (s.task rt).reserveTime

/-- `start_account` -/
def startAccount (s : State) (rt : ℕ) : State :=
  if s.isAccounting rt then s
  else
    let s := s.setTask rt fun t => { t with budget := budgetLeft c s rt }
    let s := classStartAccount c s rt
    s.setTask rt fun t => { t with accounting := true }

/-- `stop_account`, which also drops a server of the task. -/
def stopAccount (s : State) (rt : ℕ) : State :=
  let s :=
    if s.isAccounting rt then
      let s := s.setTask rt fun t => { t with budget := budgetLeft c s rt }
      let s := classStopAccount s rt
      s.setTask rt fun t => { t with accounting := false }
    else s
  s.setTask rt fun t => { t with server := none }

/-! ## Expiration and replenishment of a reserve -/

def fairReserveExpire (s : State) (_rt : ℕ) : State := s

def fpReserveExpire (s : State) (rt : ℕ) : State := (setScheduler' c k s rt reschPrioBackground).1

/-- Into the background level; the next task runs. -/
def Edf.edfReserveExpire (s : State) (rt : ℕ) : State :=
  let cpu := (s.task rt).cpuId
  if !s.isActive rt then s
  else
    let s := Edf.edfDequeueTask s rt (s.task rt).prio cpu
    let s := Edf.edfEnqueueTask s rt reschPrioBackground cpu
    ifSome s (activeHighestPrioTask s cpu) fun s next =>
      if rt = next then s else setRunState (wakeUpProcess s next) rt .interruptible

def Deadline.edfReserveExpire (s : State) (_rt : ℕ) : State := s

/-- `rt->class->reserve_expire(rt)` -/
def classReserveExpire (s : State) (rt : ℕ) : State :=
  match (s.task rt).cls with
  | .fair => fairReserveExpire s rt
  | .fp => fpReserveExpire c k s rt
  | .edf => Edf.edfReserveExpire s rt
  | .deadline => Deadline.edfReserveExpire s rt

def fairReserveReplenish (s : State) (_rt _cputime : ℕ) : State := s

/-- The saved priority comes back only if the task is active at the background level. -/
def fpReserveReplenish (s : State) (rt cputime : ℕ) : State :=
  let s := s.setTask rt fun t => { t with budget := t.budget + cputime }
  if (s.task rt).prio = reschPrioBackground ∧ s.isActive rt = true then
    requestSetScheduler c k s rt (s.task rt).prioSave
  else s

/-- Out of the background level; if that makes a sleeping task the highest one, it takes
the CPU over. -/
def Edf.edfReserveReplenish (s : State) (rt cputime : ℕ) : State :=
  let cpu := (s.task rt).cpuId
  let s := s.setTask rt fun t => { t with budget := t.budget + cputime }
  if (s.task rt).prio = reschPrioBackground ∧ s.isActive rt = true then
    let s := Edf.edfDequeueTask s rt reschPrioBackground cpu
    let s := Edf.edfEnqueueTask s rt reschPrioEdf cpu
    if activeHighestPrioTask s cpu = some rt ∧ (s.procOf rt).state = .interruptible then
      wakeUpProcess (ifSome s (activeNextPrioTask s rt) fun s p => setRunState s p .interruptible) rt
    else s
  else s

def Deadline.edfReserveReplenish (s : State) (_rt _cputime : ℕ) : State := s

/-- `rt->class->reserve_replenish(rt, cputime)` -/
def classReserveReplenish (s : State) (rt cputime : ℕ) : State :=
  match (s.task rt).cls with
  | .fair => fairReserveReplenish s rt cputime
  | .fp => fpReserveReplenish c k s rt cputime
  | .edf => Edf.edfReserveReplenish s rt cputime
  | .deadline => Deadline.edfReserveReplenish s rt cputime

/-- `on_replenish`: the replenish timer of `rt` has expired. -/
def onReplenish (s : State) (rt : ℕ) : State :=
  let s := s.setTask rt fun t => { t with replenishTimer := none }
  classReserveReplenish c k s rt (s.task rt).reserveTime

/-- `reserve_replenish` -/
def reserveReplenish (s : State) (rt : ℕ) : State :=
  let t := s.task rt
  let s :=
    if s.jiffies < t.releaseTime + t.period ∨ t.replenishTimer = none then
      classReserveReplenish c k s rt t.reserveTime
    else s
  s.setTask rt fun t => { t with replenishTimer := none }

/-! ## Jobs -/

def fairJobStart (s : State) (_rt : ℕ) : State := s

def fpJobStart (s : State) (rt : ℕ) : State := fpEnqueueTask s rt (s.task rt).prio (s.task rt).cpuId

/-- The task runs if it is the highest one, and then the one after it sleeps. -/
def Edf.edfJobStart (s : State) (rt : ℕ) : State :=
  let cpu := (s.task rt).cpuId
  let s := Edf.edfEnqueueTask s rt reschPrioEdf cpu
  if activeHighestPrioTask s cpu = some rt then
    ifSome s (activeNextPrioTask s rt) fun s curr => setRunState s curr .interruptible
  else setRunState s rt .interruptible

def Deadline.edfJobStart (s : State) (rt : ℕ) : State :=
  Deadline.edfEnqueueTask s rt reschPrioEdf (s.task rt).cpuId

/-- `rt->class->job_start(rt)` -/
def classJobStart (s : State) (rt : ℕ) : State :=
  match (s.task rt).cls with
  | .fair => fairJobStart s rt
  | .fp => fpJobStart s rt
  | .edf => Edf.edfJobStart s rt
  | .deadline => Deadline.edfJobStart s rt

def fairJobComplete (s : State) (_rt : ℕ) : State := s

def fpJobComplete (s : State) (rt : ℕ) : State :=
  fpDequeueTask s rt (s.task rt).prio (s.task rt).cpuId

/-- Wakes the task that is the highest one now. -/
def Edf.edfJobComplete (s : State) (rt : ℕ) : State :=
  let cpu := (s.task rt).cpuId
  let s := Edf.edfDequeueTask s rt (s.task rt).prio cpu
  let s := s.setPrio rt reschPrioEdf
  ifSome s (activeHighestPrioTask s cpu) wakeUpProcess

def Deadline.edfJobComplete (s : State) (rt : ℕ) : State :=
  Deadline.edfDequeueTask s rt reschPrioEdf (s.task rt).cpuId

/-- `rt->class->job_complete(rt)` -/
def classJobComplete (s : State) (rt : ℕ) : State :=
  match (s.task rt).cls with
  | .fair => fairJobComplete s rt
  | .fp => fpJobComplete s rt
  | .edf => Edf.edfJobComplete s rt
  | .deadline => Deadline.edfJobComplete s rt

/-- `job_start` -/
def jobStart (s : State) (rt : ℕ) : State :=
  let s := classJobStart s rt
  if s.hasReserve rt then startAccount c s rt else s

/-- `job_complete` -/
def jobComplete (s : State) (rt : ℕ) : State :=
  let spent := c.jiffiesToUsecs (execTime c s rt)
  let s :=
    if (s.task rt).wcetFixed = false ∧ (s.task rt).wcet < spent then
      s.setTask rt fun t => { t with wcet := spent }
    else s
  let s := classJobComplete s rt
  if s.hasReserve rt then reserveReplenish c k (stopAccount c s rt) rt else s

/-! ## Migration -/

def fairMigrateTask (s : State) (_rt _cpuDst : ℕ) : State := s

/-- Restart the accounting on the new CPU. -/
def restartAccount (stop start : State → ℕ → State) (s : State) (rt : ℕ) : State :=
  if s.isAccounting rt then start (stop s rt) rt else s

def fpMigrateTask (s : State) (rt cpuDst : ℕ) : State :=
  let cpuSrc := (s.task rt).cpuId
  let s :=
    if cpuSrc ≠ cpuDst then
      if s.isActive rt then
        let s := fpDequeueTask s rt (s.task rt).prio cpuSrc
        let s := s.setCpu rt cpuDst
        fpEnqueueTask s rt (s.task rt).prio cpuDst
      else s.setCpu rt cpuDst
    else s
  let s := migrateTask' s rt cpuDst
  restartAccount fpStopAccount (fpStartAccount c) s rt

/-- The current task of the destination is looked up at the level `RESCH_PRIO_EDF_RUN`. -/
def Edf.edfMigrateTask (s : State) (rt cpuDst : ℕ) : State :=
  let cpuSrc := (s.task rt).cpuId
  if cpuSrc ≠ cpuDst then
    if s.isActive rt then
      let nextSrc := if activeHighestPrioTask s cpuSrc = some rt then activeNextPrioTask s rt else none
      let s := Edf.edfDequeueTask s rt (s.task rt).prio cpuSrc
      let currDst := activePrioTask s cpuDst reschPrioEdfRun
      let s := s.setCpu rt cpuDst
      let s := Edf.edfEnqueueTask s rt (s.task rt).prio cpuDst
      let s := ifSome s nextSrc wakeUpProcess
      let s := migrateTask' s rt cpuDst
      let s := restartAccount Edf.edfStopAccount (Edf.edfStartAccount c) s rt
      ifSome s currDst fun s curr =>
        if (s.task rt).deadlineTime < (s.task curr).deadlineTime then
          setRunState s curr .interruptible
        else setRunState s rt .interruptible
    else migrateTask' (s.setCpu rt cpuDst) rt cpuDst
  else migrateTask' s rt cpuDst

def Deadline.edfMigrateTask (s : State) (rt cpuDst : ℕ) : State :=
  let cpuSrc := (s.task rt).cpuId
  if cpuSrc ≠ cpuDst then
    if s.isActive rt then
      let s := Deadline.edfDequeueTask s rt reschPrioEdf cpuSrc
      let s := s.setCpu rt cpuDst
      let s := Deadline.edfEnqueueTask s rt reschPrioEdf cpuDst
      let s := migrateTask' s rt cpuDst
      restartAccount Deadline.edfStopAccount (Deadline.edfStartAccount c) s rt
    else migrateTask' (s.setCpu rt cpuDst) rt cpuDst
  else migrateTask' s rt cpuDst

/-- `migrate_task` -/
def migrateTask (s : State) (rt cpuDst : ℕ) : State :=
  match (s.task rt).cls with
  | .fair => fairMigrateTask s rt cpuDst
  | .fp => fpMigrateTask c s rt cpuDst
  | .edf => Edf.edfMigrateTask c s rt cpuDst
  | .deadline => Deadline.edfMigrateTask c s rt cpuDst

end Resch
