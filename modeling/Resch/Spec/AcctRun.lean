import Resch.Spec.ApiRun

/-!
# Accounting hooks

The functions that call the `start_account` and `stop_account` hooks of a class, with each call
recorded, and with what the functions of a plugin do: they call `set_scheduler` and `migrate_task`
on any tasks, in the middle of a job's start or completion. With a plugin that does nothing the
calls are those of `ApiOp.exec`.
-/

namespace Resch

/-- What happens to the accounting of a task. -/
inductive AcctEvent
  | start (rt : ℕ) (cls : SchedClass)
  | stop (rt : ℕ) (cls : SchedClass)
  /-- `reserve_stop` is done. -/
  | reserveStop (rt : ℕ)
  /-- `api_exit` gives the id back. -/
  | detach (rt : ℕ)
  deriving DecidableEq, Repr

/-- The core, and what has happened, the last event first. -/
structure AcctState where
  core : State
  events : List AcctEvent

/-- A call made by a plugin function. -/
inductive PluginCall
  | setScheduler (rt : ℕ) (policy prio : ℤ)
  | migrateTask (rt cpu : ℕ)

/-- The task that is passed. -/
def PluginCall.task : PluginCall → ℕ
  | setScheduler rt _ _ | migrateTask rt _ => rt

/-- What the functions of the plugin do when they are called. -/
structure PluginCalls where
  taskRun : List PluginCall
  taskExit : List PluginCall
  jobStart : List PluginCall
  jobComplete : List PluginCall

/-- `task_run_default`, `task_exit_default`, `job_start_default`, `job_complete_default` -/
def PluginCalls.default : PluginCalls := ⟨[], [], [], []⟩

namespace AcctState

variable (c : Config) (k : Kernel) (s : AcctState) (rt : ℕ)

/-- A change of the core without a hook. -/
def on (f : State → State) : AcctState := { s with core := f s.core }

def record (e : AcctEvent) : AcctState := { s with events := e :: s.events }

/-- `rt->class->start_account(rt)` -/
def classStartAccount : AcctState :=
  (s.record (.start rt (s.core.task rt).cls)).on fun s => Resch.classStartAccount c s rt

/-- `rt->class->stop_account(rt)` -/
def classStopAccount : AcctState :=
  (s.record (.stop rt (s.core.task rt).cls)).on fun s => Resch.classStopAccount s rt

/-- `start_account` -/
def startAccount : AcctState :=
  if s.core.isAccounting rt then s
  else
    let s := s.on fun s => s.setTask rt fun t => { t with budget := budgetLeft c s rt }
    let s := s.classStartAccount c rt
    s.on fun s => s.setTask rt fun t => { t with accounting := true }

/-- `stop_account` -/
def stopAccount : AcctState :=
  let s :=
    if s.core.isAccounting rt then
      let s := s.on fun s => s.setTask rt fun t => { t with budget := budgetLeft c s rt }
      let s := s.classStopAccount rt
      s.on fun s => s.setTask rt fun t => { t with accounting := false }
    else s
  s.on fun s => s.setTask rt fun t => { t with server := none }

/-! ## Migration -/

/-- The class calls its own hooks. -/
def restartAccount (cls : SchedClass) (stop start : State → ℕ → State) : AcctState :=
  if s.core.isAccounting rt then
    let s := (s.record (.stop rt cls)).on fun s => stop s rt
    (s.record (.start rt cls)).on fun s => start s rt
  else s

def fpMigrateTask (cpuDst : ℕ) : AcctState :=
  let cpuSrc := (s.core.task rt).cpuId
  let s :=
    if cpuSrc ≠ cpuDst then
      if s.core.isActive rt then
        let s := s.on fun s => fpDequeueTask s rt (s.task rt).prio cpuSrc
        let s := s.on fun s => s.setCpu rt cpuDst
        s.on fun s => fpEnqueueTask s rt (s.task rt).prio cpuDst
      else s.on fun s => s.setCpu rt cpuDst
    else s
  let s := s.on fun s => migrateTask' s rt cpuDst
  s.restartAccount rt .fp fpStopAccount (fpStartAccount c)

def edfMigrateTask (cpuDst : ℕ) : AcctState :=
  let cpuSrc := (s.core.task rt).cpuId
  if cpuSrc ≠ cpuDst then
    if s.core.isActive rt then
      let nextSrc :=
        if activeHighestPrioTask s.core cpuSrc = some rt then activeNextPrioTask s.core rt else none
      let s := s.on fun s => Edf.edfDequeueTask s rt (s.task rt).prio cpuSrc
      let currDst := activePrioTask s.core cpuDst reschPrioEdfRun
      let s := s.on fun s => s.setCpu rt cpuDst
      let s := s.on fun s => Edf.edfEnqueueTask s rt (s.task rt).prio cpuDst
      let s := s.on fun s => ifSome s nextSrc wakeUpProcess
      let s := s.on fun s => migrateTask' s rt cpuDst
      let s := s.restartAccount rt .edf Edf.edfStopAccount (Edf.edfStartAccount c)
      s.on fun s => ifSome s currDst fun s curr =>
        if (s.task rt).deadlineTime < (s.task curr).deadlineTime then
          setRunState s curr .interruptible
        else setRunState s rt .interruptible
    else s.on fun s => migrateTask' (s.setCpu rt cpuDst) rt cpuDst
  else s.on fun s => migrateTask' s rt cpuDst

def deadlineMigrateTask (cpuDst : ℕ) : AcctState :=
  let cpuSrc := (s.core.task rt).cpuId
  if cpuSrc ≠ cpuDst then
    if s.core.isActive rt then
      let s := s.on fun s => Deadline.edfDequeueTask s rt reschPrioEdf cpuSrc
      let s := s.on fun s => s.setCpu rt cpuDst
      let s := s.on fun s => Deadline.edfEnqueueTask s rt reschPrioEdf cpuDst
      let s := s.on fun s => migrateTask' s rt cpuDst
      s.restartAccount rt .deadline Deadline.edfStopAccount (Deadline.edfStartAccount c)
    else s.on fun s => migrateTask' (s.setCpu rt cpuDst) rt cpuDst
  else s.on fun s => migrateTask' s rt cpuDst

/-- `migrate_task` -/
def migrateTask (cpuDst : ℕ) : AcctState :=
  match (s.core.task rt).cls with
  | .fair => s
  | .fp => s.fpMigrateTask c rt cpuDst
  | .edf => s.edfMigrateTask c rt cpuDst
  | .deadline => s.deadlineMigrateTask c rt cpuDst

def pluginCall : PluginCall → AcctState
  | .setScheduler rt policy prio => s.on fun s => (Resch.setScheduler c k s rt policy prio).1
  | .migrateTask rt cpu => s.migrateTask c rt cpu

/-- A function of the plugin is called. -/
def plugin (calls : List PluginCall) : AcctState := calls.foldl (pluginCall c k) s

/-! ## Jobs -/

/-- `job_start` -/
def jobStart (calls : List PluginCall) : AcctState :=
  let s := s.on fun s => classJobStart s rt
  let s := s.plugin c k calls
  if s.core.hasReserve rt then s.startAccount c rt else s

/-- `job_complete` -/
def jobComplete (calls : List PluginCall) : AcctState :=
  let s := s.on fun s =>
    let spent := c.jiffiesToUsecs (execTime c s rt)
    if (s.task rt).wcetFixed = false ∧ (s.task rt).wcet < spent then
      s.setTask rt fun t => { t with wcet := spent }
    else s
  let s := s.plugin c k calls
  let s := s.on fun s => classJobComplete s rt
  if s.core.hasReserve rt then
    let s := s.stopAccount c rt
    s.on fun s => reserveReplenish c k s rt
  else s

/-! ## Calls -/

/-- `reserve_start` -/
def reserveStart (cputime : ℕ) (xcpu : Bool) : AcctState :=
  let s := s.on fun s => s.setTask rt fun t =>
    { t with replenishTimer := none, reserveTime := c.msecsToJiffies cputime, xcpu := xcpu }
  s.startAccount c rt

/-- `reserve_stop` -/
def reserveStop : AcctState :=
  let s := s.on fun s => s.setTask rt fun t => { t with replenishTimer := none }
  let s := s.stopAccount c rt
  let s := s.on fun s => s.setTask rt fun t => { t with reserveTime := 0 }
  s.record (.reserveStop rt)

/-- `api_reserve_start` -/
def apiReserveStart (cputime : ℕ) (xcpu : Bool) : AcctState :=
  if s.core.hasReserve rt then s else s.reserveStart c rt cputime xcpu

/-- `api_reserve_stop` -/
def apiReserveStop : AcctState := if s.core.hasReserve rt then s.reserveStop c rt else s

/-- `api_reserve_expire` -/
def apiReserveExpire : AcctState :=
  if !s.core.hasReserve rt then s
  else
    let s := if s.core.isAccounting rt then s.stopAccount c rt else s
    let next := (s.core.task rt).releaseTime + (s.core.task rt).period
    if next ≤ s.core.jiffies then
      let s := s.on fun s => classReserveReplenish c k s rt (s.task rt).reserveTime
      s.startAccount c rt
    else
      let s := s.on fun s => classReserveExpire c k s rt
      s.on fun s => s.setTask rt fun t => { t with replenishTimer := some next }

/-- `api_exit` -/
def apiExit (calls : PluginCalls) : AcctState :=
  let s := if s.core.isActive rt then s.jobComplete c k rt calls.jobComplete else s
  let s := if s.core.hasReserve rt then s.reserveStop c rt else s
  let s := s.on fun s => if s.isManaged rt then globalListRemove s rt else s
  let s := s.plugin c k calls.taskExit
  let s := (s.on fun s => apiExitClear s rt).record (.detach rt)
  s.on fun s => apiExitPolicy c k s rt

/-- `api_run` up to the sleep. -/
def apiRun (timeout : ℕ) (calls : List PluginCall) : AcctState :=
  let s := s.on fun s => globalListInsert s rt
  let s := s.plugin c k calls
  s.on fun s =>
    let s := if (s.task rt).policy = reschSchedFair then globalListRemove s rt else s
    jobReleaseWait s rt (s.jiffies + c.msecsToJiffies timeout)

/-- `api_wait_for_period` and `api_wait_for_interval` up to the sleep. -/
def waitFor (calls : List PluginCall) (release : State → ℕ) : AcctState :=
  let s := s.on fun s => (deadlineMiss s rt).1
  let s := s.jobComplete c k rt calls
  s.on fun s => jobReleaseWait s rt (release s)

/-- `api_wait_for_period` up to the sleep. -/
def apiWaitForPeriod (calls : List PluginCall) : AcctState :=
  s.waitFor c k rt calls fun s => (s.task rt).releaseTime + (s.task rt).period

/-- `api_wait_for_interval` up to the sleep. -/
def apiWaitForInterval (period : ℕ) (calls : List PluginCall) : AcctState :=
  s.waitFor c k rt calls fun s => s.jiffies + period

/-- The rest of `api_run`, `api_wait_for_period` and `api_wait_for_interval` -/
def jobRelease (calls : List PluginCall) : Option AcctState :=
  (jobReleaseDone c s.core rt).map fun core => { s with core }.jobStart c k rt calls

end AcctState

/-- What a step does. The calls that are not listed call no hook. -/
def acctExec (c : Config) (k : Kernel) (calls : PluginCalls) (s : AcctState) (op : ApiOp) :
    Option AcctState :=
  match op with
  | .exit rt => some ((s.apiExit c k rt calls).on fun s => s.setPoint rt .detached)
  | .run rt timeout =>
    some ((s.apiRun c k rt timeout calls.taskRun).on fun s => s.setPoint rt .release)
  | .waitForPeriod rt =>
    some ((s.apiWaitForPeriod c k rt calls.jobComplete).on fun s => s.setPoint rt .release)
  | .waitForInterval rt period =>
    some ((s.apiWaitForInterval c k rt period calls.jobComplete).on fun s => s.setPoint rt .release)
  | .release rt => (s.jobRelease c k rt calls.jobStart).map fun s => s.on fun s => s.setPoint rt .user
  | .reserveStart rt cputime xcpu => some (s.apiReserveStart c rt cputime xcpu)
  | .reserveStop rt => some (s.apiReserveStop c rt)
  | .reserveExpire rt => some (s.apiReserveExpire c k rt)
  | .migrate rt cpu => some (s.migrateTask c rt cpu)
  | op => (op.exec c k s.core).map fun core => { s with core }

/-- The step function; each step comes with what the plugin does and what Linux answers. -/
def acctStep (c : Config) (s : AcctState) (a : ApiOp × PluginCalls × Kernel) : Option AcctState :=
  if a.1.enabled s.core then acctExec c a.2.2 a.2.1 s a.1 else none

/-- The module has been loaded. -/
def acctInit (jiffies : ℕ) (proc : ℕ → Proc) : AcctState where
  core := schedInit jiffies proc
  events := []

end Resch
