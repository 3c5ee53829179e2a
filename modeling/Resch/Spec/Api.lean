import Resch.Spec.Jobs

/-!
# The calls of the core (`sched.c`, `event.c`, `reservation.c`, `component.c`)

A call during which the process sleeps is two functions, one up to the point where
it goes to sleep and one from there on, so that other tasks can run in between:
`apiRun`, `apiWaitForPeriod` and `apiWaitForInterval` end asleep in `job_release`, and
`jobRelease` is the rest; `apiSleep` and `apiSuspend` end asleep after `jobSuspend`, and
`jobResume` is the rest. `none` stands for a call that never returns or follows a null
pointer.
-/

namespace Resch

variable (c : Config) (k : Kernel)

/-! ## Attaching and detaching -/

/-- Number of words of the pid map. -/
def Config.pidMapLong (c : Config) : ℕ := bitsToLongs 64 c.nrRtTasks

/-- `resch_task_init` for the process `current`. `prio_save`, the budget and the timers
keep what the last owner left; the list heads are re-initialised wherever they are linked. -/
def reschTaskInit (s : State) (rt current : ℕ) : State :=
  let s := s.setTask rt fun t => { t with task := current, cpumask := fun x => decide (x < c.nrRtCpus) }
  let s := s.setProc current fun q =>
    { q with cpusAllowed := fun x => q.cpusAllowed x && decide (x < c.nrRtCpus) }
  let s := if c.nrRtCpus ≤ k.smpProcessorId then migrateTask' s rt (s.jiffies % c.nrRtCpus) else s
  s.setTask rt fun t =>
    { t with
      prio := reschPrioMin
      cpuId := c.reschCpuUndefined
      migratory := true
      missed := false
      wcetFixed := false
      wcet := 0
      runtime := 0
      period := 0
      deadline := 0
      deadlineTime := 0
      releaseTime := 0
      cls := .fp
      policy := reschSchedFp
      accounting := false
      xcpu := false
      reserveTime := 0
      server := none
      globalEntry := false
      activeEntry := false
      componentEntry := false }

/-- The body of the loop of `clear_dead_tasks`. -/
def clearDeadTask (s : State) (i : ℕ) : State :=
  let p := (s.task i).task
  if p ≠ 0 ∧ (s.proc p).state = .stopped then { s with pidMap := clearBit i s.pidMap } else s

/-- `clear_dead_tasks` -/
def clearDeadTasks (s : State) : State := (List.range c.nrRtTasks).foldl clearDeadTask s

/-- `api_init` under the lock of the pid map: take the first free id, or clear the ids of
tasks that are taken for dead and fail. -/
def apiInitTake (s : State) : State × ℤ :=
  let rid := reschFfz s.pidMap c.pidMapLong
  if rid < 0 then (clearDeadTasks c s, rid) else ({ s with pidMap := setBit rid s.pidMap }, rid)

/-- `api_init` of the process `current`. -/
def apiInit (s : State) (current : ℕ) : State × ℤ :=
  let (s, rid) := apiInitTake c s
  if rid < 0 then (s, rid) else (reschTaskInit c k s rid.toNat current, rid)

/-- `reserve_stop` -/
def reserveStop (s : State) (rt : ℕ) : State :=
  let s := s.setTask rt fun t => { t with replenishTimer := none }
  let s := stopAccount c s rt
  s.setTask rt fun t => { t with reserveTime := 0 }

/-- `api_exit` up to the pid map: complete the job, stop the reserve, leave the global list. -/
def apiExitDetach (s : State) (rt : ℕ) : State :=
  let s := if s.isActive rt then jobComplete c k s rt else s
  let s := if s.hasReserve rt then reserveStop c s rt else s
  if s.isManaged rt then globalListRemove s rt else s

/-- `api_exit` under the lock of the pid map. -/
def apiExitClear (s : State) (rt : ℕ) : State := { s with pidMap := clearBit rt s.pidMap }

/-- `api_exit` after the pid map: put back the scheduling policy and priority. -/
def apiExitPolicy (s : State) (rt : ℕ) : State :=
  if (s.task rt).policy ≠ reschSchedFair then (setScheduler c k s rt reschSchedFair 0).1 else s

/-- `api_exit` -/
def apiExit (s : State) (rt : ℕ) : State × ℤ :=
  (apiExitPolicy c k (apiExitClear (apiExitDetach c k s rt) rt) rt, resSuccess)

/-! ## Running -/

/-- `job_release` up to the sleep in `wait_period`. -/
def jobReleaseWait (s : State) (rt releaseTime : ℕ) : State :=
  let s := s.setTask rt fun t => { t with releaseTime := releaseTime }
  match (s.task rt).cls with
  | .fp => s
  | .fair | .edf => if s.jiffies < (s.task rt).releaseTime then setRunState s rt .uninterruptible else s
  | .deadline => setRunState s rt .interruptible

/-- `job_release` after the sleep. With `SCHED_DEADLINE` the loop on `runtime <= 0` has a
body that leaves `runtime` alone. -/
def jobReleaseDone (s : State) (rt : ℕ) : Option State :=
  let s := setRunState s rt .running
  let s := resetExecTime s rt
  let s := s.setTask rt fun t => { t with deadlineTime := t.releaseTime + t.deadline }
  if c.schedDeadline = true ∧ (s.task rt).policy = reschSchedEdf ∧ (s.task rt).runtime = 0 then none
  else some s

/-- The rest of `api_run`, `api_wait_for_period` and `api_wait_for_interval`: the job
starts. -/
def jobRelease (s : State) (rt : ℕ) : Option State :=
  (jobReleaseDone c s rt).map fun s => jobStart c s rt

/-- `api_run` up to the sleep. The timeout goes through `msecs_to_jiffies`. -/
def apiRun (s : State) (rt timeout : ℕ) : State :=
  let s := globalListInsert s rt
  let s := if (s.task rt).policy = reschSchedFair then globalListRemove s rt else s
  jobReleaseWait s rt (s.jiffies + c.msecsToJiffies timeout)

/-- `deadline_miss` -/
def deadlineMiss (s : State) (rt : ℕ) : State × Bool :=
  let missed := decide (0 < (s.task rt).deadline ∧ (s.task rt).deadlineTime < s.jiffies)
  (s.setTask rt fun t => { t with missed := missed }, missed)

/-- `api_wait_for_period` up to the sleep. -/
def apiWaitForPeriod (s : State) (rt : ℕ) : State × ℤ :=
  let (s, missed) := deadlineMiss s rt
  let s := jobComplete c k s rt
  (jobReleaseWait s rt ((s.task rt).releaseTime + (s.task rt).period),
    if missed then resMiss else resSuccess)

/-- `api_wait_for_interval` up to the sleep. -/
def apiWaitForInterval (s : State) (rt period : ℕ) : State × ℤ :=
  let (s, missed) := deadlineMiss s rt
  let s := jobComplete c k s rt
  (jobReleaseWait s rt (s.jiffies + period), if missed then resMiss else resSuccess)

/-- `api_set_period` -/
def apiSetPeriod (s : State) (rt period : ℕ) : State :=
  s.setTask rt fun t =>
    { t with period := period, deadline := if t.deadline = 0 then period else t.deadline }

/-- `api_set_deadline` -/
def apiSetDeadline (s : State) (rt deadline : ℕ) : State :=
  s.setTask rt fun t => { t with deadline := deadline }

/-- `api_set_wcet` -/
def apiSetWcet (s : State) (rt wcet : ℕ) : State :=
  s.setTask rt fun t =>
    { t with wcet := wcet, runtime := if t.runtime = 0 then wcet else t.runtime, wcetFixed := true }

/-- `api_set_runtime` -/
def apiSetRuntime (s : State) (rt runtime : ℕ) : State :=
  s.setTask rt fun t =>
    { t with runtime := runtime, wcet := if t.wcet = 0 then runtime else t.wcet }

/-- `api_background` -/
def apiBackground (s : State) (rt : ℕ) : State × ℤ := apiSetPriority c k s rt reschPrioBackground

/-! ## Sleeping (`event.c`) -/

/-- `job_suspend`: the saved priority is put back first. -/
def jobSuspend (s : State) (rt : ℕ) : State :=
  let cpu := (s.task rt).cpuId
  let s :=
    if (s.task rt).prio ≠ (s.task rt).prioSave then
      (setScheduler c k s rt (s.task rt).policy (s.task rt).prioSave).1
    else s
  classDequeueTask s rt (s.task rt).prio cpu

/-- `job_resume` -/
def jobResume (s : State) (rt : ℕ) : State := classEnqueueTask s rt (s.task rt).prio (s.task rt).cpuId

/-- `api_sleep` up to the sleep; `schedule_timeout` does not change the state of the process. -/
def apiSleep (s : State) (rt : ℕ) : State := jobSuspend c k s rt

/-- `api_suspend` up to the sleep. -/
def apiSuspend (s : State) (rt : ℕ) : State := setRunState (jobSuspend c k s rt) rt .uninterruptible

/-- `api_wake_up` -/
def apiWakeUp (s : State) (rt : ℕ) : State × ℤ :=
  if s.jiffies < (s.task rt).releaseTime then (s, resFault)
  else if (s.procOf rt).state ≠ .running then (wakeUpProcess s rt, resSuccess)
  else (s, resSuccess)

/-! ## Reserves (`reservation.c`) -/

/-- `reserve_start` -/
def reserveStart (s : State) (rt cputime : ℕ) (xcpu : Bool) : State :=
  startAccount c (s.setTask rt fun t =>
    { t with replenishTimer := none, reserveTime := c.msecsToJiffies cputime, xcpu := xcpu }) rt

/-- `api_reserve_start` -/
def apiReserveStart (s : State) (rt cputime : ℕ) (xcpu : Bool) : State × ℤ :=
  if s.hasReserve rt then (s, resFault) else (reserveStart c s rt cputime xcpu, resSuccess)

/-- `api_reserve_stop` -/
def apiReserveStop (s : State) (rt : ℕ) : State × ℤ :=
  if s.hasReserve rt then (reserveStop c s rt, resSuccess) else (s, resFault)

/-- `api_reserve_expire`: replenish at once if the next replenishment is due, else expire
the reserve and arm the timer. -/
def apiReserveExpire (s : State) (rt : ℕ) : State × ℤ :=
  if !s.hasReserve rt then (s, resFault)
  else
    let s := if s.isAccounting rt then stopAccount c s rt else s
    let next := (s.task rt).releaseTime + (s.task rt).period
    if next ≤ s.jiffies then
      (startAccount c (classReserveReplenish c k s rt (s.task rt).reserveTime) rt, resSuccess)
    else
      ((classReserveExpire c k s rt).setTask rt fun t => { t with replenishTimer := some next },
        resSuccess)

/-! ## Components (`component.c`) -/

/-- Number of words of the component map. -/
def Config.cidMapLong (c : Config) : ℕ := bitsToLongs 64 c.nrRtComponents

/-- `api_component_create`: on failure `cid` is `RES_FAULT`, and the list head of that
component is initialised. -/
def apiComponentCreate (s : State) : State × ℤ :=
  let ffz := reschFfz s.cidMap c.cidMapLong
  let cid := if ffz < 0 then resFault else ffz
  let s := if ffz < 0 then s else { s with cidMap := setBit cid s.cidMap }
  ({ s with component := Function.update s.component cid.toNat ⟨[], true⟩ }, cid)

/-- `api_component_destroy` -/
def apiComponentDestroy (s : State) (cid : ℤ) : State × ℤ :=
  ({ s with cidMap := clearBit cid s.cidMap }, resSuccess)

/-- `api_compose`. A component that was never created has null pointers in its list head;
a negative `cid` is outside of the array. -/
def apiCompose (s : State) (rt : ℕ) (cid : ℤ) : Option (State × ℤ) :=
  if c.nrRtComponents ≤ cid then some (s, resFault)
  else if cid < 0 then none
  else if testBit cid s.cidMap then some (s, resFault)
  else if (s.task rt).componentEntry then some (s, resFault)
  else if (s.component cid.toNat).initialised = false then none
  else
    let x := s.component cid.toNat
    let x := { x with taskList := x.taskList ++ [rt] }
    let s := { s with component := Function.update s.component cid.toNat x }
    some (s.setTask rt fun t => { t with componentEntry := true }, resSuccess)

/-- `api_decompose` -/
def apiDecompose (s : State) (rt : ℕ) : State × ℤ :=
  if (s.task rt).componentEntry then
    let component : ℕ → Component := fun x =>
      { s.component x with taskList := (s.component x).taskList.filter (· ≠ rt) }
    let s := { s with component := component }
    (s.setTask rt fun t => { t with componentEntry := false }, resSuccess)
  else (s, resFault)

/-! ## The state after `sched_init` -/

/-- A descriptor as it is when the module is loaded: all zero. The list heads and the
class are null pointers, which `resch_task_init` replaces. -/
def Task.zero : Task where
  task := 0
  prio := 0
  cpuId := 0
  cpumask := fun _ => false
  migratory := false
  missed := false
  wcetFixed := false
  wcet := 0
  runtime := 0
  period := 0
  deadline := 0
  deadlineTime := 0
  releaseTime := 0
  cls := .fair
  policy := 0
  accounting := false
  xcpu := false
  prioSave := 0
  reserveTime := 0
  budget := 0
  replenishTimer := none
  server := none
  globalEntry := false
  activeEntry := false
  componentEntry := false

/-- `sched_init` and `component_init`, at some time and with some processes running. -/
def schedInit (jiffies : ℕ) (proc : ℕ → Proc) : State where
  jiffies := jiffies
  task := fun _ => Task.zero
  proc := proc
  lo := fun _ => ⟨0, fun _ => 0, fun _ => []⟩
  taskList := []
  pidMap := fun _ => 0
  cidMap := fun _ => 0
  component := fun _ => ⟨[], false⟩
  rcu := 0
  point := fun _ => .detached
  trace := []

end Resch
