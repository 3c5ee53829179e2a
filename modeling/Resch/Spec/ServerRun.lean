import Resch.Spec.Classes

/-!
# Sporadic servers of a task with a reserve (`reservation.c`, `preempt_trace.c`)

`api_server_run` allocates a server, arms its timer and lets `rt->server` point to it. The
execution times are those that `update_tick` measures when preemptions are traced, the build in
which a task that sleeps goes through `suspend_account`. The replenish timer, which only
`api_reserve_expire` arms, is never pending here.
-/

namespace Resch

/-- A block that `kmalloc` gave to a server. `capacity` is whatever the memory holds until it is
written. For the statements only, `content` is what the memory held and `armedAt` what had been
charged when the server was armed. -/
structure ServerBlock where
  capacity : ℕ
  timer : Option ℕ
  allocated : Bool
  content : ℕ
  armedAt : ℕ

/-- A task, the clock of its CPU and its servers. `current` says that it is the current task of
its CPU; `charged` counts, for the statements only, the execution time charged to the reserve. -/
structure ServerState where
  jiffies : ℕ
  lastTick : ℕ
  current : Bool
  cls : SchedClass
  period : ℕ
  reserveTime : ℕ
  budget : ℕ
  accounting : Bool
  execTime : ℕ
  execDelta : ℕ
  server : Option ℕ
  block : ℕ → ServerBlock
  charged : ℕ

namespace ServerState

variable (s : ServerState) (b : ℕ)

/-- `task_has_reserve` -/
def hasReserve : Bool := decide (0 < s.reserveTime)

def setBlock (f : ServerBlock → ServerBlock) : ServerState :=
  { s with block := Function.update s.block b (f (s.block b)) }

/-- `del_timer` and `kfree` -/
def free : ServerState := s.setBlock b fun o => { o with timer := none, allocated := false }

/-- `update_tick` -/
def updateTick : ServerState :=
  if s.current then
    let delta := s.jiffies - s.lastTick
    { s with
      execDelta := delta
      execTime := s.execTime + delta
      lastTick := s.jiffies
      charged :=
        if s.accounting then
          s.charged + (min (s.execTime + delta) s.reserveTime - min s.execTime s.reserveTime)
        else s.charged }
  else { s with lastTick := s.jiffies }

/-- `reset_exec_time` -/
def resetExecTime : ServerState := { s with execTime := 0, execDelta := 0 }

/-- `start_account`, without what the class does to the limit on CPU time -/
def startAccount : ServerState :=
  if s.accounting then s
  else { s with budget := s.reserveTime - min s.execTime s.reserveTime, accounting := true }

/-- `stop_account`, likewise -/
def stopAccount : ServerState :=
  let s :=
    if s.accounting then
      { s with budget := s.reserveTime - min s.execTime s.reserveTime, accounting := false }
    else s
  match s.server with
  | some b => { s.free b with server := none }
  | none => s

/-- `preempt_account` -/
def preemptAccount : ServerState := if s.accounting then s.stopAccount else s

/-- `suspend_account` -/
def suspendAccount : ServerState :=
  if s.accounting then
    let s := s.stopAccount
    match s.server with
    | some b =>
      if s.execDelta ≠ 0 then s.setBlock b fun o => { o with capacity := min s.execTime s.budget }
      else s
    | none => s
  else { s with budget := s.budget + s.execDelta }

/-- `reserve_replenish` with no timer pending: the class adds to the budget. -/
def reserveReplenish : ServerState :=
  match s.cls with
  | .fp | .edf => { s with budget := s.budget + s.reserveTime }
  | .fair | .deadline => s

/-- `server_handler` of the server in block `b` -/
def serverHandler : ServerState :=
  { ({ s with budget := s.budget + (s.block b).capacity } : ServerState).free b with server := none }

/-- `api_server_run`; `mem` is the block that `kmalloc` returns and what its memory holds. -/
def apiServerRun (mem : Option (ℕ × ℕ)) : ServerState × ℤ :=
  match mem with
  | none => (s, resFault)
  | some (b, content) =>
    let s := s.setBlock b fun _ => ⟨content, some (s.jiffies + s.period), true, content, s.charged⟩
    let s := { s with server := some b, budget := s.budget - min s.execTime s.budget }
    (s.resetExecTime, resSuccess)

/-! ## Tracing of preemptions -/

/-- `preempt`, called by another task that preempts this one -/
def preempt : ServerState :=
  let s := s.updateTick
  { (if s.hasReserve then s.preemptAccount else s) with current := false }

/-- `preempt_self` -/
def preemptSelf : ServerState :=
  let s := s.updateTick
  { (if s.hasReserve then s.suspendAccount else s) with current := false }

/-- The task becomes the current one again, and `resume_account` is called. -/
def resume : ServerState :=
  let s := s.updateTick
  { (if s.hasReserve then s.startAccount else s) with current := true }

/-- `job_start` after `job_release`. The task gets the CPU unless a task of higher priority has
it. -/
def jobStart (gets : Bool) : ServerState :=
  let s := s.resetExecTime.updateTick
  let s := { s with current := s.current || gets }
  if s.hasReserve then s.startAccount else s

/-- `job_complete` -/
def jobComplete : ServerState :=
  let s := s.preemptSelf
  if s.hasReserve then s.stopAccount.reserveReplenish else s

end ServerState

/-! ## Runs -/

inductive ServerOp
  /-- Time passes. -/
  | time (jiffies : ℕ)
  /-- A task that does not preempt this one starts a job. -/
  | tick
  | jobStart (gets : Bool)
  | jobComplete
  /-- `job_suspend`, called by `api_sleep` and `api_suspend` -/
  | suspend
  | resume
  | preempt
  | serverRun (mem : Option (ℕ × ℕ))
  /-- The timer of the server in block `b` expires. -/
  | serverTimer (b : ℕ)

/-- Whether a step can be taken: `kmalloc` returns memory that is free, and a timer expires not
before its time. -/
def ServerOp.enabled (s : ServerState) : ServerOp → Bool
  | serverRun mem => mem.all fun m => !(s.block m.1).allocated
  | serverTimer b => (s.block b).timer.any fun t => decide (t ≤ s.jiffies)
  | time jiffies => decide (s.jiffies ≤ jiffies)
  | tick | jobStart _ | jobComplete | suspend | resume | preempt => true

def ServerOp.run (s : ServerState) : ServerOp → ServerState
  | time jiffies => { s with jiffies }
  | tick => s.updateTick
  | jobStart gets => s.jobStart gets
  | jobComplete => s.jobComplete
  | suspend => s.preemptSelf
  | resume => s.resume
  | preempt => s.preempt
  | serverRun mem => (s.apiServerRun mem).1
  | serverTimer b => s.serverHandler b

def serverStep (s : ServerState) (op : ServerOp) : Option ServerState :=
  if op.enabled s then some (op.run s) else none

/-- A task of a class with a reserve of `reserveTime` jiffies that has never run a server. -/
def serverInit (cls : SchedClass) (period reserveTime : ℕ) : ServerState where
  jiffies := 0
  lastTick := 0
  current := false
  cls := cls
  period := period
  reserveTime := reserveTime
  budget := reserveTime
  accounting := true
  execTime := 0
  execDelta := 0
  server := none
  block := fun _ => ⟨0, none, false, 0, 0⟩
  charged := 0

end Resch
