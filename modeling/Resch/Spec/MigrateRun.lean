import Resch.Spec.Jobs

/-!
# Concurrent migrations

`migrate_task`, cut where it takes and releases the queue locks: a call takes the locks of
its two queues (`active_queue_double_lock`), moves the task, releases them in the opposite
order and finishes without them. Any number of calls can be under way.
-/

namespace Resch

/-- A call of `migrate_task` and its local variables. `active` says that the task was moved
in an active queue, and `nextSrc` and `currDst` are the tasks that the EDF class looks up. -/
structure MigrateCall where
  cls : SchedClass
  rt : ℕ
  cpuSrc : ℕ
  cpuDst : ℕ
  active : Bool
  nextSrc : Option ℕ
  currDst : Option ℕ
  deriving DecidableEq

section Functions

variable (c : Config) (s : State) (m : MigrateCall)

/-- `fp_migrate_task` under the locks -/
def fpMove : State × MigrateCall :=
  if s.isActive m.rt then
    let s := fpDequeueTask s m.rt (s.task m.rt).prio m.cpuSrc
    let s := s.setCpu m.rt m.cpuDst
    (fpEnqueueTask s m.rt (s.task m.rt).prio m.cpuDst, { m with active := true })
  else (s.setCpu m.rt m.cpuDst, m)

/-- `edf_migrate_task` of `sched_edf.c` under the locks -/
def Edf.edfMove : State × MigrateCall :=
  if s.isActive m.rt then
    let nextSrc :=
      if activeHighestPrioTask s m.cpuSrc = some m.rt then activeNextPrioTask s m.rt else none
    let s := Edf.edfDequeueTask s m.rt (s.task m.rt).prio m.cpuSrc
    let currDst := activePrioTask s m.cpuDst reschPrioEdfRun
    let s := s.setCpu m.rt m.cpuDst
    (Edf.edfEnqueueTask s m.rt (s.task m.rt).prio m.cpuDst,
      { m with active := true, nextSrc := nextSrc, currDst := currDst })
  else (s.setCpu m.rt m.cpuDst, m)

/-- `edf_migrate_task` of `sched_deadline.c` under the locks -/
def Deadline.edfMove : State × MigrateCall :=
  if s.isActive m.rt then
    let s := Deadline.edfDequeueTask s m.rt reschPrioEdf m.cpuSrc
    let s := s.setCpu m.rt m.cpuDst
    (Deadline.edfEnqueueTask s m.rt reschPrioEdf m.cpuDst, { m with active := true })
  else (s.setCpu m.rt m.cpuDst, m)

def fpFinish : State :=
  restartAccount fpStopAccount (fpStartAccount c) (migrateTask' s m.rt m.cpuDst) m.rt

def Edf.edfFinish : State :=
  if m.active then
    let s := ifSome s m.nextSrc wakeUpProcess
    let s := migrateTask' s m.rt m.cpuDst
    let s := restartAccount Edf.edfStopAccount (Edf.edfStartAccount c) s m.rt
    ifSome s m.currDst fun s curr =>
      if (s.task m.rt).deadlineTime < (s.task curr).deadlineTime then
        setRunState s curr .interruptible
      else setRunState s m.rt .interruptible
  else migrateTask' s m.rt m.cpuDst

def Deadline.edfFinish : State :=
  if m.active then
    restartAccount Deadline.edfStopAccount (Deadline.edfStartAccount c)
      (migrateTask' s m.rt m.cpuDst) m.rt
  else migrateTask' s m.rt m.cpuDst

/-- What `migrate_task` does while it holds both locks. -/
def migrateMove : State × MigrateCall :=
  match m.cls with
  | .fair => (s, m)
  | .fp => fpMove s m
  | .edf => Edf.edfMove s m
  | .deadline => Deadline.edfMove s m

/-- What `migrate_task` does after it has released the locks, or without taking them. -/
def migrateFinish : State :=
  match m.cls with
  | .fair => s
  | .fp => fpFinish c s m
  | .edf => Edf.edfFinish c s m
  | .deadline => Deadline.edfFinish c s m

end Functions

/-- The next step of a call. -/
inductive MigratePhase
  | lockFirst | lockSecond | move | unlockSecond | unlockFirst | finish
  deriving DecidableEq

/-- `lock cpu` is the call that holds `lo[cpu].active.lock`. -/
structure MigrateState where
  core : State
  lock : ℕ → Option ℕ
  call : ℕ → Option (MigratePhase × MigrateCall)

/-- The lock that a call waits for. -/
def wantedLock : Option (MigratePhase × MigrateCall) → Option ℕ
  | some (.lockFirst, m) => some m.cpuSrc
  | some (.lockSecond, m) => some m.cpuDst
  | _ => none

namespace MigrateState

variable (s : MigrateState) (i : ℕ)

def setLock (cpu : ℕ) (h : Option ℕ) : MigrateState :=
  { s with lock := Function.update s.lock cpu h }

def setCall (x : Option (MigratePhase × MigrateCall)) : MigrateState :=
  { s with call := Function.update s.call i x }

def wants : Option ℕ := wantedLock (s.call i)

/-- The next step of call `i`; a lock that is held has to be waited for. -/
def next (c : Config) : Option MigrateState :=
  match s.call i with
  | none => none
  | some (.lockFirst, m) =>
    if s.lock m.cpuSrc = none then
      some ((s.setLock m.cpuSrc (some i)).setCall i (some (.lockSecond, m)))
    else none
  | some (.lockSecond, m) =>
    if s.lock m.cpuDst = none then
      some ((s.setLock m.cpuDst (some i)).setCall i (some (.move, m)))
    else none
  | some (.move, m) =>
    let (core, m) := migrateMove s.core m
    some ({ s with core := core }.setCall i (some (.unlockSecond, m)))
  | some (.unlockSecond, m) =>
    some ((s.setLock m.cpuDst none).setCall i (some (.unlockFirst, m)))
  | some (.unlockFirst, m) =>
    some ((s.setLock m.cpuSrc none).setCall i (some (.finish, m)))
  | some (.finish, m) =>
    some ({ s with core := migrateFinish c s.core m }.setCall i none)

/-- `migrate_task(rt, cpuDst)` is called as call `i`. Tasks of the fair class and tasks that
are on the CPU already take no locks. -/
def start (rt cpuDst : ℕ) : MigrateState :=
  let m : MigrateCall := ⟨(s.core.task rt).cls, rt, (s.core.task rt).cpuId, cpuDst, false, none, none⟩
  if m.cls = .fair ∨ m.cpuSrc = m.cpuDst then s.setCall i (some (.finish, m))
  else s.setCall i (some (.lockFirst, m))

end MigrateState

/-- A new call, or the next step of one. -/
inductive MigrateOp
  | start (i rt cpuDst : ℕ)
  | next (i : ℕ)

def migrateStep (c : Config) (s : MigrateState) : MigrateOp → Option MigrateState
  | .start i rt cpuDst => if s.call i = none then some (s.start i rt cpuDst) else none
  | .next i => s.next i c

/-- No call is under way. -/
def migrateInit (core : State) : MigrateState where
  core := core
  lock := fun _ => none
  call := fun _ => none

end Resch
