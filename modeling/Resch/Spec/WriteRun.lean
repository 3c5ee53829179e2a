import Resch.Spec.ApiRun
import Resch.Spec.PidRun

/-!
# The `write()` interface (`main.c`)

`resch_write` takes an `api_struct` from any process and calls the function that it names. The
RESCH id in it is not checked. A call runs up to where it sleeps or lets others in, and goes on
later. What a call does with memory outside of `resch_task` is not modelled: the state is left
as it is.
-/

namespace Resch

/-- `api_struct`. `val` and `us` are the two readings of `arg`, the timespec in microseconds. -/
structure ApiStruct where
  api : ℤ
  rid : ℤ
  val : ℤ
  us : ℕ

/-- The calls that `resch_write` distinguishes. -/
inductive WriteCall
  | init
  | exit
  | serverRun
  /-- A call on `resch_task[rid]` -/
  | task (f : ℕ → ApiOp)
  | wakeUp
  /-- A call that names no task -/
  | other (op : ApiOp)
  | illegal

/-- The `switch` of `resch_write` -/
def ApiStruct.call (c : Config) (a : ApiStruct) : WriteCall :=
  let timeout := c.usecsToJiffies a.us
  match a.api with
  | 0 => .init
  | 1 => .exit
  | 2 => .task fun rid => .run rid timeout
  | 3 => .task fun rid => .waitForPeriod rid
  | 4 => .task fun rid => .waitForInterval rid timeout
  | 5 => .task fun rid => .setPeriod rid timeout
  | 6 => .task fun rid => .setDeadline rid timeout
  | 7 => .task fun rid => .setWcet rid a.us
  | 8 => .task fun rid => .setRuntime rid a.us
  | 9 => .task fun rid => .setPriority rid a.val
  | 10 => .task fun rid => .setScheduler rid a.val
  | 11 => .task fun rid => .background rid
  | 12 => .task fun rid => .sleep rid
  | 13 => .task fun rid => .suspend rid
  | 14 => .wakeUp
  | 15 => .task fun rid => .reserveStart rid timeout false
  | 16 => .task fun rid => .reserveStart rid timeout true
  | 17 => .task fun rid => .reserveStop rid
  | 18 => .task fun rid => .reserveExpire rid
  | 19 => .serverRun
  | 22 => .other .componentCreate
  | 23 => .other (.componentDestroy a.val)
  | 26 => .task fun rid => .compose rid a.val
  | 27 => .task fun rid => .decompose rid
  | _ => .illegal

/-- `api_server_run`; `mem` is the content of the memory that `kmalloc` returns. -/
def apiServerRun (c : Config) (s : State) (rt : ℕ) (mem : Option ℕ) : State × ℤ :=
  match mem with
  | none => (s, resFault)
  | some content =>
    let s := s.setTask rt fun t =>
      { t with
        server := some ⟨content, s.jiffies + t.period⟩
        budget := t.budget - min (execTime c s rt) t.budget }
    (resetExecTime s rt, resSuccess)

/-- `server_handler` -/
def serverHandler (s : State) (rt : ℕ) : State :=
  s.setTask rt fun t => { t with budget := t.budget + t.server.elim 0 (·.capacity), server := none }

/-- The core, the processes, and for each process that sleeps in a call what is left of it. -/
structure WriteState extends PidState where
  rest : ℕ → Option ApiOp

namespace WriteState

variable (s : WriteState)

/-- The first element of `resch_task` that the call uses, if it uses one. -/
def index (c : Config) (a : ApiStruct) : Option ℤ :=
  match a.call c with
  | .init =>
    let rid := reschFfz s.core.pidMap c.pidMapLong
    if rid < 0 then none else some rid
  | .exit | .serverRun | .task _ => some a.rid
  | .wakeUp => some a.val
  | .other _ | .illegal => none

/-- The index is one of `resch_task`. -/
def inTable (c : Config) (a : ApiStruct) : Bool :=
  (s.index c a).all fun i : ℤ => decide (0 ≤ i ∧ i < (c.nrRtTasks : ℤ))

def setCore (core : State) : WriteState := { s with core := core }

/-- Make a step of `api_init` or `api_exit`. -/
def pidExec (c : Config) (k : Kernel) (op : PidOp) : WriteState :=
  { s with toPidState := op.exec c k s.toPidState }

/-- A call of process `p` up to where it sleeps. -/
def taskCall (c : Config) (k : Kernel) (p : ℕ) (op : ApiOp) : Option WriteState :=
  (op.exec c k s.core).map fun core =>
    { s.setCore core with
      rest := match op with
        | .run rt _ | .waitForPeriod rt | .waitForInterval rt _ =>
          Function.update s.rest p (some (.release rt))
        | .sleep rt | .suspend rt => Function.update s.rest p (some (.resume rt))
        | _ => s.rest }

end WriteState

/-- `resch_write` called by process `p`, up to where it sleeps or lets others in. -/
def reschWrite (c : Config) (k : Kernel) (s : WriteState) (p : ℕ) (a : ApiStruct) (mem : Option ℕ) :
    Option WriteState :=
  if s.inTable c a then
    match a.call c with
    | .init => some (s.pidExec c k (.initTake p))
    | .exit => some (s.pidExec c k (.exitDetach p a.rid.toNat))
    | .serverRun => some (s.setCore (apiServerRun c s.core a.rid.toNat mem).1)
    | .task f => s.taskCall c k p (f a.rid.toNat)
    | .wakeUp => some (s.setCore (apiWakeUp s.core a.val.toNat).1)
    | .other op => s.taskCall c k p op
    | .illegal => some s
  else some s

/-- The next part of the call in which process `p` is. -/
def WriteState.goOn (c : Config) (k : Kernel) (s : WriteState) (p : ℕ) : Option WriteState :=
  match s.call p with
  | .initDesc rid => some (s.pidExec c k (.initDesc p rid))
  | .exitClear rid => some (s.pidExec c k (.exitClear p rid))
  | .exitPolicy rid => some (s.pidExec c k (.exitPolicy p rid))
  | .user =>
    (s.rest p).bind fun op => (op.exec c k s.core).map fun core =>
      { s.setCore core with rest := Function.update s.rest p none }

inductive WriteOp
  | write (p : ℕ) (a : ApiStruct) (mem : Option ℕ)
  | goOn (p : ℕ)
  /-- The replenish timer of a task expires. -/
  | replenishTimer (rt : ℕ)
  /-- The timer of a server expires. -/
  | serverTimer (rt : ℕ)
  | stop (p : ℕ)
  | cont (p : ℕ)
  /-- Time passes, and processes run. -/
  | linux (jiffies : ℕ) (proc : ℕ → Proc)

/-- The step function. A process writes only while it is not in a call. -/
def writeStep (c : Config) (s : WriteState) (a : WriteOp × Kernel) : Option WriteState :=
  match a.1 with
  | .write p w mem =>
    if s.canRun p = true ∧ s.call p = .user ∧ (s.rest p).isNone then reschWrite c a.2 s p w mem
    else none
  | .goOn p => if s.canRun p then s.goOn c a.2 p else none
  | .replenishTimer rt =>
    if (s.core.task rt).replenishTimer.any (fun t => decide (t ≤ s.core.jiffies)) then
      some (s.setCore (onReplenish c a.2 s.core rt))
    else none
  | .serverTimer rt =>
    if (s.core.task rt).server.any (fun t => decide (t.timer ≤ s.core.jiffies)) then
      some (s.setCore (serverHandler s.core rt))
    else none
  | .stop p => some (s.pidExec c a.2 (.stop p))
  | .cont p =>
    if (s.core.proc p).state = .stopped then some (s.pidExec c a.2 (.cont p)) else none
  | .linux jiffies proc => some (s.setCore { s.core with jiffies, proc })

/-- The module has been loaded. -/
def writeInit (jiffies : ℕ) (proc : ℕ → Proc) : WriteState where
  toPidState := pidInit jiffies proc
  rest := fun _ => none

end Resch
