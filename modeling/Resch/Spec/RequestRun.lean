import Resch.Lib.Rings
import Resch.Lib.Runs
import Resch.Spec.SetScheduler

/-!
# Requests to change the scheduler (`sched.c`)

`set_scheduler` for callers without `CAP_SYS_NICE`: `request_set_scheduler`, and the thread of each
CPU (`set_scheduler_thread`) that serves the requests. A step is a locked section, or one access
to the descriptor or to a process outside of them; the lists are on their pointers.

Requests are numbered for the statements only: the code does not see the number.
-/

namespace Resch

open Lib

/-- `sched_thread.list` of each CPU and `prio_entry` of each task -/
inductive RequestNode
  | head (cpu : ℕ)
  | entry (rt : ℕ)
  deriving DecidableEq

def RequestNode.container : RequestNode → Option ℕ
  | head _ => none
  | entry rt => some rt

/-- A request, made on a CPU -/
structure Request where
  number : ℕ
  caller : ℕ
  rt : ℕ
  cpu : ℕ
  prio : ℤ
  deriving DecidableEq

/-- What a caller does next in `request_set_scheduler`. -/
inductive CallerPoint
  | idle
  /-- `INIT_LIST_HEAD`, and the stores to `rt->setsched` -/
  | init (r : Request)
  /-- the locked section -/
  | add (r : Request)
  /-- `wake_up_process` on the thread -/
  | wake (r : Request)
  /-- `set_current_state` -/
  | setState (r : Request)
  /-- `schedule` -/
  | schedule (r : Request)
  /-- inside `schedule` -/
  | blocked (r : Request)
  deriving DecidableEq

/-- What the thread of a CPU does next. -/
inductive ThreadPoint
  /-- the locked section -/
  | take
  /-- `schedule`, and `set_current_state` after it -/
  | schedule
  /-- `__set_scheduler` -/
  | serve (rt : ℕ)
  /-- `wake_up_process` on the caller -/
  | wake (rt : ℕ)
  deriving DecidableEq

/-- `setsched` is that of the tasks. A caller is `awake` unless it has set its state to
`TASK_UNINTERRUPTIBLE`, and a thread unless it has set its own to `TASK_INTERRUPTIBLE`. `queued`,
`served` and `returned` are there for the statements only: the requests put in the list of a CPU,
those for which `__set_scheduler` has been called there, and those whose caller has gone on, with the
value that `set_scheduler` returns. -/
structure RequestState where
  core : State
  links : Links RequestNode
  setsched : ℕ → Request
  point : ℕ → CallerPoint
  awake : ℕ → Bool
  thread : ℕ → ThreadPoint
  threadAwake : ℕ → Bool
  next : ℕ
  queued : ℕ → List Request
  served : ℕ → List Request
  returned : List (Request × Bool)

namespace RequestState

variable (s : RequestState) (p cpu : ℕ)

def setPoint (x : CallerPoint) : RequestState := { s with point := Function.update s.point p x }

def setThread (x : ThreadPoint) : RequestState := { s with thread := Function.update s.thread cpu x }

/-- `set_scheduler` up to the call of `request_set_scheduler` -/
def call (c : Config) (rt : ℕ) (policy prio : ℤ) : RequestState :=
  { s with
    core := setPolicy c s.core rt policy
    point := Function.update s.point p (.init ⟨s.next, p, rt, cpu, prio⟩)
    next := s.next + 1 }

/-- The next step of a caller -/
def caller : Option RequestState :=
  match s.point p with
  | .idle => none
  | .init r =>
    some { s.setPoint p (.add r) with
      links := s.links.init (.entry r.rt)
      setsched := Function.update s.setsched r.rt r }
  | .add r =>
    some { s.setPoint p (.wake r) with
      links := s.links.addPrev (.entry r.rt) (.head r.cpu)
      queued := Function.update s.queued r.cpu (s.queued r.cpu ++ [r]) }
  | .wake r =>
    some { s.setPoint p (.setState r) with
      threadAwake := Function.update s.threadAwake r.cpu true }
  | .setState r => some { s.setPoint p (.schedule r) with awake := Function.update s.awake p false }
  | .schedule r =>
    if s.awake p then some { s.setPoint p .idle with returned := (r, true) :: s.returned }
    else some (s.setPoint p (.blocked r))
  | .blocked r =>
    if s.awake p then some { s.setPoint p .idle with returned := (r, true) :: s.returned } else none

/-- The next step of the thread of a CPU -/
def threadStep (c : Config) (k : Kernel) : Option RequestState :=
  match s.thread cpu with
  | .take =>
    match (s.links.head (.head cpu)).bind RequestNode.container with
    | none => some (s.setThread cpu .schedule)
    | some rt => some { s.setThread cpu (.serve rt) with links := s.links.del (.entry rt) }
  | .schedule =>
    if s.threadAwake cpu then
      some { s.setThread cpu .take with threadAwake := Function.update s.threadAwake cpu false }
    else none
  | .serve rt =>
    some { s.setThread cpu (.wake rt) with
      core := (setScheduler' c k s.core rt (s.setsched rt).prio).1
      served := Function.update s.served cpu (s.served cpu ++ [s.setsched rt]) }
  | .wake rt =>
    some { s.setThread cpu .take with
      awake := Function.update s.awake (s.setsched rt).caller true }

end RequestState

inductive RequestOp
  /-- Process `p`, on `cpu`, calls `set_scheduler`. -/
  | call (p cpu rt : ℕ) (policy prio : ℤ)
  | caller (p : ℕ)
  | thread (cpu : ℕ) (k : Kernel)

def requestStep (c : Config) (s : RequestState) : RequestOp → Option RequestState
  | .call p cpu rt policy prio =>
    if s.point p = .idle then some (s.call p cpu c rt policy prio) else none
  | .caller p => s.caller p
  | .thread cpu k => s.threadStep cpu c k

/-- `INIT_LIST_HEAD` of the list of each CPU; the nodes of the tasks are as they are. -/
def initHeads (links : Links RequestNode) : Links RequestNode where
  next x := if x.container = none then x else links.next x
  prev x := if x.container = none then x else links.prev x

/-- The lists have been initialised, and the threads look at them. -/
def requestInit (core : State) (links : Links RequestNode) : RequestState where
  core := core
  links := initHeads links
  setsched _ := ⟨0, 0, 0, 0, 0⟩
  point _ := .idle
  awake _ := true
  thread _ := .take
  threadAwake _ := false
  next := 0
  queued _ := []
  served _ := []
  returned := []

end Resch
