import Resch.Spec.Api

/-!
# Processes that attach and detach

`api_init` and `api_exit`, cut where other processes can come in between. `api_init` takes
an id under the lock of the pid map and initialises the descriptor after it; `api_exit`
detaches the task, clears the bit under the lock, and puts the scheduling policy back
after it. A process can be stopped at any time and continued later.
-/

namespace Resch

/-- Where a process is: in its own code, or in a call whose next step is the one named. -/
inductive CallPoint
  | user
  | initDesc (rid : ℕ)
  | exitClear (rid : ℕ)
  | exitPolicy (rid : ℕ)
  deriving DecidableEq, Repr

/-- The core and the processes. `held p rid` says that `api_init` gave `rid` to `p` and no
`api_exit(rid)` of `p` has finished since; it is there for the statements only. -/
structure PidState where
  core : State
  call : ℕ → CallPoint
  held : ℕ → ℕ → Bool

namespace PidState

/-- `p` goes on to the next step of its call. -/
def setCall (s : PidState) (p : ℕ) (x : CallPoint) : PidState :=
  { s with call := Function.update s.call p x }

/-- `p` has got the id, or has given it back. -/
def setHeld (s : PidState) (p rid : ℕ) (b : Bool) : PidState :=
  { s with held := Function.update s.held p (Function.update (s.held p) rid b) }

/-- `p` is in `api_exit(rid)`. -/
def InExit (s : PidState) (p rid : ℕ) : Prop :=
  s.call p = .exitClear rid ∨ s.call p = .exitPolicy rid

/-- `p` can run. -/
def canRun (s : PidState) (p : ℕ) : Bool :=
  decide (p ≠ 0 ∧ (s.core.proc p).state ≠ .stopped)

end PidState

/-- One step of a process, or of someone who stops or continues it. -/
inductive PidOp
  | initTake (p : ℕ)
  | initDesc (p rid : ℕ)
  | exitDetach (p rid : ℕ)
  | exitClear (p rid : ℕ)
  | exitPolicy (p rid : ℕ)
  | stop (p : ℕ)
  | cont (p : ℕ)

/-- The process that makes the step. -/
def PidOp.proc : PidOp → ℕ
  | initTake p | initDesc p _ | exitDetach p _ | exitClear p _ | exitPolicy p _ | stop p | cont p => p

/-- The descriptor that the step is about to write. -/
def PidOp.descriptor : PidOp → Option ℕ
  | initDesc _ rid | exitDetach _ rid | exitPolicy _ rid => some rid
  | initTake _ | exitClear _ _ | stop _ | cont _ => none

/-- Whether a step can be taken. -/
def PidOp.enabled (s : PidState) : PidOp → Bool
  | initTake p => s.canRun p && decide (s.call p = .user)
  | initDesc p rid => s.canRun p && decide (s.call p = .initDesc rid)
  | exitDetach p _ => s.canRun p && decide (s.call p = .user)
  | exitClear p rid => s.canRun p && decide (s.call p = .exitClear rid)
  | exitPolicy p rid => s.canRun p && decide (s.call p = .exitPolicy rid)
  | stop _ => true
  | cont p => decide ((s.core.proc p).state = .stopped)

/-- What a step does. -/
def PidOp.exec (c : Config) (k : Kernel) (s : PidState) : PidOp → PidState
  | initTake p =>
    let (core, rid) := apiInitTake c s.core
    let s := { s with core := core }
    if rid < 0 then s else (s.setCall p (.initDesc rid.toNat)).setHeld p rid.toNat true
  | initDesc p rid => { s with core := reschTaskInit c k s.core rid p }.setCall p .user
  | exitDetach p rid => { s with core := apiExitDetach c k s.core rid }.setCall p (.exitClear rid)
  | exitClear p rid => { s with core := apiExitClear s.core rid }.setCall p (.exitPolicy rid)
  | exitPolicy p rid =>
    ({ s with core := apiExitPolicy c k s.core rid }.setCall p .user).setHeld p rid false
  | stop p => { s with core := s.core.setProc p fun q => { q with state := .stopped } }
  | cont p => { s with core := s.core.setProc p fun q => { q with state := .running } }

/-- The step function; what Linux answers comes with each step. -/
def pidStep (c : Config) (s : PidState) (a : PidOp × Kernel) : Option PidState :=
  if a.1.enabled s then some (a.1.exec c a.2 s) else none

/-- The module has been loaded, and no process has made a call. -/
def pidInit (jiffies : ℕ) (proc : ℕ → Proc) : PidState where
  core := schedInit jiffies proc
  call := fun _ => .user
  held := fun _ _ => false

end Resch
