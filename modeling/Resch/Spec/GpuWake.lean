import Resch.Lib.Runs
import Mathlib.Data.Nat.Notation
import Mathlib.Logic.Function.Basic

/-!
# Sleeping and waking up (`gpu.c`)

`gdev_sched_sleep` and `gdev_sched_wakeup` on one scheduling entity. One context goes through
the waiting paths of `gdev_vsched_band_schedule_compute` and `gdev_schedule_compute`, any
number of wakers call `gdev_sched_wakeup`, and no task is under `SCHED_DEADLINE`. A step is a
locked section, or one access to `se->task` or to the state of the task outside of them.

A pass goes from one insertion of the entity to the next. Passes are counted for the
statements only: the code does not see the number.
-/

namespace Resch

/-- `se->task`: `NULL`, the marker `0xDEAD`, or the task of the context. The number is the
pass of the wake-up that left the marker, or of the context that stored its task. -/
inductive TaskField
  | null
  | dead (pass : ℕ)
  | task (pass : ℕ)
  deriving DecidableEq

/-- What the context does next. -/
inductive SleepPoint
  /-- not in a waiting path -/
  | outside
  /-- `se->task = current` in `gdev_vsched_band_schedule_compute` -/
  | store
  /-- the locked section of `gdev_sched_sleep` -/
  | sleep
  /-- `set_current_state(TASK_INTERRUPTIBLE)` -/
  | setState
  /-- `schedule()` -/
  | schedule
  /-- inside `schedule()` -/
  | blocked
  deriving DecidableEq

/-- What a waker does next, with the pass in which the wake-up was issued. -/
inductive WakePoint
  | idle
  /-- the locked section of `gdev_sched_wakeup` -/
  | lock (pass : ℕ)
  /-- the first `wake_up_process` -/
  | wake (pass : ℕ)
  /-- the second one, after a jiffy -/
  | retry (pass : ℕ)
  /-- `se->task = NULL` -/
  | clear (pass : ℕ)
  /-- `task->policy` read through the marker -/
  | fault
  deriving DecidableEq

/-- `interruptible` is the state of the task. `returned` says that a wake-up issued in this
pass has returned, and `usedDead` that the marker has been used as a task. -/
structure Handshake where
  task : TaskField
  point : SleepPoint
  interruptible : Bool
  pass : ℕ
  waker : ℕ → WakePoint
  returned : Bool
  usedDead : Bool

namespace Handshake

variable (s : Handshake)

def setWaker (i : ℕ) (w : WakePoint) : Handshake := { s with waker := Function.update s.waker i w }

/-- The wake-up of waker `i`, issued in pass `p`, returns. -/
def wakeupReturns (i p : ℕ) : Handshake :=
  { s.setWaker i .idle with returned := s.returned || p == s.pass }

/-- The entity is inserted into a wait list; the band scheduler stores the task before it
calls `gdev_sched_sleep`. -/
def enqueue (band : Bool) : Option Handshake :=
  match s.point with
  | .outside =>
    some { s with
      point := if band then .store else .sleep
      pass := s.pass + 1
      returned := false }
  | _ => none

/-- The next step of the context: `se->task = current`, then `gdev_sched_sleep`. -/
def context : Option Handshake :=
  match s.point with
  | .outside => none
  | .store => some { s with task := .task s.pass, point := .sleep }
  | .sleep =>
    match s.task with
    | .dead _ => some { s with task := .null, point := .outside }
    | .null | .task _ => some { s with task := .task s.pass, point := .setState }
  | .setState => some { s with interruptible := true, point := .schedule }
  | .schedule => some { s with point := if s.interruptible then .blocked else .outside }
  | .blocked => if s.interruptible then none else some { s with point := .outside }

/-- `wake_up_process`, which finds the context asleep or goes on to `failed` -/
def wakeUpProcess (i p : ℕ) (failed : Handshake) : Handshake :=
  if s.interruptible then { s.setWaker i (.clear p) with interruptible := false } else failed

/-- The next step of waker `i` in `gdev_sched_wakeup` -/
def gdevSchedWakeup (i : ℕ) : Option Handshake :=
  match s.waker i with
  | .idle | .fault => none
  | .lock p =>
    match s.task with
    | .null => some ({ s with task := .dead p }.wakeupReturns i p)
    | .dead _ => some { s.setWaker i .fault with usedDead := true }
    | .task _ => some (s.setWaker i (.wake p))
  | .wake p => some (s.wakeUpProcess i p (s.setWaker i (.retry p)))
  | .retry p => some (s.wakeUpProcess i p (s.wakeupReturns i p))
  | .clear p => some ({ s with task := .null }.wakeupReturns i p)

/-- Waker `i` calls `gdev_sched_wakeup`. -/
def issue (i : ℕ) : Option Handshake :=
  match s.waker i with
  | .idle => some (s.setWaker i (.lock s.pass))
  | _ => none

end Handshake

inductive HandshakeOp
  | enqueue (band : Bool)
  | context
  | issue (i : ℕ)
  | waker (i : ℕ)
  deriving DecidableEq

def handshakeStep (s : Handshake) : HandshakeOp → Option Handshake
  | .enqueue band => s.enqueue band
  | .context => s.context
  | .issue i => s.issue i
  | .waker i => s.gdevSchedWakeup i

/-- The context has not been enqueued, and there is no wake-up. -/
def Handshake.init : Handshake := ⟨.null, .outside, false, 0, fun _ => .idle, false, false⟩

/-- No wake-up of this pass has returned while the context is asleep, and the marker has not
been used as a task. -/
def HandshakeOk (s : Handshake) : Prop :=
  (s.point = .blocked → s.interruptible = true → s.returned = false) ∧ s.usedDead = false

end Resch
