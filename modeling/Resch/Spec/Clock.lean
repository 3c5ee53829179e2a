import Resch.Lib.WordOrder
import Resch.Spec.Api

/-!
# Times as machine words

`jiffies` and the times of tasks as words of `w` bits, with the functions that compare them:
`deadline_miss`, `fp_wait_period`, `edf_wait_period`, `edf_enqueue_task`, `api_reserve_expire`,
`reserve_replenish`. Each function is here up to the choice that the comparison makes.
-/

namespace Resch

/-- `replenishTimer` says whether the timer is pending. -/
structure ClockTask (w : ℕ) where
  releaseTime : BitVec w
  deadlineTime : BitVec w
  deadline : BitVec w
  period : BitVec w
  reserveTime : BitVec w
  replenishTimer : Bool

structure ClockState (w : ℕ) where
  jiffies : BitVec w
  task : ℕ → ClockTask w

/-- What `wait_period` does: sleep for an interval, with the state set before or not, or
`schedule`. -/
inductive WaitChoice (w : ℕ)
  | sleepInterval (state : Option RunState) (interval : BitVec w)
  | schedule
  deriving DecidableEq

/-- The branches of `api_reserve_expire` -/
inductive ExpireChoice
  | noReserve
  | replenish
  | expire
  deriving DecidableEq

namespace ClockState

variable {w : ℕ} (s : ClockState w) (rt : ℕ)

/-- `deadline_miss` -/
def deadlineMiss : Bool :=
  decide (0 < (s.task rt).deadline ∧ (s.task rt).deadlineTime < s.jiffies)

/-- Sleep until the release time, or go on if it has come. -/
def waitPeriod (state : Option RunState) : WaitChoice w :=
  if s.jiffies < (s.task rt).releaseTime then
    .sleepInterval state ((s.task rt).releaseTime - s.jiffies)
  else .schedule

def fpWaitPeriod : WaitChoice w := s.waitPeriod rt none

def edfWaitPeriod : WaitChoice w := s.waitPeriod rt (some .uninterruptible)

/-- The place of the level where `edf_enqueue_task` puts `rt` -/
def edfEnqueueTask (queue : List ℕ) : ℕ :=
  queue.findIdx fun p => decide ((s.task rt).deadlineTime < (s.task p).deadlineTime)

/-- `api_reserve_expire` -/
def apiReserveExpire : ExpireChoice :=
  if (s.task rt).reserveTime = 0 then .noReserve
  else if (s.task rt).releaseTime + (s.task rt).period ≤ s.jiffies then .replenish
  else .expire

/-- Whether `reserve_replenish` calls that of the class -/
def reserveReplenish : Bool :=
  decide (s.jiffies < (s.task rt).releaseTime + (s.task rt).period) || !(s.task rt).replenishTimer

/-- The clock and all absolute times moved by `k` -/
def shift (k : BitVec w) : ClockState w where
  jiffies := s.jiffies + k
  task p := { s.task p with
    releaseTime := (s.task p).releaseTime + k
    deadlineTime := (s.task p).deadlineTime + k }

/-- All that is decided by a comparison of times -/
structure Decisions (w : ℕ) where
  missed : Bool
  fpWait : WaitChoice w
  edfWait : WaitChoice w
  place : ℕ
  expired : ExpireChoice
  replenished : Bool
  deriving DecidableEq

def decisions (queue : List ℕ) : Decisions w where
  missed := s.deadlineMiss rt
  fpWait := s.fpWaitPeriod rt
  edfWait := s.edfWaitPeriod rt
  place := s.edfEnqueueTask rt queue
  expired := s.apiReserveExpire rt
  replenished := s.reserveReplenish rt

/-- The words of a state of the core -/
def ofState (w : ℕ) (s : State) : ClockState w where
  jiffies := BitVec.ofNat w s.jiffies
  task p :=
    { releaseTime := BitVec.ofNat w (s.task p).releaseTime
      deadlineTime := BitVec.ofNat w (s.task p).deadlineTime
      deadline := BitVec.ofNat w (s.task p).deadline
      period := BitVec.ofNat w (s.task p).period
      reserveTime := BitVec.ofNat w (s.task p).reserveTime
      replenishTimer := (s.task p).replenishTimer.isSome }

end ClockState

end Resch
