import Resch.Lib.Checked
import Resch.Spec.GpuTime

/-!
# The compute bandwidth of a virtual GPU (`gpu_init.c`, `gpu_sched.c`)

`gdev_credit_com_thread` of a device and the completions that `gdev_select_next_compute` accounts
for. Both hold `sched_com_lock` of the device from their first reading of the clock on, so that a
round and a completion are one step each. The times are objects in memory.
-/

namespace Resch

open Lib

/-- `GDEV_UPDATE_INTERVAL` -/
def gdevUpdateInterval : ℕ := 5000000

/-- A reading of the clock in microseconds -/
def Timeval.us (tv : Timeval) : ℕ := tv.sec * 1000000 + tv.usec

namespace ComObj

/-- `now`, `last`, `elapse` and `interval` of the thread -/
def now : ℕ := 0
def last : ℕ := 1
def elapse : ℕ := 2
def interval : ℕ := 3

/-- `now` and `exec` of `gdev_select_next_compute`, and the `last_tick_com` of its entity -/
def endTime : ℕ := 4
def exec : ℕ := 5
def lastTickCom : ℕ := 6

end ComObj

/-- A device and its thread. `halted` says that the thread has divided by zero. The fields from
`clock` on are there for the statements only: the last reading of the clock, the compute time and the
reading since the last reset, and whether the last round was one. -/
structure ComState where
  mem : TimeMem
  comTime : ℕ
  comBwUsed : ℕ
  halted : Bool
  clock : ℕ
  total : ℕ
  since : Timeval
  wasReset : Bool

inductive ComOp
  /-- a completion at `now`, of what was launched at `tick` -/
  | complete (tick now : Timeval)
  /-- a round of the thread; the second reading is for a reset -/
  | round (now again : Timeval)

/-- The thread before its loop. -/
def comStart (first : Timeval) : ComState where
  mem := gdevTimeStamp (gdevTimeUs timeInit ComObj.interval gdevUpdateInterval) ComObj.last first
  comTime := 0
  comBwUsed := 0
  halted := false
  clock := first.us
  total := 0
  since := first
  wasReset := false

namespace ComState

variable (s : ComState)

/-- What `gdev_select_next_compute` accounts for. `com_time` is a `uint32_t`. -/
def complete (tick now : Timeval) : ComState :=
  let m := gdevTimeStamp s.mem ComObj.lastTickCom tick
  let m := gdevTimeStamp m ComObj.endTime now
  let m := gdevTimeSub m ComObj.exec ComObj.endTime ComObj.lastTickCom
  { s with
    mem := m
    comTime := (s.comTime + gdevTimeToUs m ComObj.exec) % 2 ^ 32
    clock := now.us
    total := s.total + (now.us - tick.us) }

/-- A round of `gdev_credit_com_thread`. The product is one of `uint32_t`s. -/
def round (now again : Timeval) : Except Fault ComState := do
  let m := gdevTimeStamp s.mem ComObj.now now
  let m := gdevTimeSub m ComObj.elapse ComObj.now ComObj.last
  let used ← div (s.comTime * 100 % 2 ^ 32) (gdevTimeToUs m ComObj.elapse)
  let used := if 100 < used then 100 else used
  if gdevTimeGe m ComObj.elapse ComObj.interval then
    return { s with
      mem := gdevTimeStamp m ComObj.last again
      comTime := 0
      comBwUsed := used
      clock := again.us
      total := 0
      since := again
      wasReset := true }
  else
    return { s with mem := m, comBwUsed := used, clock := now.us, wasReset := false }

/-- The clock does not go back. -/
def enabled : ComOp → Bool
  | .complete tick now => decide (tick.us ≤ now.us) && decide (s.clock ≤ now.us)
  | .round now again => decide (s.clock ≤ now.us) && decide (now.us ≤ again.us)

def exec : ComOp → ComState
  | .complete tick now => s.complete tick now
  | .round now again =>
    match s.round now again with
    | .ok s' => s'
    | .error _ => { s with halted := true }

end ComState

def comStep (s : ComState) (op : ComOp) : Option ComState :=
  if s.halted = false ∧ s.enabled op = true then some (s.exec op) else none

end Resch
