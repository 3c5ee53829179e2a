import Resch.Spec.Api
import Resch.Spec.Placement

/-!
# Times in `write()` (`main.c`)

A timespec becomes microseconds, and these become jiffies before `resch_write` makes the call. `hz`
is the tick rate, of which the conversions of Linux work with any value and round up. `api_run` and
`reserve_start` convert once more: they take milliseconds.
-/

namespace Resch

/-- `struct timespec`, with the fields as `unsigned long`s -/
structure Timespec where
  sec : ℕ
  nsec : ℕ

/-- `timespec_to_usecs` -/
def timespecToUsecs (ts : Timespec) : ℕ := ulong (ts.sec * 1000000 + (ts.nsec / 1000 : ℕ))

/-- Linux's `usecs_to_jiffies`, which takes an `unsigned int` -/
def usecsToJiffies (hz us : ℕ) : ℕ := (us % 2 ^ 32 * hz + 999999) / 1000000

/-- Linux's `msecs_to_jiffies`. What `usecs_to_jiffies` returns fits in its `unsigned int`. -/
def msecsToJiffies (hz ms : ℕ) : ℕ := (ms * hz + 999) / 1000

/-- The calls with a timespec that is a duration of the task -/
inductive TimeCall
  | run
  | setPeriod
  | reserveStart (xcpu : Bool)

variable (c : Config) (hz : ℕ) (s : State) (rt : ℕ)

/-- `api_run` up to the sleep -/
def apiRunHz (timeout : ℕ) : State :=
  let s := globalListInsert s rt
  let s := if (s.task rt).policy = reschSchedFair then globalListRemove s rt else s
  jobReleaseWait s rt (s.jiffies + msecsToJiffies hz timeout)

/-- `reserve_start` -/
def reserveStartHz (cputime : ℕ) (xcpu : Bool) : State :=
  startAccount c (s.setTask rt fun t =>
    { t with replenishTimer := none, reserveTime := msecsToJiffies hz cputime, xcpu := xcpu }) rt

/-- `api_reserve_start` -/
def apiReserveStartHz (cputime : ℕ) (xcpu : Bool) : State × ℤ :=
  if s.hasReserve rt then (s, resFault) else (reserveStartHz c hz s rt cputime xcpu, resSuccess)

/-- `resch_write` -/
def writeTime (ts : Timespec) : TimeCall → State
  | .run => apiRunHz hz s rt (usecsToJiffies hz (timespecToUsecs ts))
  | .setPeriod => apiSetPeriod s rt (usecsToJiffies hz (timespecToUsecs ts))
  | .reserveStart xcpu =>
    (apiReserveStartHz c hz s rt (usecsToJiffies hz (timespecToUsecs ts)) xcpu).1

end Resch
