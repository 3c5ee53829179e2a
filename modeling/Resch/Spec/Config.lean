import Mathlib.Data.Nat.Basic
import Mathlib.Data.Int.Basic

/-!
# Constants and build configuration

The constants of `resch-core.h` and `resch-api.h`, and the options of a build of
the core. `Config.schedDeadline` says whether `SCHED_DEADLINE` is defined, in which
case `sched_deadline.c` supplies the EDF class, and `sched_edf.c` otherwise. The
build is the one of the configuration file the repository holds: no preemption
tracing, no high-resolution timers, and the load balancing of Linux left on.
-/

namespace Resch

/-- Number of real-time priorities of Linux. -/
def maxRtPrio : ℤ := 100

def reschPrioMax : ℤ := maxRtPrio - 2
def reschPrioKthread : ℤ := reschPrioMax
def reschPrioMin : ℤ := 1
def reschPrioBackground : ℤ := reschPrioMin + 1
def reschPrioEdf : ℤ := reschPrioBackground + 1
def reschPrioEdfRun : ℤ := reschPrioEdf + 1

def reschSchedFair : ℤ := 0
def reschSchedFp : ℤ := 1
def reschSchedEdf : ℤ := 2

/-- Position of a priority in the priority arrays, highest first. -/
def prioIndex (prio : ℤ) : ℤ := reschPrioMax - prio

def resSuccess : ℤ := 0
def resFault : ℤ := 1
def resIllegal : ℤ := 2
def resMiss : ℤ := 3

/-- `BITS_TO_LONGS` -/
def bitsToLongs (w n : ℕ) : ℕ := (n + w - 1) / w

/-- `DIV_ROUND_UP` of `sched.h` (the remainder is tested first there). -/
def divRoundUp (x y : ℕ) : ℕ := if x % y = 0 then x / y else x / y + 1

/-- The options of a build. `usecPerTick` is the length of a jiffy. -/
structure Config where
  nrRtCpus : ℕ
  nrRtTasks : ℕ
  nrRtComponents : ℕ
  schedDeadline : Bool
  hardRt : Bool
  usecPerTick : ℕ
  tick_pos : 0 < usecPerTick

/-- A build for one CPU and one task, with a tick of a millisecond. -/
def Config.small (schedDeadline : Bool) : Config where
  nrRtCpus := 1
  nrRtTasks := 1
  nrRtComponents := 1
  schedDeadline := schedDeadline
  hardRt := true
  usecPerTick := 1000
  tick_pos := by decide

/-- CPU of a task that is not assigned to any. -/
def Config.reschCpuUndefined (c : Config) : ℕ := c.nrRtCpus

/-- Linux's `jiffies_to_usecs`. -/
def Config.jiffiesToUsecs (c : Config) (j : ℕ) : ℕ := c.usecPerTick * j

/-- Linux's `usecs_to_jiffies`, which rounds up. -/
def Config.usecsToJiffies (c : Config) (us : ℕ) : ℕ := (us + c.usecPerTick - 1) / c.usecPerTick

/-- Linux's `msecs_to_jiffies`, which rounds up. -/
def Config.msecsToJiffies (c : Config) (ms : ℕ) : ℕ := c.usecsToJiffies (1000 * ms)

/-- `jiffies_to_nsecs` -/
def Config.jiffiesToNsecs (c : Config) (j : ℕ) : ℕ := 1000 * c.jiffiesToUsecs j

end Resch
