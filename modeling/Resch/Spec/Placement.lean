import Resch.Spec.Config
import Mathlib.Data.Int.ModEq

/-!
# What the placement plugins share

The partitioned and the semi-partitioned plugins (`fp-ff.c`, `edf-ff.c`, `fp-pm.c`,
`edf-wm.c`) look for a CPU for a task with the tasks that are in the global list. `TaskSet`
is what they read of the core, with the scheduling overheads of `sched.c`. An
`unsigned long` has 64 bits, an `int` and an `unsigned int` 32.
-/

namespace Resch

/-- Conversion to `unsigned long` -/
def ulong (x : ℤ) : ℕ := (x % 2 ^ 64).toNat

/-- Conversion to `int` -/
def cint (x : ℕ) : ℤ := Int.bmod x (2 ^ 32)

theorem ulong_of_lt {x : ℤ} (h0 : 0 ≤ x) (h : x < 2 ^ 64) : ulong x = x.toNat := by
  rw [ulong, Int.emod_eq_of_lt h0 h]

theorem ulong_natCast {n : ℕ} (h : n < 2 ^ 64) : ulong n = n := by
  rw [ulong_of_lt (by omega) (by omega), Int.toNat_natCast]

/-- A negative value wraps. -/
theorem ulong_of_neg {x : ℤ} (h : x < 0) (h' : -2 ^ 64 ≤ x) : ulong x = (x + 2 ^ 64).toNat := by
  unfold ulong
  congr 1
  omega

theorem cint_of_lt {n : ℕ} (h : n < 2 ^ 31) : cint n = n := by
  unfold cint
  rw [Int.bmod_eq_of_le] <;> omega

/-- Linux's `jiffies_to_usecs`, which returns an `unsigned int`. -/
def Config.usecs (c : Config) (j : ℕ) : ℕ := c.jiffiesToUsecs j % 2 ^ 32

/-- Linux's `usecs_to_jiffies`, which takes an `unsigned int`. -/
def Config.jiffies (c : Config) (us : ℕ) : ℕ := c.usecsToJiffies (us % 2 ^ 32)

/-- `RESCH_CPU_UNDEFINED` -/
def Config.cpuUndefined (c : Config) : ℕ := c.nrRtCpus

/-- The fields of `resch_task_t` that the plugins read. Periods and deadlines are in jiffies,
execution times in microseconds. -/
structure RtTask where
  period : ℕ
  deadline : ℕ
  wcet : ℕ
  runtime : ℕ
  prio : ℤ
  cpuId : ℕ
  migratory : Bool

/-- The plugins' macro `C` -/
def RtTask.C (c : Config) (t : RtTask) : ℕ := if c.hardRt then t.wcet else t.runtime

/-- The global list, highest priority first, and the three costs that can be set. -/
structure TaskSet where
  list : List ℕ
  task : ℕ → RtTask
  switchCost : ℕ
  releaseCost : ℕ
  migrationCost : ℕ

namespace TaskSet

variable (c : Config) (s : TaskSet) (rt cpu interval : ℕ)

/-- `sched_overhead_task` -/
def schedOverheadTask : ℕ :=
  let nrJobs := divRoundUp interval (c.usecs (s.task rt).period)
  let overhead := ulong (nrJobs * (s.switchCost + s.releaseCost))
  if (s.task rt).migratory then ulong (overhead + nrJobs * s.migrationCost) else overhead

/-- `sched_overhead_cpu` -/
def schedOverheadCpu : ℕ :=
  let overhead := s.list.foldl (fun overhead rt =>
    if (s.task rt).cpuId = cpu then ulong (overhead + s.schedOverheadTask c rt interval)
    else overhead) 0
  ulong (overhead + (ulong (c.jiffies interval * s.switchCost) / 2 : ℕ))

end TaskSet

end Resch
