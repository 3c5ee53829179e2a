import Resch.Spec.FpPm
import Resch.Spec.SplitJob

/-!
# Jobs of split tasks under FP-PM (`fp-pm.c`)

The timer of a job runs for the share of the CPU where the job is. A share is in microseconds, and
the interval is computed as a `u64` of nanoseconds.
-/

namespace Resch

/-- The interval of `start_migration_timer` -/
def FppmTask.interval (ft : FppmTask) (cpu : ℕ) : ℕ := ulong (ft.runtime cpu * 1000)

/-- What is kept for a job is there for the statements only: the CPUs where its timer has been
run, each with the interval. -/
def fppmPlugin (c : Config) (fppmTask : ℕ → FppmTask) : SplitPlugin (List (ℕ × ℕ)) where
  nrRtCpus := c.nrRtCpus
  isSplit rt := decide ((fppmTask rt).firstCpu ≠ (fppmTask rt).lastCpu)
  firstCpu rt := (fppmTask rt).firstCpu
  lastCpu rt := (fppmTask rt).lastCpu
  runtime rt := (fppmTask rt).runtime
  jobStart _ _ _ := []
  migrate _ _ armed := armed
  startTimer rt cpu armed := armed ++ [(cpu, (fppmTask rt).interval cpu)]

end Resch
