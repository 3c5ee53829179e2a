import Resch.Spec.EdfWm
import Resch.Spec.SplitJob

/-!
# Jobs of split tasks under EDF-WM (`edf-wm.c`)

A job of a split task is moved at the end of each window, and its deadline is then that of the next
window. `task_run` makes the window the relative deadline of the task, so `job_release` sets the
deadline of the first window.
-/

namespace Resch

structure WindowTimes where
  releaseTime : ℕ
  deadlineTime : ℕ

def edfWmPlugin (c : Config) (s : EdfWm) : SplitPlugin WindowTimes where
  nrRtCpus := c.nrRtCpus
  isSplit rt := decide (0 < (s.edfWmTask rt).deadline)
  firstCpu rt := (s.edfWmTask rt).firstCpu
  lastCpu rt := (s.edfWmTask rt).lastCpu
  runtime rt := (s.edfWmTask rt).runtime
  jobStart rt releaseTime _ := ⟨releaseTime, releaseTime + (s.task rt).deadline⟩
  migrate rt _ times :=
    { times with deadlineTime := times.deadlineTime + (s.edfWmTask rt).deadline }
  startTimer _ _ times := times

/-- The steps of the jobs. `job_release` does not come back for an EDF task without a runtime. -/
def edfWmStep (c : Config) (s : EdfWm) (jobs : SplitState WindowTimes) (op : SplitOp) :
    Option (SplitState WindowTimes) :=
  match op with
  | .jobStart rt releaseTime =>
    if (s.task rt).runtime = 0 then none
    else splitStep (edfWmPlugin c s) jobs (.jobStart rt releaseTime)
  | .timer _ | .thread _ | .jobComplete _ => splitStep (edfWmPlugin c s) jobs op

end Resch
