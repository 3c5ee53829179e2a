import Resch.Spec.ApiRun

/-!
# The loop of `job_release`, and `task_run` in `api_run` (`sched.c` and the plugins)

With `SCHED_DEADLINE` an EDF task that comes back from `wait_period` loops as long as
`rt->runtime <= 0`. `releaseLoop` takes so many turns at most; `jiffies` may be another one in each.
`taskRun` is what the `task_run` of a plugin does with the descriptor, once it has looked for a CPU.
-/

namespace Resch

variable (c : Config) (k : Kernel)

/-! ## The loop -/

/-- A turn of the loop at the time `now`. -/
def releaseTurn (s : State) (rt now : ℕ) : State :=
  s.setTask rt fun t => { t with deadlineTime := t.deadlineTime + t.period, releaseTime := now }

/-- `while (rt->runtime <= 0)`; `none` if it takes more turns. -/
def releaseLoop (rt : ℕ) (now : ℕ → ℕ) : ℕ → State → Option State
  | 0, _ => none
  | turns + 1, s =>
    if (s.task rt).runtime ≤ 0 then releaseLoop rt now turns (releaseTurn s rt (now turns)) else some s

/-- `job_release` after the sleep. -/
def jobReleaseTurns (now : ℕ → ℕ) (turns : ℕ) (s : State) (rt : ℕ) : Option State :=
  let s := setRunState s rt .running
  let s := resetExecTime s rt
  let s := s.setTask rt fun t => { t with deadlineTime := t.releaseTime + t.deadline }
  if c.schedDeadline = true ∧ (s.task rt).policy = reschSchedEdf then releaseLoop rt now turns s
  else some s

/-! ## `task_run` -/

/-- What `task_run` has decided: nothing (no plugin, or an aperiodic task); a CPU, with the policy of
the plugin, which is set `always` or if it is another one; a split by EDF-WM, with its window and the
first share in microseconds; no CPU; or the main CPU of a global plugin. -/
inductive TaskRun
  | skip
  | assign (cpu : ℕ) (always : Bool) (policy prio : ℤ)
  | window (cpu deadline share : ℕ)
  | reject
  | submit (policy prio : ℤ) (cpu : ℕ)

/-- `task_run` from the assignment of `rt->cpu_id` on. EDF-WM changes `rt->runtime` for the time of
one `set_scheduler`. -/
def taskRun (s : State) (rt : ℕ) : TaskRun → State
  | .skip => s
  | .assign cpu always policy prio =>
    let s := s.setCpu rt cpu
    let s :=
      if always = true ∨ (s.task rt).policy ≠ policy then (setScheduler c k s rt policy prio).1 else s
    migrateTask c (s.setTask rt fun t => { t with migratory := false }) rt cpu
  | .window cpu deadline share =>
    let s := s.setCpu rt cpu
    let runtimeSave := (s.task rt).runtime
    let s := s.setTask rt fun t => { t with deadline := deadline, runtime := share }
    let s := (setScheduler c k s rt reschSchedEdf (s.task rt).prio).1
    let s := s.setTask rt fun t => { t with runtime := runtimeSave }
    migrateTask c (s.setTask rt fun t => { t with migratory := false }) rt cpu
  | .reject => (setScheduler c k (s.setCpu rt c.reschCpuUndefined) rt reschSchedFair 0).1
  | .submit policy prio cpu => migrateTask c (setScheduler c k s rt policy prio).1 rt cpu

/-- `api_run` with a plugin, up to the sleep. -/
def apiRunPlugin (s : State) (rt timeout : ℕ) (r : TaskRun) : State :=
  let s := globalListInsert s rt
  let s := taskRun c k s rt r
  let s := if (s.task rt).policy = reschSchedFair then globalListRemove s rt else s
  jobReleaseWait s rt (s.jiffies + c.msecsToJiffies timeout)

/-! ## Runs -/

/-- The steps: API calls and what happens beside them, `api_run` with a plugin, and `set_scheduler`
by a plugin that starts or completes a job. -/
inductive ReleaseOp
  | api (op : ApiOp)
  | run (rt timeout : ℕ) (r : TaskRun)
  | plugin (rt : ℕ) (policy prio : ℤ)

def ReleaseOp.enabled (s : State) : ReleaseOp → Bool
  | api op => op.enabled s
  | run rt _ _ | plugin rt _ _ => decide (s.point rt = .user)

def ReleaseOp.exec (c : Config) (k : Kernel) (s : State) : ReleaseOp → Option State
  | api op => op.exec c k s
  | run rt timeout r => some ((apiRunPlugin c k s rt timeout r).setPoint rt .release)
  | plugin rt policy prio => some (setScheduler c k s rt policy prio).1

def releaseStep (c : Config) (s : State) (a : ReleaseOp × Kernel) : Option State :=
  if a.1.enabled s then a.1.exec c a.2 s else none

end Resch
