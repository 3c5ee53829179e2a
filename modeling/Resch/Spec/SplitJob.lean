import Resch.Lib.Runs
import Mathlib.Logic.Function.Basic
import Mathlib.Data.Nat.Notation

/-!
# Jobs of split tasks (`fp-pm.c`, `edf-wm.c`)

Both semi-partitioned plugins let a job of a split task go on from CPU to CPU: `job_start` runs a
timer, whose handler puts the task in the list of the migration thread of the next CPU with a
share; the thread moves the task there, wakes it and runs the timer again unless that CPU is the
last one; `job_complete` cancels the timer and moves the task back.

What one plugin keeps for a job is the type `δ`. The shares of the tasks are fixed.
-/

namespace Resch

/-- What the plugins have by tasks, and what they do with their own data: at the start of a job,
by the migration thread of a CPU, and when the timer is run on a CPU. -/
structure SplitPlugin (δ : Type) where
  nrRtCpus : ℕ
  isSplit : ℕ → Bool
  firstCpu : ℕ → ℕ
  lastCpu : ℕ → ℕ
  runtime : ℕ → ℕ → ℕ
  jobStart : ℕ → ℕ → δ → δ
  migrate : ℕ → ℕ → δ → δ
  startTimer : ℕ → ℕ → δ → δ

/-- `timer` is the CPU that has armed the timer. A job is asleep once its migration has been
requested. `visits` is there for the statements only: the CPUs that the job has been on. -/
structure SplitJob (δ : Type) where
  cpu : ℕ
  active : Bool
  asleep : Bool
  timer : Option ℕ
  visits : List ℕ
  data : δ

/-- `kthread` are the lists of the migration threads. -/
structure SplitState (δ : Type) where
  job : ℕ → SplitJob δ
  kthread : ℕ → List ℕ

variable {δ : Type} (p : SplitPlugin δ)

/-- The first CPU after `cpu` with a share: the loop of the timer's handler -/
def SplitPlugin.nextCpu (rt cpu : ℕ) : Option ℕ :=
  (List.range' (cpu + 1) (p.nrRtCpus - (cpu + 1))).find? fun k => decide (0 < p.runtime rt k)

/-- The timer of the job is run on the CPU where it is. -/
def SplitJob.startTimer (j : SplitJob δ) (rt : ℕ) : SplitJob δ :=
  { j with timer := some j.cpu, data := p.startTimer rt j.cpu j.data }

namespace SplitState

variable (s : SplitState δ) (rt cpu : ℕ)

def setJob (j : SplitJob δ) : SplitState δ := { s with job := Function.update s.job rt j }

def setKthread (l : List ℕ) : SplitState δ := { s with kthread := Function.update s.kthread cpu l }

/-- `job_start`, of a job that is released at `releaseTime` -/
def jobStart (releaseTime : ℕ) : SplitState δ :=
  let j := { s.job rt with
    active := true
    visits := [(s.job rt).cpu]
    data := p.jobStart rt releaseTime (s.job rt).data }
  s.setJob rt (if p.isSplit rt then j.startTimer p rt else j)

/-- `request_migration` -/
def requestMigration : SplitState δ :=
  (s.setJob rt { s.job rt with asleep := true }).setKthread cpu (s.kthread cpu ++ [rt])

/-- The timer's handler -/
def timerExpire : Option (SplitState δ) :=
  (s.job rt).timer.map fun cpu =>
    let s := s.setJob rt { s.job rt with timer := none }
    match p.nextCpu rt cpu with
    | none => s
    | some cpu => s.requestMigration rt cpu

/-- One turn of `migration_thread` -/
def migrationThread : Option (SplitState δ) :=
  match s.kthread cpu with
  | [] => none
  | rt :: rest =>
    let j := { s.job rt with
      cpu := cpu
      asleep := false
      visits := (s.job rt).visits ++ [cpu]
      data := p.migrate rt cpu (s.job rt).data }
    some ((s.setKthread cpu rest).setJob rt (if p.lastCpu rt ≠ cpu then j.startTimer p rt else j))

/-- `job_complete` -/
def jobComplete : SplitState δ :=
  let j := { s.job rt with active := false }
  s.setJob rt (if p.isSplit rt then
    { j with timer := none, cpu := if j.cpu ≠ p.firstCpu rt then p.firstCpu rt else j.cpu } else j)

end SplitState

inductive SplitOp
  | jobStart (rt releaseTime : ℕ)
  | timer (rt : ℕ)
  | thread (cpu : ℕ)
  | jobComplete (rt : ℕ)

def splitStep (s : SplitState δ) : SplitOp → Option (SplitState δ)
  | .jobStart rt releaseTime =>
    if (s.job rt).active then none else some (s.jobStart p rt releaseTime)
  | .timer rt => s.timerExpire p rt
  | .thread cpu => s.migrationThread p cpu
  | .jobComplete rt =>
    if (s.job rt).active && !(s.job rt).asleep then some (s.jobComplete p rt) else none

/-- The tasks have been submitted, and have been moved to their first CPUs if they are split. -/
def splitInit (cpu : ℕ → ℕ) (data : ℕ → δ) : SplitState δ where
  job rt := ⟨if p.isSplit rt then p.firstCpu rt else cpu rt, false, false, none, [], data rt⟩
  kthread _ := []

end Resch
