import Resch.Spec.ApiRun

/-!
# FP tasks with reserves

The calls of FP tasks that run with a CPU reserve. An expiration is delivered inside a job.
`prioSet` remembers the priority that each task has last set with `api_set_priority`.
-/

namespace Resch

/-- The core and, for the statements only, the priority that each task has last set. -/
structure ReserveState where
  core : State
  prioSet : ℕ → ℤ

/-- The calls of such a task. -/
def ApiOp.reserveCall (s : State) : ApiOp → Bool
  | init _ _ | setPeriod _ _ | setDeadline _ _ | setWcet _ _ | setRuntime _ _ | setPriority _ _
  | reserveStart _ _ _ | run _ _ | release _ | replenishTimer _ | waitForPeriod _ | sleep _
  | suspend _ | resume _ | linux _ _ => true
  | reserveExpire rt => s.isActive rt
  | _ => false

/-- The priorities last set, after a call. A task that attaches starts with `RESCH_PRIO_MIN`. -/
def ApiOp.prioSet (c : Config) (k : Kernel) (s : ReserveState) : ApiOp → ℕ → ℤ
  | init rt _ => Function.update s.prioSet rt reschPrioMin
  | setPriority rt prio =>
    if (apiSetPriority c k s.core rt prio).2 = resSuccess then Function.update s.prioSet rt prio
    else s.prioSet
  | _ => s.prioSet

/-- The step function. -/
def reserveStep (c : Config) (s : ReserveState) (a : ApiOp × Kernel) : Option ReserveState :=
  (apiStep c (ApiOp.reserveCall s.core) s.core a).map fun core => ⟨core, a.1.prioSet c a.2 s⟩

/-- The module has been loaded. -/
def reserveInit (jiffies : ℕ) (proc : ℕ → Proc) : ReserveState where
  core := schedInit jiffies proc
  prioSet := fun _ => 0

end Resch
