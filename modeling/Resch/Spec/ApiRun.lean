import Resch.Spec.CoreRun

/-!
# Runs of API calls

The calls that processes make on their tasks, together with what happens beside them:
replenish timers, migrations by a plugin, and Linux. A process makes a call when it is in
its own code; a call that sleeps is two steps, and in between the others go on.
`api_init` gives a process an id that is not in use.
-/

namespace Resch

/-- One step of a system of processes. -/
inductive ApiOp
  | init (rt current : ℕ)
  | exit (rt : ℕ)
  | run (rt timeout : ℕ)
  | waitForPeriod (rt : ℕ)
  | waitForInterval (rt period : ℕ)
  | release (rt : ℕ)
  | setPeriod (rt period : ℕ)
  | setDeadline (rt deadline : ℕ)
  | setWcet (rt wcet : ℕ)
  | setRuntime (rt runtime : ℕ)
  | setPriority (rt : ℕ) (prio : ℤ)
  | setScheduler (rt : ℕ) (policy : ℤ)
  | background (rt : ℕ)
  | reserveStart (rt cputime : ℕ) (xcpu : Bool)
  | reserveStop (rt : ℕ)
  | reserveExpire (rt : ℕ)
  | replenishTimer (rt : ℕ)
  | componentCreate
  | componentDestroy (cid : ℤ)
  | compose (rt : ℕ) (cid : ℤ)
  | decompose (rt : ℕ)
  | sleep (rt : ℕ)
  | suspend (rt : ℕ)
  | resume (rt : ℕ)
  | wakeUp (rt : ℕ)
  | migrate (rt cpu : ℕ)
  | linux (jiffies : ℕ) (proc : ℕ → Proc)

/-- Whether a step can be taken. The timer of a task does not outlive its attachment: leaving
stops the reserve. -/
def ApiOp.enabled (s : State) : ApiOp → Bool
  | init rt _ => decide (s.point rt = .detached)
  | exit rt | run rt _ | waitForPeriod rt | waitForInterval rt _ | setPeriod rt _ | setDeadline rt _
  | setWcet rt _ | setRuntime rt _ | setPriority rt _ | setScheduler rt _ | background rt
  | reserveStart rt _ _ | reserveStop rt | reserveExpire rt | compose rt _ | decompose rt
  | sleep rt | suspend rt => decide (s.point rt = .user)
  | release rt => decide (s.point rt = .release)
  | resume rt => decide (s.point rt = .suspend)
  | replenishTimer rt =>
    decide (s.Attached rt) && (s.task rt).replenishTimer.elim false fun t => decide (t ≤ s.jiffies)
  | wakeUp rt | migrate rt _ => decide (s.Attached rt)
  | componentCreate | componentDestroy _ | linux _ _ => true

/-- What a step does. -/
def ApiOp.exec (c : Config) (k : Kernel) (s : State) : ApiOp → Option State
  | init rt current => some ((reschTaskInit c k s rt current).setPoint rt .user)
  | exit rt => some ((apiExit c k s rt).1.setPoint rt .detached)
  | run rt timeout => some ((apiRun c s rt timeout).setPoint rt .release)
  | waitForPeriod rt => some ((apiWaitForPeriod c k s rt).1.setPoint rt .release)
  | waitForInterval rt period => some ((apiWaitForInterval c k s rt period).1.setPoint rt .release)
  | release rt => (jobRelease c s rt).map fun s => s.setPoint rt .user
  | setPeriod rt period => some (apiSetPeriod s rt period)
  | setDeadline rt deadline => some (apiSetDeadline s rt deadline)
  | setWcet rt wcet => some (apiSetWcet s rt wcet)
  | setRuntime rt runtime => some (apiSetRuntime s rt runtime)
  | setPriority rt prio => some (apiSetPriority c k s rt prio).1
  | setScheduler rt policy => some (apiSetScheduler c k s rt policy).1
  | background rt => some (apiBackground c k s rt).1
  | reserveStart rt cputime xcpu => some (apiReserveStart c s rt cputime xcpu).1
  | reserveStop rt => some (apiReserveStop c s rt).1
  | reserveExpire rt => some (apiReserveExpire c k s rt).1
  | replenishTimer rt => some (onReplenish c k s rt)
  | componentCreate => some (apiComponentCreate c s).1
  | componentDestroy cid => some (apiComponentDestroy s cid).1
  | compose rt cid => (apiCompose c s rt cid).map Prod.fst
  | decompose rt => some (apiDecompose s rt).1
  | sleep rt => some ((apiSleep c k s rt).setPoint rt .suspend)
  | suspend rt => some ((apiSuspend c k s rt).setPoint rt .suspend)
  | resume rt => some ((jobResume s rt).setPoint rt .user)
  | wakeUp rt => some (apiWakeUp s rt).1
  | migrate rt cpu => some (migrateTask c s rt cpu)
  | linux jiffies proc => some { s with jiffies, proc }

/-- The step function of a system that uses the calls `allowed`. -/
def apiStep (c : Config) (allowed : ApiOp → Bool) (s : State) (a : ApiOp × Kernel) : Option State :=
  if allowed a.1 && a.1.enabled s then a.1.exec c a.2 s else none

end Resch
