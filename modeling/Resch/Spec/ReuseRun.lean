import Resch.Spec.ApiRun
import Resch.Spec.WriteRun

/-!
# The owner of a reused id

All calls of all processes, `api_server_run` among them, with what they return. `api_init` gives a
process a descriptor that is not in use, and `resch_task_init` leaves `prio_save`, the budget and
the replenish timer in it as they are.
-/

namespace Resch

inductive ReuseOp
  | api (op : ApiOp)
  | serverRun (rt : ℕ) (mem : Option ℕ)
  /-- The timer of a server expires. -/
  | serverTimer (rt : ℕ)

/-- What a call returns. A call that sleeps has its value before it sleeps. -/
def ApiOp.result (c : Config) (k : Kernel) (s : State) : ApiOp → ℤ
  | init rt _ => rt
  | exit rt => (apiExit c k s rt).2
  | waitForPeriod rt => (apiWaitForPeriod c k s rt).2
  | waitForInterval rt period => (apiWaitForInterval c k s rt period).2
  | setPriority rt prio => (apiSetPriority c k s rt prio).2
  | setScheduler rt policy => (apiSetScheduler c k s rt policy).2
  | background rt => (apiBackground c k s rt).2
  | reserveStart rt cputime xcpu => (apiReserveStart c s rt cputime xcpu).2
  | reserveStop rt => (apiReserveStop c s rt).2
  | reserveExpire rt => (apiReserveExpire c k s rt).2
  | componentCreate => (apiComponentCreate c s).2
  | componentDestroy cid => (apiComponentDestroy s cid).2
  | compose rt cid => (apiCompose c s rt cid).elim 0 Prod.snd
  | decompose rt => (apiDecompose s rt).2
  | wakeUp rt => (apiWakeUp s rt).2
  | run _ _ | release _ | setPeriod _ _ | setDeadline _ _ | setWcet _ _ | setRuntime _ _
  | replenishTimer _ | sleep _ | suspend _ | resume _ | migrate _ _ | linux _ _ => resSuccess

namespace ReuseOp

def enabled (s : State) : ReuseOp → Bool
  | api op => op.enabled s
  | serverRun rt _ => decide (s.point rt = .user)
  | serverTimer rt => (s.task rt).server.any fun t => decide (t.timer ≤ s.jiffies)

def exec (c : Config) (k : Kernel) (s : State) : ReuseOp → Option State
  | api op => op.exec c k s
  | serverRun rt mem => some (apiServerRun c s rt mem).1
  | serverTimer rt => some (serverHandler s rt)

def result (c : Config) (k : Kernel) (s : State) : ReuseOp → ℤ
  | api op => op.result c k s
  | serverRun rt mem => (apiServerRun c s rt mem).2
  | serverTimer _ => resSuccess

end ReuseOp

def reuseStep (c : Config) (s : State) (a : ReuseOp × Kernel) : Option State :=
  if a.1.enabled s then a.1.exec c a.2 s else none

/-- The same step in two states. -/
def reusePairStep (c : Config) (s : State × State) (a : ReuseOp × Kernel) : Option (State × State) :=
  (reuseStep c s.1 a).bind fun s₁ => (reuseStep c s.2 a).map fun s₂ => (s₁, s₂)

/-- The call compares `prio_save` of `rid` with the priority, or puts it back. -/
def ReuseOp.readsSave (s : State) (rid : ℕ) : ReuseOp → Bool
  | api (.sleep rt) | api (.suspend rt) => decide (rt = rid)
  | api (.replenishTimer rt) =>
    decide (rt = rid ∧ (s.task rid).cls = .fp ∧ (s.task rid).prio = reschPrioBackground) &&
      s.isActive rid
  | api (.reserveExpire rt) =>
    decide (rt = rid ∧ (s.task rid).cls = .fp ∧ (s.task rid).prio = reschPrioBackground ∧
      (s.task rid).releaseTime + (s.task rid).period ≤ s.jiffies) &&
      s.hasReserve rid && s.isActive rid
  | _ => false

/-- `api_init` gives `rid` to the process `current`. -/
def State.attach (c : Config) (k : Kernel) (s : State) (rid current : ℕ) : State :=
  (reschTaskInit c k s rid current).setPoint rid .user

/-- Policies, priorities and budgets are the same in both states. -/
def SameTasks (s : State × State) : Prop :=
  ∀ q, (s.2.task q).policy = (s.1.task q).policy ∧ (s.2.task q).prio = (s.1.task q).prio ∧
    (s.2.task q).budget = (s.1.task q).budget

/-- The call can be made in both states or in neither, and returns the same. -/
def SameAnswer (c : Config) (s : State × State) (a : ReuseOp × Kernel) : Prop :=
  (reuseStep c s.2 a).isSome = (reuseStep c s.1 a).isSome ∧
    a.1.result c a.2 s.2 = a.1.result c a.2 s.1

/-- If the call reads `prio_save` of `rid`, it is the same in both states. -/
def SaveAgrees (rid : ℕ) (s : State × State) (a : ReuseOp × Kernel) : Prop :=
  a.1.readsSave s.1 rid = true → (s.2.task rid).prioSave = (s.1.task rid).prioSave

end Resch
