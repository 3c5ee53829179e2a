import Resch.Spec.State

/-!
# Waking up a context in a build with `SCHED_DEADLINE` (`gpu.c`)

`gdev_sched_wakeup` and `cpu_wq_wakeup` call each other under two spin locks. A processor that
takes a lock it holds never gets on, so that a call stops there; `depth` bounds the calls.
-/

namespace Resch

inductive GpuLock
  /-- `reschg_global_spinlock` -/
  | global
  /-- `release_lock` of the descriptor of the interrupt -/
  | release
  deriving DecidableEq

/-- What stops a call for good. -/
inductive WakeStop
  | deadlock (l : GpuLock)
  /-- `task->policy` read through the marker `0xDEAD` -/
  | badPointer
  | depth
  deriving DecidableEq

/-- `se->task` -/
inductive WaitTask
  | null
  | dead
  | process
  deriving DecidableEq

/-- The fields of a process that the wake-up uses; `dlRuntime` is `dl.runtime`. -/
structure WaitProc where
  state : RunState
  policy : LinuxPolicy
  dlRuntime : ℤ

/-- A scheduling entity with the process that `se->task` points to, and the locks that the caller
holds. -/
structure WaitEntity where
  task : WaitTask
  waitCond : ℕ
  waitTime : ℤ
  proc : WaitProc
  held : GpuLock → Bool

namespace WaitEntity

variable (se : WaitEntity)

/-- `spin_lock` -/
def lock (l : GpuLock) : Except WakeStop WaitEntity :=
  if se.held l then .error (.deadlock l) else .ok { se with held := Function.update se.held l true }

/-- `spin_unlock` -/
def unlock (l : GpuLock) : WaitEntity := { se with held := Function.update se.held l false }

/-- `dl_runtime_reverse`, at the time `clock`. -/
def dlRuntimeReverse (clock : ℤ) : WaitEntity :=
  let delta := clock - se.waitTime + 4096
  let delta := if se.proc.dlRuntime - 1000000 < delta then se.proc.dlRuntime - 1000000 else delta
  { se with proc := { se.proc with dlRuntime := se.proc.dlRuntime - delta } }

/-- `wake_up_process`, which wakes a process that sleeps. -/
def wakeUpProcess : WaitEntity × Bool :=
  if se.proc.state = .interruptible ∨ se.proc.state = .uninterruptible then
    ({ se with proc := { se.proc with state := .running } }, true)
  else (se, false)

/-- `cpu_wq_wakeup`, with `gdev_sched_wakeup` as it calls it. -/
def cpuWqWakeup (clock : ℤ) (wakeup : WaitEntity → Except WakeStop (WaitEntity × ℤ)) :
    Except WakeStop WaitEntity := do
  let se ← se.lock .release
  if se.waitCond = 0xCAFE then
    let (se, _) ← wakeup (se.dlRuntimeReverse clock)
    return { se with waitCond := 0 }.unlock .release
  else return { se with waitCond := 0xDEADBEEF }.unlock .release

/-- `gdev_sched_wakeup`; `later` is the state of the process a jiffy after a first attempt. -/
def gdevSchedWakeup (later : RunState) (clock : ℤ) :
    ℕ → WaitEntity → Except WakeStop (WaitEntity × ℤ)
  | 0, _ => .error .depth
  | depth + 1, se => do
    let se ← se.lock .global
    match se.task with
    | .null => return ({ se with task := .dead }.unlock .global, -22)
    | .dead => throw .badPointer
    | .process =>
      if se.proc.policy = .deadline then
        -- this branch does not unlock
        let se ← se.cpuWqWakeup clock (gdevSchedWakeup later clock depth)
        return (se, 1)
      else
        let (se, woken) := (se.unlock .global).wakeUpProcess
        if woken then return ({ se with task := .null }, 1)
        else
          let (se, woken) := { se with proc := { se.proc with state := later } }.wakeUpProcess
          if woken then return ({ se with task := .null }, 1)
          else return (se, -22)

/-- The caller holds no lock. -/
def unlocked : WaitEntity := { se with held := fun _ => false }

end WaitEntity

end Resch
