import Resch.Lib.Links
import Resch.Spec.Bitops
import Resch.Spec.Config

/-!
# Task descriptors, active queues and the state of the core

`State` holds the global objects of the core (`resch_task`, `lo`, `task_list`,
`pid_map`, `cid_map`, `component`) and what it reads and writes of Linux (`jiffies`
and the fields of `task_struct`). RESCH ids, process ids and CPUs are natural
numbers; process id `0` is the null pointer.

A linked list is the sequence of its entries, and `*Entry` in a descriptor says
whether the descriptor's own list head is linked (`!list_empty(&rt->..._entry)`).
The two agree as long as the lists are well formed. A state in which an entry
occurs twice, or occurs in a list while its own head is self-linked, is one whose
pointers are broken.
-/

namespace Resch

open Lib

/-- `task_struct.state` -/
inductive RunState
  | running | interruptible | uninterruptible | stopped
  deriving DecidableEq, Repr

/-- Scheduling policies of Linux. -/
inductive LinuxPolicy
  | normal | fifo | deadline
  deriving DecidableEq, Repr

/-- The fields of a process (`task_struct`) that the core uses. `cputime` is
`utime + stime` in nanoseconds, `rlimRttime = none` is `RLIM_INFINITY`. -/
structure Proc where
  state : RunState
  policy : LinuxPolicy
  rtPriority : ℤ
  cputime : ℕ
  rlimRttime : Option ℕ
  cpusAllowed : ℕ → Bool
  dlRuntime : ℕ
  dlExhaustive : Bool
  dlFcbs : Bool

/-- A runnable process that Linux schedules by CFS. -/
def Proc.fair : Proc where
  state := .running
  policy := .normal
  rtPriority := 0
  cputime := 0
  rlimRttime := none
  cpusAllowed := fun _ => true
  dlRuntime := 0
  dlExhaustive := false
  dlFcbs := false

/-- The scheduling classes; `deadline` is `edf_sched_class` of `sched_deadline.c`. -/
inductive SchedClass
  | fair | fp | edf | deadline
  deriving DecidableEq, Repr

/-- The EDF class of a build. -/
def Config.edfSchedClass (c : Config) : SchedClass :=
  if c.schedDeadline then .deadline else .edf

/-- Server control block; `timer` is the time at which its timer expires. -/
structure Server where
  capacity : ℕ
  timer : ℕ

/-- Task control block (`resch_task_struct`). -/
structure Task where
  task : ℕ
  prio : ℤ
  cpuId : ℕ
  cpumask : ℕ → Bool
  migratory : Bool
  missed : Bool
  wcetFixed : Bool
  wcet : ℕ
  runtime : ℕ
  period : ℕ
  deadline : ℕ
  deadlineTime : ℕ
  releaseTime : ℕ
  cls : SchedClass
  policy : ℤ
  accounting : Bool
  xcpu : Bool
  prioSave : ℤ
  reserveTime : ℕ
  budget : ℕ
  replenishTimer : Option ℕ
  server : Option Server
  globalEntry : Bool
  activeEntry : Bool
  componentEntry : Bool

/-- Number of words of an active queue's bitmap. -/
def reschPrioLong : ℕ := bitsToLongs 64 maxRtPrio.toNat

/-- Priority array of active tasks. -/
structure PrioArray where
  nrTasks : ℤ
  bitmap : Bitmap 64
  queue : ℤ → List ℕ

/-- Component control block; `initialised` says whether `INIT_LIST_HEAD` was called on
its list head, which is a pair of null pointers before. -/
structure Component where
  taskList : List ℕ
  initialised : Bool

/-- Where the process of a task is: not attached, in its own code, asleep in
`job_release`, or asleep between `job_suspend` and `job_resume`. -/
inductive Point
  | detached | user | release | suspend
  deriving DecidableEq, Repr

/-- One access to a level of an active queue: the index used, and, for a dequeue of
a linked task, whether the task is in the level the dequeue was told to look at. -/
structure Access where
  idx : ℤ
  hit : Bool
  deriving DecidableEq, Repr

/-- The state of the core. `rcu` counts the `rcu_read_lock`s that are held; `point`
and `trace` are there for the statements only. -/
structure State where
  jiffies : ℕ
  task : ℕ → Task
  proc : ℕ → Proc
  lo : ℕ → PrioArray
  taskList : List ℕ
  pidMap : Bitmap 64
  cidMap : Bitmap 64
  component : ℕ → Component
  rcu : ℕ
  point : ℕ → Point
  trace : List Access

/-- What Linux answers during one call: whether the caller has `CAP_SYS_NICE`, whether
`sched_setscheduler` accepts a policy and priority, whether `sched_setattr` accepts a
runtime, deadline and period, and the CPU the call runs on. `SCHED_FIFO` has the
priorities `1..99`, and the only priority of `SCHED_NORMAL` is `0`. -/
structure Kernel where
  capable : Bool
  setscheduler : LinuxPolicy → ℤ → Bool
  setattr : ℕ → ℕ → ℕ → Bool
  smpProcessorId : ℕ
  fifo_range : ∀ prio, setscheduler .fifo prio = true → 1 ≤ prio ∧ prio < maxRtPrio
  normal_zero : ∀ prio, setscheduler .normal prio = true → prio = 0

/-- Linux in a call of a privileged process: every valid request is accepted. -/
def Kernel.accepting : Kernel where
  capable := true
  setscheduler := fun policy prio =>
    match policy with
    | .normal => decide (prio = 0)
    | .fifo => decide (1 ≤ prio ∧ prio < maxRtPrio)
    | .deadline => false
  setattr := fun runtime deadline period => decide (0 < runtime ∧ runtime ≤ deadline ∧ deadline ≤ period)
  smpProcessorId := 0
  fifo_range := fun _ h => of_decide_eq_true h
  normal_zero := fun _ h => of_decide_eq_true h

/-- Linux in a call of a process that may not raise its priority: requests are refused. -/
def Kernel.refusing : Kernel where
  capable := true
  setscheduler := fun _ _ => false
  setattr := fun _ _ _ => false
  smpProcessorId := 0
  fifo_range := fun _ h => by cases h
  normal_zero := fun _ h => by cases h

namespace State

/-- Assign fields of a task descriptor. -/
def setTask (s : State) (rt : ℕ) (f : Task → Task) : State :=
  { s with task := Function.update s.task rt (f (s.task rt)) }

/-- `rt->prio = prio` -/
def setPrio (s : State) (rt : ℕ) (prio : ℤ) : State := s.setTask rt fun t => { t with prio := prio }

/-- `rt->cpu_id = cpu` -/
def setCpu (s : State) (rt cpu : ℕ) : State := s.setTask rt fun t => { t with cpuId := cpu }

/-- Assign fields of a process. -/
def setProc (s : State) (p : ℕ) (f : Proc → Proc) : State :=
  { s with proc := Function.update s.proc p (f (s.proc p)) }

/-- `rcu_read_lock` -/
def rcuReadLock (s : State) : State := { s with rcu := s.rcu + 1 }

/-- `rcu_read_unlock` -/
def rcuReadUnlock (s : State) : State := { s with rcu := s.rcu - 1 }

/-- `*rt->task` -/
def procOf (s : State) (rt : ℕ) : Proc := s.proc (s.task rt).task

/-- `task_is_managed` -/
def isManaged (s : State) (rt : ℕ) : Bool := (s.task rt).globalEntry

/-- `task_is_active` -/
def isActive (s : State) (rt : ℕ) : Bool := (s.task rt).activeEntry

/-- `task_has_reserve` -/
def hasReserve (s : State) (rt : ℕ) : Bool := decide (0 < (s.task rt).reserveTime)

/-- `task_is_accounting` -/
def isAccounting (s : State) (rt : ℕ) : Bool := (s.task rt).accounting

/-- `task_is_on_cpu` -/
def isOnCpu (s : State) (rt cpu : ℕ) : Bool := decide ((s.task rt).cpuId = cpu)

/-- The levels of all active queues, by CPU and index. -/
def levels (s : State) : ℕ × ℤ → List ℕ := fun k => (s.lo k.1).queue k.2

/-- Link `rt` into level `idx` of the active queue of `cpu`; `ins` puts it into the
list. Sets the bit and counts the task. -/
def link (s : State) (rt cpu : ℕ) (idx : ℤ) (ins : List ℕ → List ℕ) : State :=
  let active := s.lo cpu
  { s with
    lo := Function.update s.lo cpu
      { nrTasks := active.nrTasks + 1
        bitmap := setBit idx active.bitmap
        queue := Function.update active.queue idx (ins (active.queue idx)) }
    task := Function.update s.task rt { s.task rt with activeEntry := true }
    trace := ⟨idx, true⟩ :: s.trace }

/-- Unlink `rt` from the level that holds it (`list_del_init`); clear the bit of level
`idx` of `cpu` if that level is empty now, and count the task off there. -/
def unlink (s : State) (rt cpu : ℕ) (idx : ℤ) : State :=
  let lo : ℕ → PrioArray := fun x => { s.lo x with queue := fun i => ((s.lo x).queue i).filter (· ≠ rt) }
  let active := lo cpu
  { s with
    lo := Function.update lo cpu
      { active with
        nrTasks := active.nrTasks - 1
        bitmap := if active.queue idx = [] then clearBit idx active.bitmap else active.bitmap }
    task := Function.update s.task rt { s.task rt with activeEntry := false }
    trace := ⟨idx, !s.isActive rt || decide (rt ∈ (s.lo cpu).queue idx)⟩ :: s.trace }

end State

/-- `if (p) f(p)` for a pointer to a task. -/
def ifSome (s : State) (p : Option ℕ) (f : State → ℕ → State) : State :=
  match p with
  | some p => f s p
  | none => s

/-- The entry after `x` in a list, if `x` is not the last. -/
def nextIn (l : List ℕ) (x : ℕ) : Option ℕ := l[l.idxOf x + 1]?

/-- The entry before `x` in a list, if `x` is not the first. -/
def prevIn (l : List ℕ) (x : ℕ) : Option ℕ := if l.idxOf x = 0 then none else l[l.idxOf x - 1]?

/-- The highest-priority task of an active queue. -/
def activeHighestPrioTask (s : State) (cpu : ℕ) : Option ℕ :=
  let active := s.lo cpu
  let idx := reschFfs active.bitmap reschPrioLong
  if idx < 0 then none else (active.queue idx).head?

/-- The task after `rt` in its active queue. -/
def activeNextPrioTask (s : State) (rt : ℕ) : Option ℕ :=
  let idx := prioIndex (s.task rt).prio
  let active := s.lo (s.task rt).cpuId
  match nextIn (active.queue idx) rt with
  | some p => some p
  | none =>
    let idx := reschFns active.bitmap (idx + 1) reschPrioLong
    if idx < 0 then none else (active.queue idx).head?

/-- The task before `rt` in its active queue. -/
def activePrevPrioTask (s : State) (rt : ℕ) : Option ℕ :=
  let idx := prioIndex (s.task rt).prio
  let active := s.lo (s.task rt).cpuId
  match prevIn (active.queue idx) rt with
  | some p => some p
  | none =>
    let idx := reschFps active.bitmap (idx - 1) reschPrioLong
    if idx < 0 then none else (active.queue idx).getLast?

/-- The loop of `active_number_task`, with the tasks counted so far and the level to go on from.
A turn counts at least one task. -/
def activeNumberLoop (active : PrioArray) (num : ℕ) : ℕ → ℕ → ℤ → Option ℕ
  | 0, _, _ => none
  | turns + 1, i, idx =>
    if i < num then
      let idx := reschFns active.bitmap idx reschPrioLong
      if idx < 0 then none
      else
        match (active.queue idx)[num - i - 1]? with
        | some rt => some rt
        | none => activeNumberLoop active num turns (i + (active.queue idx).length) (idx + 1)
    else none

/-- The task of an active queue that has the `num`-th priority. -/
def activeNumberTask (s : State) (cpu num : ℕ) : Option ℕ :=
  activeNumberLoop (s.lo cpu) num num 0 0

/-- The first task of a priority. -/
def activePrioTask (s : State) (cpu : ℕ) (prio : ℤ) : Option ℕ :=
  ((s.lo cpu).queue (prioIndex prio)).head?

/-- The highest-priority task submitted. -/
def globalHighestPrioTask (s : State) : Option ℕ := s.taskList.head?

/-- The task after `rt` in the global list. -/
def globalNextPrioTask (s : State) (rt : ℕ) : Option ℕ := nextIn s.taskList rt

/-- The first task of the global list that has the given priority or less. -/
def globalPrioTask (s : State) (prio : ℤ) : Option ℕ :=
  s.taskList.find? fun rt => decide ((s.task rt).prio ≤ prio)

end Resch
