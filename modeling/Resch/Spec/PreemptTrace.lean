import Resch.Spec.CoreRun

/-!
# Who preempts whom (`preempt_trace.c`)

The chain of preempted tasks of a build with `RESCH_PREEMPT_TRACE`: the two links of each descriptor
and the current task of each CPU, beside the core. The calls are made together with the enqueues and
dequeues they go with, in the order of `job_start`, `job_complete`, `job_suspend`, `job_resume` and of
the functions that move a task. The accounting of execution times is left out.
-/

namespace Resch

/-- `preemptee` and `preempter` of the descriptors and `current_task` of the CPUs. `job` says which
tasks have a job that is started and neither finished nor suspended; the core does not read it.
`oops` is set by a null pointer. -/
structure TraceState where
  core : State
  preemptee : ℕ → Option ℕ
  preempter : ℕ → Option ℕ
  currentTask : ℕ → Option ℕ
  job : ℕ → Bool
  oops : Bool

namespace TraceState

variable (s : TraceState) (rt : ℕ)

def start (jiffies : ℕ) (proc : ℕ → Proc) : TraceState where
  core := schedInit jiffies proc
  preemptee := fun _ => none
  preempter := fun _ => none
  currentTask := fun _ => none
  job := fun _ => false
  oops := false

/-- `rt->preemptee = p` -/
def setPreemptee (p : Option ℕ) : TraceState :=
  { s with preemptee := Function.update s.preemptee rt p }

/-- `rt->preempter = p` -/
def setPreempter (p : Option ℕ) : TraceState :=
  { s with preempter := Function.update s.preempter rt p }

/-- `lo[cpu].current_task = p` -/
def setCurrent (cpu : ℕ) (p : Option ℕ) : TraceState :=
  { s with currentTask := Function.update s.currentTask cpu p }

/-- `rt->cpu_id` -/
def cpuOf : ℕ := (s.core.task rt).cpuId

/-- `__preempt_current` -/
def preemptCurrent (curr : ℕ) : TraceState :=
  ((s.setPreemptee rt (some curr)).setPreempter curr (some rt)).setCurrent (s.cpuOf rt) (some rt)

/-- `__preempt_idle` -/
def preemptIdle : TraceState := (s.setPreemptee rt none).setCurrent (s.cpuOf rt) (some rt)

/-- Neither branch is taken if the current task has the same priority or a higher one. -/
def preempt : TraceState :=
  match s.currentTask (s.cpuOf rt) with
  | some curr =>
    if (s.core.task curr).prio < (s.core.task rt).prio then s.preemptCurrent rt curr else s
  | none => s.preemptIdle rt

def preemptSelf : TraceState :=
  let curr := s.preemptee rt
  let s' :=
    match curr with
    | some curr => s.setPreempter curr none
    | none => s
  (s'.setCurrent (s.cpuOf rt) curr).setPreemptee rt none

def preemptOut : TraceState :=
  if s.currentTask (s.cpuOf rt) = some rt then s.preemptSelf rt
  else
    let s :=
      match s.preempter rt with
      | some p => s.setPreemptee p (s.preemptee rt)
      | none => s
    let s :=
      match s.preemptee rt with
      | some p => s.setPreempter p (s.preempter rt)
      | none => s
    (s.setPreemptee rt none).setPreempter rt none

/-- The task before `rt` in its active queue; the head of a task that is in no queue is linked to
itself. -/
def prevTask : Option ℕ :=
  if s.core.isActive rt then activePrevPrioTask s.core rt else some rt

def preemptIn : TraceState :=
  match s.currentTask (s.cpuOf rt) with
  | some curr =>
    if (s.core.task rt).prio ≤ (s.core.task curr).prio then
      let prev := s.prevTask rt
      let s := s.setPreempter rt prev
      match prev with
      | none => { s with oops := true }
      | some p =>
        let s := s.setPreemptee rt (s.preemptee p)
        let s := s.setPreemptee p (some rt)
        match s.preemptee rt with
        | some q => s.setPreempter q (some rt)
        | none => s
    else s.preempt rt
  | none => s.preempt rt

/-- The function of the class of `rt` on the queues -/
def enqueue : TraceState :=
  { s with core := classEnqueueTask s.core rt (s.core.task rt).prio (s.core.task rt).cpuId }

def dequeue : TraceState :=
  { s with core := classDequeueTask s.core rt (s.core.task rt).prio (s.core.task rt).cpuId }

/-- The job of `rt` starts or goes on, or ends or is suspended. -/
def setJob (b : Bool) : TraceState := { s with job := Function.update s.job rt b }

end TraceState

/-- One step. `assign` stands for all that is set while a task has no job. `moveOut` and `moveIn` are
the two halves of a requeue or a migration, and `moveIn` is also the end of a suspension. -/
inductive TraceOp
  | assign (rt : ℕ) (cls : SchedClass) (prio : ℤ) (cpu deadlineTime : ℕ)
  | jobStart (rt : ℕ)
  | jobComplete (rt : ℕ)
  | jobSuspend (rt : ℕ)
  | moveOut (rt : ℕ)
  | moveIn (rt : ℕ)

namespace TraceOp

/-- Whether a step can be taken: only that a job is not started twice and that one that ends is there. -/
def enabled (s : TraceState) : TraceOp → Bool
  | assign rt .. | jobStart rt | moveIn rt => !s.job rt
  | jobComplete rt | jobSuspend rt | moveOut rt => s.job rt

/-- What a step does. -/
def exec (s : TraceState) : TraceOp → TraceState
  | assign rt cls prio cpu deadlineTime =>
    { s with
      core := s.core.setTask rt fun t =>
        { t with cls := cls, prio := prio, cpuId := cpu, deadlineTime := deadlineTime } }
  | jobStart rt =>
    let s := s.preempt rt
    { s.setJob rt true with core := classJobStart s.core rt }
  | jobComplete rt =>
    let s := s.preemptSelf rt
    { s.setJob rt false with core := classJobComplete s.core rt }
  | jobSuspend rt => ((s.preemptSelf rt).dequeue rt).setJob rt false
  | moveOut rt => ((s.preemptOut rt).dequeue rt).setJob rt false
  | moveIn rt => ((s.enqueue rt).preemptIn rt).setJob rt true

end TraceOp

/-- The step function; nothing happens after a null pointer was followed. -/
def traceStep (s : TraceState) (a : TraceOp) : Option TraceState :=
  if !s.oops && a.enabled s then some (a.exec s) else none

end Resch
