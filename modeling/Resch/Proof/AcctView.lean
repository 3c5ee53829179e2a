import Resch.Proof.Unwritten

/-!
# What accounting depends on

`State.acct` has, of each task, whether it is attached and accounting, its reserve and its class.
Of all functions that call no accounting hook only `set_scheduler` and `api_init` change it
(`acct_setScheduler`, `acct_exec`).
-/

namespace Resch

variable {c : Config} {k : Kernel} {s s' : State} {rt q cpu : ℕ} {prio : ℤ}

/-- What accounting for a task depends on. -/
structure AcctView where
  attached : Bool
  accounting : Bool
  reserveTime : ℕ
  cls : SchedClass

def Task.acct (t : Task) (attached : Bool) : AcctView :=
  ⟨attached, t.accounting, t.reserveTime, t.cls⟩

def State.acct (s : State) : ℕ → AcctView := fun q => (s.task q).acct (decide (s.Attached q))

/-- The fields of a descriptor that accounting depends on. -/
def Task.account (t : Task) : Bool × ℕ × SchedClass := (t.accounting, t.reserveTime, t.cls)

/-- The hooks write none of these fields, except `accounting`. -/
theorem account_unwritten : Unwritten Task.account := by
  constructor <;> exact fun _ _ => rfl

/-- With the points, these fields are all that accounting depends on. -/
theorem acct_of_part (h : s'.part Task.account = s.part Task.account) : s'.acct = s.acct := by
  obtain ⟨ht, hp⟩ := Prod.mk.inj h
  funext q
  have hq : s'.Attached q ↔ s.Attached q := by
    unfold State.Attached
    rw [hp]
  obtain ⟨ha, hb⟩ := Prod.mk.inj (congrFun ht q)
  obtain ⟨hr, hc⟩ := Prod.mk.inj hb
  unfold State.acct Task.acct
  rw [decide_eq_decide.2 hq, ha, hr, hc]

/-- A change of a descriptor that keeps them -/
theorem acct_setTask {f : Task → Task} (hf : (f (s.task rt)).account = (s.task rt).account) :
    (s.setTask rt f).acct = s.acct := acct_of_part (part_setTask hf)

/-- A function that is called for a task, if there is one -/
theorem acct_ifSome {p : Option ℕ} {f : State → ℕ → State} (hf : ∀ s q, (f s q).acct = s.acct) :
    (ifSome s p f).acct = s.acct := by
  unfold ifSome
  split
  · exact hf s _
  · rfl

/-- Processes are not descriptors. -/
@[simp] theorem acct_setProc (p : ℕ) (f : Proc → Proc) : (s.setProc p f).acct = s.acct := rfl

@[simp] theorem acct_setRunState (st : RunState) : (setRunState s rt st).acct = s.acct := rfl

@[simp] theorem acct_wakeUpProcess : (wakeUpProcess s rt).acct = s.acct := rfl

@[simp] theorem acct_setPrio : (s.setPrio rt prio).acct = s.acct :=
  acct_of_part account_unwritten.setPrio

@[simp] theorem acct_setCpu : (s.setCpu rt cpu).acct = s.acct := acct_of_part account_unwritten.setCpu

@[simp] theorem acct_unlink (idx : ℤ) : (s.unlink rt cpu idx).acct = s.acct :=
  acct_of_part (account_unwritten.unlink _)

@[simp] theorem acct_globalListInsert : (globalListInsert s rt).acct = s.acct :=
  acct_of_part (account_unwritten.globalOnly globalListInsert_only)

@[simp] theorem acct_globalListRemove : (globalListRemove s rt).acct = s.acct :=
  acct_of_part (account_unwritten.globalOnly globalListRemove_only)

@[simp] theorem acct_migrateTask' : (migrateTask' s rt cpu).acct = s.acct :=
  acct_of_part account_unwritten.migrateTask'

/-! ## The classes -/

/-- Queues and entries are not in the view. -/
theorem acct_enqueueTaskAt (ins : List ℕ → List ℕ) :
    (enqueueTaskAt ins s rt prio cpu).acct = s.acct :=
  acct_of_part (account_unwritten.enqueueTaskAt _)

/-- EDF changes the priority of the task as well. -/
@[simp] theorem acct_edfEnqueueTask : (Edf.edfEnqueueTask s rt prio cpu).acct = s.acct :=
  acct_of_part account_unwritten.edfEnqueueTask

@[simp] theorem acct_classEnqueueTask : (classEnqueueTask s rt prio cpu).acct = s.acct :=
  acct_of_part account_unwritten.classEnqueueTask

/-- `set_scheduler` changes at most the class. -/
theorem acct_setScheduler (policy : ℤ) :
    (setScheduler c k s rt policy prio).1.acct = (setPolicy c s rt policy).acct :=
  acct_of_part (account_unwritten.setScheduler _)

@[simp] theorem acct_classReserveExpire : (classReserveExpire c k s rt).acct = s.acct :=
  acct_of_part account_unwritten.classReserveExpire

/-- Budget and priority change, the reserve does not. -/
@[simp] theorem acct_classReserveReplenish (cputime : ℕ) :
    (classReserveReplenish c k s rt cputime).acct = s.acct :=
  acct_of_part (account_unwritten.classReserveReplenish _)

/-- The timer that is taken off is not in the view. -/
@[simp] theorem acct_reserveReplenish : (reserveReplenish c k s rt).acct = s.acct :=
  acct_of_part (account_unwritten.reserveReplenish fun _ => rfl)

@[simp] theorem acct_classJobStart : (classJobStart s rt).acct = s.acct :=
  acct_of_part account_unwritten.classJobStart

@[simp] theorem acct_classJobComplete : (classJobComplete s rt).acct = s.acct :=
  acct_of_part account_unwritten.classJobComplete

theorem acct_fpStartAccount : (fpStartAccount c s rt).acct = s.acct :=
  acct_of_part account_unwritten.fpStartAccount

theorem acct_deadlineStartAccount : (Deadline.edfStartAccount c s rt).acct = s.acct :=
  acct_of_part part_deadlineStartAccount

/-- The hook of the class; `accounting` is set around it. -/
@[simp] theorem acct_classStartAccount : (classStartAccount c s rt).acct = s.acct :=
  acct_of_part account_unwritten.classStartAccount

@[simp] theorem acct_classStopAccount : (classStopAccount s rt).acct = s.acct :=
  acct_of_part part_classStopAccount

/-! ## Calls -/

/-- Times are not in the view. -/
@[simp] theorem acct_jobReleaseWait (releaseTime : ℕ) :
    (jobReleaseWait s rt releaseTime).acct = s.acct :=
  acct_of_part (account_unwritten.jobReleaseWait _)

@[simp] theorem acct_deadlineMiss : (deadlineMiss s rt).1.acct = s.acct :=
  acct_of_part account_unwritten.deadlineMiss

theorem acct_releasedState : (releasedState s rt).acct = s.acct :=
  acct_of_part account_unwritten.releasedState

/-- Suspending changes the queues and the process. -/
theorem acct_jobSuspend (c : Config) (k : Kernel) (s : State) (rt : ℕ) :
    (jobSuspend c k s rt).acct = s.acct :=
  acct_of_part (account_unwritten.jobSuspend c k s rt)

/-- Setting a priority changes no class. -/
theorem acct_apiSetPriority : (apiSetPriority c k s rt prio).1.acct = s.acct :=
  acct_of_part account_unwritten.apiSetPriority

theorem acct_apiWakeUp : (apiWakeUp s rt).1.acct = s.acct := acct_of_part part_apiWakeUp

theorem acct_onReplenish : (onReplenish c k s rt).acct = s.acct :=
  acct_of_part (account_unwritten.onReplenish fun _ => rfl)

/-- Components account for nothing. -/
theorem ComponentOnly.acct (h : ComponentOnly s s') : s'.acct = s.acct :=
  acct_of_part (account_unwritten.componentOnly h)

/-- A process is attached at every point but one. -/
theorem attached_of_point {p : Point} (h : s.point rt = p) (hp : p ≠ .detached) :
    (s.acct rt).attached = true := by
  refine decide_eq_true ?_
  unfold State.Attached
  rw [h]
  exact hp

/-- A step from a point at which the process is attached to another such point -/
theorem acct_setPoint (hatt : (s.acct rt).attached = true) {p : Point}
    (hp : p ≠ .detached) : (s.setPoint rt p).acct = s.acct := by
  have ha : s.Attached rt := of_decide_eq_true hatt
  funext q
  have hq : (s.setPoint rt p).Attached q ↔ s.Attached q := by
    unfold State.Attached
    by_cases hqrt : q = rt
    · subst hqrt
      rw [point_setPoint_self]
      exact ⟨fun _ => ha, fun _ => hp⟩
    · rw [point_setPoint_of_ne p hqrt]
  unfold State.acct
  rw [decide_eq_decide.2 hq]
  rfl

/-- The calls without hooks, `api_init` and `api_set_scheduler` excepted. -/
def ApiOp.quiet : ApiOp → Bool
  | init _ _ | exit _ | run _ _ | waitForPeriod _ | waitForInterval _ _ | release _
  | setScheduler _ _ | reserveStart _ _ _ | reserveStop _ | reserveExpire _ | migrate _ _ => false
  | _ => true

/-- **The calls without hooks** change nothing that accounting depends on. -/
theorem acct_exec {op : ApiOp} (hop : op.quiet = true) (hen : op.enabled s = true)
    (h : op.exec c k s = some s') : s'.acct = s.acct := by
  cases op with
  | setPeriod rt period =>
    cases h
    exact acct_setTask rfl
  | setDeadline rt deadline =>
    cases h
    exact acct_setTask rfl
  | setWcet rt wcet =>
    cases h
    exact acct_setTask rfl
  | setRuntime rt runtime =>
    cases h
    exact acct_setTask rfl
  | setPriority rt prio =>
    cases h
    exact acct_apiSetPriority
  | background rt =>
    cases h
    exact acct_apiSetPriority
  | replenishTimer rt =>
    cases h
    exact acct_onReplenish
  | componentCreate => exact (componentOnly_exec rfl h).acct
  | componentDestroy cid => exact (componentOnly_exec rfl h).acct
  | compose rt cid => exact (componentOnly_exec rfl h).acct
  | decompose rt => exact (componentOnly_exec rfl h).acct
  | sleep rt =>
    cases h
    have hatt := attached_of_point (of_decide_eq_true hen) (by decide)
    rw [← acct_jobSuspend c k s rt] at hatt
    exact (acct_setPoint hatt (by decide)).trans (acct_jobSuspend c k s rt)
  | suspend rt =>
    cases h
    have hatt := attached_of_point (of_decide_eq_true hen) (by decide)
    rw [← acct_jobSuspend c k s rt] at hatt
    exact (acct_setPoint hatt (by decide)).trans (acct_jobSuspend c k s rt)
  | resume rt =>
    cases h
    have hatt := attached_of_point (of_decide_eq_true hen) (by decide)
    have hs : (jobResume s rt).acct = s.acct := acct_classEnqueueTask
    rw [← hs] at hatt
    exact (acct_setPoint hatt (by decide)).trans hs
  | wakeUp rt =>
    cases h
    exact acct_apiWakeUp
  | linux jiffies proc =>
    cases h
    rfl
  | _ => cases hop

end Resch
