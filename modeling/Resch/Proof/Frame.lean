import Resch.Spec.Api

/-!
# What accounting, wake-ups and the timing properties leave alone

`State.frame` is the part of the state that the scheduling structures consist of: the
active queues, the global list, the components, the maps, and of a task its process,
priority, CPU, absolute deadline, class, policy and list entries. `State.states` is the
state of every process. Accounting changes neither; waking a process and putting it to
sleep change `states` only.
-/

namespace Resch

/-- A task without its accounting and its timing parameters. -/
def Task.frame (t : Task) : Task :=
  { t with
    cpumask := fun _ => false
    migratory := false
    missed := false
    wcetFixed := false
    wcet := 0
    runtime := 0
    period := 0
    deadline := 0
    releaseTime := 0
    accounting := false
    xcpu := false
    prioSave := 0
    reserveTime := 0
    budget := 0
    replenishTimer := none
    server := none }

/-- The scheduling structures. -/
def State.frame (s : State) : State :=
  { s with jiffies := 0, task := fun q => (s.task q).frame, proc := fun _ => Proc.fair }

/-- The state of each process. -/
def State.states (s : State) : ℕ → RunState := fun p => (s.proc p).state

variable {c : Config} {k : Kernel} {s s' : State} {rt p : ℕ}

/-- A change of a task that keeps its frame -/
theorem frame_setTask {f : Task → Task} (h : (f (s.task rt)).frame = (s.task rt).frame) :
    (s.setTask rt f).frame = s.frame := by
  have : (fun q => ((s.setTask rt f).task q).frame) = fun q => (s.task q).frame := by
    funext q
    by_cases hq : q = rt
    · subst hq; simpa [State.setTask] using h
    · simp [State.setTask, hq]
  simp only [State.frame, this]
  rfl

@[simp] theorem frame_setProc (f : Proc → Proc) : (s.setProc p f).frame = s.frame := rfl

@[simp] theorem states_setTask (f : Task → Task) : (s.setTask rt f).states = s.states := rfl

/-- A change of a process that does not touch its state -/
theorem states_setProc {f : Proc → Proc} (h : ∀ q, (f q).state = q.state) :
    (s.setProc p f).states = s.states := by
  funext x
  by_cases hx : x = p
  · subst hx; simp [State.states, State.setProc, h]
  · simp [State.states, State.setProc, hx]

/-! ## Processes -/

@[simp] theorem frame_setRunState (st : RunState) : (setRunState s rt st).frame = s.frame := rfl

@[simp] theorem frame_wakeUpProcess : (wakeUpProcess s rt).frame = s.frame := rfl

@[simp] theorem frame_resetExecTime : (resetExecTime s rt).frame = s.frame := rfl

/-- The execution time of a process is not its state. -/
@[simp] theorem states_resetExecTime : (resetExecTime s rt).states = s.states :=
  states_setProc fun _ => rfl

/-- Linux moves the process. Of the task only the mask changes. -/
@[simp] theorem frame_migrateTask' (cpu : ℕ) : (migrateTask' s rt cpu).frame = s.frame := by
  simp only [migrateTask', frame_setProc]
  exact frame_setTask rfl

@[simp] theorem states_migrateTask' (cpu : ℕ) : (migrateTask' s rt cpu).states = s.states := by
  unfold migrateTask'
  refine Eq.trans (states_setProc ?_) (states_setTask _)
  exact fun _ => rfl

/-! ## Accounting -/

/-- `f` changes only accounting data. -/
structure Accounts (f : State → ℕ → State) : Prop where
  frame : ∀ s rt, (f s rt).frame = s.frame
  states : ∀ s rt, (f s rt).states = s.states

/-- `RLIMIT_RTTIME` belongs to the process. -/
theorem limitRttime_accounts : Accounts (limitRttime c) :=
  ⟨fun _ _ => rfl, fun _ _ => states_setProc fun _ => rfl⟩

theorem unlimitRttime_accounts : Accounts unlimitRttime :=
  ⟨fun _ _ => rfl, fun _ _ => states_setProc fun _ => rfl⟩

/-- `prio_save` is a timing parameter here, and the limit belongs to the process. -/
theorem fpStartAccount_accounts : Accounts (fpStartAccount c) :=
  ⟨fun _ _ => frame_setTask rfl, fun s rt => limitRttime_accounts.states s rt⟩

/-- Budget and flags are those that Linux keeps for the process. -/
theorem deadlineStartAccount_accounts : Accounts (Deadline.edfStartAccount c) := by
  refine ⟨fun s rt => ?_, fun s rt => ?_⟩
  · simp only [Deadline.edfStartAccount, frame_setProc]
    split <;> rfl
  · unfold Deadline.edfStartAccount
    refine Eq.trans (states_setProc ?_) ?_
    · exact fun _ => rfl
    · split
      · rfl
      · exact states_setProc fun _ => rfl

theorem deadlineStopAccount_accounts : Accounts Deadline.edfStopAccount :=
  ⟨fun _ _ => rfl, fun _ _ => states_setProc fun _ => rfl⟩

/-- Whatever the class of the task is -/
theorem classStartAccount_accounts : Accounts (classStartAccount c) := by
  refine ⟨fun s rt => ?_, fun s rt => ?_⟩ <;> unfold classStartAccount <;> split
  · rfl
  · exact fpStartAccount_accounts.frame s rt
  · exact limitRttime_accounts.frame s rt
  · exact deadlineStartAccount_accounts.frame s rt
  · rfl
  · exact fpStartAccount_accounts.states s rt
  · exact limitRttime_accounts.states s rt
  · exact deadlineStartAccount_accounts.states s rt

theorem classStopAccount_accounts : Accounts classStopAccount := by
  refine ⟨fun s rt => ?_, fun s rt => ?_⟩ <;> unfold classStopAccount <;> split
  · rfl
  · exact unlimitRttime_accounts.frame s rt
  · exact unlimitRttime_accounts.frame s rt
  · exact deadlineStopAccount_accounts.frame s rt
  · rfl
  · exact unlimitRttime_accounts.states s rt
  · exact unlimitRttime_accounts.states s rt
  · exact deadlineStopAccount_accounts.states s rt

/-- The hook of the class between two assignments to `accounting` -/
theorem startAccount_accounts : Accounts (startAccount c) := by
  refine ⟨fun s rt => ?_, fun s rt => ?_⟩ <;> unfold startAccount <;> split
  · rfl
  · exact (frame_setTask rfl).trans ((classStartAccount_accounts.frame _ _).trans (frame_setTask rfl))
  · rfl
  · exact classStartAccount_accounts.states _ _

/-- It also sets the budget left, and drops the server. -/
theorem stopAccount_accounts : Accounts (stopAccount c) := by
  refine ⟨fun s rt => ?_, fun s rt => ?_⟩ <;> unfold stopAccount <;> split
  · exact (frame_setTask rfl).trans ((frame_setTask rfl).trans
      ((classStopAccount_accounts.frame _ _).trans (frame_setTask rfl)))
  · exact frame_setTask rfl
  · exact classStopAccount_accounts.states _ _
  · rfl

/-- Two functions in turn, for a task that is accounting -/
theorem restartAccount_accounts {f g : State → ℕ → State} (hf : Accounts f) (hg : Accounts g) :
    Accounts (restartAccount f g) := by
  refine ⟨fun s rt => ?_, fun s rt => ?_⟩ <;> unfold restartAccount <;> split
  · exact (hg.frame _ _).trans (hf.frame _ _)
  · rfl
  · exact (hg.states _ _).trans (hf.states _ _)
  · rfl

/-- It stops accounting, then clears the reserve. -/
theorem reserveStop_accounts : Accounts (reserveStop c) := by
  refine ⟨fun s rt => ?_, fun s rt => ?_⟩ <;> unfold reserveStop
  · exact (frame_setTask rfl).trans ((stopAccount_accounts.frame _ _).trans (frame_setTask rfl))
  · exact stopAccount_accounts.states _ _

/-- What the scheduling structures decide on is the same if the frame is. -/
theorem isActive_of_frame (h : s'.frame = s.frame) (q : ℕ) : s'.isActive q = s.isActive q := by
  have : s'.frame.isActive q = s.frame.isActive q := by rw [h]
  exact this

theorem prio_of_frame (h : s'.frame = s.frame) (q : ℕ) : (s'.task q).prio = (s.task q).prio := by
  have : (s'.frame.task q).prio = (s.frame.task q).prio := by rw [h]
  exact this

theorem lo_of_frame (h : s'.frame = s.frame) : s'.lo = s.lo := by
  have : s'.frame.lo = s.frame.lo := by rw [h]
  exact this

end Resch
