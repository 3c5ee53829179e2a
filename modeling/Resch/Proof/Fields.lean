import Resch.Spec.CoreRun

/-!
# Which fields the primitive updates write

The fields of the state after each primitive update, as rewriting rules. `Local rt s s'`
says that nothing but the descriptor of `rt`, the active queues, the global list and the
processes differs between two states; every hook of a task is local to it.
-/

namespace Resch

variable {c : Config} {k : Kernel} {s : State} {rt q cpu p : ℕ} {idx : ℤ} {prio : ℤ}
  {ins : List ℕ → List ℕ}

section SetTask

variable (f : Task → Task)

@[simp] theorem task_setTask_self : (s.setTask rt f).task rt = f (s.task rt) := by
  simp [State.setTask]

/-- The other tasks -/
theorem task_setTask_of_ne (h : q ≠ rt) : (s.setTask rt f).task q = s.task q := by
  simp [State.setTask, h]

/-- All that is not a descriptor -/
@[simp] theorem lo_setTask : (s.setTask rt f).lo = s.lo := rfl
@[simp] theorem proc_setTask : (s.setTask rt f).proc = s.proc := rfl
@[simp] theorem taskList_setTask : (s.setTask rt f).taskList = s.taskList := rfl
@[simp] theorem component_setTask : (s.setTask rt f).component = s.component := rfl
@[simp] theorem point_setTask : (s.setTask rt f).point = s.point := rfl
@[simp] theorem pidMap_setTask : (s.setTask rt f).pidMap = s.pidMap := rfl
@[simp] theorem rcu_setTask : (s.setTask rt f).rcu = s.rcu := rfl
@[simp] theorem trace_setTask : (s.setTask rt f).trace = s.trace := rfl

end SetTask

section Prio

/-- A field that an assignment does not write. -/
theorem setTask_field {α : Type*} (g : Task → α) {f : Task → Task}
    (h : g (f (s.task rt)) = g (s.task rt)) (q : ℕ) :
    g ((s.setTask rt f).task q) = g (s.task q) := by
  by_cases hq : q = rt
  · subst hq; simpa using h
  · rw [task_setTask_of_ne f hq]

@[simp] theorem task_setPrio_self : (s.setPrio rt prio).task rt = { s.task rt with prio := prio } :=
  task_setTask_self _

/-- The other tasks -/
theorem task_setPrio_of_ne (h : q ≠ rt) : (s.setPrio rt prio).task q = s.task q :=
  task_setTask_of_ne _ h

/-- All that is not a priority -/
@[simp] theorem lo_setPrio : (s.setPrio rt prio).lo = s.lo := rfl
@[simp] theorem proc_setPrio : (s.setPrio rt prio).proc = s.proc := rfl
@[simp] theorem taskList_setPrio : (s.setPrio rt prio).taskList = s.taskList := rfl
@[simp] theorem point_setPrio : (s.setPrio rt prio).point = s.point := rfl

@[simp] theorem isActive_setPrio : (s.setPrio rt prio).isActive q = s.isActive q :=
  setTask_field (·.activeEntry) (by rfl) q

@[simp] theorem isManaged_setPrio : (s.setPrio rt prio).isManaged q = s.isManaged q :=
  setTask_field (·.globalEntry) (by rfl) q

@[simp] theorem cpuId_setPrio : ((s.setPrio rt prio).task q).cpuId = (s.task q).cpuId :=
  setTask_field (·.cpuId) (by rfl) q

@[simp] theorem deadlineTime_setPrio :
    ((s.setPrio rt prio).task q).deadlineTime = (s.task q).deadlineTime :=
  setTask_field (·.deadlineTime) (by rfl) q

end Prio

section SetProc

variable (f : Proc → Proc)

/-- A change of a process is none of the rest. -/
@[simp] theorem task_setProc : (s.setProc p f).task = s.task := rfl
@[simp] theorem lo_setProc : (s.setProc p f).lo = s.lo := rfl
@[simp] theorem taskList_setProc : (s.setProc p f).taskList = s.taskList := rfl
@[simp] theorem component_setProc : (s.setProc p f).component = s.component := rfl
@[simp] theorem point_setProc : (s.setProc p f).point = s.point := rfl
@[simp] theorem pidMap_setProc : (s.setProc p f).pidMap = s.pidMap := rfl
@[simp] theorem rcu_setProc : (s.setProc p f).rcu = s.rcu := rfl
@[simp] theorem trace_setProc : (s.setProc p f).trace = s.trace := rfl

end SetProc

section Link

/-- Linking a task into a queue writes its entry only. -/
@[simp] theorem task_link_self :
    (s.link rt cpu idx ins).task rt = { s.task rt with activeEntry := true } := by
  simp [State.link]

theorem task_link_of_ne (h : q ≠ rt) : (s.link rt cpu idx ins).task q = s.task q := by
  simp [State.link, h]

/-- All but the queues and the entry -/
@[simp] theorem proc_link : (s.link rt cpu idx ins).proc = s.proc := rfl
@[simp] theorem taskList_link : (s.link rt cpu idx ins).taskList = s.taskList := rfl
@[simp] theorem component_link : (s.link rt cpu idx ins).component = s.component := rfl
@[simp] theorem point_link : (s.link rt cpu idx ins).point = s.point := rfl
@[simp] theorem pidMap_link : (s.link rt cpu idx ins).pidMap = s.pidMap := rfl
@[simp] theorem rcu_link : (s.link rt cpu idx ins).rcu = s.rcu := rfl

/-- Unlinking it clears the entry. -/
@[simp] theorem task_unlink_self :
    (s.unlink rt cpu idx).task rt = { s.task rt with activeEntry := false } := by
  simp [State.unlink]

theorem task_unlink_of_ne (h : q ≠ rt) : (s.unlink rt cpu idx).task q = s.task q := by
  simp [State.unlink, h]

/-- All but the queues and the entry -/
@[simp] theorem proc_unlink : (s.unlink rt cpu idx).proc = s.proc := rfl
@[simp] theorem taskList_unlink : (s.unlink rt cpu idx).taskList = s.taskList := rfl
@[simp] theorem component_unlink : (s.unlink rt cpu idx).component = s.component := rfl
@[simp] theorem point_unlink : (s.unlink rt cpu idx).point = s.point := rfl
@[simp] theorem pidMap_unlink : (s.unlink rt cpu idx).pidMap = s.pidMap := rfl
@[simp] theorem rcu_unlink : (s.unlink rt cpu idx).rcu = s.rcu := rfl

end Link

@[simp] theorem point_setPoint_self (p : Point) : (s.setPoint rt p).point rt = p := by
  simp [State.setPoint]

/-- The other processes are where they were. -/
theorem point_setPoint_of_ne (p : Point) (h : q ≠ rt) : (s.setPoint rt p).point q = s.point q := by
  simp [State.setPoint, h]

/-! ## The global list -/

/-- Only the global list and the heads linked into it differ. -/
structure GlobalOnly (s s' : State) : Prop where
  lo : s'.lo = s.lo
  task : ∀ q, ∃ b, s'.task q = { s.task q with globalEntry := b }
  proc : s'.proc = s.proc
  point : s'.point = s.point
  pidMap : s'.pidMap = s.pidMap
  component : s'.component = s.component
  rcu : s'.rcu = s.rcu
  trace : s'.trace = s.trace

theorem GlobalOnly.refl (s : State) : GlobalOnly s s :=
  ⟨rfl, fun q => ⟨(s.task q).globalEntry, rfl⟩, rfl, rfl, rfl, rfl, rfl, rfl⟩

/-- Two such steps are one. -/
theorem GlobalOnly.trans {s₁ s₂ s₃ : State} (h : GlobalOnly s₁ s₂) (h' : GlobalOnly s₂ s₃) :
    GlobalOnly s₁ s₃ := by
  refine ⟨h'.lo.trans h.lo, fun q => ?_, h'.proc.trans h.proc, h'.point.trans h.point,
    h'.pidMap.trans h.pidMap, h'.component.trans h.component, h'.rcu.trans h.rcu,
    h'.trace.trans h.trace⟩
  obtain ⟨b, hb⟩ := h.task q
  obtain ⟨b', hb'⟩ := h'.task q
  exact ⟨b', by rw [hb', hb]⟩

/-- The priorities are not part of the list. -/
theorem GlobalOnly.prio_eq {s' : State} (h : GlobalOnly s s') (q : ℕ) :
    (s'.task q).prio = (s.task q).prio := by
  obtain ⟨b, hb⟩ := h.task q
  rw [hb]

/-- The list and one entry of it are written. -/
theorem globalOnly_update (l : List ℕ) (b : Bool) :
    GlobalOnly s { s with
      taskList := l
      task := Function.update s.task rt { s.task rt with globalEntry := b } } := by
  refine ⟨rfl, fun q => ?_, rfl, rfl, rfl, rfl, rfl, rfl⟩
  by_cases hq : q = rt
  · subst hq; exact ⟨b, by simp⟩
  · exact ⟨(s.task q).globalEntry, by simp [hq]⟩

/-- The task is inserted, or is in the list already. -/
theorem globalListInsert_only : GlobalOnly s (globalListInsert s rt) := by
  unfold globalListInsert
  split
  · exact .refl s
  · exact globalOnly_update _ _

theorem globalListRemove_only : GlobalOnly s (globalListRemove s rt) := by
  unfold globalListRemove
  split
  · exact globalOnly_update _ _
  · exact .refl s

/-- It is removed and inserted. -/
theorem globalListReinsert_only : GlobalOnly s (globalListReinsert s rt) :=
  globalListRemove_only.trans globalListInsert_only

/-! ## `__set_scheduler` -/

/-- What Linux records when it accepts a policy and priority. -/
def State.grant (s : State) (rt : ℕ) (policy : LinuxPolicy) (prio : ℤ) : State :=
  s.setProc (s.task rt).task fun q => { q with policy := policy, rtPriority := prio }

/-- The priority that the task has -/
theorem setPrio_same (h : (s.task rt).prio = prio) : s.setPrio rt prio = s := by
  subst h
  simp [State.setPrio, State.setTask]

/-- The cases of `__set_scheduler`: refused, accepted without a change, moved. -/
theorem setScheduler'_as {policy : LinuxPolicy}
    (h : classSetScheduler c k s rt prio = setSchedulerAs k policy s rt prio) :
    setScheduler' c k s rt prio =
      if k.setscheduler policy prio = true then
        if (s.task rt).prio = prio then (s.grant rt policy prio, true)
        else (moveTask ((s.grant rt policy prio).setPrio rt prio) rt (s.task rt).prio, true)
      else (s, false) := by
  unfold setScheduler'
  rw [h]
  unfold setSchedulerAs schedSetscheduler
  by_cases hk : k.setscheduler policy prio = true
  · have hp : (((s.grant rt policy prio).setPrio rt prio).task rt).prio = prio := by simp
    simp only [hk, if_true, Bool.not_true, Bool.false_eq_true, if_false]
    show (if (s.task rt).prio = (((s.grant rt policy prio).setPrio rt prio).task rt).prio then _
      else _) = _
    rw [hp]
    split
    · rename_i heq
      exact congrArg (·, true) (setPrio_same (s := s.grant rt policy prio) heq)
    · rfl
  · simp [hk]

/-! ## Attaching -/

/-- A descriptor as `resch_task_init` leaves it for the process `p`. -/
structure Task.Fresh (c : Config) (p : ℕ) (t : Task) : Prop where
  task : t.task = p
  prio : t.prio = reschPrioMin
  cpuId : t.cpuId = c.reschCpuUndefined
  cls : t.cls = .fp
  policy : t.policy = reschSchedFp
  accounting : t.accounting = false
  reserveTime : t.reserveTime = 0
  globalEntry : t.globalEntry = false
  activeEntry : t.activeEntry = false
  componentEntry : t.componentEntry = false

/-- `resch_task_init` writes one descriptor and the processes. -/
theorem reschTaskInit_eq (c : Config) (k : Kernel) (s : State) (rt p : ℕ) :
    ∃ t proc, reschTaskInit c k s rt p = { s with task := Function.update s.task rt t, proc } ∧
      t.Fresh c p ∧ t.prioSave = (s.task rt).prioSave := by
  refine ⟨(reschTaskInit c k s rt p).task rt, (reschTaskInit c k s rt p).proc, ?_, ?_⟩
  · unfold reschTaskInit
    by_cases hk : c.nrRtCpus ≤ k.smpProcessorId
    · simp [hk, migrateTask', State.setTask, State.setProc]
    · simp [hk, State.setTask, State.setProc]
  · unfold reschTaskInit
    by_cases hk : c.nrRtCpus ≤ k.smpProcessorId
    · simp only [hk, if_true, task_setTask_self]
      refine ⟨⟨?_, rfl, rfl, rfl, rfl, rfl, rfl, rfl, rfl, rfl⟩, ?_⟩ <;>
        simp [migrateTask']
    · simp only [hk, if_false, task_setTask_self]
      refine ⟨⟨?_, rfl, rfl, rfl, rfl, rfl, rfl, rfl, rfl, rfl⟩, ?_⟩ <;> simp

end Resch
