import Resch.Proof.EdfWalk
import Resch.Spec.EdfRun

/-!
# Dispatching by hand

The class of `sched_edf.c` lets the highest task of a CPU run and keeps the others asleep
by writing the states of their processes. `Dispatched` is what that is to achieve, and
`EdfOk` the invariant it rests on: queues and descriptors agree, each task has its own
process, and the walk of each CPU is sorted.

* `EdfOk.dequeue`, `EdfOk.enqueue`, `EdfOk.setTask`: the moves that keep the invariant.
* `Moved`: one task taken from where it was and put somewhere else, which is what every
  hook does to the walks.
-/

namespace Resch

open Lib

variable {c : Config} {k : Kernel} {s s' : State} {rt q cpu x : ℕ} {prio : ℤ}

/-- The state of the process of a task. -/
def stateOf (s : State) (q : ℕ) : RunState := (s.procOf q).state

/-- On each CPU that has an active task, the highest one is runnable and the others sleep. -/
def Dispatched (s : State) : Prop :=
  ∀ q, s.isActive q = true → ∃ h, activeHighestPrioTask s (s.task q).cpuId = some h ∧
    stateOf s h = .running ∧ (q ≠ h → stateOf s q = .interruptible)

/-- **The invariant.** Queues and descriptors agree, each task has its own process, and
the tasks of a CPU are in order. -/
structure EdfOk (s : State) : Prop where
  queued : Queued s s.place
  ok : ∀ q, s.Attached q → TaskOk (s.task q)
  detached : ∀ q, s.point q = .detached → s.isActive q = false ∧ (s.task q).prioSave = 0
  own : ∀ q, (s.task q).task = if s.point q = .detached then 0 else q + 1
  levels : EdfLevels s
  sorted : ∀ cpu, (walk s cpu).Pairwise fun a b => ahead s b a = false

theorem EdfOk.attached (h : EdfOk s) (ha : s.isActive q = true) : s.Attached q := by
  intro hd
  rw [(h.detached q hd).1] at ha
  cases ha

theorem EdfOk.good (h : EdfOk s) (ha : s.Attached rt) : Good s rt := ⟨h.queued, h.ok rt ha⟩

theorem EdfOk.mem_walk (h : EdfOk s) :
    q ∈ walk s cpu ↔ s.isActive q = true ∧ (s.task q).cpuId = cpu := Resch.mem_walk h.queued h.levels

/-- No other task has the process of an attached task. -/
theorem EdfOk.own_eq (h : EdfOk s) (ha : s.Attached rt) (hq : (s.task q).task = (s.task rt).task) :
    q = rt := by
  rw [h.own q, h.own rt, if_neg ha] at hq
  split at hq <;> omega

/-- What `Dispatched` says of the walks. -/
theorem EdfOk.dispatched_iff_walk (h : EdfOk s) :
    Dispatched s ↔ ∀ cpu, HeadRuns (stateOf s) .running .interruptible (walk s cpu) := by
  constructor
  · intro hd cpu
    cases hw : walk s cpu with
    | nil => trivial
    | cons y l =>
      have hy := h.mem_walk.1 (show y ∈ walk s cpu by rw [hw]; simp)
      have hhigh : ∀ q ∈ y :: l, ∃ h', some y = some h' ∧ stateOf s h' = .running ∧
          (q ≠ h' → stateOf s q = .interruptible) := by
        intro q hq
        have hq' := h.mem_walk.1 (show q ∈ walk s cpu by rw [hw]; exact hq)
        have := hd q hq'.1
        rwa [hq'.2, highest_eq h.queued h.levels, hw] at this
      obtain ⟨h', hh', hrun, -⟩ := hhigh y (by simp)
      cases hh'
      refine ⟨hrun, fun q hq => ?_⟩
      obtain ⟨h', hh', -, hwait⟩ := hhigh q (by simp [hq])
      cases hh'
      refine hwait ?_
      have hn : (walk s cpu).Nodup := walk_nodup h.queued
      rw [hw] at hn
      rintro rfl
      exact (List.nodup_cons.1 hn).1 hq
  · intro hr q hq
    have hm : q ∈ walk s (s.task q).cpuId := h.mem_walk.2 ⟨hq, rfl⟩
    have hr := hr (s.task q).cpuId
    rw [highest_eq h.queued h.levels]
    cases hw : walk s (s.task q).cpuId with
    | nil => rw [hw] at hm; cases hm
    | cons y l =>
      rw [hw] at hr hm
      refine ⟨y, rfl, hr.1, fun hne => hr.2 q ?_⟩
      exact (List.mem_cons.1 hm).resolve_left hne

/-! ## Moves that keep the invariant -/

theorem ahead_congr {a b : ℕ} (hp : ∀ q, (s'.task q).prio = (s.task q).prio)
    (hd : ∀ q, (s'.task q).deadlineTime = (s.task q).deadlineTime) : ahead s' a b = ahead s a b := by
  unfold ahead aheadAt
  rw [hp, hp, hd, hd]

/-- Only processes are written. -/
theorem EdfOk.of_task (h : EdfOk s) (hlo : s'.lo = s.lo) (ht : s'.task = s.task)
    (hp : s'.point = s.point) : EdfOk s' := by
  have hact : ∀ q, s'.isActive q = s.isActive q := fun q => by unfold State.isActive; rw [ht]
  refine ⟨h.queued.of_task hlo ht, ?_, ?_, ?_, ?_, ?_⟩
  · intro q hq
    unfold State.Attached at hq
    rw [ht]; exact h.ok q (by rwa [hp] at hq)
  · intro q hq
    rw [hact, ht]; exact h.detached q (by rwa [hp] at hq)
  · intro q
    rw [ht, hp]; exact h.own q
  · intro q hq
    rw [ht]; exact h.levels q (by rwa [hact] at hq)
  · intro cpu
    rw [walk_of_lo hlo]
    have hah : (fun a b => ahead s' b a = false) = fun a b => ahead s b a = false := by
      funext a b
      rw [ahead_congr] <;> intro q <;> rw [ht]
    rw [hah]; exact h.sorted cpu

theorem EdfOk.setProc (h : EdfOk s) (p : ℕ) (f : Proc → Proc) : EdfOk (s.setProc p f) :=
  h.of_task rfl rfl rfl

/-- Dequeueing an active task. -/
theorem EdfOk.dequeue (h : EdfOk s) (ha : s.isActive rt = true) :
    EdfOk (s.unlink rt (s.task rt).cpuId (prioIndex (s.task rt).prio)) := by
  set s' := s.unlink rt (s.task rt).cpuId (prioIndex (s.task rt).prio) with hs'
  have htask : ∀ q, (s'.task q).prio = (s.task q).prio ∧
      (s'.task q).deadlineTime = (s.task q).deadlineTime ∧ (s'.task q).task = (s.task q).task ∧
      (s'.task q).prioSave = (s.task q).prioSave ∧ (s'.task q).cls = (s.task q).cls := by
    intro q
    by_cases hq : q = rt
    · subst hq; rw [hs', task_unlink_self]; exact ⟨rfl, rfl, rfl, rfl, rfl⟩
    · rw [hs', task_unlink_of_ne hq]; exact ⟨rfl, rfl, rfl, rfl, rfl⟩
  have hact : ∀ q, s'.isActive q = true → s.isActive q = true := by
    intro q hq
    rw [hs', isActive_unlink, Bool.and_eq_true] at hq
    exact hq.2
  refine ⟨h.queued.leave ha rfl rfl, ?_, ?_, ?_, ?_, ?_⟩
  · intro q hq
    obtain ⟨h₁, -, -, h₂, h₃⟩ := htask q
    have hok := h.ok q hq
    exact ⟨by rw [h₁]; exact hok.prio, by rw [h₂]; exact hok.save, by rw [h₃]; exact hok.cls⟩
  · intro q hq
    obtain ⟨h₁, h₂⟩ := h.detached q hq
    refine ⟨?_, (htask q).2.2.2.1.trans h₂⟩
    by_contra hne
    rw [hact q (by simpa using hne)] at h₁
    cases h₁
  · intro q
    rw [(htask q).2.2.1]; exact h.own q
  · intro q hq
    rw [(htask q).1]; exact h.levels q (hact q hq)
  · intro cpu
    rw [hs', walk_unlink]
    -- taking out of an ordered walk
    have hah : (fun a b => ahead s' b a = false) = fun a b => ahead s b a = false := by
      funext a b
      rw [ahead_congr (fun q => (htask q).1) fun q => (htask q).2.1]
    rw [← hs', hah]
    exact (h.sorted cpu).filter _

/-- Assigning fields of an attached task: either none that places the task, or while it is
not queued. -/
theorem EdfOk.setTask (h : EdfOk s) (ha : s.Attached rt) {f : Task → Task}
    (hown : (f (s.task rt)).task = (s.task rt).task) (hok : TaskOk (f (s.task rt)))
    (hf : ((s.task rt).SamePlace (f (s.task rt)) ∧
        (f (s.task rt)).deadlineTime = (s.task rt).deadlineTime) ∨
      (s.isActive rt = false ∧ (f (s.task rt)).activeEntry = false)) : EdfOk (s.setTask rt f) := by
  have hact : ∀ q, (s.setTask rt f).isActive q = s.isActive q := by
    intro q
    refine setTask_field (·.activeEntry) ?_ q
    rcases hf with hf | ⟨hi, hf⟩
    · exact hf.1.active
    · exact hf.trans hi.symm
  -- what the walk is ordered by has changed for `rt` at most, which is then not in it
  have hkeys : ∀ q, s.isActive q = true → ((s.setTask rt f).task q).prio = (s.task q).prio ∧
      ((s.setTask rt f).task q).deadlineTime = (s.task q).deadlineTime := by
    intro q hq
    by_cases hqr : q = rt
    · subst hqr
      rcases hf with hf | hf
      · rw [task_setTask_self]; exact ⟨hf.1.prio, hf.2⟩
      · rw [hf.1] at hq; cases hq
    · rw [task_setTask_of_ne f hqr]; exact ⟨rfl, rfl⟩
  refine ⟨?_, ?_, ?_, ?_, ?_, ?_⟩
  · rcases hf with hf | hf
    · exact h.queued.setTask hf.1
    · exact h.queued.setTask_inactive hf.1 hf.2
  · intro q hq
    by_cases hqr : q = rt
    · subst hqr; rw [task_setTask_self]; exact hok
    · rw [task_setTask_of_ne f hqr]; exact h.ok q hq
  · intro q hq
    have hqr : q ≠ rt := by rintro rfl; exact ha hq
    rw [hact, task_setTask_of_ne f hqr]; exact h.detached q hq
  · intro q
    rw [setTask_field (·.task) hown q]; exact h.own q
  · intro q hq
    rw [hact] at hq
    rw [(hkeys q hq).1]; exact h.levels q hq
  · intro cpu
    refine (h.sorted cpu).imp_of_mem fun {a b} hma hmb hab => ?_
    obtain ⟨hpa, hda⟩ := hkeys a (h.mem_walk.1 hma).1
    obtain ⟨hpb, hdb⟩ := hkeys b (h.mem_walk.1 hmb).1
    unfold ahead aheadAt at hab ⊢
    rw [hpa, hpb, hda, hdb]; exact hab

theorem not_ahead_iff {a b : ℕ} : ahead s b a = false ↔ (s.task b).prio ≤ (s.task a).prio ∧
    ((s.task a).prio = (s.task b).prio → (s.task a).deadlineTime ≤ (s.task b).deadlineTime) := by
  unfold ahead aheadAt
  rw [decide_eq_false_iff_not]
  omega

/-- Enqueueing an inactive task at one of the two levels. -/
theorem EdfOk.enqueue (h : EdfOk s) (ha : s.Attached rt) (hi : s.isActive rt = false)
    (hp : prio = reschPrioEdf ∨ prio = reschPrioBackground) :
    EdfOk (Edf.edfEnqueueTask s rt prio (s.task rt).cpuId) := by
  have hrange : reschPrioMin ≤ prio ∧ prio ≤ reschPrioMax := by
    rcases hp with rfl | rfl
    · exact edf_range
    · exact background_range
  have hg := (h.good ha).edfEnqueue hi hrange
  set s' := Edf.edfEnqueueTask s rt prio (s.task rt).cpuId with hs'
  have hself : s'.task rt = { s.task rt with activeEntry := true, prio := prio } := by
    rw [hs', edfEnqueueTask_eq, task_link_self, task_setPrio_self]
  have hother : ∀ q, q ≠ rt → s'.task q = s.task q := by
    intro q hq
    rw [hs', edfEnqueueTask_eq, task_link_of_ne hq, task_setPrio_of_ne hq]
  have hact : ∀ q, s'.isActive q = true → q = rt ∨ s.isActive q = true := by
    intro q hq
    by_cases hqr : q = rt
    · exact Or.inl hqr
    · exact Or.inr (by unfold State.isActive at hq ⊢; rwa [hother q hqr] at hq)
  refine ⟨hg.queued, ?_, ?_, ?_, ?_, ?_⟩
  · intro q hq
    by_cases hqr : q = rt
    · subst hqr; exact hg.ok
    · rw [hother q hqr]; exact h.ok q hq
  · intro q hq
    have hqr : q ≠ rt := by rintro rfl; exact ha hq
    unfold State.isActive
    rw [hother q hqr]; exact h.detached q hq
  · intro q
    show (s'.task q).task = if s.point q = .detached then 0 else q + 1
    by_cases hqr : q = rt
    · subst hqr; rw [hself]; exact h.own q
    · rw [hother q hqr]; exact h.own q
  · intro q hq
    rcases hact q hq with rfl | hq'
    · rw [hself]; exact hp
    · by_cases hqr : q = rt
      · subst hqr; rw [hself]; exact hp
      · rw [hother q hqr]; exact h.levels q hq'
  · intro cpu
    have hne : ∀ y ∈ walk s cpu, y ≠ rt := by
      rintro y hy rfl
      rw [(h.mem_walk.1 hy).1] at hi; cases hi
    have hold : (walk s cpu).Pairwise fun a b => ahead s' b a = false := by
      refine (h.sorted cpu).imp_of_mem fun {a b} hma hmb hab => ?_
      unfold ahead aheadAt at hab ⊢
      rw [hother a (hne a hma), hother b (hne b hmb)]; exact hab
    rw [hs', walk_enqueue h.queued hp, ← hs']
    split
    swap
    · exact hold
    rename_i hcpu
    subst hcpu
    -- the test of the insertion reads the keys that the task has afterwards
    have hat : ∀ y ∈ walk s (s.task rt).cpuId, aheadAt s rt prio y = ahead s' rt y := by
      intro y hy
      unfold ahead aheadAt
      rw [hself, hother y (hne y hy)]
    -- `rt` goes in before the first task that it is ahead of
    refine insertBefore_sorted ?_ ?_ ?_ hold
    · intro a b d hab hbd
      rw [not_ahead_iff] at hab hbd ⊢
      omega
    · intro y hy hpy
      rw [hat y hy] at hpy
      rw [not_ahead_iff]
      unfold ahead aheadAt at hpy
      rw [decide_eq_true_eq] at hpy
      omega
    · intro y hy hpy
      rw [← hat y hy]; exact hpy

/-! ## Writing the states of processes -/

theorem EdfOk.wakeUp (h : EdfOk s) (q : ℕ) : EdfOk (wakeUpProcess s q) := h.setProc _ _

theorem EdfOk.runState (h : EdfOk s) (q : ℕ) (st : RunState) : EdfOk (setRunState s q st) :=
  h.setProc _ _

theorem stateOf_setRunState (h : EdfOk s) (ha : s.Attached rt) (st : RunState) (q : ℕ) :
    stateOf (setRunState s rt st) q = if q = rt then st else stateOf s q := by
  unfold stateOf State.procOf setRunState
  rw [task_setProc]
  by_cases hq : q = rt
  · subst hq; simp [State.setProc]
  · have hne : (s.task q).task ≠ (s.task rt).task := fun he => hq (h.own_eq ha he)
    simp [State.setProc, hne, hq]

theorem stateOf_wakeUp (h : EdfOk s) (ha : s.Attached rt)
    (hst : stateOf s rt = .interruptible ∨ stateOf s rt = .running) (q : ℕ) :
    stateOf (wakeUpProcess s rt) q = if q = rt then .running else stateOf s q := by
  unfold stateOf State.procOf wakeUpProcess at *
  rw [task_setProc]
  by_cases hq : q = rt
  · subst hq
    rcases hst with hst | hst <;> simp [State.setProc, hst]
  · have hne : (s.task q).task ≠ (s.task rt).task := fun he => hq (h.own_eq ha he)
    simp [State.setProc, hne, hq]

theorem stateOf_of_proc (s s' : State) (hp : s'.proc = s.proc)
    (ht : ∀ q, (s'.task q).task = (s.task q).task) (q : ℕ) : stateOf s' q = stateOf s q := by
  unfold stateOf State.procOf
  rw [hp, ht]

theorem EdfOk.ifSome (h : EdfOk s) {o : Option ℕ} {f : State → ℕ → State}
    (hf : ∀ q, EdfOk (f s q)) : EdfOk (ifSome s o f) := by
  cases o with
  | none => exact h
  | some q => exact hf q

/-! ## Moving a task to a place of a CPU -/

/-- The first task of each CPU runs and the others sleep. -/
def WalksRun (s : State) : Prop :=
  ∀ cpu, HeadRuns (stateOf s) .running .interruptible (walk s cpu)

/-- `s₁` is `s` with `rt` taken from where it was and put at level `prio` of `cpu`. -/
structure Moved (s s₁ : State) (rt cpu : ℕ) (prio : ℤ) : Prop where
  inv : EdfOk s₁
  states : ∀ q, stateOf s₁ q = stateOf s q
  walks : ∀ x, walk s₁ x =
    if x = cpu then insertBefore (aheadAt s rt prio) rt ((walk s x).filter (· ≠ rt))
    else (walk s x).filter (· ≠ rt)
  active : s₁.isActive rt = true
  cpu : (s₁.task rt).cpuId = cpu
  point : s₁.point = s.point

/-- Through a state in which `rt` is taken out. -/
theorem Moved.of_out {s₀ : State} (h₀ : EdfOk s₀) (ha : s₀.Attached rt)
    (hi : s₀.isActive rt = false) (hcpu : (s₀.task rt).cpuId = cpu)
    (hp : prio = reschPrioEdf ∨ prio = reschPrioBackground)
    (hwalk : ∀ x, walk s₀ x = (walk s x).filter (· ≠ rt)) (hst : ∀ q, stateOf s₀ q = stateOf s q)
    (hkeys : ∀ q, (s₀.task q).prio = (s.task q).prio ∧
      (s₀.task q).deadlineTime = (s.task q).deadlineTime) (hpoint : s₀.point = s.point) :
    Moved s (Edf.edfEnqueueTask s₀ rt prio cpu) rt cpu prio := by
  subst hcpu
  have hah : aheadAt s₀ rt prio = aheadAt s rt prio := by
    funext y
    unfold aheadAt
    rw [(hkeys y).1, (hkeys y).2, (hkeys rt).2]
  refine ⟨h₀.enqueue ha hi hp, fun q => ?_, fun x => ?_, isActive_edfEnqueueTask _ _ _ _, ?_, hpoint⟩
  · refine (stateOf_of_proc s₀ (Edf.edfEnqueueTask s₀ rt prio _) rfl (fun q => ?_) q).trans (hst q)
    rw [edfEnqueueTask_eq]
    by_cases hq : q = rt
    · subst hq; rw [task_link_self, task_setPrio_self]
    · rw [task_link_of_ne hq, task_setPrio_of_ne hq]
  · rw [walk_enqueue h₀.queued hp, hah]
    split
    · rename_i hx; rw [hx, hwalk]
    · exact hwalk x
  · rw [edfEnqueueTask_eq, task_link_self, task_setPrio_self]

/-- What dequeueing keeps. -/
theorem stateOf_unlink (s : State) (rt cpu : ℕ) (idx : ℤ) (q : ℕ) :
    stateOf (s.unlink rt cpu idx) q = stateOf s q := by
  refine stateOf_of_proc s (s.unlink rt cpu idx) rfl (fun q => ?_) q
  by_cases hq : q = rt
  · subst hq; rw [task_unlink_self]
  · rw [task_unlink_of_ne hq]

theorem keys_unlink (s : State) (rt cpu : ℕ) (idx : ℤ) (q : ℕ) :
    ((s.unlink rt cpu idx).task q).prio = (s.task q).prio ∧
      ((s.unlink rt cpu idx).task q).deadlineTime = (s.task q).deadlineTime := by
  by_cases hq : q = rt
  · subst hq; rw [task_unlink_self]; exact ⟨rfl, rfl⟩
  · rw [task_unlink_of_ne hq]; exact ⟨rfl, rfl⟩

/-- A task that is not on a CPU is not taken out of its walk. -/
theorem EdfOk.filter_walk (h : EdfOk s) (hn : ¬ (s.isActive rt = true ∧ (s.task rt).cpuId = x)) :
    (walk s x).filter (· ≠ rt) = walk s x := by
  rw [List.filter_eq_self]
  intro y hy
  have : y ≠ rt := by rintro rfl; exact hn (h.mem_walk.1 hy)
  simpa using this

theorem EdfOk.moved_start (h : EdfOk s) (ha : s.Attached rt) (hi : s.isActive rt = false)
    (hp : prio = reschPrioEdf ∨ prio = reschPrioBackground) :
    Moved s (Edf.edfEnqueueTask s rt prio (s.task rt).cpuId) rt (s.task rt).cpuId prio := by
  refine Moved.of_out h ha hi rfl hp (fun x => ?_) (fun _ => rfl) (fun _ => ⟨rfl, rfl⟩) rfl
  exact (h.filter_walk fun hc => by rw [hi] at hc; cases hc.1).symm

theorem EdfOk.moved_level (h : EdfOk s) (ha : s.isActive rt = true)
    (hp : prio = reschPrioEdf ∨ prio = reschPrioBackground) :
    Moved s (Edf.edfEnqueueTask (Edf.edfDequeueTask s rt (s.task rt).prio (s.task rt).cpuId) rt prio
      (s.task rt).cpuId) rt (s.task rt).cpuId prio := by
  refine Moved.of_out (h.dequeue ha) (h.attached ha) (isActive_dequeueTaskAt _ _ _ _) ?_ hp
    (fun x => walk_unlink) (stateOf_unlink _ _ _ _) (keys_unlink _ _ _ _) rfl
  show ((s.unlink rt _ _).task rt).cpuId = _
  rw [task_unlink_self]

theorem Moved.other {s₁ : State} (m : Moved s s₁ rt cpu prio) (h : EdfOk s)
    (hcpu : s.isActive rt = true → (s.task rt).cpuId = cpu) (x : ℕ) (hx : x ≠ cpu) :
    walk s₁ x = walk s x := by
  rw [m.walks, if_neg hx]
  exact h.filter_walk fun hc => hx (hc.2.symm.trans (hcpu hc.1))

/-- If the other CPUs are as before, only one has to be looked at. -/
theorem EdfOk.runs_of {s₁ : State} (h₁ : EdfOk s₁) (hr : WalksRun s)
    (hother : ∀ x, x ≠ cpu → walk s₁ x = walk s x) (hwalk : ∀ x, walk s' x = walk s₁ x)
    (hst : ∀ q, q ∉ walk s₁ cpu → stateOf s' q = stateOf s q)
    (hhead : HeadRuns (stateOf s') .running .interruptible (walk s₁ cpu)) : WalksRun s' := by
  intro x
  rw [hwalk]
  by_cases hx : x = cpu
  · rw [hx]; exact hhead
  rw [hother x hx]
  refine (hr x).congr fun q hq => hst q fun hq' => ?_
  rw [← hother x hx, h₁.mem_walk] at hq
  exact hx (hq.2.symm.trans (h₁.mem_walk.1 hq').2)

/-- An active task is the first of its CPU, or another one is. -/
theorem EdfOk.walk_cases (h : EdfOk s) (ha : s.isActive rt = true) :
    (∃ t, walk s (s.task rt).cpuId = rt :: t ∧
        (walk s (s.task rt).cpuId).filter (· ≠ rt) = t) ∨
      ∃ y t, walk s (s.task rt).cpuId = y :: t ∧ y ≠ rt ∧ rt ∈ t ∧
        (walk s (s.task rt).cpuId).filter (· ≠ rt) = y :: t.filter (· ≠ rt) := by
  have hm : rt ∈ walk s (s.task rt).cpuId := h.mem_walk.2 ⟨ha, rfl⟩
  have hn : (walk s (s.task rt).cpuId).Nodup := walk_nodup h.queued
  cases hw : walk s (s.task rt).cpuId with
  | nil => rw [hw] at hm; cases hm
  | cons y t =>
    rw [hw] at hm hn
    by_cases hy : y = rt
    · subst hy
      refine Or.inl ⟨t, rfl, ?_⟩
      rw [List.filter_cons_of_neg (by simp), List.filter_eq_self]
      intro z hz
      have : z ≠ y := by rintro rfl; exact (List.nodup_cons.1 hn).1 hz
      simpa using this
    · refine Or.inr ⟨y, t, rfl, hy, ?_, List.filter_cons_of_pos (by simpa using hy)⟩
      exact (List.mem_cons.1 hm).resolve_left fun he => hy he.symm

end Resch
