import Resch.Spec.EdfOrder
import Resch.Proof.ActiveQueue
import Resch.Proof.ActiveWalk
import Resch.Lib.Runs

/-!
# The order of deadlines in the active queues (`sched_edf.c`)

* `OrderOk`: queues and descriptors agree, an active EDF task is at the level that its reserve puts
  it at, no other task is at these two levels, and each of the two is in order of deadlines and
  arrivals.
* `OrderOk.unlink`, `OrderOk.edfEnqueue`: what the hooks are made of keeps it.
* `edf_order`: along every run the two levels are in order, and `active_highest_prio_task` returns a
  task with the earliest deadline.
-/

namespace Resch

open Lib

variable {c : Config} {s : OrderState} {rt q x y cpu : ℕ} {b : Bool} {prio : ℤ}

/-- The level of the EDF tasks whose reserves have expired, and of the others -/
def reserveLevel (expired : Bool) : ℤ := if expired then reschPrioBackground else reschPrioEdf

/-- `a` has an earlier deadline than `b`, or the same and arrived earlier. -/
def OrderState.Before (s : OrderState) (a b : ℕ) : Prop :=
  (s.core.task a).deadlineTime < (s.core.task b).deadlineTime ∨
    (s.core.task a).deadlineTime = (s.core.task b).deadlineTime ∧ s.arrived a < s.arrived b

/-- `rt` is one of the active EDF tasks of a CPU, with a reserve that has expired or not. -/
structure OrderState.ActiveOn (s : OrderState) (cpu : ℕ) (expired : Bool) (rt : ℕ) : Prop where
  active : s.core.isActive rt = true
  cpu_eq : (s.core.task rt).cpuId = cpu
  cls : (s.core.task rt).cls = .edf
  expired_eq : s.expired rt = expired

/-- `rt` has the earliest deadline of them. -/
def OrderState.Earliest (s : OrderState) (cpu : ℕ) (expired : Bool) (rt : ℕ) : Prop :=
  s.ActiveOn cpu expired rt ∧
    ∀ q, s.ActiveOn cpu expired q → (s.core.task rt).deadlineTime ≤ (s.core.task q).deadlineTime

/-- No FP task is active on a CPU. -/
def OrderState.NoFp (s : OrderState) (cpu : ℕ) : Prop :=
  ∀ rt, s.core.isActive rt = true → (s.core.task rt).cpuId = cpu → (s.core.task rt).cls ≠ .fp

/-- What the order of the levels and the search for the highest task are to be. -/
structure EdfOrdered (s : OrderState) : Prop where
  sorted : ∀ cpu prio, prio = reschPrioEdf ∨ prio = reschPrioBackground →
    ((s.core.lo cpu).queue (prioIndex prio)).Pairwise s.Before
  unexpired : ∀ cpu, s.NoFp cpu → (∃ q, s.ActiveOn cpu false q) →
    ∃ rt, activeHighestPrioTask s.core cpu = some rt ∧ s.Earliest cpu false rt
  expired : ∀ cpu, s.NoFp cpu → (¬ ∃ q, s.ActiveOn cpu false q) → (∃ q, s.ActiveOn cpu true q) →
    ∃ rt, activeHighestPrioTask s.core cpu = some rt ∧ s.Earliest cpu true rt
  idle : ∀ cpu, s.NoFp cpu → (¬ ∃ b q, s.ActiveOn cpu b q) →
    activeHighestPrioTask s.core cpu = none

/-- The invariant of the hooks. -/
structure OrderOk (s : OrderState) : Prop where
  queued : Queued s.core s.core.place
  edf : ∀ rt, s.core.isActive rt = true → (s.core.task rt).cls = .edf →
    (s.core.task rt).prio = reserveLevel (s.expired rt)
  other : ∀ rt, s.core.isActive rt = true → (s.core.task rt).cls ≠ .edf →
    (s.core.task rt).cls = .fp ∧ ∀ b, (s.core.task rt).prio ≠ reserveLevel b
  sorted : ∀ cpu b, ((s.core.lo cpu).queue (prioIndex (reserveLevel b))).Pairwise s.Before
  early : ∀ rt, s.core.isActive rt = true → (s.core.task rt).cls = .edf → s.arrived rt < s.clock

/-! ## The levels -/

theorem reserveLevel_inj {a b : Bool} (h : reserveLevel a = reserveLevel b) : a = b := by
  revert a b
  decide

theorem prioIndex_reserveLevel (b : Bool) : 0 ≤ prioIndex (reserveLevel b) ∧
    prioIndex (reserveLevel b) < reschPrioMax := by
  revert b
  decide

/-- The two levels hold the active EDF tasks. -/
theorem OrderOk.mem_level (h : OrderOk s) :
    rt ∈ (s.core.lo cpu).queue (prioIndex (reserveLevel b)) ↔ s.ActiveOn cpu b rt := by
  have hok := h.queued.activeOk cpu
  constructor
  · intro hrt
    obtain ⟨-, -, hidx, hcpu, hact⟩ := hok.level _ rt hrt
    have hprio : (s.core.task rt).prio = reserveLevel b := by
      unfold prioIndex at hidx
      omega
    have hcls : (s.core.task rt).cls = .edf := by
      by_contra hne
      exact (h.other rt hact hne).2 b hprio
    exact ⟨hact, hcpu, hcls, reserveLevel_inj ((h.edf rt hact hcls).symm.trans hprio)⟩
  · rintro ⟨hact, hcpu, hcls, hexp⟩
    have hmem := hok.active rt hact hcpu
    rw [h.edf rt hact hcls, hexp] at hmem
    exact hmem

/-- Without FP tasks the active queue is the level of the EDF tasks and then that of the expired
ones. -/
theorem OrderOk.activeTasks_eq (h : OrderOk s) (hn : s.NoFp cpu) :
    activeTasks s.core cpu = (s.core.lo cpu).queue (prioIndex (reserveLevel false)) ++
      (s.core.lo cpu).queue (prioIndex (reserveLevel true)) := by
  have hempty : ∀ j : ℕ, j ≠ 95 → j ≠ 96 → (s.core.lo cpu).queue j = [] := by
    intro j h5 h6
    rw [List.eq_nil_iff_forall_not_mem]
    intro rt hrt
    obtain ⟨-, -, hidx, hcpu, hact⟩ := (h.queued.activeOk cpu).level j rt hrt
    have hcls : (s.core.task rt).cls = .edf := by
      by_contra hne
      exact hn rt hact hcpu (h.other rt hact hne).1
    have hprio := h.edf rt hact hcls
    rw [hprio] at hidx
    cases hexp : s.expired rt with
    | false =>
      rw [hexp, show prioIndex (reserveLevel false) = 95 by decide] at hidx
      omega
    | true =>
      rw [hexp, show prioIndex (reserveLevel true) = 96 by decide] at hidx
      omega
  have hmax : reschPrioMax.toNat = 98 := by decide
  unfold activeTasks
  rw [levelsFrom_skip (show 0 ≤ 95 by omega) fun j _ hj => hempty j (by omega) (by omega),
    levelsFrom_of_lt (show 95 < reschPrioMax.toNat by omega),
    levelsFrom_of_lt (show 96 < reschPrioMax.toNat by omega),
    levelsFrom_skip (show 97 ≤ 98 by omega) fun j h7 _ => hempty j (by omega) (by omega),
    levelsFrom_of_le (show reschPrioMax.toNat ≤ 98 by omega), List.append_nil]
  rfl

/-- The first task of a level has the earliest deadline. -/
theorem OrderOk.head_earliest (h : OrderOk s) {l : List ℕ}
    (hl : (s.core.lo cpu).queue (prioIndex (reserveLevel b)) = x :: l) : s.Earliest cpu b x := by
  have hsort := h.sorted cpu b
  rw [hl] at hsort
  refine ⟨h.mem_level.1 ?_, fun q hq => ?_⟩
  · rw [hl]
    exact List.mem_cons_self
  · have hmem := h.mem_level.2 hq
    rw [hl] at hmem
    rcases List.mem_cons.1 hmem with rfl | hmem
    · exact le_rfl
    · have hbefore := List.rel_of_pairwise_cons hsort hmem
      unfold OrderState.Before at hbefore
      omega

theorem OrderOk.edfOrdered (h : OrderOk s) : EdfOrdered s := by
  refine ⟨fun cpu prio hp => ?_, fun cpu hn hex => ?_, fun cpu hn hno hex => ?_, fun cpu hn hno => ?_⟩
  · rcases hp with rfl | rfl
    · exact h.sorted cpu false
    · exact h.sorted cpu true
  all_goals rw [activeHighest_eq (h.queued.activeOk cpu), h.activeTasks_eq hn]
  · obtain ⟨q, hq⟩ := hex
    have hmem := h.mem_level.2 hq
    cases hl : (s.core.lo cpu).queue (prioIndex (reserveLevel false)) with
    | nil =>
      rw [hl] at hmem
      cases hmem
    | cons x l => exact ⟨x, rfl, h.head_earliest hl⟩
  · obtain ⟨q, hq⟩ := hex
    have hmem := h.mem_level.2 hq
    have hnil : (s.core.lo cpu).queue (prioIndex (reserveLevel false)) = [] := by
      rw [List.eq_nil_iff_forall_not_mem]
      exact fun q hq => hno ⟨q, h.mem_level.1 hq⟩
    rw [hnil, List.nil_append]
    cases hl : (s.core.lo cpu).queue (prioIndex (reserveLevel true)) with
    | nil =>
      rw [hl] at hmem
      cases hmem
    | cons x l => exact ⟨x, rfl, h.head_earliest hl⟩
  · have hnil : ∀ b, (s.core.lo cpu).queue (prioIndex (reserveLevel b)) = [] := by
      intro b
      rw [List.eq_nil_iff_forall_not_mem]
      exact fun q hq => hno ⟨b, q, h.mem_level.1 hq⟩
    rw [hnil, hnil]
    rfl

/-! ## What the hooks are made of -/

theorem field_of_frame {α : Type*} (g : Task → α) (hg : ∀ t : Task, g t.frame = g t) {s s' : State}
    (h : s'.frame = s.frame) (q : ℕ) : g (s'.task q) = g (s.task q) := by
  have hq : s'.frame.task q = s.frame.task q := by rw [h]
  rw [← hg (s'.task q), ← hg (s.task q)]
  exact congrArg g hq

/-- The invariant is about the scheduling structures only. -/
theorem OrderOk.of_frame {core : State} (h : OrderOk s) (hf : core.frame = s.core.frame) :
    OrderOk { s with core := core } := by
  have hlo := lo_of_frame hf
  have hact := isActive_of_frame hf
  have hprio := prio_of_frame hf
  have hcls : ∀ q, (core.task q).cls = (s.core.task q).cls :=
    field_of_frame (·.cls) (fun _ => rfl) hf
  have hdl : ∀ q, (core.task q).deadlineTime = (s.core.task q).deadlineTime :=
    field_of_frame (·.deadlineTime) (fun _ => rfl) hf
  refine ⟨h.queued.of_fields hlo fun q => ⟨hact q, ?_, hprio q⟩, fun rt ha hc => ?_,
    fun rt ha hc => ?_, fun cpu b => ?_, fun rt ha hc => ?_⟩
  · exact field_of_frame (·.cpuId) (fun _ => rfl) hf q
  · dsimp only at ha hc ⊢
    rw [hact] at ha
    rw [hcls] at hc
    rw [hprio]
    exact h.edf rt ha hc
  · dsimp only at ha hc ⊢
    rw [hact] at ha
    rw [hcls] at hc ⊢
    rw [hprio]
    exact h.other rt ha hc
  · dsimp only
    rw [hlo]
    refine (h.sorted cpu b).imp fun hab => ?_
    unfold OrderState.Before at hab ⊢
    rw [hdl, hdl]
    exact hab
  · rw [hact] at ha
    rw [hcls] at hc
    exact h.early rt ha hc

/-- What makes no other task active and writes no other descriptor keeps the order of a level, if
its own task leaves it. -/
theorem OrderOk.pairwise_of {core : State} (h : OrderOk s) {cpu : ℕ}
    (ht : ∀ q, q ≠ rt → core.task q = s.core.task q)
    (hq : (core.lo cpu).queue (prioIndex (reserveLevel b)) =
      ((s.core.lo cpu).queue (prioIndex (reserveLevel b))).filter (· ≠ rt)) :
    ((core.lo cpu).queue (prioIndex (reserveLevel b))).Pairwise
      (OrderState.Before { s with core := core }) := by
  rw [hq]
  refine ((h.sorted cpu b).filter _).imp_of_mem fun {x y} hx hy hab => ?_
  have hne : ∀ {z}, z ∈ ((s.core.lo cpu).queue (prioIndex (reserveLevel b))).filter (· ≠ rt) → z ≠ rt :=
    fun hz => by simpa using (List.mem_filter.1 hz).2
  unfold OrderState.Before at hab ⊢
  dsimp only
  rw [ht x (hne hx), ht y (hne hy)]
  exact hab

/-- An inactive task is in no level. -/
theorem OrderOk.filter_inactive (h : OrderOk s) (hi : s.core.isActive rt = false) {i : ℤ} :
    ((s.core.lo cpu).queue i).filter (· ≠ rt) = (s.core.lo cpu).queue i := by
  rw [List.filter_eq_self]
  intro y hy
  have hne : y ≠ rt := by
    rintro rfl
    obtain ⟨-, -, -, -, hact⟩ := (h.queued.activeOk cpu).level i y hy
    rw [hi] at hact
    cases hact
  simpa using hne

/-- Any field of an inactive task can be written. -/
theorem OrderOk.setTask (h : OrderOk s) (hi : s.core.isActive rt = false) {f : Task → Task}
    (hf : (f (s.core.task rt)).activeEntry = false) :
    OrderOk { s with core := s.core.setTask rt f } := by
  have hself : (s.core.setTask rt f).isActive rt = false := by
    unfold State.isActive
    rw [task_setTask_self]
    exact hf
  have hne : ∀ {q}, (s.core.setTask rt f).isActive q = true → q ≠ rt ∧ s.core.isActive q = true := by
    intro q hq
    have hqrt : q ≠ rt := by
      rintro rfl
      rw [hself] at hq
      cases hq
    unfold State.isActive at hq ⊢
    rw [task_setTask_of_ne f hqrt] at hq
    exact ⟨hqrt, hq⟩
  refine ⟨h.queued.setTask_inactive hi hf, fun q ha hc => ?_, fun q ha hc => ?_, fun cpu b => ?_,
    fun q ha hc => ?_⟩
  · dsimp only at hc ⊢
    rw [task_setTask_of_ne f (hne ha).1] at hc ⊢
    exact h.edf q (hne ha).2 hc
  · dsimp only at hc ⊢
    rw [task_setTask_of_ne f (hne ha).1] at hc ⊢
    exact h.other q (hne ha).2 hc
  · exact h.pairwise_of (fun q hq => task_setTask_of_ne f hq) (h.filter_inactive hi).symm
  · dsimp only at hc
    rw [task_setTask_of_ne f (hne ha).1] at hc
    exact h.early q (hne ha).2 hc

/-- **Dequeueing** an active task -/
theorem OrderOk.unlink (h : OrderOk s) (ha : s.core.isActive rt = true) :
    OrderOk { s with core := dequeueTaskAt s.core rt (s.core.task rt).prio (s.core.task rt).cpuId } := by
  unfold dequeueTaskAt
  have hne : ∀ {q cpu idx}, (s.core.unlink rt cpu idx).isActive q = true →
      q ≠ rt ∧ s.core.isActive q = true := by
    intro q cpu idx hq
    rw [isActive_unlink] at hq
    simpa using hq
  refine ⟨h.queued.leave ha rfl rfl, fun q ha hc => ?_, fun q ha hc => ?_, fun cpu b => ?_,
    fun q ha hc => ?_⟩
  · dsimp only at hc ⊢
    rw [task_unlink_of_ne (hne ha).1] at hc ⊢
    exact h.edf q (hne ha).2 hc
  · dsimp only at hc ⊢
    rw [task_unlink_of_ne (hne ha).1] at hc ⊢
    exact h.other q (hne ha).2 hc
  · exact h.pairwise_of (fun q hq => task_unlink_of_ne hq) queue_unlink
  · dsimp only at hc
    rw [task_unlink_of_ne (hne ha).1] at hc
    exact h.early q (hne ha).2 hc

/-- **`edf_enqueue_task`** puts an inactive task behind the tasks that have its deadline. -/
theorem OrderOk.edfEnqueue (h : OrderOk s) (hi : s.core.isActive rt = false)
    (hc : (s.core.task rt).cls = .edf) (b : Bool) :
    OrderOk { s.arrive rt b with
      core := Edf.edfEnqueueTask s.core rt (reserveLevel b) (s.core.task rt).cpuId } := by
  rw [edfEnqueueTask_eq]
  have hins : AddsOnce (deadlineInsert s.core rt) rt := addsOnce_insertBefore _ rt
  have hi' : (s.core.setPrio rt (reserveLevel b)).isActive rt = false := by rw [isActive_setPrio, hi]
  have hother : ∀ {q}, q ≠ rt → ((s.core.setPrio rt (reserveLevel b)).link rt (s.core.task rt).cpuId
      (prioIndex (reserveLevel b)) (deadlineInsert s.core rt)).task q = s.core.task q := by
    intro q hq
    rw [task_link_of_ne hq, task_setPrio_of_ne hq]
  have hself : ((s.core.setPrio rt (reserveLevel b)).link rt (s.core.task rt).cpuId
      (prioIndex (reserveLevel b)) (deadlineInsert s.core rt)).task rt =
        { s.core.task rt with prio := reserveLevel b, activeEntry := true } := by
    rw [task_link_self, task_setPrio_self]
  have hact : ∀ {q}, q ≠ rt → ((s.core.setPrio rt (reserveLevel b)).link rt (s.core.task rt).cpuId
      (prioIndex (reserveLevel b)) (deadlineInsert s.core rt)).isActive q = true →
        s.core.isActive q = true := by
    intro q hq ha
    unfold State.isActive at ha ⊢
    rw [hother hq] at ha
    exact ha
  have hqueue : ∀ {cpu i}, (((s.core.setPrio rt (reserveLevel b)).link rt (s.core.task rt).cpuId
      (prioIndex (reserveLevel b)) (deadlineInsert s.core rt)).lo cpu).queue i =
        if cpu = (s.core.task rt).cpuId ∧ i = prioIndex (reserveLevel b) then
          deadlineInsert s.core rt ((s.core.lo (s.core.task rt).cpuId).queue (prioIndex (reserveLevel b)))
        else (s.core.lo cpu).queue i := by
    intro cpu i
    rw [queue_link]
    rfl
  have hset : Queued (s.core.setPrio rt (reserveLevel b)) (s.core.setPrio rt (reserveLevel b)).place :=
    h.queued.setTask_inactive hi hi
  have hqok := hset.enter hi' cpuId_setPrio.symm (by rw [task_setPrio_self]) (prioIndex_reserveLevel b) hins
  generalize (s.core.setPrio rt (reserveLevel b)).link rt (s.core.task rt).cpuId
    (prioIndex (reserveLevel b)) (deadlineInsert s.core rt) = core at *
  unfold OrderState.arrive
  refine ⟨hqok, fun q ha hcls => ?_, fun q ha hcls => ?_, fun cpu b' => ?_,
    fun q ha hcls => ?_⟩
  · dsimp only at ha hcls ⊢
    by_cases hq : q = rt
    · subst hq
      rw [hself, Function.update_self]
    · rw [hother hq] at hcls ⊢
      rw [Function.update_of_ne hq]
      exact h.edf q (hact hq ha) hcls
  · dsimp only at ha hcls ⊢
    by_cases hq : q = rt
    · subst hq
      rw [hself] at hcls
      exact absurd hc hcls
    · rw [hother hq] at hcls ⊢
      exact h.other q (hact hq ha) hcls
  · -- the tasks that are there keep their order, and `rt` goes in by its deadline
    have hne : ∀ {z cpu i}, z ∈ (s.core.lo cpu).queue i → z ≠ rt := by
      intro z cpu i hz hzrt
      subst hzrt
      obtain ⟨-, -, -, -, hz⟩ := (h.queued.activeOk cpu).level i z hz
      rw [hi] at hz
      cases hz
    have hold : ((s.core.lo cpu).queue (prioIndex (reserveLevel b'))).Pairwise (OrderState.Before
        { s with
          core := core
          clock := s.clock + 1
          arrived := Function.update s.arrived rt s.clock
          expired := Function.update s.expired rt b }) := by
      refine (h.sorted cpu b').imp_of_mem fun {x y} hx hy hab => ?_
      unfold OrderState.Before at hab ⊢
      dsimp only
      rw [hother (hne hx), hother (hne hy), Function.update_of_ne (hne hx),
        Function.update_of_ne (hne hy)]
      exact hab
    dsimp only
    rw [hqueue]
    split
    swap
    · exact hold
    · rename_i hb
      obtain ⟨rfl, hb⟩ := hb
      rw [hb] at hold
      -- a task that is there already arrived earlier
      refine insertBefore_sorted ?_ ?_ ?_ hold
      · intro x y z hxy hyz
        unfold OrderState.Before at *
        dsimp only at *
        omega
      · intro y hy hp
        unfold OrderState.Before
        dsimp only
        rw [hself, hother (hne hy)]
        exact Or.inl (of_decide_eq_true hp)
      · intro y hy hp
        have hle : ¬ (s.core.task rt).deadlineTime < (s.core.task y).deadlineTime :=
          of_decide_eq_false hp
        obtain ⟨hay, -, hcy, -⟩ := h.mem_level.1 hy
        have hearly := h.early y hay hcy
        unfold OrderState.Before
        dsimp only
        rw [hself, hother (hne hy), Function.update_self, Function.update_of_ne (hne hy)]
        dsimp only
        omega
  · -- the clock has gone on, so that `rt` arrived before it as well
    dsimp only at ha hcls ⊢
    by_cases hq : q = rt
    · subst hq
      rw [Function.update_self]
      omega
    · rw [hother hq] at hcls
      rw [Function.update_of_ne hq]
      have := h.early q (hact hq ha) hcls
      omega

/-- **`fp_enqueue_task`** at another level. -/
theorem OrderOk.fpEnqueue (h : OrderOk s) (hi : s.core.isActive rt = false)
    (hc : (s.core.task rt).cls = .fp) (hr : reschPrioMin ≤ (s.core.task rt).prio ∧
      (s.core.task rt).prio ≤ reschPrioMax) (hl : ∀ b, (s.core.task rt).prio ≠ reserveLevel b) :
    OrderOk { s with
      core := fpEnqueueTask s.core rt (s.core.task rt).prio (s.core.task rt).cpuId } := by
  unfold fpEnqueueTask enqueueTaskAt
  have hrange : 0 ≤ prioIndex (s.core.task rt).prio ∧
      prioIndex (s.core.task rt).prio < reschPrioMax := by
    simp only [prioIndex, reschPrioMin, reschPrioMax, maxRtPrio] at hr ⊢
    omega
  refine ⟨h.queued.enter hi rfl rfl hrange (addsOnce_append rt), fun q ha hcls => ?_,
    fun q ha hcls => ?_, fun cpu b => ?_, fun q ha hcls => ?_⟩
  · dsimp only at ha hcls ⊢
    by_cases hq : q = rt
    · subst hq
      rw [task_link_self] at hcls
      rw [hc] at hcls
      cases hcls
    · rw [isActive_link, decide_eq_false hq, Bool.false_or] at ha
      rw [task_link_of_ne hq] at hcls ⊢
      exact h.edf q ha hcls
  · dsimp only at ha hcls ⊢
    by_cases hq : q = rt
    · subst hq
      rw [task_link_self]
      exact ⟨hc, hl⟩
    · rw [isActive_link, decide_eq_false hq, Bool.false_or] at ha
      rw [task_link_of_ne hq] at hcls ⊢
      exact h.other q ha hcls
  · refine h.pairwise_of (fun q hq => task_link_of_ne hq) ?_
    rw [queue_link, if_neg, h.filter_inactive hi]
    rintro ⟨-, hb⟩
    refine hl b ?_
    unfold prioIndex at hb
    omega
  · dsimp only at ha hcls
    by_cases hq : q = rt
    · subst hq
      rw [task_link_self] at hcls
      rw [hc] at hcls
      cases hcls
    · rw [isActive_link, decide_eq_false hq, Bool.false_or] at ha
      rw [task_link_of_ne hq] at hcls
      exact h.early q ha hcls

/-! ## The hooks -/

theorem frame_ifSome {s : State} {o : Option ℕ} {f : State → ℕ → State}
    (hf : ∀ s q, (f s q).frame = s.frame) : (ifSome s o f).frame = s.frame := by
  cases o with
  | none => rfl
  | some q => exact hf s q

theorem frame_edfJobStart (s : State) (rt : ℕ) :
    (Edf.edfJobStart s rt).frame =
      (Edf.edfEnqueueTask s rt (reserveLevel false) (s.task rt).cpuId).frame := by
  unfold Edf.edfJobStart
  dsimp only
  split
  · exact frame_ifSome fun s q => frame_setRunState _
  · exact frame_setRunState _

theorem frame_edfReserveExpire {s : State} (ha : s.isActive rt = true) :
    (Edf.edfReserveExpire s rt).frame =
      (Edf.edfEnqueueTask (Edf.edfDequeueTask s rt (s.task rt).prio (s.task rt).cpuId) rt
        (reserveLevel true) (s.task rt).cpuId).frame := by
  unfold Edf.edfReserveExpire
  simp only [ha, Bool.not_true, Bool.false_eq_true, if_false]
  refine frame_ifSome fun s q => ?_
  split
  · rfl
  · rw [frame_setRunState, frame_wakeUpProcess]

/-- Taken out and put back at a level of the same CPU. -/
theorem OrderOk.requeue (h : OrderOk s) (ha : s.core.isActive rt = true)
    (hc : (s.core.task rt).cls = .edf) (b : Bool) :
    OrderOk { s.arrive rt b with
      core := Edf.edfEnqueueTask
        (Edf.edfDequeueTask s.core rt (s.core.task rt).prio (s.core.task rt).cpuId) rt (reserveLevel b)
        (s.core.task rt).cpuId } := by
  have hself : (Edf.edfDequeueTask s.core rt (s.core.task rt).prio (s.core.task rt).cpuId).task rt =
      { s.core.task rt with activeEntry := false } := task_unlink_self
  have hcpu : ((Edf.edfDequeueTask s.core rt (s.core.task rt).prio (s.core.task rt).cpuId).task
      rt).cpuId = (s.core.task rt).cpuId := by rw [hself]
  have h' := (h.unlink ha).edfEnqueue (isActive_dequeueTaskAt _ _ _ _)
    ((congrArg Task.cls hself).trans hc) b
  unfold Edf.edfDequeueTask at hcpu ⊢
  dsimp only at h'
  rw [hcpu] at h'
  exact h'

theorem OrderOk.jobComplete (h : OrderOk s) (ha : s.core.isActive rt = true) :
    OrderOk { s with core := Edf.edfJobComplete s.core rt } := by
  have hi : (dequeueTaskAt s.core rt (s.core.task rt).prio (s.core.task rt).cpuId).isActive rt =
      false := isActive_dequeueTaskAt _ _ _ _
  have hset : OrderOk { s with
      core := (dequeueTaskAt s.core rt (s.core.task rt).prio (s.core.task rt).cpuId).setPrio rt
        reschPrioEdf } := (h.unlink ha).setTask hi hi
  refine hset.of_frame ?_
  unfold Edf.edfJobComplete
  exact frame_ifSome fun s q => frame_wakeUpProcess

theorem OrderOk.reserveExpire (h : OrderOk s) (hc : (s.core.task rt).cls = .edf) :
    OrderOk { (if s.core.isActive rt then s.arrive rt true else s) with
      core := Edf.edfReserveExpire s.core rt } := by
  by_cases ha : s.core.isActive rt = true
  · rw [if_pos ha]
    exact (h.requeue ha hc true).of_frame (frame_edfReserveExpire ha)
  · have hsame : Edf.edfReserveExpire s.core rt = s.core := by
      unfold Edf.edfReserveExpire
      simp [ha]
    rw [if_neg ha, hsame]
    exact h

theorem frame_edfReserveReplenish {s s₁ : State} {cputime : ℕ}
    (h₁ : (s.setTask rt fun t => { t with budget := t.budget + cputime }) = s₁) :
    (Edf.edfReserveReplenish s rt cputime).frame =
      if (s₁.task rt).prio = reschPrioBackground ∧ s₁.isActive rt = true then
        (Edf.edfEnqueueTask (Edf.edfDequeueTask s₁ rt (s₁.task rt).prio (s₁.task rt).cpuId) rt
          (reserveLevel false) (s₁.task rt).cpuId).frame
      else s₁.frame := by
  have hcpu : (s₁.task rt).cpuId = (s.task rt).cpuId := by
    rw [← h₁, task_setTask_self]
  unfold Edf.edfReserveReplenish
  rw [h₁, hcpu]
  dsimp only
  split
  · rename_i hb
    rw [hb.1]
    split
    · rw [frame_wakeUpProcess]
      exact frame_ifSome fun s q => frame_setRunState _
    · rfl
  · rfl

theorem OrderOk.reserveReplenish (h : OrderOk s) (hc : (s.core.task rt).cls = .edf) (cputime : ℕ) :
    OrderOk { (if s.core.isActive rt && s.expired rt then s.arrive rt false else s) with
      core := Edf.edfReserveReplenish s.core rt cputime } := by
  have hframe : (s.core.setTask rt fun t => { t with budget := t.budget + cputime }).frame =
      s.core.frame := frame_setTask rfl
  have h₁ := h.of_frame hframe
  have hprio := prio_of_frame hframe rt
  have hact := isActive_of_frame hframe rt
  have hcls := field_of_frame (·.cls) (fun _ => rfl) hframe rt
  have hend := frame_edfReserveReplenish
    (rfl : (s.core.setTask rt fun t => { t with budget := t.budget + cputime }) = _)
  generalize s.core.setTask rt (fun t => { t with budget := t.budget + cputime }) = core at *
  by_cases hb : (core.task rt).prio = reschPrioBackground ∧ core.isActive rt = true
  · rw [if_pos hb] at hend
    have ha : s.core.isActive rt = true := hact.symm.trans hb.2
    have hexp : s.expired rt = true := by
      refine reserveLevel_inj ((h.edf rt ha hc).symm.trans ?_)
      exact hprio.symm.trans hb.1
    rw [ha, hexp]
    exact (h₁.requeue hb.2 (hcls.trans hc) false).of_frame hend
  · rw [if_neg hb] at hend
    have hexp : (s.core.isActive rt && s.expired rt) = false := by
      rw [Bool.eq_false_iff]
      intro hboth
      rw [Bool.and_eq_true] at hboth
      refine hb ⟨?_, hact.trans hboth.1⟩
      rw [hprio, h.edf rt hboth.1 hc, hboth.2]
      rfl
    rw [hexp]
    exact h₁.of_frame hend

theorem OrderOk.migrate (h : OrderOk s) (hc : (s.core.task rt).cls = .edf) (cpuDst : ℕ) :
    OrderOk { (if s.core.isActive rt && !s.core.isOnCpu rt cpuDst then s.arrive rt (s.expired rt)
      else s) with core := Edf.edfMigrateTask c s.core rt cpuDst } := by
  unfold State.isOnCpu
  unfold Edf.edfMigrateTask
  dsimp only
  by_cases hcpu : (s.core.task rt).cpuId = cpuDst
  · rw [if_neg (not_not.2 hcpu), decide_eq_true hcpu, Bool.not_true, Bool.and_false,
      if_neg Bool.false_ne_true]
    exact h.of_frame (frame_migrateTask' _)
  rw [if_pos hcpu, decide_eq_false hcpu]
  by_cases ha : s.core.isActive rt = true
  swap
  · have hi := Bool.eq_false_iff.2 ha
    rw [if_neg ha, hi, Bool.false_and, if_neg Bool.false_ne_true]
    have hset : OrderOk { s with core := s.core.setCpu rt cpuDst } := h.setTask hi hi
    exact hset.of_frame (frame_migrateTask' _)
  · rw [if_pos ha, ha]
    -- out of the level, to the other CPU, and into the same level there
    have hi : (dequeueTaskAt s.core rt (s.core.task rt).prio (s.core.task rt).cpuId).isActive rt =
        false := isActive_dequeueTaskAt _ _ _ _
    have hset : OrderOk { s with
        core := (dequeueTaskAt s.core rt (s.core.task rt).prio (s.core.task rt).cpuId).setCpu rt
          cpuDst } := (h.unlink ha).setTask hi hi
    have hself : ((dequeueTaskAt s.core rt (s.core.task rt).prio (s.core.task rt).cpuId).setCpu rt
        cpuDst).task rt = { s.core.task rt with activeEntry := false, cpuId := cpuDst } := by
      unfold State.setCpu dequeueTaskAt
      rw [task_setTask_self, task_unlink_self]
    have hinactive : ((dequeueTaskAt s.core rt (s.core.task rt).prio (s.core.task rt).cpuId).setCpu
        rt cpuDst).isActive rt = false := congrArg Task.activeEntry hself
    have hprio := h.edf rt ha hc
    have hX : (((dequeueTaskAt s.core rt (s.core.task rt).prio (s.core.task rt).cpuId).setCpu rt
        cpuDst).task rt).prio = reserveLevel (s.expired rt) := by rw [hself, ← hprio]
    have hin := hset.edfEnqueue hinactive ((congrArg Task.cls hself).trans hc) (s.expired rt)
    dsimp only at hin
    rw [show (((dequeueTaskAt s.core rt (s.core.task rt).prio (s.core.task rt).cpuId).setCpu rt
      cpuDst).task rt).cpuId = cpuDst by rw [hself]] at hin
    unfold Edf.edfDequeueTask
    rw [hX]
    refine hin.of_frame ?_
    refine (frame_ifSome fun s q => ?_).trans ?_
    · split <;> rw [frame_setRunState]
    · have hacc : Accounts (restartAccount Edf.edfStopAccount (Edf.edfStartAccount c)) :=
        restartAccount_accounts unlimitRttime_accounts limitRttime_accounts
      rw [hacc.frame, frame_migrateTask']
      exact frame_ifSome fun s q => frame_wakeUpProcess

/-! ## Runs -/

theorem OrderOk.step {a : OrderOp} {s' : OrderState} (h : OrderOk s)
    (hs : orderStep c s a = some s') : OrderOk s' := by
  unfold orderStep at hs
  split at hs
  swap
  · cases hs
  rename_i he
  rw [Option.some.injEq] at hs
  subst hs
  unfold OrderOp.enabled OrderState.isEdf at he
  cases a with
  | attach rt cls cpu =>
    have hi : s.core.isActive rt = false := by simpa using he
    exact h.setTask (f := fun t => { t with cls := cls, cpuId := cpu }) hi hi
  | release rt deadlineTime =>
    have hi : s.core.isActive rt = false := by simpa using he
    exact h.setTask (f := fun t => { t with deadlineTime := deadlineTime }) hi hi
  | jobStart rt =>
    obtain ⟨hc, hi⟩ : (s.core.task rt).cls = .edf ∧ s.core.isActive rt = false := by simpa using he
    exact (h.edfEnqueue hi hc false).of_frame (frame_edfJobStart s.core rt)
  | jobComplete rt =>
    obtain ⟨-, ha⟩ : (s.core.task rt).cls = .edf ∧ s.core.isActive rt = true := by simpa using he
    exact h.jobComplete ha
  | reserveExpire rt =>
    have hc : (s.core.task rt).cls = .edf := by simpa using he
    exact h.reserveExpire hc
  | reserveReplenish rt cputime =>
    have hc : (s.core.task rt).cls = .edf := by simpa using he
    exact h.reserveReplenish hc cputime
  | migrate rt cpuDst =>
    have hc : (s.core.task rt).cls = .edf := by simpa using he
    exact h.migrate hc cpuDst
  | fpEnqueue rt prio cpu =>
    obtain ⟨⟨hc, hmin, hmax, h3, h2⟩, hi⟩ : ((s.core.task rt).cls = .fp ∧ reschPrioMin ≤ prio ∧
        prio ≤ reschPrioMax ∧ prio ≠ reschPrioEdf ∧ prio ≠ reschPrioBackground) ∧
          s.core.isActive rt = false := by simpa using he
    have hself : (s.core.setTask rt fun t => { t with prio := prio, cpuId := cpu }).task rt =
        { s.core.task rt with prio := prio, cpuId := cpu } := task_setTask_self _
    have hset : OrderOk { s with
        core := s.core.setTask rt fun t => { t with prio := prio, cpuId := cpu } } := h.setTask hi hi
    -- the enqueue reads the priority and the CPU just written
    suffices hin : OrderOk { s with
        core := fpEnqueueTask (s.core.setTask rt fun t => { t with prio := prio, cpuId := cpu }) rt
          ((s.core.setTask rt fun t => { t with prio := prio, cpuId := cpu }).task rt).prio
          ((s.core.setTask rt fun t => { t with prio := prio, cpuId := cpu }).task rt).cpuId } by
      rw [hself] at hin
      exact hin
    refine hset.fpEnqueue ?_ ?_ ?_ ?_
    · exact congrArg Task.activeEntry hself |>.trans hi
    · exact congrArg Task.cls hself |>.trans hc
    · dsimp only
      rw [hself]
      exact ⟨hmin, hmax⟩
    · intro b
      dsimp only
      rw [hself]
      cases b with
      | false => exact h3
      | true => exact h2
  | fpDequeue rt =>
    obtain ⟨-, ha⟩ : (s.core.task rt).cls = .fp ∧ s.core.isActive rt = true := by simpa using he
    exact h.unlink ha

theorem orderStart_ok (jiffies : ℕ) (proc : ℕ → Proc) : OrderOk (OrderState.start jiffies proc) := by
  have hi : ∀ rt, ¬ (OrderState.start jiffies proc).core.isActive rt = true :=
    fun _ => Bool.false_ne_true
  refine ⟨schedInit_queued jiffies proc, fun rt ha => ?_, fun rt ha => ?_, fun cpu b => ?_,
    fun rt ha => ?_⟩
  · exact absurd ha (hi rt)
  · exact absurd ha (hi rt)
  · exact List.Pairwise.nil
  · exact absurd ha (hi rt)

/-- **The order of deadlines.** In every run of the hooks of EDF tasks, the two levels of each CPU
are sorted by deadlines, tasks with equal deadlines in order of arrival; and without active FP tasks
the highest task of a CPU is one with the earliest deadline among the EDF tasks whose reserves have
not expired, or among the expired ones if there is no other. -/
theorem edf_order (c : Config) (jiffies : ℕ) (proc : ℕ → Proc) (as : List OrderOp) :
    Always (orderStep c) EdfOrdered (OrderState.start jiffies proc) as := by
  refine Always.mono (fun s h => OrderOk.edfOrdered h) as _ ?_
  exact Always.of_inv (fun s a s' h hs => h.step hs) as _ (orderStart_ok jiffies proc)

end Resch
