import Resch.Lib.Chain
import Resch.Lib.Runs
import Resch.Proof.EdfOrder
import Resch.Spec.PreemptTrace

/-!
# The chain of preempted tasks (`preempt_trace.c`)

* `Chains`: on each CPU the links lead through the tasks with a job there, from the current task on.
* `Chains.insert`, `Chains.remove`: what `preempt` and `preempt_in`, and `preempt_self` and
  `preempt_out`, have to write.
* `preempt_traced`: the chain is right along every run in which no task starts a job, or moves in
  ahead of the queue, over a current task that has not a lower priority: such a task is not linked.
-/

namespace Resch

open Lib

variable {s s' : TraceState} {rt q x y cpu : ℕ} {b : Bool} {l : ℕ → List ℕ} {u v : List ℕ}

/-- What the chain of each CPU is to be. -/
structure ChainOfJobs (s : TraceState) : Prop where
  visits : ∀ cpu, ∃ l : List ℕ, (∀ n, visited s.preemptee n (s.currentTask cpu) = l.take n) ∧
    l.Nodup ∧ ∀ rt, rt ∈ l ↔ s.job rt = true ∧ s.cpuOf rt = cpu
  back : ∀ x y, s.preemptee x = some y → s.preempter y = some x

/-- No task is current on the CPU of `rt`, or one of a lower priority. -/
def TraceState.lower (s : TraceState) (rt : ℕ) : Bool :=
  (s.currentTask (s.cpuOf rt)).all fun curr =>
    decide ((s.core.task curr).prio < (s.core.task rt).prio)

/-- `rt` gets into an active queue and does not come first there. -/
def TraceState.preceded (s : TraceState) (rt : ℕ) : Bool :=
  let s := s.enqueue rt
  s.core.isActive rt && decide (activeHighestPrioTask s.core (s.cpuOf rt) ≠ some rt)

/-- `rt` has a priority of its own. -/
def TraceState.Prioritised (s : TraceState) (rt : ℕ) : Prop :=
  reschPrioMin ≤ (s.core.task rt).prio ∧ (s.core.task rt).prio ≤ reschPrioMax

instance (s : TraceState) (rt : ℕ) : Decidable (s.Prioritised rt) :=
  inferInstanceAs (Decidable (_ ∧ _))

/-- Whether the chain is brought up to date in a step. No task is to be of the class of
`SCHED_DEADLINE`, and one that gets a job has a priority of its own. -/
def TraceOp.links (s : TraceState) : TraceOp → Bool
  | assign _ cls .. => decide (cls ≠ .deadline)
  | jobStart rt => decide (s.Prioritised rt) && s.lower rt
  | moveIn rt => decide (s.Prioritised rt) && (s.lower rt || s.preceded rt)
  | jobComplete rt | jobSuspend rt => decide (s.currentTask (s.cpuOf rt) = some rt)
  | moveOut _ => true

/-- The links lead through the tasks of `l`. -/
structure Chains (s : TraceState) (l : ℕ → List ℕ) : Prop where
  current : ∀ cpu, s.currentTask cpu = (l cpu).head?
  chain : ∀ cpu, Chain s.preemptee s.preempter none (l cpu) none
  nodup : ∀ cpu, (l cpu).Nodup
  mem : ∀ cpu rt, rt ∈ l cpu ↔ s.job rt = true ∧ s.cpuOf rt = cpu
  out : ∀ rt, s.job rt = false → s.preemptee rt = none ∧ s.preempter rt = none

/-- The invariant of the calls. -/
structure TraceOk (s : TraceState) : Prop where
  queued : Queued s.core s.core.place
  cls : ∀ rt, (s.core.task rt).cls ≠ .deadline
  active : ∀ rt, s.core.isActive rt = (s.job rt && decide ((s.core.task rt).cls ≠ .fair))
  chains : ∃ l, Chains s l

theorem TraceOk.chainOfJobs (h : TraceOk s) : ChainOfJobs s := by
  obtain ⟨l, hl⟩ := h.chains
  refine ⟨fun cpu => ⟨l cpu, fun n => ?_, hl.nodup cpu, hl.mem cpu⟩, fun x y hxy => ?_⟩
  · rw [hl.current]
    exact (hl.chain cpu).follows.visited_eq n
  · cases hj : s.job x with
    | false =>
      rw [(hl.out x hj).1] at hxy
      cases hxy
    | true => exact ((hl.chain _).back ((hl.mem _ x).2 ⟨hj, rfl⟩) hxy).2

/-! ## Writing the links -/

/-- The tasks of other CPUs are not those of the CPU of `rt`. -/
theorem Chains.other (h : Chains s l) (hx : x ∈ l cpu) (hy : y ∈ l q) (hne : cpu ≠ q) : x ≠ y := by
  rintro rfl
  exact hne (((h.mem _ _).1 hx).2.symm.trans ((h.mem _ _).1 hy).2)

/-- **A task that gets a job** is put between those of `u` and those of `v`. -/
theorem Chains.insert (h : Chains s l) (hj : s.job rt = false) (hl : l (s.cpuOf rt) = u ++ v)
    (hcur : ∀ cpu, s'.currentTask cpu =
      if cpu = s.cpuOf rt then (u ++ rt :: v).head? else s.currentTask cpu)
    (hn : ∀ y, s'.preemptee y =
      if y = rt then v.head? else if u.getLast? = some y then some rt else s.preemptee y)
    (hp : ∀ y, s'.preempter y =
      if y = rt then u.getLast? else if v.head? = some y then some rt else s.preempter y)
    (hjob : ∀ y, s'.job y = if y = rt then true else s.job y)
    (hcpu : ∀ y, s'.cpuOf y = s.cpuOf y) :
    Chains s' (Function.update l (s.cpuOf rt) (u ++ rt :: v)) := by
  have hrt : ∀ cpu, rt ∉ l cpu := by
    intro cpu hrt
    rw [((h.mem cpu rt).1 hrt).1] at hj
    cases hj
  have hne : ∀ {y cpu}, y ∈ l cpu → y ≠ rt := by
    rintro y cpu hy rfl
    exact hrt cpu hy
  have hu : ∀ {y}, u.getLast? = some y → y ∈ l (s.cpuOf rt) := by
    intro y hy
    rw [hl]
    exact List.mem_append_left _ (List.mem_of_getLast? hy)
  have hv : ∀ {y}, v.head? = some y → y ∈ l (s.cpuOf rt) := by
    intro y hy
    rw [hl]
    exact List.mem_append_right _ (List.mem_of_mem_head? hy)
  have hnodup := h.nodup (s.cpuOf rt)
  have hchain := h.chain (s.cpuOf rt)
  rw [hl] at hnodup hchain
  refine ⟨fun cpu => ?_, fun cpu => ?_, fun cpu => ?_, fun cpu q => ?_, fun q hq => ?_⟩
  · rw [hcur, Function.update_apply]
    split
    · rfl
    · exact h.current cpu
  · rw [Function.update_apply]
    split
    · refine hchain.insert hnodup ?_ ?_ (fun y hy => ?_) fun y hy => ?_
      · rw [hn, if_pos rfl]
      · rw [hp, if_pos rfl]
      · rw [← hl] at hy
        rw [hn, if_neg (hne hy)]
      · rw [← hl] at hy
        rw [hp, if_neg (hne hy)]
    · -- the links of another CPU's chain are not written
      rename_i hc
      refine (h.chain cpu).congr (fun y hy => ?_) fun y hy => ?_
      · rw [hn, if_neg (hne hy), if_neg fun he => h.other hy (hu he) hc rfl]
      · rw [hp, if_neg (hne hy), if_neg fun he => h.other hy (hv he) hc rfl]
  · rw [Function.update_apply]
    split
    · rw [List.nodup_middle, List.nodup_cons, ← hl]
      exact ⟨hrt _, h.nodup _⟩
    · exact h.nodup cpu
  · rw [Function.update_apply, hjob, hcpu]
    split
    · rename_i hc
      subst hc
      rw [List.mem_append, List.mem_cons, or_left_comm, ← List.mem_append, ← hl, h.mem]
      by_cases hq : q = rt
      · subst hq
        simp
      · simp [hq]
    · rename_i hc
      rw [h.mem]
      by_cases hq : q = rt
      · subst hq
        simp [hj, Ne.symm hc]
      · simp [hq]
  · rw [hjob] at hq
    have hqrt : q ≠ rt := by
      rintro rfl
      rw [if_pos rfl] at hq
      cases hq
    rw [if_neg hqrt] at hq
    -- a task without a job is in no chain
    have hout : ∀ {cpu}, q ∉ l cpu := by
      intro cpu hmem
      rw [((h.mem cpu q).1 hmem).1] at hq
      cases hq
    rw [hn, hp, if_neg hqrt, if_neg hqrt, if_neg fun he => hout (hu he), if_neg fun he => hout (hv he)]
    exact h.out q hq

/-- **A task whose job ends or leaves** is taken out from between them. -/
theorem Chains.remove (h : Chains s l) (hl : l (s.cpuOf rt) = u ++ rt :: v)
    (hcur : ∀ cpu, s'.currentTask cpu =
      if cpu = s.cpuOf rt then (u ++ v).head? else s.currentTask cpu)
    (hn : ∀ y, s'.preemptee y =
      if y = rt then none else if u.getLast? = some y then v.head? else s.preemptee y)
    (hp : ∀ y, s'.preempter y =
      if y = rt then none else if v.head? = some y then u.getLast? else s.preempter y)
    (hjob : ∀ y, s'.job y = if y = rt then false else s.job y)
    (hcpu : ∀ y, s'.cpuOf y = s.cpuOf y) :
    Chains s' (Function.update l (s.cpuOf rt) (u ++ v)) := by
  have hnodup := h.nodup (s.cpuOf rt)
  have hchain := h.chain (s.cpuOf rt)
  rw [hl] at hnodup hchain
  have hsplit := hnodup
  rw [List.nodup_middle, List.nodup_cons] at hsplit
  have hmem : ∀ {y}, y ∈ u ++ v → y ∈ l (s.cpuOf rt) ∧ y ≠ rt := by
    intro y hy
    refine ⟨?_, ?_⟩
    · rw [hl]
      rcases List.mem_append.1 hy with hy | hy
      · exact List.mem_append_left _ hy
      · exact List.mem_append_right _ (List.mem_cons_of_mem _ hy)
    · rintro rfl
      exact hsplit.1 hy
  have hu : ∀ {y}, u.getLast? = some y → y ∈ l (s.cpuOf rt) :=
    fun hy => (hmem (List.mem_append_left _ (List.mem_of_getLast? hy))).1
  have hv : ∀ {y}, v.head? = some y → y ∈ l (s.cpuOf rt) :=
    fun hy => (hmem (List.mem_append_right _ (List.mem_of_mem_head? hy))).1
  have hrt : rt ∈ l (s.cpuOf rt) := by
    rw [hl]
    exact List.mem_append_right _ List.mem_cons_self
  refine ⟨fun cpu => ?_, fun cpu => ?_, fun cpu => ?_, fun cpu q => ?_, fun q hq => ?_⟩
  · rw [hcur, Function.update_apply]
    split
    · rfl
    · exact h.current cpu
  · rw [Function.update_apply]
    split
    · refine hchain.remove hnodup (fun y hy => ?_) fun y hy => ?_
      · rw [hn, if_neg (hmem hy).2]
      · rw [hp, if_neg (hmem hy).2]
    · -- the links of another CPU's chain are not written
      rename_i hc
      refine (h.chain cpu).congr (fun y hy => ?_) fun y hy => ?_
      · rw [hn, if_neg (h.other hy hrt hc), if_neg fun he => h.other hy (hu he) hc rfl]
      · rw [hp, if_neg (h.other hy hrt hc), if_neg fun he => h.other hy (hv he) hc rfl]
  · rw [Function.update_apply]
    split
    · exact hsplit.2
    · exact h.nodup cpu
  · rw [Function.update_apply, hjob, hcpu]
    split
    · rename_i hc
      subst hc
      by_cases hq : q = rt
      · subst hq
        simpa using hsplit.1
      · have hold := h.mem (s.cpuOf rt) q
        rw [hl, List.mem_append, List.mem_cons, or_left_comm, ← List.mem_append] at hold
        simp only [hq, false_or, if_false] at hold ⊢
        exact hold
    · rename_i hc
      rw [h.mem]
      by_cases hq : q = rt
      · subst hq
        simp [Ne.symm hc]
      · simp [hq]
  · rw [hn, hp]
    by_cases hqrt : q = rt
    · rw [if_pos hqrt, if_pos hqrt]
      exact ⟨rfl, rfl⟩
    · rw [hjob, if_neg hqrt] at hq
      have hout : ∀ {cpu}, q ∉ l cpu := by
        intro cpu hmem
        rw [((h.mem cpu q).1 hmem).1] at hq
        cases hq
      rw [if_neg hqrt, if_neg hqrt, if_neg fun he => hout (hu he), if_neg fun he => hout (hv he)]
      exact h.out q hq

/-! ## The queues -/

/-- `rt` is put into a queue or taken out of one, and nothing happens to the other tasks. -/
structure Shifts (rt : ℕ) (b : Bool) (s s' : State) : Prop where
  queued : Queued s' s'.place
  cpu : ∀ q, (s'.task q).cpuId = (s.task q).cpuId
  cls : ∀ q, (s'.task q).cls = (s.task q).cls
  active : ∀ q, s'.isActive q = if q = rt then b else s.isActive q

section Core

variable {s s' s'' : State} {prio : ℤ} {f : Task → Task}

theorem Shifts.of_frame (h : Shifts rt b s s') (hf : s''.frame = s'.frame) : Shifts rt b s s'' := by
  have hcpu : ∀ q, (s''.task q).cpuId = (s'.task q).cpuId :=
    field_of_frame (·.cpuId) (fun _ => rfl) hf
  refine ⟨h.queued.of_fields (lo_of_frame hf) fun q => ?_, fun q => ?_, fun q => ?_, fun q => ?_⟩
  · exact ⟨isActive_of_frame hf q, hcpu q, prio_of_frame hf q⟩
  · exact (hcpu q).trans (h.cpu q)
  · exact (field_of_frame (·.cls) (fun _ => rfl) hf q).trans (h.cls q)
  · exact (isActive_of_frame hf q).trans (h.active q)

/-- A task that is in no queue and does not get into one -/
theorem Shifts.refl (h : Queued s s.place) (hi : s.isActive rt = b) : Shifts rt b s s := by
  refine ⟨h, fun _ => rfl, fun _ => rfl, fun q => ?_⟩
  split
  · rename_i hq
    rw [hq, hi]
  · rfl

theorem Shifts.link (h : Queued s s.place) (hi : s.isActive rt = false)
    (hr : reschPrioMin ≤ (s.task rt).prio ∧ (s.task rt).prio ≤ reschPrioMax)
    {ins : List ℕ → List ℕ} (hins : AddsOnce ins rt) :
    Shifts rt true s (s.link rt (s.task rt).cpuId (prioIndex (s.task rt).prio) ins) := by
  have hrange : 0 ≤ prioIndex (s.task rt).prio ∧ prioIndex (s.task rt).prio < reschPrioMax := by
    simp only [prioIndex, reschPrioMin, reschPrioMax, maxRtPrio] at hr ⊢
    omega
  refine ⟨h.enter hi rfl rfl hrange hins, fun q => ?_, fun q => ?_, fun q => ?_⟩
  · by_cases hq : q = rt
    · rw [hq, task_link_self]
    · rw [task_link_of_ne hq]
  · by_cases hq : q = rt
    · rw [hq, task_link_self]
    · rw [task_link_of_ne hq]
  · rw [isActive_link]
    by_cases hq : q = rt
    · simp [hq]
    · simp [hq]

theorem Shifts.unlink (h : Queued s s.place) (ha : s.isActive rt = true) :
    Shifts rt false s (s.unlink rt (s.task rt).cpuId (prioIndex (s.task rt).prio)) := by
  refine ⟨h.leave ha rfl rfl, fun q => ?_, fun q => ?_, fun q => ?_⟩
  · by_cases hq : q = rt
    · rw [hq, task_unlink_self]
    · rw [task_unlink_of_ne hq]
  · by_cases hq : q = rt
    · rw [hq, task_unlink_self]
    · rw [task_unlink_of_ne hq]
  · rw [isActive_unlink]
    by_cases hq : q = rt
    · simp [hq]
    · simp [hq]

theorem Shifts.edfEnqueue (h : Queued s s.place) (hi : s.isActive rt = false)
    (hp : reschPrioMin ≤ prio ∧ prio ≤ reschPrioMax) :
    Shifts rt true s (Edf.edfEnqueueTask s rt prio (s.task rt).cpuId) := by
  have hset : Queued (s.setPrio rt prio) (s.setPrio rt prio).place := h.setTask_inactive hi hi
  have hi' : (s.setPrio rt prio).isActive rt = false := by rw [isActive_setPrio, hi]
  have hins : AddsOnce (deadlineInsert s rt) rt := addsOnce_insertBefore _ rt
  have hlink := Shifts.link hset hi' (by rw [task_setPrio_self]; exact hp) hins
  rw [cpuId_setPrio, task_setPrio_self] at hlink
  rw [edfEnqueueTask_eq]
  refine ⟨hlink.queued, fun q => (hlink.cpu q).trans cpuId_setPrio, fun q => ?_, fun q => ?_⟩
  · exact (hlink.cls q).trans (setTask_field (·.cls) (by rfl) q)
  · rw [hlink.active, isActive_setPrio]

theorem Shifts.classEnqueue (h : Queued s s.place) (hi : s.isActive rt = false)
    (hc : (s.task rt).cls ≠ .deadline)
    (hr : reschPrioMin ≤ (s.task rt).prio ∧ (s.task rt).prio ≤ reschPrioMax) :
    Shifts rt (decide ((s.task rt).cls ≠ .fair)) s
      (classEnqueueTask s rt (s.task rt).prio (s.task rt).cpuId) := by
  unfold classEnqueueTask
  cases hcls : (s.task rt).cls with
  | fair => exact Shifts.refl h hi
  | fp => exact Shifts.link h hi hr (addsOnce_append rt)
  | edf => exact Shifts.edfEnqueue h hi hr
  | deadline => exact absurd hcls hc

theorem Shifts.classDequeue (h : Queued s s.place) (hc : (s.task rt).cls ≠ .deadline)
    (ha : s.isActive rt = decide ((s.task rt).cls ≠ .fair)) :
    Shifts rt false s (classDequeueTask s rt (s.task rt).prio (s.task rt).cpuId) := by
  unfold classDequeueTask
  cases hcls : (s.task rt).cls with
  | fair =>
    rw [hcls] at ha
    exact Shifts.refl h ha
  | fp =>
    rw [hcls] at ha
    exact Shifts.unlink h ha
  | edf =>
    rw [hcls] at ha
    exact Shifts.unlink h ha
  | deadline => exact absurd hcls hc

theorem Shifts.classJobStart (h : Queued s s.place) (hi : s.isActive rt = false)
    (hc : (s.task rt).cls ≠ .deadline)
    (hr : reschPrioMin ≤ (s.task rt).prio ∧ (s.task rt).prio ≤ reschPrioMax) :
    Shifts rt (decide ((s.task rt).cls ≠ .fair)) s (classJobStart s rt) := by
  unfold Resch.classJobStart
  cases hcls : (s.task rt).cls with
  | fair => exact Shifts.refl h hi
  | fp => exact Shifts.link h hi hr (addsOnce_append rt)
  | edf => exact (Shifts.edfEnqueue h hi edf_range).of_frame (frame_edfJobStart s rt)
  | deadline => exact absurd hcls hc

theorem Shifts.classJobComplete (h : Queued s s.place) (hc : (s.task rt).cls ≠ .deadline)
    (ha : s.isActive rt = decide ((s.task rt).cls ≠ .fair)) :
    Shifts rt false s (classJobComplete s rt) := by
  unfold Resch.classJobComplete
  cases hcls : (s.task rt).cls with
  | fair =>
    rw [hcls] at ha
    exact Shifts.refl h ha
  | fp =>
    rw [hcls] at ha
    exact Shifts.unlink h ha
  | edf =>
    rw [hcls] at ha
    have hout := Shifts.unlink h ha
    have hi : (s.unlink rt (s.task rt).cpuId (prioIndex (s.task rt).prio)).isActive rt = false := by
      rw [hout.active, if_pos rfl]
    have hset : Shifts rt false s
        ((s.unlink rt (s.task rt).cpuId (prioIndex (s.task rt).prio)).setPrio rt reschPrioEdf) := by
      refine ⟨hout.queued.setTask_inactive hi hi, fun q => ?_, fun q => ?_, fun q => ?_⟩
      · exact cpuId_setPrio.trans (hout.cpu q)
      · exact (setTask_field (·.cls) (by rfl) q).trans (hout.cls q)
      · rw [isActive_setPrio, hout.active]
    refine hset.of_frame ?_
    exact frame_ifSome fun s q => frame_wakeUpProcess
  | deadline => exact absurd hcls hc

/-- A task that is not first in its active queue has one before it. -/
theorem activePrev_of_preceded (h : Queued s s.place) (ha : s.isActive rt = true)
    (hne : activeHighestPrioTask s (s.task rt).cpuId ≠ some rt) :
    ∃ p, activePrevPrioTask s rt = some p ∧ p ≠ rt ∧ s.isActive p = true ∧
      (s.task p).cpuId = (s.task rt).cpuId := by
  have hok := h.activeOk (s.task rt).cpuId
  have hfollow : Follows (activePrevPrioTask s) (activeTasks s (s.task rt).cpuId).reverse := by
    rw [activeTasks_reverse]
    exact follows_levelsBefore hok le_rfl
  have hnodup : (activeTasks s (s.task rt).cpuId).Nodup :=
    (levelsFrom_ordered hok reschPrioMax.toNat 0 (Nat.zero_add _)).1
  have hmem : rt ∈ activeTasks s (s.task rt).cpuId := by
    refine (mem_levelsFrom hok).2 ⟨ha, rfl, ?_⟩
    exact (hok.level _ rt (hok.active rt ha rfl)).1
  rw [activeHighest_eq hok] at hne
  obtain ⟨u, v, huv⟩ := List.append_of_mem hmem
  rw [huv] at hne hfollow hnodup
  obtain ⟨p, u, rfl⟩ : ∃ p w, u = w ++ [p] := by
    rcases List.eq_nil_or_concat u with rfl | ⟨w, p, rfl⟩
    · exact absurd rfl hne
    · exact ⟨p, w, by simp⟩
  have hp : p ∈ activeTasks s (s.task rt).cpuId := by
    rw [huv]
    simp
  obtain ⟨hpa, hpc, -⟩ := (mem_levelsFrom hok).1 hp
  refine ⟨p, ?_, ?_, hpa, hpc⟩
  · refine (hfollow.next_eq (a := v.reverse) (b := p :: u.reverse) ?_).trans rfl
    simp
  · rintro rfl
    rw [List.nodup_append] at hnodup
    exact hnodup.2.2 p (by simp) p (by simp) rfl

end Core

/-! ## The calls -/

theorem Chains.of_core {core : State} (h : Chains s l)
    (hcpu : ∀ q, (core.task q).cpuId = (s.core.task q).cpuId) :
    Chains { s with core := core } l := by
  refine ⟨h.current, h.chain, h.nodup, fun cpu q => ?_, h.out⟩
  unfold TraceState.cpuOf
  dsimp only
  rw [hcpu]
  exact h.mem cpu q

@[simp] theorem core_preempt : (s.preempt rt).core = s.core := by
  unfold TraceState.preempt
  split
  · split <;> rfl
  · rfl

@[simp] theorem core_preemptSelf : (s.preemptSelf rt).core = s.core := by
  unfold TraceState.preemptSelf
  dsimp only
  split <;> rfl

@[simp] theorem core_preemptOut : (s.preemptOut rt).core = s.core := by
  unfold TraceState.preemptOut
  split
  · exact core_preemptSelf
  · dsimp only
    split <;> split <;> rfl

theorem cpuOf_of_core (h : s'.core = s.core) (q : ℕ) : s'.cpuOf q = s.cpuOf q := by
  unfold TraceState.cpuOf
  rw [h]

@[simp] theorem job_preempt : (s.preempt rt).job = s.job := by
  unfold TraceState.preempt
  split
  · split <;> rfl
  · rfl

@[simp] theorem job_preemptOut : (s.preemptOut rt).job = s.job := by
  unfold TraceState.preemptOut TraceState.preemptSelf
  split
  · dsimp only
    split <;> rfl
  · dsimp only
    split <;> split <;> rfl

theorem preempt_of_none (hc : s.currentTask (s.cpuOf rt) = none) :
    s.preempt rt = s.preemptIdle rt := by
  unfold TraceState.preempt
  rw [hc]

theorem preempt_of_lt {curr : ℕ} (hc : s.currentTask (s.cpuOf rt) = some curr)
    (hlt : (s.core.task curr).prio < (s.core.task rt).prio) :
    s.preempt rt = s.preemptCurrent rt curr := by
  unfold TraceState.preempt
  rw [hc]
  exact if_pos hlt

theorem update_some (f : ℕ → Option ℕ) (x y : ℕ) (z : Option ℕ) :
    Function.update f x z y = if some x = some y then z else f y := by
  by_cases hy : y = x
  · rw [hy, Function.update_self, if_pos rfl]
  · rw [Function.update_of_ne hy, if_neg fun he => hy (Option.some.inj he).symm]

/-- **`preempt`** puts the task before all others. -/
theorem Chains.preempt (h : Chains s l) (hj : s.job rt = false) (hlow : s.lower rt = true) :
    ∃ l, Chains ((s.preempt rt).setJob rt true) l := by
  have hout := (h.out rt hj).2
  have hcur := h.current (s.cpuOf rt)
  unfold TraceState.lower at hlow
  cases hl : s.currentTask (s.cpuOf rt) with
  | none =>
    rw [hl] at hcur
    rw [preempt_of_none hl]
    refine ⟨_, h.insert (u := []) hj rfl (fun cpu => Function.update_apply ..) (fun y => ?_)
      (fun y => ?_) (fun y => Function.update_apply ..) fun y => rfl⟩
    · rw [← hcur]
      exact Function.update_apply ..
    · show s.preempter y = _
      rw [← hcur]
      by_cases hy : y = rt
      · rw [if_pos hy, hy, hout]
        rfl
      · rw [if_neg hy]
        rfl
  | some curr =>
    rw [hl] at hcur hlow
    rw [Option.all_some, decide_eq_true_eq] at hlow
    rw [preempt_of_lt hl hlow]
    refine ⟨_, h.insert (u := []) hj rfl (fun cpu => Function.update_apply ..) (fun y => ?_)
      (fun y => ?_) (fun y => Function.update_apply ..) fun y => rfl⟩
    · rw [← hcur]
      exact Function.update_apply ..
    · show Function.update s.preempter curr (some rt) y = _
      have hne : curr ≠ rt := by
        rintro rfl
        have hmem : curr ∈ l (s.cpuOf curr) := List.mem_of_mem_head? hcur.symm
        rw [((h.mem _ _).1 hmem).1] at hj
        cases hj
      rw [← hcur]
      by_cases hy : y = rt
      · rw [if_pos hy, hy, Function.update_of_ne hne.symm, hout]
        rfl
      · rw [if_neg hy]
        exact update_some ..

/-- What `preempt_self` writes -/
theorem preemptSelf_writes (s : TraceState) (rt : ℕ) :
    (∀ cpu, (s.preemptSelf rt).currentTask cpu =
      if cpu = s.cpuOf rt then s.preemptee rt else s.currentTask cpu) ∧
    (∀ y, (s.preemptSelf rt).preemptee y = if y = rt then none else s.preemptee y) ∧
    (∀ y, (s.preemptSelf rt).preempter y =
      if s.preemptee rt = some y then none else s.preempter y) ∧
    (s.preemptSelf rt).job = s.job := by
  unfold TraceState.preemptSelf
  cases s.preemptee rt with
  | none =>
    exact ⟨fun cpu => Function.update_apply .., fun y => Function.update_apply .., fun y => rfl, rfl⟩
  | some curr =>
    exact ⟨fun cpu => Function.update_apply .., fun y => Function.update_apply ..,
      fun y => update_some .., rfl⟩

/-- **`preempt_self`** of the current task takes the first one out. -/
theorem Chains.preemptSelf (h : Chains s l) (hc : s.currentTask (s.cpuOf rt) = some rt) :
    ∃ l, Chains ((s.preemptSelf rt).setJob rt false) l := by
  obtain ⟨v, hv⟩ : ∃ v, l (s.cpuOf rt) = rt :: v := by
    rw [h.current] at hc
    exact List.head?_eq_some_iff.1 hc
  have hchain := h.chain (s.cpuOf rt)
  have hnodup := h.nodup (s.cpuOf rt)
  rw [hv] at hchain hnodup
  obtain ⟨hprev, hnext⟩ := Chain.links (a := []) hchain
  obtain ⟨hcur, hn, hp, hjob⟩ := preemptSelf_writes s rt
  rw [hnext] at hcur hp
  refine ⟨_, h.remove (u := []) hv hcur (fun y => hn y) (fun y => ?_) (fun y => ?_)
    (cpuOf_of_core core_preemptSelf)⟩
  · refine (hp y).trans ?_
    by_cases hy : y = rt
    · rw [if_pos hy, hy, hprev]
      split <;> rfl
    · rw [if_neg hy]
      rfl
  · show Function.update (s.preemptSelf rt).job rt false y = _
    rw [hjob]
    exact Function.update_apply ..

/-- What `preempt_out` writes for a task with neighbours, before which another one stands -/
theorem preemptOut_writes {p : ℕ} (hc : s.currentTask (s.cpuOf rt) ≠ some rt)
    (hp : s.preempter rt = some p) (hne : p ≠ rt) :
    (s.preemptOut rt).currentTask = s.currentTask ∧
    (∀ y, (s.preemptOut rt).preemptee y =
      if y = rt then none else if some p = some y then s.preemptee rt else s.preemptee y) ∧
    (∀ y, (s.preemptOut rt).preempter y =
      if y = rt then none else if s.preemptee rt = some y then some p else s.preempter y) := by
  have hstay : Function.update s.preemptee p (s.preemptee rt) rt = s.preemptee rt :=
    Function.update_of_ne hne.symm ..
  unfold TraceState.preemptOut
  rw [if_neg hc, hp]
  dsimp only [TraceState.setPreemptee]
  rw [hstay]
  cases hv : s.preemptee rt with
  | none =>
    refine ⟨rfl, fun y => ?_, fun y => ?_⟩
    · refine (Function.update_apply ..).trans ?_
      dsimp only
      rw [update_some]
    · exact Function.update_apply ..
  | some z =>
    refine ⟨rfl, fun y => ?_, fun y => ?_⟩
    · refine (Function.update_apply ..).trans ?_
      dsimp only [TraceState.setPreempter]
      rw [update_some]
    · refine (Function.update_apply ..).trans ?_
      dsimp only [TraceState.setPreempter]
      rw [update_some, hp]

/-- **`preempt_out`** takes the task out from wherever it is. -/
theorem Chains.preemptOut (h : Chains s l) (hj : s.job rt = true) :
    ∃ l, Chains ((s.preemptOut rt).setJob rt false) l := by
  by_cases hc : s.currentTask (s.cpuOf rt) = some rt
  · have hself : s.preemptOut rt = s.preemptSelf rt := if_pos hc
    rw [hself]
    exact h.preemptSelf hc
  -- it is not the current task, so that another one has preempted it
  have hmem : rt ∈ l (s.cpuOf rt) := (h.mem _ _).2 ⟨hj, rfl⟩
  obtain ⟨u, v, huv⟩ := List.append_of_mem hmem
  have hchain := h.chain (s.cpuOf rt)
  have hnodup := h.nodup (s.cpuOf rt)
  have hhead := h.current (s.cpuOf rt)
  rw [huv] at hchain hnodup hhead
  obtain ⟨hprev, hnext⟩ := hchain.links
  obtain ⟨p, hlast⟩ : ∃ p, u.getLast? = some p := by
    cases u with
    | nil => exact absurd hhead hc
    | cons x u => exact Option.isSome_iff_exists.1 (List.getLast?_isSome.2 (List.cons_ne_nil _ _))
  have hne : p ≠ rt := by
    rintro rfl
    rw [List.nodup_append] at hnodup
    exact hnodup.2.2 p (List.mem_of_getLast? hlast) p List.mem_cons_self rfl
  obtain ⟨hcur, hn, hp⟩ := preemptOut_writes hc (hprev.trans hlast) hne
  rw [hnext] at hn hp
  refine ⟨_, h.remove huv (fun cpu => ?_) (fun y => ?_) (fun y => ?_) (fun y => ?_)
    (cpuOf_of_core core_preemptOut)⟩
  · show (s.preemptOut rt).currentTask cpu = _
    rw [hcur]
    split
    · rename_i hcpu
      rw [hcpu, hhead, List.head?_append, List.head?_append]
      cases u with
      | nil => cases hlast
      | cons x u => rfl
    · rfl
  · rw [hlast]
    exact hn y
  · rw [hlast]
    exact hp y
  · show Function.update (s.preemptOut rt).job rt false y = _
    rw [job_preemptOut]
    exact Function.update_apply ..

/-- What `preempt_in` writes for a task behind `p` -/
theorem preemptIn_writes {p curr : ℕ} (hc : s.currentTask (s.cpuOf rt) = some curr)
    (hlow : ¬ (s.core.task curr).prio < (s.core.task rt).prio) (hp : s.prevTask rt = some p)
    (hne : p ≠ rt) (hpn : s.preemptee p ≠ some rt) :
    (s.preemptIn rt).currentTask = s.currentTask ∧
    (∀ y, (s.preemptIn rt).preemptee y =
      if y = rt then s.preemptee p else if some p = some y then some rt else s.preemptee y) ∧
    (∀ y, (s.preemptIn rt).preempter y =
      if y = rt then some p else if s.preemptee p = some y then some rt else s.preempter y) ∧
    (s.preemptIn rt).job = s.job ∧ (s.preemptIn rt).core = s.core := by
  have hstay : Function.update (Function.update s.preemptee rt (s.preemptee p)) p (some rt) rt =
      s.preemptee p := by
    rw [Function.update_of_ne hne.symm, Function.update_self]
  unfold TraceState.preemptIn
  rw [hc, hp]
  dsimp only
  rw [if_pos (not_lt.1 hlow)]
  dsimp only [TraceState.setPreemptee, TraceState.setPreempter]
  rw [hstay]
  have hee : ∀ y, Function.update (Function.update s.preemptee rt (s.preemptee p)) p (some rt) y =
      if y = rt then s.preemptee p else if some p = some y then some rt else s.preemptee y := by
    intro y
    by_cases hy : y = rt
    · rw [if_pos hy, hy, hstay]
    · rw [if_neg hy, update_some, Function.update_of_ne hy]
  cases hv : s.preemptee p with
  | none =>
    rw [hv] at hee
    exact ⟨rfl, hee, fun y => Function.update_apply .., rfl, rfl⟩
  | some z =>
    rw [hv] at hee hpn
    refine ⟨rfl, hee, fun y => ?_, rfl, rfl⟩
    refine (update_some ..).trans ?_
    by_cases hy : y = rt
    · rw [if_pos hy, if_neg (by rw [hy]; exact hpn), hy]
      exact Function.update_self ..
    · rw [if_neg hy, Function.update_of_ne hy]

/-- **`preempt_in`** puts the task behind the one before it in the active queue, or before all
others. -/
theorem Chains.preemptIn (h : Chains s l) (hj : s.job rt = false) (hok : s.lower rt = true ∨
    ∃ p, s.prevTask rt = some p ∧ p ≠ rt ∧ s.job p = true ∧ s.cpuOf p = s.cpuOf rt) :
    (∃ l, Chains ((s.preemptIn rt).setJob rt true) l) ∧ (s.preemptIn rt).core = s.core ∧
      (s.preemptIn rt).job = s.job := by
  -- with a priority above that of the current task, it becomes the current task
  by_cases hlow : s.lower rt = true
  · have hsame : s.preemptIn rt = s.preempt rt := by
      unfold TraceState.preemptIn
      unfold TraceState.lower at hlow
      cases hc : s.currentTask (s.cpuOf rt) with
      | none => rfl
      | some curr =>
        rw [hc, Option.all_some, decide_eq_true_eq] at hlow
        exact if_neg (not_le.2 hlow)
    rw [hsame]
    exact ⟨h.preempt hj hlow, core_preempt, job_preempt⟩
  -- otherwise it goes in after the task before it in the active queue
  obtain ⟨p, hp, hne, hpj, hpc⟩ := hok.resolve_left hlow
  obtain ⟨curr, hc, hlt⟩ : ∃ curr, s.currentTask (s.cpuOf rt) = some curr ∧
      ¬ (s.core.task curr).prio < (s.core.task rt).prio := by
    unfold TraceState.lower at hlow
    cases hc : s.currentTask (s.cpuOf rt) with
    | none =>
      rw [hc] at hlow
      exact absurd rfl hlow
    | some curr =>
      rw [hc, Option.all_some, decide_eq_true_eq] at hlow
      exact ⟨curr, rfl, hlow⟩
  obtain ⟨u, v, huv⟩ := List.append_of_mem ((h.mem (s.cpuOf rt) p).2 ⟨hpj, hpc⟩)
  have hchain := h.chain (s.cpuOf rt)
  have hnodup := h.nodup (s.cpuOf rt)
  have hhead := h.current (s.cpuOf rt)
  rw [huv] at hchain hhead
  obtain ⟨-, hnext⟩ := hchain.links
  -- `p` has not been preempted for `rt`, which had no job
  have hpn : s.preemptee p ≠ some rt := by
    rw [hnext]
    intro he
    have hmem : rt ∈ l (s.cpuOf rt) := by
      rw [huv]
      exact List.mem_append_right _ (List.mem_cons_of_mem _ (List.mem_of_mem_head? he))
    rw [((h.mem _ _).1 hmem).1] at hj
    cases hj
  obtain ⟨hcur, hn, hpr, hjob, hcore⟩ := preemptIn_writes hc hlt hp hne hpn
  rw [hnext] at hn hpr
  have hsplit : l (s.cpuOf rt) = (u ++ [p]) ++ v := by
    rw [huv, List.append_assoc, List.singleton_append]
  have hlast : (u ++ [p]).getLast? = some p := List.getLast?_concat
  refine ⟨⟨_, h.insert hj hsplit (fun cpu => ?_) (fun y => ?_) (fun y => ?_) (fun y => ?_)
    (cpuOf_of_core hcore)⟩, hcore, hjob⟩
  · show (s.preemptIn rt).currentTask cpu = _
    rw [hcur]
    split
    · rename_i hcpu
      rw [hcpu, hhead]
      cases u <;> rfl
    · rfl
  · rw [hlast]
    exact hn y
  · rw [hlast]
    exact hpr y
  · show Function.update (s.preemptIn rt).job rt true y = _
    rw [hjob]
    exact Function.update_apply ..

/-! ## Runs -/

/-- A step puts the new state together from the links and the queues. -/
theorem TraceOk.of_shifts (h : TraceOk s) {b : Bool} {core : State}
    (hsh : Shifts rt (b && decide ((s.core.task rt).cls ≠ .fair)) s.core core)
    (hjob : s'.job = s.job) (hcpu : ∀ q, s'.cpuOf q = s.cpuOf q)
    (hch : ∃ l, Chains (s'.setJob rt b) l) : TraceOk { s'.setJob rt b with core := core } := by
  refine ⟨hsh.queued, fun q => ?_, fun q => ?_, ?_⟩
  · exact fun hc => h.cls q ((hsh.cls q).symm.trans hc)
  · show core.isActive q = (Function.update s'.job rt b q && _)
    rw [hsh.active, hsh.cls, hjob]
    by_cases hq : q = rt
    · rw [if_pos hq, hq, Function.update_self]
    · rw [if_neg hq, Function.update_of_ne hq]
      exact h.active q
  · obtain ⟨l, hl⟩ := hch
    exact ⟨l, hl.of_core fun q => (hsh.cpu q).trans (hcpu q).symm⟩

theorem TraceOk.inactive (h : TraceOk s) (hj : s.job rt = false) : s.core.isActive rt = false := by
  rw [h.active, hj, Bool.false_and]

theorem TraceOk.active_of_job (h : TraceOk s) (hj : s.job rt = true) :
    s.core.isActive rt = decide ((s.core.task rt).cls ≠ .fair) := by
  rw [h.active, hj, Bool.true_and]

/-- Enqueueing a task at the level of its own priority does not change any priority. -/
theorem prio_classEnqueueTask (s : State) (rt q cpu : ℕ) :
    ((classEnqueueTask s rt (s.task rt).prio cpu).task q).prio = (s.task q).prio := by
  have hlink : ∀ idx ins, ((s.link rt cpu idx ins).task q).prio = (s.task q).prio := by
    intro idx ins
    by_cases hq : q = rt
    · rw [hq, task_link_self]
    · rw [task_link_of_ne hq]
  unfold classEnqueueTask
  cases (s.task rt).cls with
  | fair => rfl
  | fp => exact hlink (prioIndex (s.task rt).prio) (· ++ [rt])
  | edf =>
    by_cases hq : q = rt
    · unfold Edf.edfEnqueueTask
      rw [hq, task_setPrio_self]
    · unfold Edf.edfEnqueueTask
      rw [task_setPrio_of_ne hq]
      exact hlink (prioIndex (s.task rt).prio) (deadlineInsert s rt)
  | deadline => exact hlink (prioIndex (s.task rt).prio) (deadlineInsert s rt)

theorem lower_enqueue (s : TraceState) (rt : ℕ)
    (hcpu : (s.enqueue rt).cpuOf rt = s.cpuOf rt) : (s.enqueue rt).lower rt = s.lower rt := by
  have hprio : ∀ q, ((s.enqueue rt).core.task q).prio = (s.core.task q).prio :=
    fun q => prio_classEnqueueTask s.core rt q _
  unfold TraceState.lower
  rw [hcpu]
  simp only [hprio]
  rfl

theorem TraceOk.assign (h : TraceOk s) (hj : s.job rt = false) {f : Task → Task}
    (hc : (f (s.core.task rt)).cls ≠ .deadline)
    (hf : (f (s.core.task rt)).activeEntry = (s.core.task rt).activeEntry) :
    TraceOk { s with core := s.core.setTask rt f } := by
  have hi := h.inactive hj
  have hactive : ∀ q, (s.core.setTask rt f).isActive q = s.core.isActive q :=
    fun q => setTask_field (·.activeEntry) hf q
  refine ⟨h.queued.setTask_inactive hi (hf.trans hi), fun q => ?_, fun q => ?_, ?_⟩
  · by_cases hq : q = rt
    · dsimp only
      rw [hq, task_setTask_self]
      exact hc
    · dsimp only
      rw [task_setTask_of_ne f hq]
      exact h.cls q
  · dsimp only
    rw [hactive]
    by_cases hq : q = rt
    · rw [hq, hi, hj, Bool.false_and]
    · rw [task_setTask_of_ne f hq]
      exact h.active q
  · obtain ⟨l, hl⟩ := h.chains
    refine ⟨l, hl.current, hl.chain, hl.nodup, fun cpu q => ?_, hl.out⟩
    rw [hl.mem]
    by_cases hq : q = rt
    · dsimp only
      rw [hq, hj]
      simp
    · unfold TraceState.cpuOf
      dsimp only
      rw [task_setTask_of_ne f hq]

theorem TraceOk.step {a : TraceOp} (h : TraceOk s) (hc : a.links s = true)
    (hs : traceStep s a = some s') : TraceOk s' := by
  unfold traceStep at hs
  split at hs
  swap
  · cases hs
  rename_i he
  rw [Option.some.injEq] at hs
  subst hs
  rw [Bool.and_eq_true] at he
  have he := he.2
  obtain ⟨l, hl⟩ := h.chains
  cases a with
  | assign rt cls prio cpu deadlineTime =>
    have hcls : cls ≠ .deadline := of_decide_eq_true hc
    have hj : s.job rt = false := by simpa [TraceOp.enabled] using he
    exact h.assign hj (f := fun t =>
      { t with cls := cls, prio := prio, cpuId := cpu, deadlineTime := deadlineTime }) hcls rfl
  | jobStart rt =>
    have hj : s.job rt = false := by simpa [TraceOp.enabled] using he
    obtain ⟨hp, hlow⟩ : s.Prioritised rt ∧ s.lower rt = true := by simpa [TraceOp.links] using hc
    have hsh := Shifts.classJobStart h.queued (h.inactive hj) (h.cls rt) hp
    unfold TraceOp.exec
    dsimp only
    rw [core_preempt]
    exact h.of_shifts (b := true) hsh job_preempt (cpuOf_of_core core_preempt) (hl.preempt hj hlow)
  | jobComplete rt =>
    have hj : s.job rt = true := he
    -- the task that leaves is the current one
    have hcur : s.currentTask (s.cpuOf rt) = some rt := of_decide_eq_true hc
    have hsh := Shifts.classJobComplete h.queued (h.cls rt) (h.active_of_job hj)
    unfold TraceOp.exec
    dsimp only
    rw [core_preemptSelf]
    exact h.of_shifts (b := false) hsh (preemptSelf_writes s rt).2.2.2
      (cpuOf_of_core core_preemptSelf) (hl.preemptSelf hcur)
  | jobSuspend rt =>
    have hj : s.job rt = true := he
    have hcur : s.currentTask (s.cpuOf rt) = some rt := of_decide_eq_true hc
    have hsh := Shifts.classDequeue h.queued (h.cls rt) (h.active_of_job hj)
    unfold TraceOp.exec TraceState.dequeue
    dsimp only
    rw [core_preemptSelf]
    exact h.of_shifts (b := false) hsh (preemptSelf_writes s rt).2.2.2
      (cpuOf_of_core core_preemptSelf) (hl.preemptSelf hcur)
  | moveOut rt =>
    have hj : s.job rt = true := he
    have hsh := Shifts.classDequeue h.queued (h.cls rt) (h.active_of_job hj)
    unfold TraceOp.exec TraceState.dequeue
    dsimp only
    rw [core_preemptOut]
    exact h.of_shifts (b := false) hsh job_preemptOut (cpuOf_of_core core_preemptOut)
      (hl.preemptOut hj)
  | moveIn rt =>
    have hj : s.job rt = false := by simpa [TraceOp.enabled] using he
    unfold TraceOp.links at hc
    rw [Bool.and_eq_true, decide_eq_true_eq] at hc
    obtain ⟨hp, hc⟩ := hc
    have hsh : Shifts rt _ s.core (s.enqueue rt).core :=
      Shifts.classEnqueue h.queued (h.inactive hj) (h.cls rt) hp
    have hl₁ : Chains (s.enqueue rt) l := hl.of_core hsh.cpu
    -- what `links` says of the state before the enqueue, after it
    have hok : (s.enqueue rt).lower rt = true ∨ ∃ p, (s.enqueue rt).prevTask rt = some p ∧ p ≠ rt ∧
        (s.enqueue rt).job p = true ∧ (s.enqueue rt).cpuOf p = (s.enqueue rt).cpuOf rt := by
      rw [Bool.or_eq_true] at hc
      refine hc.imp (fun hlow => ?_) fun hprec => ?_
      · rw [lower_enqueue s rt (hsh.cpu rt)]
        exact hlow
      · unfold TraceState.preceded at hprec
        rw [Bool.and_eq_true, decide_eq_true_eq] at hprec
        obtain ⟨ha, hne⟩ := hprec
        obtain ⟨p, hprev, hpne, hpa, hpc⟩ := activePrev_of_preceded hsh.queued ha hne
        rw [hsh.active, if_neg hpne, h.active, Bool.and_eq_true] at hpa
        refine ⟨p, ?_, hpne, hpa.1, hpc⟩
        exact (if_pos ha).trans hprev
    obtain ⟨hch, hcore, hjob⟩ := hl₁.preemptIn hj hok
    have hend := h.of_shifts (b := true) hsh hjob
      (fun q => (cpuOf_of_core hcore q).trans (hsh.cpu q)) hch
    rw [← hcore] at hend
    exact hend

theorem traceStart_ok (jiffies : ℕ) (proc : ℕ → Proc) : TraceOk (TraceState.start jiffies proc) := by
  refine ⟨schedInit_queued jiffies proc, fun rt => ?_, fun rt => ?_, fun _ => [], fun cpu => ?_,
    fun cpu => ?_, fun cpu => ?_, fun cpu rt => ?_, fun rt _ => ?_⟩
  · exact fun hc => nomatch hc
  · rfl
  · rfl
  · trivial
  · exact List.nodup_nil
  · exact ⟨fun hc => (nomatch hc), fun hc => (nomatch hc.1)⟩
  · exact ⟨rfl, rfl⟩

/-- **The chain of preempted tasks.** If in a run no task is of the class of `SCHED_DEADLINE`, each
task that starts a job or moves in has a priority of its own, each one that starts a job finds no
current task or one of a lower priority, each one that moves in finds the same or another task before
it in the active queue, and each task whose job ends or is suspended is the current one, the links
lead from the current task of each CPU through the tasks with a job there, each once, and are inverse
to each other. -/
theorem preempt_traced (jiffies : ℕ) (proc : ℕ → Proc) (as : List TraceOp)
    (h : Each traceStep (fun s a => a.links s = true) (TraceState.start jiffies proc) as) :
    Always traceStep ChainOfJobs (TraceState.start jiffies proc) as := by
  refine Always.mono (fun s h => TraceOk.chainOfJobs h) as _ ?_
  exact Always.of_each (fun s a s' h hc hs => h.step hc hs) as _ (traceStart_ok jiffies proc) h

/-- A task is preempted, moves away and comes back, and the chain ends after it. -/
theorem preempt_traced_moved : Always traceStep ChainOfJobs (TraceState.start 0 fun _ => Proc.fair)
    [.assign 0 .fp 40 0 0, .assign 1 .fp 50 0 0, .jobStart 0, .jobStart 1, .moveOut 0,
      .assign 0 .fp 45 1 0, .moveIn 0, .moveOut 0, .assign 0 .fp 45 0 0, .moveIn 0, .jobSuspend 1,
      .jobComplete 0] :=
  preempt_traced 0 _ _ (Each.of_check (fun _ _ h => h) (by decide +kernel))

/-- A task of a lower priority than the current one is not linked when its job starts. -/
theorem preempt_not_traced : ¬ Always traceStep ChainOfJobs
    (TraceState.start 0 fun _ => Proc.fair)
    [.assign 0 .fp 50 0 0, .assign 1 .fp 40 0 0, .jobStart 0, .jobStart 1] := by
  intro h
  obtain ⟨s, hs, ht⟩ := h.final_test (fun s => decide (s.currentTask 0 = some 0 ∧
    s.preemptee 0 = none ∧ s.job 1 = true ∧ s.cpuOf 1 = 0)) (by decide +kernel)
  obtain ⟨hcur, hend, hj, hcpu⟩ := of_decide_eq_true ht
  obtain ⟨l, hvis, -, hmem⟩ := hs.visits 0
  have h2 := hvis 2
  rw [hcur, visited, hend] at h2
  have h1 : 1 ∈ l := (hmem 1).2 ⟨hj, hcpu⟩
  cases l with
  | nil => cases h1
  | cons x l =>
    cases l with
    | nil =>
      rw [List.mem_singleton] at h1
      subst h1
      cases h2
    | cons y l => cases h2

end Resch
