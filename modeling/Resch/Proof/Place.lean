import Resch.Proof.Updates

/-!
# Where the descriptors say that a task is queued

`s.placeAt level` puts an active task at `queue[level(rt->prio)]` of `lo[rt->cpu_id]` and
any other task nowhere. The classes of `sched_fp.c` and `sched_edf.c` queue a task at the
level of its priority (`State.place`), the one of `sched_deadline.c` all tasks at one
level. `Queued s (s.placeAt level)` is the agreement of queues and descriptors.
-/

namespace Resch

open Lib

/-- The place of each task, if the queue of a task with a priority is `level prio`. -/
def State.placeAt (level : ℤ → ℤ) (s : State) : ℕ → Option (ℕ × ℤ) := fun rt =>
  if s.isActive rt then some ((s.task rt).cpuId, level (s.task rt).prio) else none

/-- The place of each task by its priority. -/
abbrev State.place (s : State) : ℕ → Option (ℕ × ℤ) := s.placeAt prioIndex

variable {s s' : State} {rt q cpu : ℕ} {idx : ℤ} {ins : List ℕ → List ℕ} {level : ℤ → ℤ}
  {place : ℕ → Option (ℕ × ℤ)}

theorem Queued.congr (h : Queued s place) (hlo : s'.lo = s.lo)
    (hact : ∀ q, s'.isActive q = s.isActive q) : Queued s' place := by
  refine ⟨h.toLinked.congr hlo hact, h.range, ?_, ?_⟩
  · rw [hlo]; exact h.bits
  · rw [hlo]; exact h.count

/-- The place depends on three fields of a descriptor. -/
structure Task.SamePlace (t t' : Task) : Prop where
  active : t'.activeEntry = t.activeEntry
  cpu : t'.cpuId = t.cpuId
  prio : t'.prio = t.prio

theorem place_congr (h : ∀ q, (s.task q).SamePlace (s'.task q)) :
    s'.placeAt level = s.placeAt level := by
  funext q
  obtain ⟨ha, hc, hp⟩ := h q
  unfold State.placeAt State.isActive
  rw [ha, hc, hp]

theorem Queued.of_fields (h : Queued s (s.placeAt level)) (hlo : s'.lo = s.lo)
    (ht : ∀ q, (s.task q).SamePlace (s'.task q)) : Queued s' (s'.placeAt level) := by
  rw [place_congr ht]
  exact h.congr hlo fun q => (ht q).active

theorem Queued.of_task (h : Queued s (s.placeAt level)) (hlo : s'.lo = s.lo)
    (ht : s'.task = s.task) : Queued s' (s'.placeAt level) :=
  h.of_fields hlo fun q => by rw [ht]; exact ⟨rfl, rfl, rfl⟩

/-- Assigning fields that the place does not depend on. -/
theorem Queued.setTask (h : Queued s (s.placeAt level)) {f : Task → Task}
    (hf : (s.task rt).SamePlace (f (s.task rt))) :
    Queued (s.setTask rt f) ((s.setTask rt f).placeAt level) := by
  refine h.of_fields rfl fun q => ?_
  by_cases hq : q = rt
  · subst hq; rw [task_setTask_self]; exact hf
  · rw [task_setTask_of_ne f hq]; exact ⟨rfl, rfl, rfl⟩

/-- Any field of an inactive task can be assigned. -/
theorem Queued.setTask_inactive (h : Queued s (s.placeAt level)) (hi : s.isActive rt = false)
    {f : Task → Task} (hf : (f (s.task rt)).activeEntry = false) :
    Queued (s.setTask rt f) ((s.setTask rt f).placeAt level) := by
  have hact : ∀ q, (s.setTask rt f).isActive q = s.isActive q := by
    intro q
    by_cases hq : q = rt
    · subst hq
      rw [hi]; simpa [State.isActive] using hf
    · simp [State.isActive, task_setTask_of_ne f hq]
  have hpl : (s.setTask rt f).placeAt level = s.placeAt level := by
    funext q
    by_cases hq : q = rt
    · subst hq; simp [State.placeAt, hact, hi]
    · simp [State.placeAt, hact, task_setTask_of_ne f hq]
  exact hpl ▸ h.congr rfl hact

theorem place_unlink : (s.unlink rt cpu idx).placeAt level =
    Function.update (s.placeAt level) rt none := by
  funext q
  by_cases hq : q = rt
  · subst hq; simp [State.placeAt, isActive_unlink]
  · simp [State.placeAt, isActive_unlink, task_unlink_of_ne hq, hq]

theorem place_link : (s.link rt cpu idx ins).placeAt level =
    Function.update (s.placeAt level) rt (some ((s.task rt).cpuId, level (s.task rt).prio)) := by
  funext q
  by_cases hq : q = rt
  · subst hq; simp [State.placeAt, isActive_link]
  · simp [State.placeAt, isActive_link, task_link_of_ne hq, hq]

theorem place_of_active (h : s.isActive rt = true) :
    s.placeAt level rt = some ((s.task rt).cpuId, level (s.task rt).prio) := by
  simp [State.placeAt, h]

theorem place_of_inactive (h : s.isActive rt = false) : s.placeAt level rt = none := by
  simp [State.placeAt, h]

/-- Dequeueing an active task where the descriptor says it is. -/
theorem Queued.leave (h : Queued s (s.placeAt level)) (ha : s.isActive rt = true)
    (hcpu : cpu = (s.task rt).cpuId) (hidx : idx = level (s.task rt).prio) :
    Queued (s.unlink rt cpu idx) ((s.unlink rt cpu idx).placeAt level) := by
  subst hcpu hidx
  rw [place_unlink]
  exact h.unlink (place_of_active ha)

/-- Such a dequeue finds the task in the level it looks at. -/
theorem Queued.trace_leave (h : Queued s (s.placeAt level)) (ha : s.isActive rt = true)
    (hcpu : cpu = (s.task rt).cpuId) (hidx : idx = level (s.task rt).prio) :
    (s.unlink rt cpu idx).trace = ⟨idx, true⟩ :: s.trace := by
  have hm : rt ∈ (s.lo cpu).queue idx := by
    rw [h.mem_iff, place_of_active ha, hcpu, hidx]
  simp [State.unlink, hm]

/-- Enqueueing an inactive task where the descriptor says it belongs. -/
theorem Queued.enter (h : Queued s (s.placeAt level)) (hi : s.isActive rt = false)
    (hcpu : cpu = (s.task rt).cpuId) (hidx : idx = level (s.task rt).prio)
    (hr : 0 ≤ idx ∧ idx < reschPrioMax) (hins : AddsOnce ins rt) :
    Queued (s.link rt cpu idx ins) ((s.link rt cpu idx ins).placeAt level) := by
  subst hcpu hidx
  rw [place_link]
  exact h.link hins (place_of_inactive hi) hr

/-- After `sched_init` all queues are empty. -/
theorem schedInit_queued (jiffies : ℕ) (proc : ℕ → Proc) :
    Queued (schedInit jiffies proc) (schedInit jiffies proc).place := by
  have hp : (schedInit jiffies proc).place = fun _ => none := rfl
  rw [hp]
  refine ⟨⟨fun x k => ?_, fun _ => rfl⟩, fun _ _ h => (by cases h), fun cpu i hi => ?_, fun cpu => ?_⟩
  · simp [State.levels, schedInit]
  · simp [schedInit, testBit]
  · simp [schedInit, PrioArray.total]

end Resch
