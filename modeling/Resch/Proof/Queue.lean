import Mathlib.Algebra.BigOperators.Ring.Finset
import Mathlib.Algebra.Order.BigOperators.Group.Finset
import Resch.Proof.Bitops
import Resch.Spec.State

/-!
# The active queues under linking and unlinking

`Linked s place` says that the lists of all active queues are well formed: every
entry that is linked occurs once, at its `place`, and no other occurs at all.
`Queued s place` adds what the core keeps beside the lists: the bit of a level is set
iff the level is not empty, and `nr_tasks` counts the tasks of the CPU.

* `Queued.link`, `Queued.unlink`: enqueueing an inactive task, and dequeueing an active
  one from the level it is in, keep all of it.
-/

namespace Resch

open Lib

/-- Number of tasks in the queues of an active queue. -/
def PrioArray.total (a : PrioArray) : ℕ :=
  ∑ i ∈ Finset.range reschPrioMax.toNat, (a.queue (i : ℤ)).length

/-- The lists of the active queues are well formed, with the entries where `place` says. -/
structure Linked (s : State) (place : ℕ → Option (ℕ × ℤ)) : Prop where
  placed : Placed s.levels place
  active : ∀ rt, s.isActive rt = (place rt).isSome

/-- The active queues are well formed, lists, bitmaps and counters. -/
structure Queued (s : State) (place : ℕ → Option (ℕ × ℤ)) : Prop extends Linked s place where
  range : ∀ rt k, place rt = some k → 0 ≤ k.2 ∧ k.2 < reschPrioMax
  bits : ∀ cpu i, 0 ≤ i → (testBit i (s.lo cpu).bitmap = true ↔ (s.lo cpu).queue i ≠ [])
  count : ∀ cpu, (s.lo cpu).nrTasks = ((s.lo cpu).total : ℤ)

variable {s : State} {place : ℕ → Option (ℕ × ℤ)} {rt q cpu : ℕ} {idx : ℤ}
  {ins : List ℕ → List ℕ}

theorem Linked.inactive (h : Linked s place) : s.isActive rt = false ↔ place rt = none := by
  rw [h.active rt]
  cases place rt <;> simp

theorem Linked.mem_iff (h : Linked s place) {i : ℤ} :
    rt ∈ (s.lo cpu).queue i ↔ place rt = some (cpu, i) :=
  h.placed.mem_iff (k := (cpu, i))

/-! ## Field by field -/

theorem levels_link :
    (s.link rt cpu idx ins).levels =
      Function.update s.levels (cpu, idx) (ins (s.levels (cpu, idx))) := by
  funext ⟨x, i⟩
  simp only [State.levels, State.link, Function.update_apply, Prod.mk.injEq]
  by_cases hx : x = cpu
  · subst hx
    by_cases hi : i = idx <;> simp [hi]
  · simp [hx]

theorem levels_unlink : (s.unlink rt cpu idx).levels = unlinkAll s.levels rt := by
  funext ⟨x, i⟩
  simp only [State.levels, State.unlink, unlinkAll, Function.update_apply]
  by_cases hx : x = cpu <;> simp [hx]

theorem isActive_link : (s.link rt cpu idx ins).isActive q = (decide (q = rt) || s.isActive q) := by
  by_cases h : q = rt <;> simp [State.isActive, State.link, h]

theorem isActive_unlink :
    (s.unlink rt cpu idx).isActive q = (!decide (q = rt) && s.isActive q) := by
  by_cases h : q = rt <;> simp [State.isActive, State.unlink, h]

theorem queue_link {x : ℕ} {i : ℤ} :
    ((s.link rt cpu idx ins).lo x).queue i =
      if x = cpu ∧ i = idx then ins ((s.lo cpu).queue idx) else (s.lo x).queue i := by
  have := congrFun (levels_link : (s.link rt cpu idx ins).levels = _) (x, i)
  rw [State.levels, Function.update_apply] at this
  rw [this]
  simp only [Prod.mk.injEq]; rfl

theorem queue_unlink {x : ℕ} {i : ℤ} :
    ((s.unlink rt cpu idx).lo x).queue i = ((s.lo x).queue i).filter (· ≠ rt) :=
  congrFun (levels_unlink : (s.unlink rt cpu idx).levels = _) (x, i)

theorem bits_link {x : ℕ} {i : ℤ} (hidx : 0 ≤ idx) :
    testBit i ((s.link rt cpu idx ins).lo x).bitmap =
      (decide (x = cpu ∧ i = idx) || testBit i (s.lo x).bitmap) := by
  by_cases hx : x = cpu
  · subst hx
    simp [State.link, testBit_setBit (by decide : 0 < 64) hidx]
  · simp [State.link, hx]

theorem bits_unlink {x : ℕ} {i : ℤ} (hidx : 0 ≤ idx) :
    testBit i ((s.unlink rt cpu idx).lo x).bitmap =
      (!decide (x = cpu ∧ i = idx ∧ ((s.lo cpu).queue idx).filter (· ≠ rt) = []) &&
        testBit i (s.lo x).bitmap) := by
  by_cases hx : x = cpu
  · subst hx
    by_cases he : ((s.lo x).queue idx).filter (· ≠ rt) = []
    · simp only [State.unlink, Function.update_self, he, if_true,
        testBit_clearBit (by decide : 0 < 64) hidx]
      simp
    · simp only [State.unlink, Function.update_self, he, if_false]
      simp
  · simp [State.unlink, hx]

theorem nrTasks_link {x : ℕ} :
    ((s.link rt cpu idx ins).lo x).nrTasks = (s.lo x).nrTasks + if x = cpu then 1 else 0 := by
  by_cases hx : x = cpu <;> simp [State.link, hx]

theorem nrTasks_unlink {x : ℕ} :
    ((s.unlink rt cpu idx).lo x).nrTasks = (s.lo x).nrTasks - if x = cpu then 1 else 0 := by
  by_cases hx : x = cpu <;> simp [State.unlink, hx]

/-! ## Counting -/

theorem length_filter_ne (l : List ℕ) (x : ℕ) :
    (l.filter (· ≠ x)).length + l.count x = l.length := by
  induction l with
  | nil => rfl
  | cons y l ih =>
    by_cases h : y = x
    · subst h; simp at ih ⊢; omega
    · simp [h] at ih ⊢; omega

/-- One level of one CPU out of all levels. -/
theorem sum_place {k : ℕ × ℤ} (hk : 0 ≤ k.2 ∧ k.2 < reschPrioMax) (x : ℕ) :
    (∑ i ∈ Finset.range reschPrioMax.toNat, if k = (x, (i : ℤ)) then 1 else 0) =
      if x = k.1 then 1 else 0 := by
  obtain ⟨cpu, j⟩ := k
  obtain ⟨m, rfl⟩ := Int.eq_ofNat_of_zero_le hk.1
  have hm : m < reschPrioMax.toNat := by have := hk.2; simp only at this; omega
  by_cases hx : x = cpu
  · subst hx
    simp [hm]
  · have : ∀ i : ℕ, ((cpu, (m : ℤ)) = (x, (i : ℤ))) = False := by
      intro i; simp [Ne.symm hx]
    simp [this, hx]

theorem total_link (hins : AddsOnce ins rt) (hidx : 0 ≤ idx ∧ idx < reschPrioMax) (x : ℕ) :
    ((s.link rt cpu idx ins).lo x).total = (s.lo x).total + if x = cpu then 1 else 0 := by
  rw [← sum_place (k := (cpu, idx)) hidx x, PrioArray.total, PrioArray.total,
    ← Finset.sum_add_distrib]
  refine Finset.sum_congr rfl fun i _ => ?_
  rw [queue_link]
  by_cases h : x = cpu ∧ (i : ℤ) = idx
  · obtain ⟨rfl, rfl⟩ := h
    simp [hins.length]
  · have : ¬ ((cpu, idx) = (x, (i : ℤ))) := by
      rw [Prod.mk.injEq]; exact fun hc => h ⟨hc.1.symm, hc.2.symm⟩
    rw [if_neg h, if_neg this, Nat.add_zero]

theorem Linked.total_unlink (h : Linked s place) {k : ℕ × ℤ} (hk : place rt = some k)
    (hr : 0 ≤ k.2 ∧ k.2 < reschPrioMax) (x : ℕ) :
    ((s.unlink rt cpu idx).lo x).total + (if x = k.1 then 1 else 0) = (s.lo x).total := by
  rw [← sum_place hr x, PrioArray.total, PrioArray.total, ← Finset.sum_add_distrib]
  refine Finset.sum_congr rfl fun i _ => ?_
  have hc := h.placed rt (x, (i : ℤ))
  simp only [hk, Option.some.injEq] at hc
  rw [queue_unlink, ← hc]
  exact length_filter_ne _ _

/-! ## Linking and unlinking -/

theorem Linked.link (h : Linked s place) (hins : AddsOnce ins rt) (hrt : place rt = none) :
    Linked (s.link rt cpu idx ins) (Function.update place rt (some (cpu, idx))) := by
  refine ⟨?_, fun q => ?_⟩
  · rw [levels_link]
    exact h.placed.insert hins hrt (cpu, idx)
  · rw [isActive_link, h.active q, Function.update_apply]
    by_cases hq : q = rt <;> simp [hq]

theorem Linked.unlink (h : Linked s place) :
    Linked (s.unlink rt cpu idx) (Function.update place rt none) := by
  refine ⟨?_, fun q => ?_⟩
  · rw [levels_unlink]
    exact h.placed.unlink rt
  · rw [isActive_unlink, h.active q, Function.update_apply]
    by_cases hq : q = rt <;> simp [hq]

/-- **Enqueueing an inactive task.** -/
theorem Queued.link (h : Queued s place) (hins : AddsOnce ins rt) (hrt : place rt = none)
    (hidx : 0 ≤ idx ∧ idx < reschPrioMax) :
    Queued (s.link rt cpu idx ins) (Function.update place rt (some (cpu, idx))) := by
  refine ⟨h.toLinked.link hins hrt, ?_, ?_, ?_⟩
  · intro q k hq
    rw [Function.update_apply] at hq
    split at hq
    · cases hq; exact hidx
    · exact h.range q k hq
  · intro x i hi
    rw [bits_link hidx.1, queue_link]
    by_cases hc : x = cpu ∧ i = idx
    · simp [hc, hins.ne_nil]
    · simp only [hc, decide_false, Bool.false_or, if_false]
      exact h.bits x i hi
  · intro x
    rw [nrTasks_link, total_link hins hidx, h.count x]
    push_cast; rfl

/-- **Dequeueing an active task from its level.** -/
theorem Queued.unlink (h : Queued s place) (hrt : place rt = some (cpu, idx)) :
    Queued (s.unlink rt cpu idx) (Function.update place rt none) := by
  have hidx := h.range rt _ hrt
  refine ⟨h.toLinked.unlink, ?_, ?_, ?_⟩
  · intro q k hq
    rw [Function.update_apply] at hq
    split at hq
    · cases hq
    · exact h.range q k hq
  · intro x i hi
    rw [bits_unlink hidx.1, queue_unlink]
    by_cases hc : x = cpu ∧ i = idx
    · obtain ⟨rfl, rfl⟩ := hc
      have hne : (s.lo x).queue i ≠ [] := List.ne_nil_of_mem (h.mem_iff.2 hrt)
      have := (h.bits x i hi).2 hne
      simp [this]
    · -- no other level held the task
      have hnot : rt ∉ (s.lo x).queue i := by
        intro hm
        rw [h.mem_iff, hrt, Option.some.injEq, Prod.mk.injEq] at hm
        exact hc ⟨hm.1.symm, hm.2.symm⟩
      have hf : ((s.lo x).queue i).filter (· ≠ rt) = (s.lo x).queue i := by
        rw [List.filter_eq_self]
        intro y hy
        have : y ≠ rt := fun hyr => hnot (hyr ▸ hy)
        simpa using this
      have : ¬ (x = cpu ∧ i = idx ∧ ((s.lo cpu).queue idx).filter (· ≠ rt) = []) :=
        fun hc' => hc ⟨hc'.1, hc'.2.1⟩
      rw [hf]
      simp only [this, decide_false, Bool.not_false, Bool.true_and]
      exact h.bits x i hi
  · intro x
    have htotal : ((s.unlink rt cpu idx).lo x).total + (if x = cpu then 1 else 0) =
        (s.lo x).total := h.toLinked.total_unlink hrt hidx x
    rw [nrTasks_unlink, h.count x, ← htotal]
    split <;> omega

/-- Dequeueing an inactive task does nothing but count it off. -/
theorem Linked.unlink_inactive (h : Linked s place) (hrt : place rt = none) (x : ℕ) (i : ℤ) :
    ((s.unlink rt cpu idx).lo x).queue i = (s.lo x).queue i := by
  rw [queue_unlink]
  exact congrFun (h.placed.unlink_self hrt) (x, i)

end Resch
