import Mathlib.Data.List.Basic

/-!
# Ready lists whose first entry runs

A dispatcher by hand: each entry of a ready list has a state, the first one runs and all
others wait. `HeadRuns` is that property of one list.
-/

namespace Resch.Lib

variable {α σ : Type*} {st st' : α → σ} {run wait : σ} {l : List α} {x : α}

/-- The first entry runs and the others wait. -/
def HeadRuns (st : α → σ) (run wait : σ) : List α → Prop
  | [] => True
  | x :: l => st x = run ∧ ∀ y ∈ l, st y = wait

theorem HeadRuns.congr (h : HeadRuns st run wait l) (hst : ∀ x ∈ l, st' x = st x) :
    HeadRuns st' run wait l := by
  cases l with
  | nil => trivial
  | cons x l =>
    refine ⟨(hst x (by simp)).trans h.1, fun y hy => ?_⟩
    exact (hst y (by simp [hy])).trans (h.2 y hy)

theorem HeadRuns.head (h : HeadRuns st run wait l) (hx : l.head? = some x) : st x = run := by
  cases l with
  | nil => cases hx
  | cons y l =>
    rw [List.head?_cons, Option.some.injEq] at hx
    rw [← hx]; exact h.1

/-- The entry that runs is the first one. -/
theorem HeadRuns.head_of_runs (h : HeadRuns st run wait l) (hne : run ≠ wait) (hx : x ∈ l)
    (hr : st x = run) : ∃ t, l = x :: t := by
  cases l with
  | nil => cases hx
  | cons y t =>
    rcases List.mem_cons.1 hx with rfl | hx
    · exact ⟨t, rfl⟩
    · exact absurd (hr.symm.trans (h.2 x hx)) hne

/-- Two entries do not run at once. -/
theorem HeadRuns.unique (h : HeadRuns st run wait l) (hne : run ≠ wait) {y : α} (hx : x ∈ l) (hy : y ∈ l)
    (hxr : st x = run) (hyr : st y = run) : x = y := by
  obtain ⟨t, rfl⟩ := h.head_of_runs hne hx hxr
  obtain ⟨t', ht⟩ := h.head_of_runs hne hy hyr
  exact (List.cons.inj ht).1

end Resch.Lib
