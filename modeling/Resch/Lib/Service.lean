import Mathlib.Data.ENat.Basic
import Mathlib.MeasureTheory.Measure.Lebesgue.Basic
import Mathlib.MeasureTheory.Measure.Real

/-!
# Schedules of one processor in real time

A schedule says which job runs at each instant. What it has done for a job by some time is the
length of the time for which the job has run until then.

* `sum_service_le`, `sum_service_eq`: a processor does no more work in a window than the window is
  long, and as much if it is busy throughout.
* `Jobs.Sporadic`, `Schedule`: which jobs there are, and which schedules a scheduler by priorities
  makes of them.
* `Schedule.service_le_cost`: no job runs for longer than it executes.
-/

namespace Resch.Lib

open MeasureTheory

/-! ## The time for which a job runs -/

section Served

variable {α β : Type*} {run : ℝ → Option α} {x y : α} {a b c : ℝ} {s : Finset β} {f : β → α}

/-- The time for which the job `x` runs from `a` to `b` -/
noncomputable def service (run : ℝ → Option α) (x : α) (a b : ℝ) : ℝ :=
  volume.real (Set.Ico a b ∩ {t | run t = some x})

theorem window_ne_top (u : Set ℝ) : volume (Set.Ico a b ∩ u) ≠ ⊤ :=
  measure_ne_top_of_subset Set.inter_subset_left measure_Ico_lt_top.ne

theorem service_nonneg : 0 ≤ service run x a b := measureReal_nonneg

theorem service_le (h : a ≤ b) : service run x a b ≤ b - a := by
  rw [← Real.volume_real_Ico_of_le h]
  exact measureReal_mono Set.inter_subset_left measure_Ico_lt_top.ne

theorem service_add (hm : MeasurableSet {t | run t = some x}) (hab : a ≤ b) (hbc : b ≤ c) :
    service run x a b + service run x b c = service run x a c := by
  unfold service
  rw [← Set.Ico_union_Ico_eq_Ico hab hbc, Set.union_inter_distrib_right]
  refine (measureReal_union ?_ (measurableSet_Ico.inter hm) (window_ne_top _)
    (window_ne_top _)).symm
  refine Set.disjoint_left.2 fun t ht ht' => ?_
  exact absurd ht.1.2 (not_lt.2 ht'.1.1)

theorem service_mono (hm : MeasurableSet {t | run t = some x}) (hab : a ≤ b) (hbc : b ≤ c) :
    service run x a b ≤ service run x a c := by
  have hadd := service_add hm hab hbc
  have hpos : 0 ≤ service run x b c := service_nonneg
  linarith

/-- One instant does not count. -/
theorem service_eq_zero (h : ∀ t, a < t → t < b → run t ≠ some x) : service run x a b = 0 := by
  have hsub : Set.Ico a b ∩ {t | run t = some x} ⊆ {a} := by
    rintro t ⟨⟨hat, htb⟩, hrun⟩
    by_contra hne
    exact h t (lt_of_le_of_ne hat fun he => hne he.symm) htb hrun
  unfold service
  rw [measureReal_def, measure_mono_null hsub Real.volume_singleton, ENNReal.toReal_zero]

theorem sum_service (hm : ∀ x, MeasurableSet {t | run t = some x}) (hf : Set.InjOn f s) :
    ∑ i ∈ s, service run (f i) a b =
      volume.real (⋃ i ∈ s, Set.Ico a b ∩ {t | run t = some (f i)}) := by
  refine (measureReal_biUnion_finset ?_ (fun i _ => measurableSet_Ico.inter (hm _))
    fun i _ => window_ne_top _).symm
  -- one job runs at a time
  intro i hi j hj hij
  refine Set.disjoint_left.2 fun t ht ht' => hij (hf hi hj ?_)
  exact Option.some.inj (ht.2.symm.trans ht'.2)

theorem sum_service_le (hm : ∀ x, MeasurableSet {t | run t = some x}) (hf : Set.InjOn f s)
    (h : a ≤ b) : ∑ i ∈ s, service run (f i) a b ≤ b - a := by
  rw [sum_service hm hf, ← Real.volume_real_Ico_of_le h]
  refine measureReal_mono ?_ measure_Ico_lt_top.ne
  exact Set.iUnion₂_subset fun i _ => Set.inter_subset_left

/-- Two jobs share the time. -/
theorem service_pair_le (hm : ∀ x, MeasurableSet {t | run t = some x}) (hxy : x ≠ y) (h : a ≤ b) :
    service run x a b + service run y a b ≤ b - a := by
  classical
  have hsum := sum_service_le (s := {x, y}) (f := id) hm (Set.injOn_id _) h
  rwa [Finset.sum_pair hxy] at hsum

theorem sum_service_eq (hm : ∀ x, MeasurableSet {t | run t = some x}) (hf : Set.InjOn f s)
    (h : a ≤ b) (hbusy : ∀ t, a < t → t < b → ∃ i ∈ s, run t = some (f i)) :
    ∑ i ∈ s, service run (f i) a b = b - a := by
  refine le_antisymm (sum_service_le hm hf h) ?_
  rw [sum_service hm hf, ← Real.volume_real_Ioo_of_le h]
  refine measureReal_mono ?_ ?_
  · rintro t ⟨hat, htb⟩
    obtain ⟨i, hi, hrun⟩ := hbusy t hat htb
    exact Set.mem_iUnion₂.2 ⟨i, hi, ⟨hat.le, htb⟩, hrun⟩
  · rw [← Set.inter_iUnion₂]
    exact window_ne_top _

/-- A job that runs throughout -/
theorem service_full (hm : ∀ x, MeasurableSet {t | run t = some x}) (h : a ≤ b)
    (hrun : ∀ t, a < t → t < b → run t = some x) : service run x a b = b - a := by
  have hsum := sum_service_eq (s := {x}) (f := id) hm (Set.injOn_id _) h fun t hat htb =>
    ⟨x, Finset.mem_singleton_self x, hrun t hat htb⟩
  rwa [Finset.sum_singleton] at hsum

end Served

/-! ## Jobs and schedules -/

/-- How many jobs each task releases, when, and for how long they execute -/
structure Jobs (ι : Type*) where
  count : ι → ℕ∞
  release : ι → ℕ → ℝ
  cost : ι → ℕ → ℝ

variable {ι κ : Type*} [LinearOrder κ] {T : Finset ι} {P C : ι → ℕ} {prio : ι → κ} {J : Jobs ι}
  {run : ℝ → Option (ι × ℕ)} {i : ι} {j : ℕ} {x : ι × ℕ} {s t : ℝ}

namespace Jobs

/-- The task releases the job. -/
def Has (J : Jobs ι) (x : ι × ℕ) : Prop := x.2 < J.count x.1

/-- A job is released and has not finished. -/
def Pending (J : Jobs ι) (run : ℝ → Option (ι × ℕ)) (x : ι × ℕ) (t : ℝ) : Prop :=
  J.Has x ∧ J.release x.1 x.2 ≤ t ∧ service run x 0 t < J.cost x.1 x.2

/-- A job has finished by `t`. -/
def DoneBy (J : Jobs ι) (run : ℝ → Option (ι × ℕ)) (x : ι × ℕ) (t : ℝ) : Prop :=
  J.cost x.1 x.2 ≤ service run x 0 t

/-- The jobs of a task are at least its period apart, and none executes for longer than `C`. -/
structure Sporadic (J : Jobs ι) (T : Finset ι) (P C : ι → ℕ) : Prop where
  release_nonneg : ∀ i ∈ T, 0 ≤ J.release i 0
  apart : ∀ i ∈ T, ∀ j, J.Has (i, j + 1) → J.release i j + P i ≤ J.release i (j + 1)
  cost_nonneg : ∀ i ∈ T, ∀ j, J.Has (i, j) → 0 ≤ J.cost i j
  cost_le : ∀ i ∈ T, ∀ j, J.Has (i, j) → J.cost i j ≤ C i

end Jobs

/-- A schedule by priorities: the jobs of a task run in order, the processor is not idle while a job is
pending, and no job runs while one with a higher priority is pending. -/
structure Schedule (J : Jobs ι) (T : Finset ι) (prio : ι → κ) (run : ℝ → Option (ι × ℕ)) : Prop where
  measurable : ∀ x, MeasurableSet {t | run t = some x}
  pending : ∀ t x, run t = some x → x.1 ∈ T ∧ J.Pending run x t
  inOrder : ∀ t x j, run t = some x → j < x.2 → ¬ J.Pending run (x.1, j) t
  busy : ∀ t x, x.1 ∈ T → J.Pending run x t → run t ≠ none
  urgent : ∀ t x y, run t = some x → y.1 ∈ T → J.Pending run y t → prio y.1 ≤ prio x.1

/-- The jobs before one that a task releases are released, too. -/
theorem Jobs.Has.of_le {j' : ℕ} (h : J.Has (i, j)) (hle : j' ≤ j) : J.Has (i, j') :=
  lt_of_le_of_lt (Nat.cast_le.2 hle) h

theorem Jobs.Sporadic.release_le (h : J.Sporadic T P C) (hi : i ∈ T) :
    ∀ q, J.Has (i, j + q) → J.release i j + q * P i ≤ J.release i (j + q) := by
  intro q
  induction q with
  | zero =>
    intro _
    simp
  | succ q ih =>
    intro hq
    have hprev := ih (hq.of_le (by omega))
    have hnext := h.apart i hi (j + q) hq
    rw [← Nat.add_assoc]
    push_cast
    linarith

theorem Jobs.Sporadic.release_nonneg' (h : J.Sporadic T P C) (hi : i ∈ T) (hj : J.Has (i, j)) :
    0 ≤ J.release i j := by
  have hle := h.release_le (j := 0) hi j (by rwa [Nat.zero_add])
  have h0 := h.release_nonneg i hi
  have hmul : (0 : ℝ) ≤ j * P i := by positivity
  rw [Nat.zero_add] at hle
  linarith

/-- A pending job stays pending until it has executed. -/
theorem Schedule.pending_mono (h : Schedule J T prio run) (hp : J.Has x)
    (hr : J.release x.1 x.2 ≤ s) (hs : 0 ≤ s) (hst : s ≤ t)
    (ht : service run x 0 t < J.cost x.1 x.2) : J.Pending run x s :=
  ⟨hp, hr, (service_mono (h.measurable x) hs hst).trans_lt ht⟩

/-- Something at least as urgent as a pending job runs. -/
theorem Schedule.exists_run (h : Schedule J T prio run) (hx : x.1 ∈ T) (hp : J.Pending run x t) :
    ∃ y, run t = some y ∧ y.1 ∈ T ∧ prio x.1 ≤ prio y.1 ∧ J.Pending run y t := by
  obtain ⟨y, hy⟩ := Option.ne_none_iff_exists'.1 (h.busy t x hx hp)
  obtain ⟨hT, hpend⟩ := h.pending t y hy
  exact ⟨y, hy, hT, h.urgent t y x hy hx hp, hpend⟩

/-- A job runs only while it has not executed for its cost. -/
theorem Schedule.service_le_cost (h : Schedule J T prio run) (hcost : 0 ≤ J.cost x.1 x.2) (t : ℝ) :
    service run x 0 t ≤ J.cost x.1 x.2 := by
  have hm := h.measurable x
  by_cases hne : (Set.Ico 0 t ∩ {u | run u = some x}).Nonempty
  · set v := sSup (Set.Ico 0 t ∩ {u | run u = some x}) with hv
    have hbdd : BddAbove (Set.Ico 0 t ∩ {u | run u = some x}) := ⟨t, fun u hu => hu.1.2.le⟩
    obtain ⟨u₀, hu₀⟩ := hne
    have hv0 : 0 ≤ v := hu₀.1.1.trans (le_csSup hbdd hu₀)
    have hvt : v ≤ t := csSup_le ⟨u₀, hu₀⟩ fun u hu => hu.1.2.le
    -- the job does not run after `v`
    have hafter : service run x v t = 0 := by
      refine service_eq_zero fun u hvu hut hrun => ?_
      exact absurd (le_csSup hbdd ⟨⟨hv0.trans hvu.le, hut⟩, hrun⟩) (not_le.2 hvu)
    rw [← service_add hm hv0 hvt, hafter, add_zero]
    -- and has not executed completely just before
    refine le_of_forall_pos_le_add fun ε hε => ?_
    obtain ⟨u, hu, hlt⟩ := exists_lt_of_lt_csSup ⟨u₀, hu₀⟩ (show v - ε < v by linarith)
    have huv : u ≤ v := le_csSup hbdd hu
    have hpend := (h.pending u x hu.2).2.2.2
    have hrest : service run x u v ≤ v - u := service_le huv
    rw [← service_add hm hu.1.1 huv]
    linarith
  · have hzero : service run x 0 t = 0 := by
      refine service_eq_zero fun u hu hut hrun => hne ⟨u, ⟨hu.le, hut⟩, hrun⟩
    rw [hzero]
    exact hcost

/-- A job that no task releases does not run. -/
theorem Schedule.service_of_not (h : Schedule J T prio run) (hx : ¬ J.Has x) :
    service run x s t = 0 :=
  service_eq_zero fun u _ _ hrun => hx (h.pending u x hrun).2.1

end Resch.Lib
