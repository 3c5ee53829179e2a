import Mathlib.Algebra.Order.Archimedean.Real.Basic
import Mathlib.Algebra.Order.BigOperators.Group.Finset
import Mathlib.Tactic.Linarith
import Resch.Lib.Service
import Resch.Lib.Workload

/-!
# Deadlines under static priorities

A job is pursued back to the latest instant before its release at which nothing of at least its
priority was left over (`Quiet`). From there on the processor works for such jobs, and in a window
as long as the deadline each task has at most the work of jobs that are released as soon as possible.

* `exists_quiet`: the latest quiet instant.
* `sum_window_eq`: after it, the jobs of at least the priority fill the window.
* `Schedule.done_by_deadline`: if the work that a task and those of at least its priority may have in a
  window fits in it, all jobs of the task meet their deadlines. Ties may be broken in any way.
-/

namespace Resch.Lib

variable {ι κ : Type*} [LinearOrder κ] {T : Finset ι} {P C : ι → ℕ} {prio : ι → κ} {J : Jobs ι}
  {run : ℝ → Option (ι × ℕ)} {i k : ι} {j q D : ℕ} {x y : ι × ℕ} {p : κ} {s t t₀ : ℝ}

/-! ## Quiet instants -/

/-- No job of at least the priority `p` that is released before `t` is left over. -/
def Quiet (J : Jobs ι) (T : Finset ι) (prio : ι → κ) (run : ℝ → Option (ι × ℕ)) (p : κ) (t : ℝ) :
    Prop :=
  ∀ x : ι × ℕ, x.1 ∈ T → p ≤ prio x.1 → J.Has x → J.release x.1 x.2 < t → J.DoneBy run x t

theorem quiet_zero (hJ : J.Sporadic T P C) : Quiet J T prio run p 0 := by
  intro x hT _ hhas hrel
  exact absurd (hJ.release_nonneg' hT hhas) (not_le.2 hrel)

/-- The supremum of quiet instants is quiet. -/
theorem exists_quiet (h : Schedule J T prio run) (hJ : J.Sporadic T P C) (p : κ) {a : ℝ}
    (ha : 0 ≤ a) : ∃ t₀, 0 ≤ t₀ ∧ t₀ ≤ a ∧ Quiet J T prio run p t₀ ∧
      ∀ t, t₀ < t → t ≤ a → ¬ Quiet J T prio run p t := by
  have hbdd : BddAbove {t | 0 ≤ t ∧ t ≤ a ∧ Quiet J T prio run p t} := ⟨a, fun t ht => ht.2.1⟩
  have hzero : (0 : ℝ) ∈ {t | 0 ≤ t ∧ t ≤ a ∧ Quiet J T prio run p t} := ⟨le_rfl, ha, quiet_zero hJ⟩
  refine ⟨sSup {t | 0 ≤ t ∧ t ≤ a ∧ Quiet J T prio run p t}, le_csSup hbdd hzero,
    csSup_le ⟨0, hzero⟩ fun t ht => ht.2.1, ?_, ?_⟩
  · intro x hT hp hhas hrel
    obtain ⟨t, ht, hlt⟩ := exists_lt_of_lt_csSup ⟨0, hzero⟩ hrel
    have hdone : J.cost x.1 x.2 ≤ service run x 0 t := ht.2.2 x hT hp hhas hlt
    exact hdone.trans (service_mono (h.measurable x) ht.1 (le_csSup hbdd ht))
  · intro t hlt hta hq
    have h0 : (0 : ℝ) ≤ sSup {t | 0 ≤ t ∧ t ≤ a ∧ Quiet J T prio run p t} := le_csSup hbdd hzero
    exact absurd (le_csSup hbdd ⟨h0.trans hlt.le, hta, hq⟩) (not_le.2 hlt)

theorem exists_pending_of_not_quiet (h : ¬ Quiet J T prio run p t) :
    ∃ x : ι × ℕ, x.1 ∈ T ∧ p ≤ prio x.1 ∧ J.release x.1 x.2 < t ∧ J.Pending run x t := by
  unfold Quiet at h
  push Not at h
  obtain ⟨x, hT, hp, hhas, hrel, hlt⟩ := h
  exact ⟨x, hT, hp, hrel, hhas, hrel.le, not_le.1 hlt⟩

/-! ## The jobs of a task from an instant on -/

/-- The number of the first job that is not released before `t` -/
noncomputable def firstFrom (J : Jobs ι) (t : ℝ) (i : ι) : ℕ :=
  sInf {l | J.Has (i, l) → t ≤ J.release i l}

theorem firstFrom_spec (hJ : J.Sporadic T P C) (hP : ∀ k ∈ T, 0 < P k) (hi : i ∈ T) (t : ℝ) :
    J.Has (i, firstFrom J t i) → t ≤ J.release i (firstFrom J t i) := by
  obtain ⟨n, hn⟩ := exists_nat_ge t
  refine Nat.sInf_mem (s := {l | J.Has (i, l) → t ≤ J.release i l}) ⟨n, fun hhas => ?_⟩
  have hle := hJ.release_le (j := 0) hi n (by rwa [Nat.zero_add])
  have h0 := hJ.release_nonneg i hi
  have hpos : (1 : ℝ) ≤ P i := by exact_mod_cast hP i hi
  have hmul : (n : ℝ) * 1 ≤ n * P i := mul_le_mul_of_nonneg_left hpos (Nat.cast_nonneg n)
  rw [Nat.zero_add] at hle
  linarith

theorem firstFrom_le (h : t ≤ J.release i j) : firstFrom J t i ≤ j := Nat.sInf_le fun _ => h

theorem release_firstFrom (hJ : J.Sporadic T P C) (hP : ∀ k ∈ T, 0 < P k) (hi : i ∈ T)
    (hhas : J.Has (i, firstFrom J t i + q)) : t + q * P i ≤ J.release i (firstFrom J t i + q) := by
  have hfirst := firstFrom_spec hJ hP hi t (hhas.of_le (by omega))
  have hle := hJ.release_le hi q hhas
  linarith

/-! ## The work in a window -/

/-- A job does not run before its release. -/
theorem Schedule.service_release (h : Schedule J T prio run) (hs : s ≤ J.release x.1 x.2)
    (ht : J.release x.1 x.2 ≤ t) : service run x (J.release x.1 x.2) t = service run x s t := by
  have hzero : service run x s (J.release x.1 x.2) = 0 := by
    refine service_eq_zero fun u _ hu hrun => ?_
    exact absurd (h.pending u x hrun).2.2.1 (not_le.2 hu)
  rw [← service_add (h.measurable x) hs ht, hzero, zero_add]

/-- The job that is released `q` periods into the window, at the earliest -/
theorem service_window_le (h : Schedule J T prio run) (hJ : J.Sporadic T P C)
    (hP : ∀ k ∈ T, 0 < P k) (hi : i ∈ T) (ht : 0 ≤ t) (D q : ℕ) :
    service run (i, firstFrom J t i + q) t (t + D) ≤ (min (C i) (D - q * P i) : ℕ) := by
  by_cases hhas : J.Has (i, firstFrom J t i + q)
  swap
  · rw [h.service_of_not hhas]
    exact Nat.cast_nonneg _
  have hcost := h.service_le_cost (x := (i, firstFrom J t i + q)) (hJ.cost_nonneg i hi _ hhas) (t + D)
  have hC := hJ.cost_le i hi _ hhas
  have hD : (0 : ℝ) ≤ D := Nat.cast_nonneg D
  have hadd := service_add (h.measurable (i, firstFrom J t i + q)) ht (le_add_of_nonneg_right hD)
  have hpos : 0 ≤ service run (i, firstFrom J t i + q) 0 t := service_nonneg
  rw [Nat.cast_min]
  refine le_min ?_ ?_
  · dsimp only at hcost
    linarith
  · by_cases hend : J.release i (firstFrom J t i + q) ≤ t + D
    · have hrel := release_firstFrom hJ hP hi hhas
      have hle : service run (i, firstFrom J t i + q) (J.release i (firstFrom J t i + q)) (t + D) ≤
          t + D - J.release i (firstFrom J t i + q) := service_le hend
      have hmul : (0 : ℝ) ≤ q * P i := by positivity
      have hqD : q * P i ≤ D := by
        have hqD' : (q : ℝ) * P i ≤ D := by linarith
        exact_mod_cast hqD'
      have hstart : t ≤ J.release i (firstFrom J t i + q) := by linarith
      rw [h.service_release (x := (i, firstFrom J t i + q)) hstart hend] at hle
      rw [Nat.cast_sub hqD, Nat.cast_mul]
      linarith
    · have hzero : service run (i, firstFrom J t i + q) t (t + D) = 0 := by
        refine service_eq_zero fun u _ hu hrun => hend ?_
        exact (h.pending u _ hrun).2.2.1.trans hu.le
      rw [hzero]
      exact Nat.cast_nonneg _

/-! ## Busy windows -/

/-- In a window of length `D` that starts when nothing of at least the priority `p` is left over, such a
job is always pending. -/
structure BusyWindow (J : Jobs ι) (T : Finset ι) (P C : ι → ℕ) (prio : ι → κ)
    (run : ℝ → Option (ι × ℕ)) (p : κ) (t₀ : ℝ) (D : ℕ) : Prop where
  schedule : Schedule J T prio run
  sporadic : J.Sporadic T P C
  period_pos : ∀ k ∈ T, 0 < P k
  start_nonneg : 0 ≤ t₀
  quiet : Quiet J T prio run p t₀
  busy : ∀ t, t₀ < t → t < t₀ + D → ∃ x : ι × ℕ, x.1 ∈ T ∧ p ≤ prio x.1 ∧ J.Pending run x t

namespace BusyWindow

/-- A job that has not finished is not one of those from before. -/
theorem start_le (h : BusyWindow J T P C prio run p t₀ D) (hx : x.1 ∈ T) (hp : p ≤ prio x.1)
    (hhas : J.Has x) (ht : t₀ ≤ t) (hleft : service run x 0 t < J.cost x.1 x.2) :
    t₀ ≤ J.release x.1 x.2 := by
  by_contra hbefore
  have hdone : J.cost x.1 x.2 ≤ service run x 0 t₀ := h.quiet x hx hp hhas (not_le.1 hbefore)
  have hmono := service_mono (h.schedule.measurable x) h.start_nonneg ht
  linarith

/-- What is released in the window is counted within it. -/
theorem index_lt (h : BusyWindow J T P C prio run p t₀ D) (hk : k ∈ T)
    (hhas : J.Has (k, firstFrom J t₀ k + q)) (hrel : J.release k (firstFrom J t₀ k + q) < t₀ + D) :
    q * P k < D := by
  have hfrom := release_firstFrom h.sporadic h.period_pos hk hhas
  have hqD : (q : ℝ) * P k < D := by linarith
  exact_mod_cast hqD

/-- The jobs of at least the priority `p` fill the window. -/
theorem sum_service (h : BusyWindow J T P C prio run p t₀ D) :
    ∑ y ∈ T.filter (p ≤ prio ·) ×ˢ Finset.range (D + 1),
      service run (y.1, firstFrom J t₀ y.1 + y.2) t₀ (t₀ + D) = D := by
  have hD : (0 : ℝ) ≤ D := Nat.cast_nonneg D
  have hinj : Set.InjOn (fun y : ι × ℕ => (y.1, firstFrom J t₀ y.1 + y.2))
      (T.filter (p ≤ prio ·) ×ˢ Finset.range (D + 1) : Finset (ι × ℕ)) := by
    rintro ⟨k, q⟩ - ⟨k', q'⟩ - he
    obtain ⟨hk, hq⟩ := Prod.mk.inj he
    dsimp only at hk hq
    subst hk
    rw [Nat.add_left_cancel hq]
  rw [sum_service_eq h.schedule.measurable hinj (le_add_of_nonneg_right hD), add_sub_cancel_left]
  intro t hlt htw
  obtain ⟨x, hT, hp, hpend⟩ := h.busy t hlt htw
  obtain ⟨⟨k, l⟩, hrun, hk, hle, hhas, hrel, hrest⟩ := h.schedule.exists_run hT hpend
  have hstart := h.start_le hk (hp.trans hle) hhas hlt.le hrest
  obtain ⟨q, rfl⟩ : ∃ q, l = firstFrom J t₀ k + q := Nat.exists_eq_add_of_le (firstFrom_le hstart)
  have hqD : q * P k < D := h.index_lt hk hhas (lt_of_le_of_lt hrel htw)
  have hq : q ≤ q * P k := Nat.le_mul_of_pos_right q (h.period_pos k hk)
  refine ⟨(k, q), ?_, hrun⟩
  rw [Finset.mem_product, Finset.mem_filter, Finset.mem_range]
  exact ⟨⟨hk, hp.trans hle⟩, by dsimp only; omega⟩

/-- If the work that there may be fits in the window, all of it is done there. -/
theorem service_eq (h : BusyWindow J T P C prio run p t₀ D)
    (hfit : ∑ k ∈ T.filter (p ≤ prio ·), workload D (P k) (C k) ≤ D) (hk : k ∈ T)
    (hp : p ≤ prio k) (hq : q ≤ D) :
    service run (k, firstFrom J t₀ k + q) t₀ (t₀ + D) = (min (C k) (D - q * P k) : ℕ) := by
  have hle : ∀ y ∈ T.filter (p ≤ prio ·) ×ˢ Finset.range (D + 1),
      service run (y.1, firstFrom J t₀ y.1 + y.2) t₀ (t₀ + D) ≤
        (min (C y.1) (D - y.2 * P y.1) : ℕ) := by
    intro y hy
    rw [Finset.mem_product, Finset.mem_filter] at hy
    exact service_window_le h.schedule h.sporadic h.period_pos hy.1.1 h.start_nonneg D y.2
  have hwork : ∑ y ∈ T.filter (p ≤ prio ·) ×ˢ Finset.range (D + 1),
      ((min (C y.1) (D - y.2 * P y.1) : ℕ) : ℝ) ≤ D := by
    rw [← Nat.cast_sum, Finset.sum_product, Nat.cast_le]
    refine (Finset.sum_le_sum fun k hk => ?_).trans hfit
    rw [Finset.mem_filter] at hk
    exact (workload_eq_sum (C := C k) (h.period_pos k hk.1) (Nat.lt_succ_self D)).ge
  have heq := (Finset.sum_eq_sum_iff_of_le hle).1
    (le_antisymm (Finset.sum_le_sum hle) (hwork.trans_eq h.sum_service.symm))
  refine heq (k, q) ?_
  rw [Finset.mem_product, Finset.mem_filter, Finset.mem_range]
  exact ⟨⟨hk, hp⟩, Nat.lt_succ_of_le hq⟩

/-- What is left over at its end runs from its release on. -/
theorem left_over (h : BusyWindow J T P C prio run p t₀ D)
    (hfit : ∑ k ∈ T.filter (p ≤ prio ·), workload D (P k) (C k) ≤ D) (hx : x.1 ∈ T)
    (hp : p ≤ prio x.1) (hhas : J.Has x) (hrel : J.release x.1 x.2 < t₀ + D)
    (hleft : service run x 0 (t₀ + D) < J.cost x.1 x.2) :
    t₀ ≤ J.release x.1 x.2 ∧
      service run x (J.release x.1 x.2) (t₀ + D) = t₀ + D - J.release x.1 x.2 := by
  have hD : (0 : ℝ) ≤ D := Nat.cast_nonneg D
  have hstart := h.start_le hx hp hhas (le_add_of_nonneg_right hD) hleft
  refine ⟨hstart, le_antisymm (service_le hrel.le) ?_⟩
  rw [h.schedule.service_release hstart hrel.le]
  obtain ⟨k, l⟩ := x
  obtain ⟨q, rfl⟩ : ∃ q, l = firstFrom J t₀ k + q := Nat.exists_eq_add_of_le (firstFrom_le hstart)
  have hfrom := release_firstFrom h.sporadic h.period_pos hx hhas
  have hqD : q * P k < D := h.index_lt hx hhas hrel
  have hq : q ≤ q * P k := Nat.le_mul_of_pos_right q (h.period_pos k hx)
  have heq := h.service_eq (k := k) hfit hx hp (by omega : q ≤ D)
  have hadd := service_add (h.schedule.measurable (k, firstFrom J t₀ k + q)) h.start_nonneg
    (le_add_of_nonneg_right hD)
  have hpos : 0 ≤ service run (k, firstFrom J t₀ k + q) 0 t₀ := service_nonneg
  have hcost := h.sporadic.cost_le k hx _ hhas
  -- it has not executed for `C`, so the end of the window has cut it off
  have hcut : ¬ C k ≤ D - q * P k := by
    intro hC
    rw [heq, min_eq_left hC] at hadd
    dsimp only at hleft
    linarith
  rw [heq, min_eq_right (by omega), Nat.cast_sub hqD.le, Nat.cast_mul]
  dsimp only
  linarith

/-- If there is no quiet instant inside and the first job of some task has something to do there, the
window ends quiet. -/
theorem quiet_end (h : BusyWindow J T P C prio run p t₀ D)
    (hfit : ∑ k ∈ T.filter (p ≤ prio ·), workload D (P k) (C k) ≤ D) (hi : i ∈ T)
    (hp : p ≤ prio i) (hC : 0 < C i) (hCD : C i ≤ D)
    (hnone : ∀ t, t₀ < t → t < t₀ + D → ¬ Quiet J T prio run p t) :
    Quiet J T prio run p (t₀ + D) := by
  have hm := h.schedule.measurable
  have ht := h.start_nonneg
  have hD : (0 : ℝ) ≤ D := Nat.cast_nonneg D
  have hCpos : (0 : ℝ) < C i := by exact_mod_cast hC
  have hfirst := h.service_eq (q := 0) hfit hi hp (Nat.zero_le D)
  rw [Nat.zero_mul, Nat.sub_zero, min_eq_left hCD, Nat.add_zero] at hfirst
  by_contra hend
  obtain ⟨x, hx, hpx, hrx, hxhas, -, hxleft⟩ := exists_pending_of_not_quiet hend
  obtain ⟨hxt, hxfull⟩ := h.left_over hfit hx hpx hxhas hrx hxleft
  rcases hxt.eq_or_lt with hxt | hxt
  · -- what is left over has taken the whole window from that first job
    have hne : x ≠ (i, firstFrom J t₀ i) := by
      rintro rfl
      have hcost := h.sporadic.cost_le i hi _ hxhas
      have hadd := service_add (hm (i, firstFrom J t₀ i)) ht (le_add_of_nonneg_right hD)
      have hpos : 0 ≤ service run (i, firstFrom J t₀ i) 0 t₀ := service_nonneg
      dsimp only at hxleft
      linarith
    have hpair := service_pair_le hm hne (le_add_of_nonneg_right hD : t₀ ≤ t₀ + D)
    rw [← hxt] at hxfull
    linarith
  · -- what was left over when it was released does not run after that, and so must not wait
    obtain ⟨y, hy, hpy, hry, hyhas, -, hyleft⟩ := exists_pending_of_not_quiet (hnone _ hxt hrx)
    have hne : x ≠ y := by
      rintro rfl
      exact lt_irrefl _ hry
    have hpair := service_pair_le hm hne hrx.le
    have hry0 := h.sporadic.release_nonneg' hy hyhas
    have hyadd := service_add (hm y) (hry0.trans hry.le) hrx.le
    obtain ⟨-, hyfull⟩ := h.left_over hfit hy hpy hyhas (hry.trans hrx) (by linarith)
    have hyadd' := service_add (hm y) hry.le hrx.le
    have hyle : service run y (J.release y.1 y.2) (J.release x.1 x.2) ≤
        J.release x.1 x.2 - J.release y.1 y.2 := service_le hry.le
    linarith

end BusyWindow

/-- **Deadlines are met.** If the work of at least the priority of `i` that there may be in a window of
length `D` fits in it, every job of `i` finishes within `D`. -/
theorem Schedule.done_by_deadline (h : Schedule J T prio run) (hJ : J.Sporadic T P C)
    (hP : ∀ k ∈ T, 0 < P k) (hi : i ∈ T) (hD : 0 < D) (hDP : D ≤ P i) (hCD : C i ≤ D)
    (hfit : ∑ k ∈ T.filter (prio i ≤ prio ·), workload D (P k) (C k) ≤ D) (hhas : J.Has (i, j)) :
    J.DoneBy run (i, j) (J.release i j + D) := by
  unfold Jobs.DoneBy
  by_contra hmiss
  have hmiss := not_le.1 hmiss
  have ha := hJ.release_nonneg' hi hhas
  have hC := hJ.cost_le i hi j hhas
  have hD' : (0 : ℝ) < D := by exact_mod_cast hD
  obtain ⟨t₀, ht, hta, hquiet, hlast⟩ := exists_quiet h hJ (prio i) ha
  have hw : BusyWindow J T P C prio run (prio i) t₀ D := by
    refine ⟨h, hJ, hP, ht, hquiet, fun t hlt htw => ?_⟩
    by_cases hta' : t ≤ J.release i j
    · obtain ⟨x, hT, hp, -, hpend⟩ := exists_pending_of_not_quiet (hlast t hlt hta')
      exact ⟨x, hT, hp, hpend⟩
    · -- after its release it is the job itself
      refine ⟨(i, j), hi, le_rfl, ?_⟩
      exact h.pending_mono (t := J.release i j + D) hhas (not_le.1 hta').le (ht.trans hlt.le)
        (by linarith) hmiss
  obtain ⟨q, rfl⟩ := Nat.exists_eq_add_of_le (firstFrom_le hta)
  rcases Nat.eq_zero_or_pos q with rfl | hq
  · -- the first job of the task in the window is done there
    have hfirst := hw.service_eq (q := 0) hfit hi le_rfl (Nat.zero_le D)
    have hm := h.measurable (i, firstFrom J t₀ i + 0)
    have hadd := service_add hm ht (le_add_of_nonneg_right hD'.le)
    have hpos : 0 ≤ service run (i, firstFrom J t₀ i + 0) 0 t₀ := service_nonneg
    have hmono := service_mono hm (ht.trans (le_add_of_nonneg_right hD'.le))
      (show t₀ + D ≤ J.release i (firstFrom J t₀ i + 0) + D by linarith)
    rw [Nat.zero_mul, Nat.sub_zero, min_eq_left hCD] at hfirst
    linarith
  · -- a later one is released after the end, up to which there is no quiet instant
    have hend : t₀ + D ≤ J.release i (firstFrom J t₀ i + q) := by
      have hfrom := release_firstFrom hJ hP hi hhas
      have hqP : P i ≤ q * P i := Nat.le_mul_of_pos_left _ hq
      have hDq : (D : ℝ) ≤ q * P i := by exact_mod_cast hDP.trans hqP
      linarith
    have hCpos : (0 : ℝ) < C i := lt_of_le_of_lt service_nonneg (hmiss.trans_le hC)
    refine hlast (t₀ + D) (by linarith) hend ?_
    exact hw.quiet_end hfit hi le_rfl (by exact_mod_cast hCpos) hCD fun t hlt htw =>
      hlast t hlt (htw.le.trans hend)

end Resch.Lib
