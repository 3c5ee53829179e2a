import Mathlib.Algebra.Order.BigOperators.Group.Finset
import Mathlib.Algebra.Module.NatInt
import Mathlib.Order.Interval.Finset.Nat

/-!
# Work of periodic jobs in a window

Jobs of length at most `C` are released every `P` from time 0 on. A schedule says which job runs in
each unit of time.

* `workload_eq`: the work that the jobs may do in a window, in closed form.
* `isGreatest_workload`: it is the most work that a schedule does in the window.
* `workload_mono_window`, `workload_mono_cost`, `workload_anti_period`, `workload_le`.
-/

namespace Resch.Lib

variable {L L' P P' C C' k t : ℕ} {run : ℕ → Option ℕ}

/-- What each job released by the end of the window can do until then, in sum -/
def workload (L P C : ℕ) : ℕ :=
  ∑ k ∈ (Finset.range (L + 1)).filter fun k => k * P ≤ L, min C (L - k * P)

/-- No job runs before its release, or for longer than `C`. -/
structure LegalRun (P C : ℕ) (run : ℕ → Option ℕ) : Prop where
  released : ∀ t k, run t = some k → k * P ≤ t
  length : ∀ k L, ((Finset.range L).filter fun t => run t = some k).card ≤ C

/-- The units of time before `L` in which a job runs -/
def executed (run : ℕ → Option ℕ) (L : ℕ) : ℕ :=
  ((Finset.range L).filter fun t => (run t).isSome).card

/-! ## Monotonicity -/

theorem workload_mono_window (h : L ≤ L') : workload L P C ≤ workload L' P C := by
  have hsub : (Finset.range (L + 1)).filter (fun k => k * P ≤ L) ⊆
      (Finset.range (L' + 1)).filter fun k => k * P ≤ L' := by
    intro k hk
    rw [Finset.mem_filter, Finset.mem_range] at hk ⊢
    omega
  refine (Finset.sum_le_sum fun k _ => ?_).trans
    (Finset.sum_le_sum_of_subset_of_nonneg hsub fun _ _ _ => Nat.zero_le _)
  omega

theorem workload_mono_cost (h : C ≤ C') : workload L P C ≤ workload L P C' := by
  refine Finset.sum_le_sum fun k _ => ?_
  omega

theorem workload_anti_period (h : P ≤ P') : workload L P' C ≤ workload L P C := by
  have hsub : (Finset.range (L + 1)).filter (fun k => k * P' ≤ L) ⊆
      (Finset.range (L + 1)).filter fun k => k * P ≤ L := by
    intro k hk
    rw [Finset.mem_filter] at hk ⊢
    exact ⟨hk.1, (Nat.mul_le_mul_left k h).trans hk.2⟩
  refine (Finset.sum_le_sum fun k _ => ?_).trans
    (Finset.sum_le_sum_of_subset_of_nonneg hsub fun _ _ _ => Nat.zero_le _)
  have hk : k * P ≤ k * P' := Nat.mul_le_mul_left k h
  omega

/-! ## The closed form -/

theorem released_eq (hP : 0 < P) :
    (Finset.range (L + 1)).filter (fun k => k * P ≤ L) = Finset.range (L / P + 1) := by
  ext k
  rw [Finset.mem_filter, Finset.mem_range, Finset.mem_range, Nat.lt_succ_iff, Nat.lt_succ_iff,
    Nat.le_div_iff_mul_le hP]
  refine ⟨fun h => h.2, fun h => ⟨?_, h⟩⟩
  exact (Nat.le_mul_of_pos_right k hP).trans h

/-- All jobs but the last are done within their period. -/
theorem workload_eq (hP : 0 < P) (hC : C ≤ P) :
    workload L P C = L / P * C + min C (L - L / P * P) := by
  unfold workload
  rw [released_eq hP, Finset.sum_range_succ]
  congr 1
  have hall : ∀ k ∈ Finset.range (L / P), min C (L - k * P) = C := by
    intro k hk
    have hle : (k + 1) * P ≤ L / P * P := Nat.mul_le_mul_right P (Finset.mem_range.1 hk)
    have hdiv := Nat.div_mul_le_self L P
    rw [Nat.succ_mul] at hle
    omega
  rw [Finset.sum_congr rfl hall, Finset.sum_const, Finset.card_range, smul_eq_mul]

/-- Jobs after the end of the window add nothing. -/
theorem workload_eq_sum {n : ℕ} (hP : 0 < P) (hn : L < n) :
    workload L P C = ∑ k ∈ Finset.range n, min C (L - k * P) := by
  have hsub : (Finset.range (L + 1)).filter (fun k => k * P ≤ L) ⊆ Finset.range n := by
    intro k hk
    rw [Finset.mem_filter, Finset.mem_range] at hk
    rw [Finset.mem_range]
    omega
  refine Finset.sum_subset hsub fun k _ hk => ?_
  have hle : k ≤ k * P := Nat.le_mul_of_pos_right k hP
  rw [Finset.mem_filter, Finset.mem_range] at hk
  omega

/-! ## Schedules -/

/-- The work of a schedule, job by job -/
theorem executed_eq (hP : 0 < P) (h : ∀ t k, run t = some k → k * P ≤ t) :
    executed run L = ∑ k ∈ (Finset.range (L + 1)).filter fun k => k * P ≤ L,
      ((Finset.range L).filter fun t => run t = some k).card := by
  have hmaps : (((Finset.range L).filter fun t => (run t).isSome : Finset ℕ) : Set ℕ).MapsTo
      (fun t => (run t).getD 0) ((Finset.range (L + 1)).filter fun k => k * P ≤ L : Finset ℕ) := by
    intro t ht
    rw [Finset.mem_coe, Finset.mem_filter, Finset.mem_range] at ht
    obtain ⟨k, hk⟩ := Option.isSome_iff_exists.1 ht.2
    have hrel := h t k hk
    have hle : k ≤ k * P := Nat.le_mul_of_pos_right k hP
    rw [Finset.mem_coe, Finset.mem_filter, Finset.mem_range]
    dsimp only
    rw [hk, Option.getD_some]
    omega
  unfold executed
  rw [Finset.card_eq_sum_card_fiberwise hmaps]
  refine Finset.sum_congr rfl fun k _ => congrArg Finset.card ?_
  -- a unit of time counts for the job that runs in it
  ext t
  rw [Finset.mem_filter, Finset.mem_filter, Finset.mem_filter]
  cases hrun : run t with
  | none => simp
  | some j => simp

/-- A job runs after its release only. -/
theorem card_job_le (h : LegalRun P C run) (k : ℕ) :
    ((Finset.range L).filter fun t => run t = some k).card ≤ min C (L - k * P) := by
  refine le_min (h.length k L) ?_
  rw [← Nat.card_Ico]
  refine Finset.card_le_card fun t ht => ?_
  rw [Finset.mem_filter, Finset.mem_range] at ht
  exact Finset.mem_Ico.2 ⟨h.released t k ht.2, ht.1⟩

theorem executed_le_workload (hP : 0 < P) (h : LegalRun P C run) :
    executed run L ≤ workload L P C := by
  rw [executed_eq hP h.released]
  exact Finset.sum_le_sum fun k _ => card_job_le h k

/-- Each job runs at once when it is released. -/
def eagerRun (P C t : ℕ) : Option ℕ := if t % P < C then some (t / P) else none

theorem eagerRun_eq_some (hP : 0 < P) (hC : C ≤ P) :
    eagerRun P C t = some k ↔ k * P ≤ t ∧ t < k * P + C := by
  have hdiv := Nat.div_add_mod t P
  have hmod := Nat.mod_lt t hP
  unfold eagerRun
  constructor
  · intro h
    split at h
    · cases h
      rw [Nat.mul_comm] at hdiv
      omega
    · cases h
  · rintro ⟨h1, h2⟩
    have hk : t / P = k := by
      rw [Nat.div_eq_iff hP]
      omega
    rw [hk, Nat.mul_comm] at hdiv
    rw [if_pos (by omega), hk]

theorem card_eagerRun (hP : 0 < P) (hC : C ≤ P) :
    ((Finset.range L).filter fun t => eagerRun P C t = some k).card = min C (L - k * P) := by
  have hset : (Finset.range L).filter (fun t => eagerRun P C t = some k) =
      Finset.Ico (k * P) (min (k * P + C) L) := by
    ext t
    rw [Finset.mem_filter, Finset.mem_range, eagerRun_eq_some hP hC, Finset.mem_Ico]
    omega
  rw [hset, Nat.card_Ico]
  omega

theorem eagerRun_legal (hP : 0 < P) (hC : C ≤ P) : LegalRun P C (eagerRun P C) := by
  refine ⟨fun t k h => ((eagerRun_eq_some hP hC).1 h).1, fun k L => ?_⟩
  rw [card_eagerRun hP hC]
  exact min_le_left ..

/-- **The most work in a window.** -/
theorem isGreatest_workload (hP : 0 < P) (hC : C ≤ P) :
    IsGreatest {n | ∃ run, LegalRun P C run ∧ executed run L = n} (workload L P C) := by
  have hlegal := eagerRun_legal hP hC
  constructor
  · refine ⟨eagerRun P C, hlegal, ?_⟩
    rw [executed_eq hP hlegal.released]
    exact Finset.sum_congr rfl fun k _ => card_eagerRun hP hC
  · rintro n ⟨run, hrun, rfl⟩
    exact executed_le_workload hP hrun

theorem workload_le (hP : 0 < P) (hC : C ≤ P) : workload L P C ≤ L := by
  obtain ⟨⟨run, -, he⟩, -⟩ := isGreatest_workload (L := L) hP hC
  rw [← he]
  exact (Finset.card_filter_le _ _).trans_eq (Finset.card_range L)

end Resch.Lib
