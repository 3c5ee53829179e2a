import Mathlib.Algebra.BigOperators.Group.List.Lemmas
import Mathlib.Algebra.Order.Field.Rat
import Mathlib.Algebra.Order.BigOperators.Group.List
import Mathlib.Data.Nat.Cast.Field
import Mathlib.Tactic.FieldSimp
import Mathlib.Tactic.GCongr
import Mathlib.Tactic.Linarith
import Mathlib.Tactic.Positivity
import Mathlib.Tactic.Ring

/-!
# Demand bounds of periodic work

A piece of work releases jobs at least a period apart, each due a relative deadline after its
release. Costs are in a unit of which `k` make one unit of time, and a demand is rounded up to
whole units of time, for each piece on its own.

* `demand_add`: after the largest deadline, `k` hyperperiods add the cost of all jobs in them.
* `demand_le_of_deadlines`: a demand that fits at the deadlines fits in every interval.
* `demand_le_iff`: the demand fits in every interval iff the utilisation is at most one and it
  fits at the deadlines before the largest one plus `k` hyperperiods.
* `demand_le_line`: from the largest deadline on, the demand stays below a line whose slope is the
  utilisation.
* `demand_le_of_tested`: a demand that fits at the deadlines up to the point where that line is below
  the length fits in every interval.
-/

namespace Resch.Lib

structure Piece where
  deadline : ℕ
  period : ℕ
  cost : ℕ

namespace Piece

variable (k : ℕ) (p : Piece) (L : ℕ)

/-- The most jobs with release and deadline in an interval of length `L`. -/
def jobs : ℕ := if L < p.deadline then 0 else (L - p.deadline) / p.period + 1

def demand : ℕ := (p.jobs L * p.cost + k - 1) / k

end Piece

def demand (k : ℕ) (ps : List Piece) (L : ℕ) : ℕ := (ps.map fun p => p.demand k L).sum

def hyperperiod (ps : List Piece) : ℕ := ps.foldr (fun p => Nat.lcm p.period) 1

def maxDeadline (ps : List Piece) : ℕ := ps.foldr (fun p => max p.deadline) 0

/-- The part of the time that the jobs take. -/
def util (k : ℕ) (ps : List Piece) : ℚ := (ps.map fun p => (p.cost : ℚ) / (k * p.period)).sum

/-- What the demand may have beyond the part of the time that the jobs take: for each piece the part
of the time between its deadline and its period, and what rounding up adds at most. -/
def excess (k : ℕ) (ps : List Piece) : ℚ :=
  (ps.map fun p => ((p.period : ℚ) - p.deadline) * (p.cost / (k * p.period)) +
    (k - Nat.gcd p.cost k) / k).sum

/-- The cost of the jobs of `H` units of time. -/
def work (H : ℕ) (ps : List Piece) : ℕ := (ps.map fun p => H / p.period * p.cost).sum

variable {k H L : ℕ} {p : Piece} {ps : List Piece}

theorem period_dvd_hyperperiod (hp : p ∈ ps) : p.period ∣ hyperperiod ps := by
  induction ps with
  | nil => exact absurd hp List.not_mem_nil
  | cons q ps ih =>
    rcases List.mem_cons.1 hp with rfl | hp
    · exact Nat.dvd_lcm_left ..
    · exact (ih hp).trans (Nat.dvd_lcm_right ..)

theorem deadline_le_maxDeadline (hp : p ∈ ps) : p.deadline ≤ maxDeadline ps := by
  induction ps with
  | nil => exact absurd hp List.not_mem_nil
  | cons q ps ih =>
    rcases List.mem_cons.1 hp with rfl | hp
    · exact le_max_left ..
    · exact (ih hp).trans (le_max_right ..)

theorem hyperperiod_pos (hps : ∀ p ∈ ps, 0 < p.period) : 0 < hyperperiod ps := by
  induction ps with
  | nil => exact Nat.one_pos
  | cons q ps ih =>
    refine Nat.lcm_pos (hps q List.mem_cons_self) (ih fun p hp => ?_)
    exact hps p (List.mem_cons_of_mem _ hp)

/-! ## Hyperperiods -/

theorem Piece.jobs_add (hp : 0 < p.period) (hH : p.period ∣ H) (hL : p.deadline ≤ L) :
    p.jobs (L + H) = p.jobs L + H / p.period := by
  obtain ⟨n, rfl⟩ := hH
  unfold Piece.jobs
  rw [if_neg (by omega), if_neg (by omega), Nat.mul_div_cancel_left n hp,
    show L + p.period * n - p.deadline = L - p.deadline + p.period * n by omega,
    Nat.add_mul_div_left _ _ hp]
  omega

theorem Piece.demand_add (hk : 0 < k) (hp : 0 < p.period) (hH : p.period ∣ H)
    (hL : p.deadline ≤ L) : p.demand k (L + k * H) = p.demand k L + H / p.period * p.cost := by
  unfold Piece.demand
  rw [Piece.jobs_add hp (hH.mul_left k) hL, Nat.mul_div_assoc k hH, Nat.add_mul, Nat.mul_assoc k]
  generalize p.jobs L * p.cost = a
  generalize H / p.period * p.cost = b
  rw [show a + k * b + k - 1 = a + k - 1 + k * b by omega, Nat.add_mul_div_left _ _ hk]

theorem demand_add (hk : 0 < k) : ∀ {ps : List Piece}, (∀ p ∈ ps, 0 < p.period) →
    (∀ p ∈ ps, p.period ∣ H) → (∀ p ∈ ps, p.deadline ≤ L) →
      demand k ps (L + k * H) = demand k ps L + work H ps := by
  intro ps
  induction ps with
  | nil => exact fun _ _ _ => rfl
  | cons q ps ih =>
    intro hp hH hL
    have htail := ih (fun p h => hp p (List.mem_cons_of_mem _ h))
      (fun p h => hH p (List.mem_cons_of_mem _ h)) (fun p h => hL p (List.mem_cons_of_mem _ h))
    have hhead := Piece.demand_add hk (hp q List.mem_cons_self) (hH q List.mem_cons_self)
      (hL q List.mem_cons_self)
    unfold demand work at htail ⊢
    rw [List.map_cons, List.sum_cons, List.map_cons, List.sum_cons, List.map_cons, List.sum_cons,
      hhead, htail]
    omega

/-- The same for `n` times `k` hyperperiods. -/
theorem demand_add_mul (hk : 0 < k) (hp : ∀ p ∈ ps, 0 < p.period) (hH : ∀ p ∈ ps, p.period ∣ H)
    (hL : ∀ p ∈ ps, p.deadline ≤ L) (n : ℕ) :
    demand k ps (L + n * (k * H)) = demand k ps L + n * work H ps := by
  induction n with
  | zero => rw [Nat.zero_mul, Nat.add_zero, Nat.zero_mul, Nat.add_zero]
  | succ n ih =>
    rw [Nat.succ_mul, ← Nat.add_assoc, demand_add hk hp hH fun p h => (hL p h).trans (by omega), ih,
      Nat.succ_mul]
    omega

theorem work_eq_util (hk : 0 < k) : ∀ {ps : List Piece}, (∀ p ∈ ps, 0 < p.period) →
    (∀ p ∈ ps, p.period ∣ H) → (work H ps : ℚ) = util k ps * (k * H) := by
  intro ps
  induction ps with
  | nil =>
    intro _ _
    unfold work util
    simp
  | cons q ps ih =>
    intro hp hH
    have htail := ih (fun p h => hp p (List.mem_cons_of_mem _ h))
      fun p h => hH p (List.mem_cons_of_mem _ h)
    have hq : (0 : ℚ) < q.period := by exact_mod_cast hp q List.mem_cons_self
    have hk' : (0 : ℚ) < k := by exact_mod_cast hk
    have hhead : ((H / q.period * q.cost : ℕ) : ℚ) = q.cost / (k * q.period) * (k * H) := by
      rw [Nat.cast_mul, Nat.cast_div (hH q List.mem_cons_self) hq.ne']
      field_simp
    unfold work util at htail ⊢
    rw [List.map_cons, List.sum_cons, List.map_cons, List.sum_cons, Nat.cast_add, hhead, htail]
    ring

/-- The utilisation is at most one iff the work of `k * H` units of time fits in them. -/
theorem util_le_one_iff (hk : 0 < k) (hp : ∀ p ∈ ps, 0 < p.period) :
    util k ps ≤ 1 ↔ work (hyperperiod ps) ps ≤ k * hyperperiod ps := by
  have hH := hyperperiod_pos hp
  have hpos : (0 : ℚ) < k * hyperperiod ps := by exact_mod_cast Nat.mul_pos hk hH
  have hwork := work_eq_util hk hp fun p h => period_dvd_hyperperiod h
  constructor
  · intro h
    have hle : (work (hyperperiod ps) ps : ℚ) ≤ (k * hyperperiod ps : ℕ) := by
      rw [hwork, Nat.cast_mul]
      nlinarith
    exact_mod_cast hle
  · intro h
    have hle : (work (hyperperiod ps) ps : ℚ) ≤ k * hyperperiod ps := by exact_mod_cast h
    rw [hwork] at hle
    nlinarith

/-! ## Deadlines -/

/-- The number of jobs changes at deadlines only. -/
theorem Piece.jobs_succ (hL : ∀ n, p.deadline + n * p.period ≠ L + 1) :
    p.jobs (L + 1) = p.jobs L := by
  unfold Piece.jobs
  by_cases h : L + 1 < p.deadline
  · rw [if_pos h, if_pos (by omega)]
  · have hD : p.deadline ≠ L + 1 := by simpa using hL 0
    rw [if_neg h, if_neg (by omega), show L + 1 - p.deadline = L - p.deadline + 1 by omega,
      Nat.succ_div, if_neg, Nat.add_zero]
    rintro ⟨n, hn⟩
    refine hL n ?_
    rw [Nat.mul_comm]
    omega

/-- A demand that fits at the deadlines below `B` fits in every interval below `B`. -/
theorem demand_le_of_deadlines (hk : 0 < k) {B : ℕ} (h : ∀ p ∈ ps, ∀ n, p.deadline + n * p.period < B →
      demand k ps (p.deadline + n * p.period) ≤ p.deadline + n * p.period) :
    ∀ L < B, demand k ps L ≤ L := by
  intro L
  induction L with
  | zero =>
    intro hB
    by_cases hzero : ∃ p ∈ ps, p.deadline = 0
    · obtain ⟨p, hmem, hD⟩ := hzero
      have := h p hmem 0
      rw [hD, Nat.zero_mul, Nat.add_zero] at this
      exact this hB
    · refine le_of_eq (List.sum_eq_zero fun x hx => ?_)
      obtain ⟨p, hmem, rfl⟩ := List.mem_map.1 hx
      have hD : 0 < p.deadline := Nat.pos_of_ne_zero fun e => hzero ⟨p, hmem, e⟩
      unfold Piece.demand Piece.jobs
      rw [if_pos hD, Nat.zero_mul, Nat.zero_add]
      exact Nat.div_eq_of_lt (by omega)
  | succ L ih =>
    intro hB
    by_cases hdead : ∃ p ∈ ps, ∃ n, p.deadline + n * p.period = L + 1
    · obtain ⟨p, hmem, n, hn⟩ := hdead
      have := h p hmem n
      rw [hn] at this
      exact this hB
    · have hsame : demand k ps (L + 1) = demand k ps L := by
        unfold demand
        congr 1
        refine List.map_congr_left fun p hmem => ?_
        unfold Piece.demand
        rw [Piece.jobs_succ fun n hn => hdead ⟨p, hmem, n, hn⟩]
      rw [hsame]
      exact (ih (by omega)).trans (Nat.le_succ L)

/-- A demand that fits in every interval is that of a utilisation of at most one. -/
theorem util_le_one_of_demand_le (hk : 0 < k) (hp : ∀ p ∈ ps, 0 < p.period)
    (hall : ∀ L, demand k ps L ≤ L) : util k ps ≤ 1 := by
  have hH : ∀ p ∈ ps, p.period ∣ hyperperiod ps := fun p h => period_dvd_hyperperiod h
  have hD : ∀ p ∈ ps, p.deadline ≤ maxDeadline ps := fun p h => deadline_le_maxDeadline h
  rw [util_le_one_iff hk hp]
  by_contra hlt
  -- each round of `k` hyperperiods adds one unit more than its length
  have hround : ∀ n, n * (k * hyperperiod ps + 1) ≤ maxDeadline ps + n * (k * hyperperiod ps) := by
    intro n
    have hfit := hall (maxDeadline ps + n * (k * hyperperiod ps))
    rw [demand_add_mul hk hp hH hD] at hfit
    have hmul : n * (k * hyperperiod ps + 1) ≤ n * work (hyperperiod ps) ps :=
      Nat.mul_le_mul_left n (by omega)
    omega
  have := hround (maxDeadline ps + 1)
  rw [Nat.mul_add, Nat.mul_one] at this
  omega

/-- **The demand in all intervals.** If the deadlines up to `T` have been tested, what is left is
the utilisation, and the deadlines beyond `T` up to `k` hyperperiods after the largest relative
deadline. -/
theorem demand_le_iff (hk : 0 < k) (hp : ∀ p ∈ ps, 0 < p.period) {T : ℕ}
    (hT : ∀ p ∈ ps, ∀ n, p.deadline + n * p.period ≤ T →
      demand k ps (p.deadline + n * p.period) ≤ p.deadline + n * p.period) :
    (∀ L, demand k ps L ≤ L) ↔ util k ps ≤ 1 ∧ ∀ p ∈ ps, ∀ n, T < p.deadline + n * p.period →
      p.deadline + n * p.period < maxDeadline ps + k * hyperperiod ps →
        demand k ps (p.deadline + n * p.period) ≤ p.deadline + n * p.period := by
  have hH : ∀ p ∈ ps, p.period ∣ hyperperiod ps := fun p h => period_dvd_hyperperiod h
  have hD : ∀ p ∈ ps, p.deadline ≤ maxDeadline ps := fun p h => deadline_le_maxDeadline h
  constructor
  · exact fun hall => ⟨util_le_one_of_demand_le hk hp hall, fun p _ n _ _ => hall _⟩
  · rintro ⟨hutil, hrest⟩ L
    rw [util_le_one_iff hk hp] at hutil
    have hbase : ∀ L < maxDeadline ps + k * hyperperiod ps, demand k ps L ≤ L := by
      refine demand_le_of_deadlines hk fun p hmem n hB => ?_
      by_cases hn : p.deadline + n * p.period ≤ T
      · exact hT p hmem n hn
      · exact hrest p hmem n (by omega) hB
    have hpos : 0 < k * hyperperiod ps := Nat.mul_pos hk (hyperperiod_pos hp)
    induction L using Nat.strong_induction_on with
    | _ L ih =>
      by_cases hL : L < maxDeadline ps + k * hyperperiod ps
      · exact hbase L hL
      · obtain ⟨M, rfl⟩ : ∃ M, L = M + k * hyperperiod ps := ⟨L - k * hyperperiod ps, by omega⟩
        rw [demand_add hk hp hH fun p h => (hD p h).trans (by omega)]
        exact Nat.add_le_add (ih M (by omega)) hutil

/-! ## The line above the demand -/

/-- Rounding a multiple of `g` up to one of `k` adds less than `k`, by `g` at least. -/
theorem mul_ceilDiv_le {a g : ℕ} (hk : 0 < k) (ha : g ∣ a) (hg : g ∣ k) :
    k * ((a + k - 1) / k) + g ≤ a + k := by
  have hle : k * ((a + k - 1) / k) ≤ a + k - 1 := Nat.mul_div_le _ _
  obtain ⟨x, hx⟩ : g ∣ k * ((a + k - 1) / k) := hg.mul_right _
  obtain ⟨y, hy⟩ : g ∣ a + k := ha.add hg
  rw [hx, hy]
  have hlt : g * x < g * y := by omega
  have hxy : x < y := Nat.lt_of_mul_lt_mul_left hlt
  calc g * x + g = g * (x + 1) := (Nat.mul_succ g x).symm
    _ ≤ g * y := Nat.mul_le_mul_left g hxy

theorem Piece.demand_le_line (hk : 0 < k) (hp : 0 < p.period) (hL : p.deadline ≤ L) :
    (p.demand k L : ℚ) ≤ L * (p.cost / (k * p.period)) +
      (((p.period : ℚ) - p.deadline) * (p.cost / (k * p.period)) + (k - Nat.gcd p.cost k) / k) := by
  have hk' : (0 : ℚ) < k := by exact_mod_cast hk
  have hT : (0 : ℚ) < p.period := by exact_mod_cast hp
  have hjobs : (p.jobs L : ℚ) * p.period ≤ L - p.deadline + p.period := by
    unfold Piece.jobs
    rw [if_neg (by omega)]
    have hdiv := Nat.div_mul_le_self (L - p.deadline) p.period
    have hdiv' : (((L - p.deadline) / p.period : ℕ) : ℚ) * p.period ≤ (L : ℚ) - p.deadline := by
      rw [← Nat.cast_sub hL]
      exact_mod_cast hdiv
    rw [Nat.cast_add, Nat.cast_one]
    linarith
  have hround : (k : ℚ) * p.demand k L + Nat.gcd p.cost k ≤ p.jobs L * p.cost + k := by
    have h := mul_ceilDiv_le hk ((Nat.gcd_dvd_left p.cost k).mul_left (p.jobs L))
      (Nat.gcd_dvd_right p.cost k)
    exact_mod_cast h
  have hcost : (p.jobs L : ℚ) * p.cost ≤ (L - p.deadline + p.period) * (p.cost / p.period) := by
    calc (p.jobs L : ℚ) * p.cost = p.jobs L * p.period * (p.cost / p.period) := by field_simp
      _ ≤ (L - p.deadline + p.period) * (p.cost / p.period) :=
        mul_le_mul_of_nonneg_right hjobs (by positivity)
  calc (p.demand k L : ℚ) = k * p.demand k L / k := by field_simp
    _ ≤ ((L - p.deadline + p.period) * (p.cost / p.period) + (k - Nat.gcd p.cost k)) / k := by
      gcongr
      linarith
    _ = _ := by
      field_simp
      ring

/-- **The demand stays below a line** from the largest deadline on. -/
theorem demand_le_line (hk : 0 < k) : ∀ {ps : List Piece}, (∀ p ∈ ps, 0 < p.period) →
    (∀ p ∈ ps, p.deadline ≤ L) → (demand k ps L : ℚ) ≤ L * util k ps + excess k ps := by
  intro ps
  induction ps with
  | nil =>
    intro _ _
    unfold demand util excess
    simp
  | cons q ps ih =>
    intro hp hL
    have htail := ih (fun p h => hp p (List.mem_cons_of_mem _ h))
      fun p h => hL p (List.mem_cons_of_mem _ h)
    have hhead := Piece.demand_le_line hk (hp q List.mem_cons_self) (hL q List.mem_cons_self)
    unfold demand util excess at htail ⊢
    rw [List.map_cons, List.sum_cons, List.map_cons, List.sum_cons, List.map_cons, List.sum_cons,
      Nat.cast_add, mul_add]
    linarith

/-- Beyond `T` the line stays below the length. -/
theorem demand_le_of_line (hk : 0 < k) (hp : ∀ p ∈ ps, 0 < p.period) {T : ℕ}
    (hD : maxDeadline ps ≤ T) (hutil : util k ps ≤ 1)
    (hexcess : excess k ps ≤ (T + 1) * (1 - util k ps)) (hL : T < L) : demand k ps L ≤ L := by
  have hline := demand_le_line hk hp (L := L) fun p hmem =>
    (deadline_le_maxDeadline hmem).trans (by omega)
  have hlen : ((T : ℚ) + 1) * (1 - util k ps) ≤ L * (1 - util k ps) := by
    refine mul_le_mul_of_nonneg_right ?_ (by linarith)
    exact_mod_cast hL
  have hle : (demand k ps L : ℚ) ≤ L := by linarith
  exact_mod_cast hle

/-- **Where testing may stop.** -/
theorem demand_le_of_tested (hk : 0 < k) (hp : ∀ p ∈ ps, 0 < p.period) {T : ℕ}
    (hT : ∀ p ∈ ps, ∀ n, p.deadline + n * p.period ≤ T →
      demand k ps (p.deadline + n * p.period) ≤ p.deadline + n * p.period)
    (hD : maxDeadline ps ≤ T) (hutil : util k ps ≤ 1)
    (hexcess : excess k ps ≤ (T + 1) * (1 - util k ps)) (L : ℕ) : demand k ps L ≤ L := by
  by_cases hL : L < T + 1
  · exact demand_le_of_deadlines hk (fun p hmem n hn => hT p hmem n (Nat.le_of_lt_succ hn)) L hL
  · exact demand_le_of_line hk hp hD hutil hexcess (not_lt.1 hL)

end Resch.Lib
