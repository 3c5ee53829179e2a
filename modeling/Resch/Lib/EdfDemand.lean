import Resch.Lib.BusyPeriod
import Resch.Lib.Demand

/-!
# Deadlines under EDF

A scheduler by deadlines runs a pending job whose absolute deadline is one of the earliest. A job that
misses its deadline is pursued back to the latest instant at which nothing with a deadline as early was
left over. From there on the processor works for jobs with their releases and deadlines in between, and
the demand bounds what they cost.

* `EdfSchedule.done_by_due`: if the demand fits in every interval, no job misses its deadline, however
  ties are broken. Deadlines may be larger than periods.
* `demand_le_of_done`: if all jobs of the periodic release from time zero on meet their deadlines, the
  demand fits.
* `exact_le_iff`: costs in a finer unit, without rounding. Where the demand has been tested at the first
  deadlines, what is left is the utilisation and the deadlines of one hyperperiod.
-/

namespace Resch.Lib

variable {ι : Type*} {T : Finset ι} {P C D : ι → ℕ} {J : Jobs ι} {run : ℝ → Option (ι × ℕ)} {i k : ι}
  {j q L : ℕ} {x y z : ι × ℕ} {s t d t₀ : ℝ} {A : ι × ℕ → Prop}

/-- The absolute deadline of a job -/
def Jobs.due (J : Jobs ι) (D : ι → ℕ) (x : ι × ℕ) : ℝ := J.release x.1 x.2 + D x.1

/-- A schedule by deadlines: the processor is not idle while a job is pending, and no job runs while one
with an earlier deadline is pending. -/
structure EdfSchedule (J : Jobs ι) (T : Finset ι) (D : ι → ℕ) (run : ℝ → Option (ι × ℕ)) : Prop where
  measurable : ∀ x, MeasurableSet {t | run t = some x}
  pending : ∀ t x, run t = some x → x.1 ∈ T ∧ J.Pending run x t
  busy : ∀ t x, x.1 ∈ T → J.Pending run x t → run t ≠ none
  urgent : ∀ t x y, run t = some x → y.1 ∈ T → J.Pending run y t → J.due D x ≤ J.due D y

/-- The most work with release and deadline in an interval of length `L` -/
def intervalDemand (T : Finset ι) (P C D : ι → ℕ) (L : ℕ) : ℕ :=
  ∑ i ∈ T, Piece.jobs ⟨D i, P i, C i⟩ L * C i

/-- A task runs its jobs in order, so that this is a schedule in which all tasks have one priority. -/
theorem EdfSchedule.schedule (h : EdfSchedule J T D run) (hJ : J.Sporadic T P C)
    (hP : ∀ k ∈ T, 0 < P k) : Schedule J T (fun _ => ()) run := by
  refine ⟨h.measurable, h.pending, ?_, h.busy, fun _ _ _ _ _ _ => le_rfl⟩
  intro t x j hrun hj hpend
  obtain ⟨hT, hhas, -, -⟩ := h.pending t x hrun
  have hle : J.due D x ≤ J.due D (x.1, j) := h.urgent t x (x.1, j) hrun hT hpend
  obtain ⟨q, hq⟩ := Nat.exists_eq_add_of_lt hj
  have hhas' : J.Has (x.1, j + (q + 1)) := by
    rw [← Nat.add_assoc, ← hq]
    exact hhas
  have hlater := hJ.release_le hT (q + 1) hhas'
  have hpos : (1 : ℝ) ≤ P x.1 := by exact_mod_cast hP x.1 hT
  have hmul : (1 : ℝ) ≤ (q + 1 : ℕ) * P x.1 := by
    have hq1 : (1 : ℝ) ≤ (q + 1 : ℕ) := by exact_mod_cast Nat.le_add_left 1 q
    nlinarith
  unfold Jobs.due at hle
  rw [show x.2 = j + (q + 1) by omega] at hle
  dsimp only at hle
  linarith

/-! ## Instants with nothing left over -/

/-- No job of the set that is released before `t` is left over. -/
def QuietFor (J : Jobs ι) (run : ℝ → Option (ι × ℕ)) (A : ι × ℕ → Prop) (t : ℝ) : Prop :=
  ∀ x, A x → J.release x.1 x.2 < t → J.DoneBy run x t

/-- The supremum of such instants is one. -/
theorem exists_quietFor (hm : ∀ x, MeasurableSet {t | run t = some x})
    (hA : ∀ x, A x → 0 ≤ J.release x.1 x.2) {a : ℝ} (ha : 0 ≤ a) :
    ∃ t₀, 0 ≤ t₀ ∧ t₀ ≤ a ∧ QuietFor J run A t₀ ∧ ∀ t, t₀ < t → t ≤ a → ¬ QuietFor J run A t := by
  have hbdd : BddAbove {t | 0 ≤ t ∧ t ≤ a ∧ QuietFor J run A t} := ⟨a, fun t ht => ht.2.1⟩
  have hzero : (0 : ℝ) ∈ {t | 0 ≤ t ∧ t ≤ a ∧ QuietFor J run A t} :=
    ⟨le_rfl, ha, fun x hx hrel => absurd (hA x hx) (not_le.2 hrel)⟩
  refine ⟨sSup {t | 0 ≤ t ∧ t ≤ a ∧ QuietFor J run A t}, le_csSup hbdd hzero,
    csSup_le ⟨0, hzero⟩ fun t ht => ht.2.1, ?_, ?_⟩
  · intro x hx hrel
    obtain ⟨t, ht, hlt⟩ := exists_lt_of_lt_csSup ⟨0, hzero⟩ hrel
    have hdone : J.cost x.1 x.2 ≤ service run x 0 t := ht.2.2 x hx hlt
    exact hdone.trans (service_mono (hm x) ht.1 (le_csSup hbdd ht))
  · intro t hlt hta hq
    have h0 : (0 : ℝ) ≤ sSup {t | 0 ≤ t ∧ t ≤ a ∧ QuietFor J run A t} := le_csSup hbdd hzero
    exact absurd (le_csSup hbdd ⟨h0.trans hlt.le, hta, hq⟩) (not_le.2 hlt)

/-! ## The jobs in a window -/

/-- The jobs with a deadline of at most `d` -/
def DueBy (J : Jobs ι) (T : Finset ι) (D : ι → ℕ) (d : ℝ) (x : ι × ℕ) : Prop :=
  x.1 ∈ T ∧ J.Has x ∧ J.due D x ≤ d

/-- The jobs of each task that may have their releases and deadlines in a window of length `L` -/
def windowJobs (T : Finset ι) (P C D : ι → ℕ) (L : ℕ) : Finset (Σ _ : ι, ℕ) :=
  T.sigma fun k => Finset.range (Piece.jobs ⟨D k, P k, C k⟩ L)

theorem mem_windowJobs {y : Σ _ : ι, ℕ} (hP : ∀ k ∈ T, 0 < P k) :
    y ∈ windowJobs T P C D L ↔ y.1 ∈ T ∧ y.2 * P y.1 + D y.1 ≤ L := by
  unfold windowJobs
  rw [Finset.mem_sigma, Finset.mem_range]
  refine and_congr_right fun hT => ?_
  unfold Piece.jobs
  dsimp only
  split
  · exact iff_of_false (Nat.not_lt_zero _) (by omega)
  · rw [Nat.lt_succ_iff, Nat.le_div_iff_mul_le (hP _ hT)]
    omega

theorem cast_intervalDemand :
    (intervalDemand T P C D L : ℝ) = ∑ y ∈ windowJobs T P C D L, (C y.1 : ℝ) := by
  unfold intervalDemand windowJobs
  rw [Finset.sum_sigma, Nat.cast_sum]
  refine Finset.sum_congr rfl fun k _ => ?_
  dsimp only
  rw [Finset.sum_const, Finset.card_range, nsmul_eq_mul, Nat.cast_mul]

/-- The job of a task that is released as the `q`th one from `t₀` on -/
noncomputable def windowJob (J : Jobs ι) (t₀ : ℝ) (y : Σ _ : ι, ℕ) : ι × ℕ :=
  (y.1, firstFrom J t₀ y.1 + y.2)

theorem windowJob_injective (J : Jobs ι) (t₀ : ℝ) : Function.Injective (windowJob J t₀) := by
  rintro ⟨k, q⟩ ⟨k', q'⟩ he
  obtain ⟨hk, hq⟩ := Prod.mk.inj he
  dsimp only at hk hq
  subst hk
  rw [Nat.add_left_cancel hq]

/-- What is released and due in a window is one of its jobs. -/
theorem exists_windowJob (hJ : J.Sporadic T P C) (hP : ∀ k ∈ T, 0 < P k) (hx : DueBy J T D d x)
    (ht : t₀ ≤ J.release x.1 x.2) :
    ∃ y ∈ windowJobs T P C D ⌊d - t₀⌋₊, windowJob J t₀ y = x := by
  obtain ⟨hT, hhas, hdue⟩ := hx
  obtain ⟨k, l⟩ := x
  obtain ⟨q, rfl⟩ : ∃ q, l = firstFrom J t₀ k + q := Nat.exists_eq_add_of_le (firstFrom_le ht)
  refine ⟨⟨k, q⟩, (mem_windowJobs hP).2 ⟨hT, Nat.le_floor ?_⟩, rfl⟩
  have hfrom := release_firstFrom hJ hP hT hhas
  unfold Jobs.due at hdue
  dsimp only at hdue ⊢
  push_cast
  linarith

/-! ## The demand that fits -/

/-- **No deadline is missed** if the demand fits in every interval. -/
theorem EdfSchedule.done_by_due (h : EdfSchedule J T D run) (hJ : J.Sporadic T P C)
    (hP : ∀ k ∈ T, 0 < P k) (hfit : ∀ L, intervalDemand T P C D L ≤ L) (hi : x.1 ∈ T)
    (hhas : J.Has x) : J.DoneBy run x (J.due D x) := by
  have hs := h.schedule hJ hP
  have hm := h.measurable
  unfold Jobs.DoneBy
  by_contra hmiss
  have hmiss := not_le.1 hmiss
  set d := J.due D x with hd
  have ha := hJ.release_nonneg' hi hhas
  have hrel : ∀ z, DueBy J T D d z → 0 ≤ J.release z.1 z.2 := fun z hz => hJ.release_nonneg' hz.1 hz.2.1
  have hdue : J.release x.1 x.2 ≤ d := by
    rw [hd]
    exact le_add_of_nonneg_right (Nat.cast_nonneg (D x.1))
  obtain ⟨t₀, ht, hta, hquiet, hlast⟩ := exists_quietFor hm hrel ha
  have htd : t₀ ≤ d := hta.trans hdue
  -- from `t₀` on a job with a deadline of at most `d` is pending
  have hpending : ∀ t, t₀ < t → t < d → ∃ z, DueBy J T D d z ∧ J.Pending run z t := by
    intro t hlt htw
    by_cases hta' : t ≤ J.release x.1 x.2
    · have hnot := hlast t hlt hta'
      unfold QuietFor at hnot
      push Not at hnot
      obtain ⟨z, hz, hzrel, hleft⟩ := hnot
      exact ⟨z, hz, hz.2.1, hzrel.le, not_le.1 hleft⟩
    · refine ⟨x, ⟨hi, hhas, hd.ge⟩, ?_⟩
      exact hs.pending_mono hhas (not_le.1 hta').le (ht.trans hlt.le) htw.le hmiss
  -- and so such a job runs, which is released from `t₀` on
  have hbusy : ∀ t, t₀ < t → t < d → ∃ y ∈ windowJobs T P C D ⌊d - t₀⌋₊,
      run t = some (windowJob J t₀ y) := by
    intro t hlt htw
    obtain ⟨z, ⟨hzT, -, hzd⟩, hz⟩ := hpending t hlt htw
    obtain ⟨w, hw⟩ := Option.ne_none_iff_exists'.1 (h.busy t z hzT hz)
    obtain ⟨hwT, hwhas, hwrel, hwleft⟩ := h.pending t w hw
    have hwd : DueBy J T D d w := ⟨hwT, hwhas, (h.urgent t w z hw hzT hz).trans hzd⟩
    have hstart : t₀ ≤ J.release w.1 w.2 := by
      by_contra hbefore
      have hdone : J.cost w.1 w.2 ≤ service run w 0 t₀ := hquiet w hwd (not_le.1 hbefore)
      have hmono := service_mono (hm w) ht hlt.le
      linarith
    obtain ⟨y, hy, rfl⟩ := exists_windowJob hJ hP hwd hstart
    exact ⟨y, hy, hw⟩
  have hsum := sum_service_eq hm (windowJob_injective J t₀).injOn htd hbusy
  have hle : ∀ y ∈ windowJobs T P C D ⌊d - t₀⌋₊, service run (windowJob J t₀ y) t₀ d ≤ C y.1 := by
    intro y hy
    have hy := ((mem_windowJobs hP).1 hy).1
    by_cases hyhas : J.Has (windowJob J t₀ y)
    · have hadd := service_add (hm (windowJob J t₀ y)) ht htd
      have hpos : 0 ≤ service run (windowJob J t₀ y) 0 t₀ := service_nonneg
      have hcost := hs.service_le_cost (x := windowJob J t₀ y) (hJ.cost_nonneg y.1 hy _ hyhas) d
      have hC : J.cost (windowJob J t₀ y).1 (windowJob J t₀ y).2 ≤ C y.1 := hJ.cost_le y.1 hy _ hyhas
      linarith
    · rw [hs.service_of_not hyhas]
      exact Nat.cast_nonneg _
  -- the job itself has got less than it executes
  have hlt : ∃ y ∈ windowJobs T P C D ⌊d - t₀⌋₊, service run (windowJob J t₀ y) t₀ d < C y.1 := by
    obtain ⟨y, hy, rfl⟩ := exists_windowJob hJ hP (x := x) ⟨hi, hhas, hd.ge⟩ hta
    refine ⟨y, hy, ?_⟩
    have hadd := service_add (hm (windowJob J t₀ y)) ht htd
    have hpos : 0 ≤ service run (windowJob J t₀ y) 0 t₀ := service_nonneg
    have hC : J.cost (windowJob J t₀ y).1 (windowJob J t₀ y).2 ≤ C y.1 := hJ.cost_le y.1 hi _ hhas
    linarith
  have hdemand := Finset.sum_lt_sum hle hlt
  rw [hsum, ← cast_intervalDemand] at hdemand
  have hL : (intervalDemand T P C D ⌊d - t₀⌋₊ : ℝ) ≤ (⌊d - t₀⌋₊ : ℕ) := by exact_mod_cast hfit _
  have hfloor : ((⌊d - t₀⌋₊ : ℕ) : ℝ) ≤ d - t₀ := Nat.floor_le (by linarith)
  linarith

/-! ## The demand that occurs -/

/-- Every task releases a job at the start of each of its periods, and each executes for as long as it
may. -/
def periodic (P C : ι → ℕ) : Jobs ι where
  count _ := ⊤
  release i j := (j * P i : ℕ)
  cost i _ := C i

theorem periodic_has (x : ι × ℕ) : (periodic P C).Has x := ENat.natCast_lt_top x.2

theorem periodic_sporadic (T : Finset ι) (P C : ι → ℕ) : (periodic P C).Sporadic T P C := by
  refine ⟨fun i _ => Nat.cast_nonneg _, fun i _ j _ => ?_, fun i _ _ _ => Nat.cast_nonneg _,
    fun _ _ _ _ => le_rfl⟩
  show ((j * P i : ℕ) : ℝ) + P i ≤ ((j + 1) * P i : ℕ)
  push_cast
  linarith

/-- In whatever way they are scheduled, jobs that are done by their deadlines fit. -/
theorem demand_le_of_done (hm : ∀ x, MeasurableSet {t | run t = some x}) (hP : ∀ k ∈ T, 0 < P k)
    (hdone : ∀ x : ι × ℕ, x.1 ∈ T → (periodic P C).DoneBy run x ((periodic P C).due D x)) (L : ℕ) :
    intervalDemand T P C D L ≤ L := by
  have hinj : Set.InjOn (fun y : Σ _ : ι, ℕ => (y.1, y.2)) (windowJobs T P C D L : Set (Σ _ : ι, ℕ)) := by
    rintro ⟨k, q⟩ - ⟨k', q'⟩ - he
    obtain ⟨hk, hq⟩ := Prod.mk.inj he
    dsimp only at hk hq
    subst hk
    rw [hq]
  have hsum := sum_service_le hm hinj (Nat.cast_nonneg L : (0 : ℝ) ≤ L)
  have hle : (intervalDemand T P C D L : ℝ) ≤ L := by
    rw [cast_intervalDemand]
    refine (Finset.sum_le_sum fun y hy => ?_).trans (hsum.trans_eq (sub_zero _))
    obtain ⟨hT, hyL⟩ := (mem_windowJobs hP).1 hy
    have hd : (periodic P C).due D (y.1, y.2) = ((y.2 * P y.1 + D y.1 : ℕ) : ℝ) := by
      rw [Nat.cast_add]
      rfl
    have hyd := hdone (y.1, y.2) hT
    rw [hd] at hyd
    refine hyd.trans (service_mono (hm _) (Nat.cast_nonneg _) ?_)
    exact_mod_cast hyL
  exact_mod_cast hle

/-! ## A finer unit -/

/-- The piece with its times in a unit of which `k` make one -/
def Piece.scale (k : ℕ) (p : Piece) : Piece := ⟨k * p.deadline, k * p.period, p.cost⟩

/-- The demand in the unit of the costs -/
def exactDemand (ps : List Piece) (L : ℕ) : ℕ := (ps.map fun p => p.jobs L * p.cost).sum

variable {p : Piece} {ps : List Piece}

theorem Piece.jobs_scale {m : ℕ} (hm : 0 < m) (p : Piece) (L : ℕ) :
    (p.scale m).jobs (m * L) = p.jobs L := by
  unfold Piece.jobs Piece.scale
  dsimp only
  rw [← Nat.mul_sub, Nat.mul_div_mul_left _ _ hm]
  by_cases hL : L < p.deadline
  · rw [if_pos hL, if_pos ((Nat.mul_lt_mul_left hm).2 hL)]
  · rw [if_neg hL, if_neg (fun h => hL ((Nat.mul_lt_mul_left hm).1 h))]

theorem demand_one (ps : List Piece) (L : ℕ) : demand 1 ps L = exactDemand ps L := by
  unfold demand exactDemand
  congr 1
  refine List.map_congr_left fun p _ => ?_
  unfold Piece.demand
  rw [Nat.add_sub_cancel, Nat.div_one]

theorem exactDemand_scale {m : ℕ} (hm : 0 < m) (ps : List Piece) (L : ℕ) :
    exactDemand (ps.map (Piece.scale m)) (m * L) = exactDemand ps L := by
  unfold exactDemand
  rw [List.map_map]
  congr 1
  refine List.map_congr_left fun p _ => ?_
  show (p.scale m).jobs (m * L) * p.cost = _
  rw [Piece.jobs_scale hm]

theorem maxDeadline_scale (m : ℕ) (ps : List Piece) :
    maxDeadline (ps.map (Piece.scale m)) = m * maxDeadline ps := by
  induction ps with
  | nil => exact (Nat.mul_zero m).symm
  | cons p ps ih =>
    show max (m * p.deadline) (maxDeadline (ps.map (Piece.scale m))) = m * max p.deadline _
    rw [ih, Nat.mul_max_mul_left]
    rfl

theorem hyperperiod_scale (m : ℕ) (p : Piece) (ps : List Piece) :
    hyperperiod ((p :: ps).map (Piece.scale m)) = m * hyperperiod (p :: ps) := by
  induction ps generalizing p with
  | nil =>
    show Nat.lcm (m * p.period) 1 = m * Nat.lcm p.period 1
    rw [Nat.lcm_one_right, Nat.lcm_one_right]
  | cons q ps ih =>
    show Nat.lcm (m * p.period) (hyperperiod ((q :: ps).map (Piece.scale m))) =
      m * Nat.lcm p.period (hyperperiod (q :: ps))
    rw [ih q, Nat.lcm_mul_left]

theorem util_scale (m : ℕ) (ps : List Piece) : util 1 (ps.map (Piece.scale m)) = util m ps := by
  unfold util
  rw [List.map_map]
  congr 1
  refine List.map_congr_left fun p _ => ?_
  show (p.cost : ℚ) / ((1 : ℕ) * (m * p.period : ℕ)) = _
  rw [Nat.cast_one, one_mul, Nat.cast_mul]

/-- **The exact demand in all intervals**, if the deadlines up to `L` have been tested. -/
theorem exact_le_iff {m : ℕ} (hm : 0 < m) (hne : ps ≠ []) (hP : ∀ p ∈ ps, 0 < p.period)
    (htest : ∀ p ∈ ps, ∀ n, p.deadline + n * p.period ≤ L →
      exactDemand ps (p.deadline + n * p.period) ≤ m * (p.deadline + n * p.period)) :
    (∀ L, exactDemand (ps.map (Piece.scale m)) L ≤ L) ↔ util m ps ≤ 1 ∧ ∀ p ∈ ps, ∀ n,
      L < p.deadline + n * p.period → p.deadline + n * p.period < maxDeadline ps + hyperperiod ps →
        exactDemand ps (p.deadline + n * p.period) ≤ m * (p.deadline + n * p.period) := by
  obtain ⟨p₀, ps₀, rfl⟩ := List.exists_cons_of_ne_nil hne
  have hend : maxDeadline ((p₀ :: ps₀).map (Piece.scale m)) +
      1 * hyperperiod ((p₀ :: ps₀).map (Piece.scale m)) =
        m * (maxDeadline (p₀ :: ps₀) + hyperperiod (p₀ :: ps₀)) := by
    rw [maxDeadline_scale, hyperperiod_scale, Nat.one_mul, Nat.mul_add]
  have hdead : ∀ (p : Piece) (n : ℕ), (p.scale m).deadline + n * (p.scale m).period =
      m * (p.deadline + n * p.period) := by
    intro p n
    show m * p.deadline + n * (m * p.period) = _
    rw [Nat.mul_add, Nat.mul_left_comm]
  have hP' : ∀ p ∈ (p₀ :: ps₀).map (Piece.scale m), 0 < p.period := by
    intro p hp
    obtain ⟨q, hq, rfl⟩ := List.mem_map.1 hp
    exact Nat.mul_pos hm (hP q hq)
  have htest' : ∀ p ∈ (p₀ :: ps₀).map (Piece.scale m), ∀ n, p.deadline + n * p.period ≤ m * L →
      demand 1 ((p₀ :: ps₀).map (Piece.scale m)) (p.deadline + n * p.period) ≤
        p.deadline + n * p.period := by
    intro p hp n hle
    obtain ⟨q, hq, rfl⟩ := List.mem_map.1 hp
    rw [hdead] at hle ⊢
    rw [demand_one, exactDemand_scale hm]
    exact htest q hq n (Nat.le_of_mul_le_mul_left hle hm)
  have hiff := demand_le_iff Nat.one_pos hP' htest'
  rw [hend, util_scale] at hiff
  simp only [demand_one] at hiff
  rw [hiff]
  refine and_congr_right fun _ => ?_
  rw [List.forall_mem_map]
  refine forall₂_congr fun p _ => forall_congr' fun n => ?_
  rw [hdead, Nat.mul_lt_mul_left hm, Nat.mul_lt_mul_left hm, exactDemand_scale hm]

end Resch.Lib
