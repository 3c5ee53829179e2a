import Resch.Lib.Demand
import Resch.Spec.EdfTest

/-!
# What the demand-bound tests leave out

The tests of EDF-FF and EDF-WM stop at a length that comes from utilisations truncated to whole
percents. The tasks on a CPU are pieces of periodic work, and a share costs its amount in whole
jiffies.

* `EdfFf.dbfLen_ge`, `EdfWm.dbfLen_ge`: the length of the test, in terms of the parameters.
* `Covered`: the exact utilisation is at most one, and the percents give a length after which it
  stays below the time with what rounding up to jiffies adds.
* `EdfFf.ff_demand_fits`, `EdfWm.wm_demand_fits`: after an accepted test, the demand fits in every
  interval only if the exact utilisation is at most one, and does if the tasks are `Covered`.
-/

namespace Resch

open Lib

variable {c : Config} {Lmax : ℕ}

/-! ## Residents as pieces of work -/

/-- A task on a CPU with its cost in microseconds. -/
def Resident.piece (c : Config) (r : Resident) : Piece where
  deadline := r.deadline
  period := r.period
  cost := if r.share then r.amount * c.usecPerTick else r.amount

/-- The share of the time that the tasks need, without rounding. -/
def residentsUtil (c : Config) (rs : List Resident) : ℚ :=
  util c.usecPerTick (rs.map (Resident.piece c))

/-- What the demand may have beyond that. -/
def residentsExcess (c : Config) (rs : List Resident) : ℚ :=
  excess c.usecPerTick (rs.map (Resident.piece c))

/-- The utilisation of a task in whole percents; that of a share divides jiffies by microseconds. -/
def Resident.percent (c : Config) (r : Resident) : ℕ := 100 * r.amount / c.jiffiesToUsecs r.period

def percents (c : Config) (rs : List Resident) : ℕ := (rs.map (Resident.percent c)).sum

/-- The times between deadline and period, in percents -/
def percentGaps (c : Config) (rs : List Resident) : ℕ :=
  (rs.map fun r => (r.period - r.deadline) * r.percent c).sum

/-- The largest of the deadlines -/
def residentsDeadline (c : Config) (rs : List Resident) : ℕ :=
  maxDeadline (rs.map (Resident.piece c))

/-- After `N` the exact utilisation leaves enough for what the demand may have beyond it. -/
def LongEnough (c : Config) (rs : List Resident) (N : ℕ) : Prop :=
  residentsUtil c rs ≤ 1 ∧ residentsExcess c rs ≤ (N + 1) * (1 - residentsUtil c rs)

instance (c : Config) (rs : List Resident) (N : ℕ) : Decidable (LongEnough c rs N) :=
  inferInstanceAs (Decidable (_ ∧ _))

/-- The largest deadline is far enough, or the length that the percents give. -/
def Covered (c : Config) (rs : List Resident) : Prop :=
  LongEnough c rs (residentsDeadline c rs) ∨
    percents c rs < 100 ∧ LongEnough c rs (percentGaps c rs / (100 - percents c rs))

instance (c : Config) (rs : List Resident) : Decidable (Covered c rs) :=
  inferInstanceAs (Decidable (_ ∨ _))

theorem LongEnough.mono {rs : List Resident} {N N' : ℕ} (h : LongEnough c rs N) (hN : N ≤ N') :
    LongEnough c rs N' := by
  refine ⟨h.1, h.2.trans (mul_le_mul_of_nonneg_right ?_ (by linarith [h.1]))⟩
  exact_mod_cast Nat.succ_le_succ hN

theorem Resident.dbfTask_eq_demand (c : Config) (r : Resident) (L : ℕ) :
    r.dbfTask c L = (r.piece c).demand c.usecPerTick L := by
  have htick := c.tick_pos
  unfold Resident.dbfTask Piece.demand Piece.jobs Resident.piece
  by_cases hL : L < r.deadline
  · rw [if_pos hL, if_pos hL, Nat.zero_mul, Nat.zero_add]
    exact (Nat.div_eq_of_lt (by omega)).symm
  · rw [if_neg hL, if_neg hL]
    by_cases hshare : r.share = true
    · simp only [hshare, if_true]
      generalize (L - r.deadline) / r.period + 1 = n
      rw [← Nat.mul_assoc, Nat.add_sub_assoc htick, Nat.add_comm (n * r.amount * c.usecPerTick),
        Nat.add_mul_div_right _ _ htick, Nat.div_eq_of_lt (by omega), Nat.zero_add]
    · simp only [hshare]
      unfold Config.usecsToJiffies
      simp

theorem dbfSum_eq_demand (c : Config) (rs : List Resident) (L : ℕ) :
    dbfSum c rs L = demand c.usecPerTick (rs.map (Resident.piece c)) L := by
  have hfold : ∀ (rs : List Resident) (n : ℕ), rs.foldl (fun sum r => sum + r.dbfTask c L) n =
      n + demand c.usecPerTick (rs.map (Resident.piece c)) L := by
    intro rs
    induction rs with
    | nil => exact fun n => rfl
    | cons r rs ih =>
      intro n
      unfold demand at ih ⊢
      rw [List.foldl_cons, ih, Resident.dbfTask_eq_demand, List.map_cons, List.map_cons,
        List.sum_cons, Nat.add_assoc]
  unfold dbfSum
  rw [hfold, Nat.zero_add]

theorem dbfSum_append (c : Config) (rs rs' : List Resident) (L : ℕ) :
    dbfSum c (rs ++ rs') L = dbfSum c rs L + dbfSum c rs' L := by
  rw [dbfSum_eq_demand, dbfSum_eq_demand, dbfSum_eq_demand]
  unfold demand
  rw [List.map_append, List.map_append, List.sum_append]

theorem dbfSum_concat (c : Config) (rs : List Resident) (r : Resident) (L : ℕ) :
    dbfSum c (rs ++ [r]) L = dbfSum c rs L + r.dbfTask c L := by
  rw [dbfSum_append]
  unfold dbfSum
  rw [List.foldl_cons, List.foldl_nil, Nat.zero_add]

/-! ## The loops of the tests -/

section Tests

variable {rs : List Resident} {fits : ℕ → Bool}

/-- The sums of `dbf_len` have a value only if no utilisation divides by zero. -/
theorem dbfLenSum_eq : ∀ {rs : List Resident} {x u d : ℕ} {sums : ℕ × ℕ × ℕ},
    dbfLenSum c rs (x, u, d) = some sums → (∀ r ∈ rs, 0 < r.period) ∧
      sums = (x + percentGaps c rs, u + percents c rs,
        max d (residentsDeadline c rs)) := by
  intro rs
  induction rs with
  | nil =>
    intro x u d sums h
    refine ⟨fun r hr => absurd hr List.not_mem_nil, ?_⟩
    rw [← Option.some.inj h]
    exact congrArg _ (congrArg _ (Nat.max_zero d).symm)
  | cons q rs ih =>
    intro x u d sums h
    obtain ⟨v, hv, htail⟩ := Option.bind_eq_some_iff.1 h
    have hq : q.period ≠ 0 := by
      intro hzero
      unfold Resident.util at hv
      rw [if_pos hzero] at hv
      cases hv
    unfold Resident.util at hv
    rw [if_neg hq, Option.some.injEq] at hv
    subst hv
    obtain ⟨hpos, rfl⟩ := ih htail
    refine ⟨fun r hr => ?_, ?_⟩
    · rcases List.mem_cons.1 hr with rfl | hr
      · exact Nat.pos_of_ne_zero hq
      · exact hpos r hr
    · unfold percentGaps percents residentsDeadline maxDeadline
      rw [List.map_cons, List.map_cons, List.map_cons, List.sum_cons, List.sum_cons, List.foldr_cons,
        ← Nat.add_assoc, ← Nat.add_assoc, ← max_assoc]
      rfl

theorem fits_of_testDeadlines {period : ℕ} : ∀ {fuel L : ℕ},
    testDeadlines fits Lmax period fuel L = true →
      ∀ n < fuel, L + n * period ≤ Lmax → fits (L + n * period) = true := by
  intro fuel
  induction fuel with
  | zero => exact fun _ n hn => absurd hn (Nat.not_lt_zero n)
  | succ fuel ih =>
    intro L h n hn hle
    unfold testDeadlines at h
    rw [if_pos (by omega), Bool.and_eq_true] at h
    cases n with
    | zero =>
      rw [Nat.zero_mul, Nat.add_zero]
      exact h.1
    | succ n =>
      have hstep : L + (n + 1) * period = L + period + n * period := by
        rw [Nat.add_mul, Nat.one_mul]
        omega
      rw [hstep] at hle ⊢
      exact ih h.2 n (by omega) hle

/-- With a positive period, the fuel of the test is enough. -/
theorem fits_of_test {period deadline n : ℕ} (hp : 0 < period)
    (h : testDeadlines fits Lmax period (Lmax + 1) deadline = true)
    (hn : deadline + n * period ≤ Lmax) : fits (deadline + n * period) = true := by
  have hle : n ≤ n * period := Nat.le_mul_of_pos_right n hp
  exact fits_of_testDeadlines h n (by omega) hn

/-- After an accepted test the demand fits in every interval if the length of the test reaches as far
as it has to, and only if the utilisation is at most one. -/
theorem dbfSum_le_of_test (hpos : ∀ r ∈ rs, 0 < r.period)
    (hfits : ∀ L, fits L = true → dbfSum c rs L ≤ L) (htest : testResidents fits Lmax rs = true)
    (hmax : residentsDeadline c rs ≤ Lmax)
    (hpercents : percents c rs < 100 → percentGaps c rs / (100 - percents c rs) ≤ Lmax) :
    ((∀ L, dbfSum c rs L ≤ L) → residentsUtil c rs ≤ 1) ∧
      (Covered c rs → ∀ L, dbfSum c rs L ≤ L) := by
  have hpieces : ∀ p ∈ rs.map (Resident.piece c), 0 < p.period := by
    intro p hp
    obtain ⟨r, hr, rfl⟩ := List.mem_map.1 hp
    exact hpos r hr
  have htested : ∀ p ∈ rs.map (Resident.piece c), ∀ n, p.deadline + n * p.period ≤ Lmax →
      demand c.usecPerTick (rs.map (Resident.piece c)) (p.deadline + n * p.period) ≤
        p.deadline + n * p.period := by
    intro p hp n hn
    obtain ⟨r, hr, rfl⟩ := List.mem_map.1 hp
    rw [← dbfSum_eq_demand]
    exact hfits _ (fits_of_test (hpos r hr) (List.all_eq_true.1 htest r hr) hn)
  constructor
  · refine fun hall => util_le_one_of_demand_le c.tick_pos hpieces fun L => ?_
    rw [← dbfSum_eq_demand]
    exact hall L
  · intro hcovered L
    have hlong : LongEnough c rs Lmax := by
      rcases hcovered with h | ⟨hlt, h⟩
      · exact h.mono hmax
      · exact h.mono (hpercents hlt)
    rw [dbfSum_eq_demand]
    exact demand_le_of_tested c.tick_pos hpieces htested hmax hlong.1 hlong.2 L

theorem testResidents_concat {r : Resident} (h : testResidents fits Lmax rs = true)
    (hr : testDeadlines fits Lmax r.period (Lmax + 1) r.deadline = true) :
    testResidents fits Lmax (rs ++ [r]) = true := by
  unfold testResidents at h ⊢
  rw [List.all_append, h, List.all_cons, hr, List.all_nil]
  rfl

end Tests

/-- A task on CPU 0 and one on no CPU, with deadlines at the ends of the periods. -/
def TaskSet.pair (period₁ C₁ period₂ C₂ : ℕ) : TaskSet where
  list := [1]
  task := fun rt =>
    if rt = 1 then ⟨period₁, period₁, C₁, C₁, 3, 0, false⟩
    else ⟨period₂, period₂, C₂, C₂, 3, 1, false⟩
  switchCost := 0
  releaseCost := 0
  migrationCost := 0

/-! ## EDF-FF -/

namespace EdfFf

variable {s : TaskSet} {cpu rt : ℕ}

/-- The tasks on the CPU and the new one. -/
def candidates (s : TaskSet) (cpu rt : ℕ) : List Resident := residents s cpu ++ [resident s rt]

theorem dbfSum_candidates (L : ℕ) :
    dbfSum c (candidates s cpu rt) L = dbfCpu c s cpu L + dbfTask c s rt L := by
  unfold candidates dbfCpu dbfTask
  exact dbfSum_concat ..

/-- The length of the test is the largest deadline at least, and what the percents give. -/
theorem dbfLen_ge (hlen : dbfLen c s cpu rt = some Lmax) :
    (∀ r ∈ candidates s cpu rt, 0 < r.period) ∧
      residentsDeadline c (candidates s cpu rt) ≤ Lmax ∧
      (percents c (candidates s cpu rt) < 100 → percentGaps c (candidates s cpu rt) /
        (100 - percents c (candidates s cpu rt)) ≤ Lmax) := by
  obtain ⟨sums, hsums, hmax⟩ := Option.map_eq_some_iff.1 hlen
  obtain ⟨hpos, rfl⟩ := dbfLenSum_eq hsums
  dsimp only at hmax
  rw [Nat.zero_add, Nat.zero_add, Nat.zero_max] at hmax
  unfold candidates
  refine ⟨hpos, ?_, fun hlt => ?_⟩
  · subst hmax
    split
    · exact le_rfl
    · exact le_max_right ..
  · rw [← hmax, if_neg (not_le.2 hlt)]
    exact le_max_left ..

theorem testResidents_of_dbfTest (hwcet : 0 < (s.task rt).wcet)
    (hlen : dbfLen c s cpu rt = some Lmax) (h : dbfTest c s cpu rt = some true) :
    testResidents (fits c s cpu rt) Lmax (candidates s cpu rt) = true := by
  unfold dbfTest at h
  rw [if_neg (by omega), hlen, Option.map_some, Option.some.injEq, Bool.and_eq_true] at h
  exact testResidents_concat h.1 h.2

end EdfFf

/-! ## EDF-WM -/

namespace EdfWm

variable {s : EdfWm} {cpu rt : ℕ}

/-- The tasks and shares on the CPU and the new task. -/
def candidates (c : Config) (s : EdfWm) (cpu rt : ℕ) : List Resident :=
  s.residents c cpu ++ [s.resident c cpu rt]

theorem dbfSum_candidates (L : ℕ) :
    dbfSum c (s.candidates c cpu rt) L = s.dbfCpu c cpu L + s.dbfTask c cpu rt L := by
  unfold candidates dbfCpu dbfTask
  exact dbfSum_concat ..

/-- The same, unless the percents are more than a hundred. -/
theorem dbfLen_ge (hlen : s.dbfLen c cpu rt = some Lmax) (hne : Lmax ≠ 0) :
    (∀ r ∈ s.candidates c cpu rt, 0 < r.period) ∧
      residentsDeadline c (s.candidates c cpu rt) ≤ Lmax ∧
      (percents c (s.candidates c cpu rt) < 100 → percentGaps c (s.candidates c cpu rt) /
        (100 - percents c (s.candidates c cpu rt)) ≤ Lmax) := by
  obtain ⟨sums, hsums, hmax⟩ := Option.map_eq_some_iff.1 hlen
  obtain ⟨hpos, rfl⟩ := dbfLenSum_eq hsums
  dsimp only at hmax
  rw [Nat.zero_add, Nat.zero_add, Nat.zero_max] at hmax
  unfold candidates
  refine ⟨hpos, ?_, fun hlt => ?_⟩
  · split at hmax
    · exact hmax.le
    · split at hmax
      · exact absurd hmax.symm hne
      · exact (le_max_right ..).trans hmax.le
  · rw [← hmax, if_neg (by omega), if_neg (by omega)]
    exact le_max_left ..

/-- A task that is not split has the deadlines that the second loop of the test goes through. -/
theorem resident_of_not_split (h : (s.edfWmTask rt).runtime cpu = 0) :
    s.resident c cpu rt = ⟨(s.task rt).period, (s.task rt).deadline, (s.task rt).C c, false⟩ := by
  unfold resident splitIsOnCpu
  rw [h]
  simp

theorem testResidents_of_dbfTest (hC : 0 < (s.task rt).C c)
    (hwhole : (s.edfWmTask rt).runtime cpu = 0) (hlen : s.dbfLen c cpu rt = some Lmax)
    (hne : Lmax ≠ 0) (h : s.dbfTest c cpu rt = some true) :
    testResidents (s.fits c cpu rt) Lmax (s.candidates c cpu rt) = true := by
  unfold dbfTest at h
  rw [if_neg (by omega), hlen, Option.map_some, Option.some.injEq, if_neg hne,
    Bool.and_eq_true] at h
  refine testResidents_concat h.1 ?_
  rw [resident_of_not_split hwhole]
  exact h.2

/-- Two tasks that are not split. -/
def pair (period₁ C₁ period₂ C₂ : ℕ) : EdfWm where
  toTaskSet := TaskSet.pair period₁ C₁ period₂ C₂
  edfWmTask := fun _ => ⟨1, 1, none, 0, fun _ => 0⟩

end EdfWm

end Resch
