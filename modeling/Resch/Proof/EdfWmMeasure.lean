import Resch.Spec.EdfWm

/-!
# Shares and whole tasks under EDF-WM

A share is in jiffies and an execution time in microseconds. `util_split` divides the one and `util`
the other by the microseconds of the period, while `dbf_task` has a jiffy for each of them.

* `whole`: the task with the share for its execution time, on the CPU alone.
* `MeasuredAlike`: both have the same utilization and the same demand, and so have the CPUs.
* `measuredAlike_iff`: so it is iff `SameUtil` and `SameDemand` hold of the share.
-/

namespace Resch.Checked.EdfWm

open Lib

variable {c : Config} {s : EdfWm} {cpu p q L r : ℕ}

/-- A whole task on the CPU in place of the share: its execution time is the share in microseconds,
and its deadline the one of the window. -/
def whole (c : Config) (s : EdfWm) (cpu p : ℕ) : EdfWm :=
  { setEdfWmTask s p (EdfWmTask.clear c) with
    task := Function.update s.task p { s.task p with
      wcet := c.usecs ((s.edfWmTask p).runtime cpu)
      runtime := c.usecs ((s.edfWmTask p).runtime cpu)
      deadline := (s.edfWmTask p).deadline
      cpuId := cpu } }

/-- **A share is measured like a whole task**, in itself and on its CPU. -/
structure MeasuredAlike (c : Config) (s : EdfWm) (cpu p L : ℕ) : Prop where
  util : utilSplit c s cpu p = util c (whole c s cpu p) p
  dbf : dbfTask c s cpu p L = dbfTask c (whole c s cpu p) cpu p L
  utilCpu : utilCpu c s cpu = utilCpu c (whole c s cpu p) cpu
  dbfCpu : dbfCpu c s cpu L = dbfCpu c (whole c s cpu p) cpu L

/-- A jiffy is a microsecond, or the task uses less than a hundredth of its period. From 71 minutes
on, where `jiffies_to_usecs` wraps around, no multiple of the period is between a hundred shares in
jiffies and in microseconds. A period of no microseconds stops both. -/
def SameUtil (c : Config) (period r : ℕ) : Prop :=
  c.usecs period = 0 ∨
    if c.usecPerTick * r < 2 ^ 32 then c.usecPerTick = 1 ∨ 100 * (c.usecPerTick * r) < c.usecs period
    else max (ulong (100 * r)) (100 * c.usecs r) <
      (min (ulong (100 * r)) (100 * c.usecs r) / c.usecs period + 1) * c.usecs period

/-- The demand in the window is of less than 71 minutes (or of one jiffy that is no multiple of
them). -/
def SameDemand (c : Config) (period deadline r L : ℕ) : Prop :=
  L < deadline ∨
    let demand := ulong (ulong ((L - deadline) / period + 1 : ℕ) * r)
    c.usecPerTick * demand < 2 ^ 32 ∨ demand = 1 ∧ 0 < c.usecPerTick % 2 ^ 32

/-! ## The whole task -/

theorem whole_task (c : Config) (s : EdfWm) (cpu p : ℕ) : (whole c s cpu p).task p = { s.task p with
    wcet := c.usecs ((s.edfWmTask p).runtime cpu)
    runtime := c.usecs ((s.edfWmTask p).runtime cpu)
    deadline := (s.edfWmTask p).deadline
    cpuId := cpu } := Function.update_self ..

theorem whole_share (c : Config) (s : EdfWm) (cpu p : ℕ) :
    (whole c s cpu p).edfWmTask p = EdfWmTask.clear c := Function.update_self ..

/-- The execution time is the share, in a build of either kind. -/
theorem whole_C (c : Config) (s : EdfWm) (cpu p : ℕ) :
    ((whole c s cpu p).task p).C c = c.usecs ((s.edfWmTask p).runtime cpu) := by
  rw [whole_task]
  unfold RtTask.C
  dsimp only
  rw [ite_self]

/-- Of the other tasks nothing has changed. -/
theorem whole_other (c : Config) (s : EdfWm) (cpu : ℕ) (h : q ≠ p) :
    (whole c s cpu p).task q = s.task q ∧
    (whole c s cpu p).edfWmTask q = s.edfWmTask q :=
  ⟨Function.update_of_ne h .., Function.update_of_ne h ..⟩

/-- The task is whole on the CPU. -/
theorem whole_cpu (c : Config) (s : EdfWm) (cpu p : ℕ) :
    (whole c s cpu p).splitIsOnCpu p cpu = false ∧ (whole c s cpu p).taskIsOnCpu p cpu = true := by
  refine ⟨decide_eq_false ?_, decide_eq_true ?_⟩
  · rw [whole_share]
    exact lt_irrefl 0
  · rw [whole_task]

/-! ## Utilization -/

/-- Quotients agree iff no multiple of the divisor is between the numbers. -/
theorem div_eq_div_iff_between {a b u : ℕ} (hu : 0 < u) :
    a / u = b / u ↔ max a b < (min a b / u + 1) * u := by
  have ha : a = u * (a / u) + a % u := (Nat.div_add_mod a u).symm
  have hb : b = u * (b / u) + b % u := (Nat.div_add_mod b u).symm
  rcases Nat.le_total a b with hab | hab
  · rw [max_eq_right hab, min_eq_left hab, ← Nat.div_lt_iff_lt_mul hu]
    have := Nat.div_le_div_right (c := u) hab
    omega
  · rw [max_eq_left hab, min_eq_right hab, ← Nat.div_lt_iff_lt_mul hu]
    have := Nat.div_le_div_right (c := u) hab
    omega

/-- With a factor the quotients agree iff both are zero. -/
theorem div_eq_mul_div_iff {a t u : ℕ} (ht : 0 < t) (hu : 0 < u) :
    a / u = t * a / u ↔ t = 1 ∨ t * a < u := by
  constructor
  · intro h
    by_contra hc
    push Not at hc
    obtain ⟨h1, hge⟩ := hc
    have ht2 : 2 ≤ t := by omega
    -- the quotient of the multiple is positive, and at least twice the other one
    have hpos : 0 < t * a / u := Nat.div_pos hge hu
    have hdouble : 2 * (a / u) ≤ t * a / u := by
      rw [Nat.le_div_iff_mul_le hu]
      calc 2 * (a / u) * u = 2 * (a / u * u) := Nat.mul_assoc ..
        _ ≤ 2 * a := Nat.mul_le_mul_left 2 (Nat.div_mul_le_self a u)
        _ ≤ t * a := Nat.mul_le_mul_right a ht2
    omega
  · rintro (rfl | hlt)
    · rw [one_mul]
    · have hle : a ≤ t * a := Nat.le_mul_of_pos_left a ht
      rw [Nat.div_eq_of_lt hlt, Nat.div_eq_of_lt (by omega)]

theorem usecs_lt (c : Config) (j : ℕ) : c.usecs j < 2 ^ 32 := Nat.mod_lt _ (by decide)

theorem ulong_hundred {n : ℕ} (h : 100 * n < 2 ^ 64) : ulong (100 * (n : ℤ)) = 100 * n := by
  have hcast : 100 * (n : ℤ) = (100 * n : ℕ) := by omega
  rw [hcast]
  exact ulong_natCast h

/-- The two utilizations -/
theorem utilSplit_eq_iff : utilSplit c s cpu p = util c (whole c s cpu p) p ↔
    SameUtil c (s.task p).period ((s.edfWmTask p).runtime cpu) := by
  have hwhole : util c (whole c s cpu p) p =
      div (ulong (100 * c.usecs ((s.edfWmTask p).runtime cpu))) (c.usecs (s.task p).period) := by
    unfold util
    rw [whole_C, whole_task]
  rw [hwhole]
  unfold utilSplit SameUtil
  generalize (s.edfWmTask p).runtime cpu = r
  generalize hu : c.usecs (s.task p).period = u
  have hlt := usecs_lt c r
  have hC : ulong (100 * c.usecs r) = 100 * c.usecs r := ulong_hundred (by omega)
  rw [hC]
  by_cases hu0 : u = 0
  · subst hu0
    exact ⟨fun _ => Or.inl rfl, fun _ => rfl⟩
  rw [div_of_ne hu0, div_of_ne hu0, Except.ok.injEq]
  simp only [hu0, false_or]
  split
  · rename_i hsmall
    have hr : c.usecs r = c.usecPerTick * r := Nat.mod_eq_of_lt hsmall
    have hle : r ≤ c.usecPerTick * r := Nat.le_mul_of_pos_left r c.tick_pos
    have hA : ulong (100 * r) = 100 * r := ulong_hundred (by omega)
    rw [hA, hr, Nat.mul_left_comm 100 c.usecPerTick r]
    exact div_eq_mul_div_iff c.tick_pos (by omega)
  · exact div_eq_div_iff_between (by omega)

/-! ## Demand -/

/-- Jiffies that are turned into microseconds and back are the same as long as these have 32 bits. -/
theorem jiffies_mul_iff (c : Config) (v : ℕ) :
    v = c.jiffies (c.usecPerTick * v) ↔
      c.usecPerTick * v < 2 ^ 32 ∨ v = 1 ∧ 0 < c.usecPerTick % 2 ^ 32 := by
  have hT := c.tick_pos
  unfold Config.jiffies Config.usecsToJiffies
  generalize c.usecPerTick = T at hT ⊢
  have hround : v = (T * v % 2 ^ 32 + T - 1) / T ↔ T * v < T * v % 2 ^ 32 + T := by
    rw [eq_comm, Nat.div_eq_iff hT, Nat.mul_comm v T]
    have := Nat.mod_le (T * v) (2 ^ 32)
    omega
  rw [hround]
  by_cases hsmall : T * v < 2 ^ 32
  · rw [Nat.mod_eq_of_lt hsmall]
    exact ⟨fun _ => Or.inl hsmall, fun _ => by omega⟩
  · simp only [hsmall, false_or]
    constructor
    · intro h
      -- what is cut off is less than a tick, so that there is one tick only
      have hv : v = 1 := by
        have h2 : T * v < T * 2 := by omega
        have hlt := Nat.lt_of_mul_lt_mul_left h2
        have hne : v ≠ 0 := by
          rintro rfl
          omega
        omega
      subst hv
      rw [Nat.mul_one] at h
      exact ⟨rfl, by omega⟩
    · rintro ⟨rfl, hmod⟩
      rw [Nat.mul_one]
      omega

/-- The demand of the whole task does not depend on where its jiffies are cut. -/
theorem jiffies_demand (c : Config) (jobs r : ℕ) :
    c.jiffies (ulong (jobs * c.usecs r)) = c.jiffies (c.usecPerTick * ulong (jobs * r)) := by
  have hmod : ulong (jobs * c.usecs r) % 2 ^ 32 = c.usecPerTick * ulong (jobs * r) % 2 ^ 32 := by
    have hl : ulong (jobs * c.usecs r) % 2 ^ 32 = jobs * c.usecs r % 2 ^ 32 := by
      have : ((jobs * c.usecs r : ℕ) : ℤ) = jobs * c.usecs r := Nat.cast_mul ..
      unfold ulong
      omega
    have hr : ulong (jobs * r) % 2 ^ 32 = jobs * r % 2 ^ 32 := by
      have : ((jobs * r : ℕ) : ℤ) = jobs * r := Nat.cast_mul ..
      unfold ulong
      omega
    rw [hl, Nat.mul_mod c.usecPerTick, hr, ← Nat.mul_mod, Nat.mul_left_comm]
    unfold Config.usecs Config.jiffiesToUsecs
    rw [Nat.mul_mod jobs, Nat.mod_mod, ← Nat.mul_mod]
  unfold Config.jiffies
  rw [hmod]

/-- The two demands -/
theorem dbfTask_eq_iff (hp : 0 < (s.task p).period) (hsplit : s.splitIsOnCpu p cpu = true) :
    dbfTask c s cpu p L = dbfTask c (whole c s cpu p) cpu p L ↔
      SameDemand c (s.task p).period (s.edfWmTask p).deadline ((s.edfWmTask p).runtime cpu) L := by
  unfold dbfTask SameDemand
  rw [hsplit, (whole_cpu c s cpu p).1, if_pos rfl, if_neg Bool.false_ne_true, whole_C, whole_task]
  dsimp only
  by_cases hL : L < (s.edfWmTask p).deadline
  · rw [if_pos hL, if_pos hL]
    exact ⟨fun _ => Or.inl hL, fun _ => rfl⟩
  · rw [if_neg hL, if_neg hL, div_of_ne (by omega)]
    simp only [hL, false_or]
    rw [← jiffies_mul_iff, ← jiffies_demand]
    constructor
    · intro h
      exact Except.ok.inj h
    · intro h
      exact congrArg Except.ok h

/-! ## The CPU -/

theorem utilCpu_whole (hsplit : s.splitIsOnCpu p cpu = true)
    (hutil : utilSplit c s cpu p = util c (whole c s cpu p) p) :
    utilCpu c s cpu = utilCpu c (whole c s cpu p) cpu := by
  unfold utilCpu
  refine foldlM_congr fun q _ u => ?_
  by_cases hq : q = p
  · subst hq
    obtain ⟨hw, hon⟩ := whole_cpu c s cpu q
    rw [hsplit, hw, hon, hutil]
    rfl
  · obtain ⟨ht, he⟩ := whole_other c s cpu hq
    unfold EdfWm.splitIsOnCpu TaskSet.taskIsOnCpu utilSplit util
    simp only [ht, he]

theorem dbfCpu_whole (hsplit : s.splitIsOnCpu p cpu = true)
    (hdbf : dbfTask c s cpu p L = dbfTask c (whole c s cpu p) cpu p L) :
    dbfCpu c s cpu L = dbfCpu c (whole c s cpu p) cpu L := by
  unfold dbfCpu
  refine foldlM_congr fun q _ sum => ?_
  by_cases hq : q = p
  · subst hq
    obtain ⟨-, hon⟩ := whole_cpu c s cpu q
    rw [hsplit, hon, hdbf, Bool.or_true, Bool.true_or]
  · obtain ⟨ht, he⟩ := whole_other c s cpu hq
    unfold dbfTask EdfWm.splitIsOnCpu TaskSet.taskIsOnCpu
    simp only [ht, he]

/-- **Shares are measured like whole tasks** iff a jiffy is a microsecond or the task uses less than
a hundredth of its period, and its demand is of less than 71 minutes. -/
theorem measuredAlike_iff (c : Config) (s : EdfWm) (cpu p L : ℕ) (hp : 0 < (s.task p).period)
    (hsplit : s.splitIsOnCpu p cpu = true) :
    MeasuredAlike c s cpu p L ↔
      SameUtil c (s.task p).period ((s.edfWmTask p).runtime cpu) ∧
        SameDemand c (s.task p).period (s.edfWmTask p).deadline ((s.edfWmTask p).runtime cpu) L := by
  rw [← utilSplit_eq_iff, ← dbfTask_eq_iff hp hsplit]
  constructor
  · intro h
    exact ⟨h.util, h.dbf⟩
  · rintro ⟨hutil, hdbf⟩
    exact ⟨hutil, hdbf, utilCpu_whole hsplit hutil, dbfCpu_whole hsplit hdbf⟩

/-- A task with a period of ten jiffies and a share of five of them, and then of a thousand jiffies
and five of them. -/
def shareOf (period : ℕ) : EdfWm where
  list := [0]
  task := fun _ => ⟨period, period, 0, 0, 0, 0, false⟩
  switchCost := 0
  releaseCost := 0
  migrationCost := 0
  edfWmTask := fun _ => ⟨0, 0, some 0, 5, fun _ => 5⟩

theorem measuredAlike_iff_thousand :
    MeasuredAlike (.small false) (shareOf 1000) 0 0 1000 ↔
      SameUtil (.small false) 1000 5 ∧ SameDemand (.small false) 1000 5 5 1000 :=
  measuredAlike_iff (.small false) (shareOf 1000) 0 0 1000 (by decide) (by decide)

/-- Half of the period is no utilization where it is a share. -/
theorem measuredAlike_not :
    utilSplit (.small false) (shareOf 10) 0 0 = .ok 0 ∧
      util (.small false) (whole (.small false) (shareOf 10) 0 0) 0 = .ok 50 ∧
      ¬ ∀ (c : Config) (s : EdfWm) (cpu p L : ℕ), 0 < (s.task p).period →
        s.splitIsOnCpu p cpu = true → MeasuredAlike c s cpu p L := by
  refine ⟨by decide +kernel, by decide +kernel, fun h => ?_⟩
  have hutil := (h (.small false) (shareOf 10) 0 0 0 (by decide) (by decide)).util
  revert hutil
  decide +kernel

end Resch.Checked.EdfWm
