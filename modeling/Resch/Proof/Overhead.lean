import Mathlib.Algebra.BigOperators.Group.List.Basic
import Resch.Proof.Faults

/-!
# The overhead that the plugins charge

* `charge`: what the core's overhead functions add up to for a window, without wrap-around.
* `overheadAt_ok_iff`: what is charged in jiffies. EDF-FF and EDF-WM give the window in jiffies where
  the core takes microseconds.
* `missed`: the jobs and ticks that they leave out for that.
* `overhead_same_iff`: they charge what FP-FF and FP-PM do iff what is left out goes into what
  rounding up to a jiffy adds.
-/

namespace Resch.Checked

open Lib

variable {c : Config} {s : TaskSet} {rt cpu p x L interval : ℕ}

/-- The cost of a job -/
def jobCost (s : TaskSet) (p : ℕ) : ℕ :=
  s.switchCost + s.releaseCost + if (s.task p).migratory then s.migrationCost else 0

/-- The costs of the jobs of a task in `interval` microseconds -/
def jobCosts (c : Config) (s : TaskSet) (p interval : ℕ) : ℕ :=
  Resch.divRoundUp interval (c.usecs (s.task p).period) * jobCost s p

/-- The costs of the jobs of the tasks on a CPU and of `rt`, and those of the ticks -/
def charge (c : Config) (s : TaskSet) (rt cpu interval : ℕ) : ℕ :=
  ((s.list.filter fun p => decide ((s.task p).cpuId = cpu)).map (jobCosts c s · interval)).sum +
    jobCosts c s rt interval + c.jiffies interval * s.switchCost % 2 ^ 64 / 2

/-! ## The functions of the core -/

theorem divRoundUp_of_ne {y : ℕ} (h : y ≠ 0) : divRoundUp x y = .ok (Resch.divRoundUp x y) := by
  unfold divRoundUp Resch.divRoundUp
  rw [mod_of_ne h, div_of_ne h]
  show (if x % y = 0 then _ else _) = _
  split
  · rfl
  · rfl

theorem divRoundUp_ok {y r : ℕ} (h : divRoundUp x y = .ok r) : y ≠ 0 := by
  intro h0
  obtain ⟨q, hq, -⟩ := bind_eq_ok.1 h
  unfold Lib.mod at hq
  rw [if_pos h0] at hq
  cases hq

theorem schedOverheadTask_eq (h : c.usecs (s.task rt).period ≠ 0) :
    schedOverheadTask c s rt interval = .ok (jobCosts c s rt interval % 2 ^ 64) := by
  unfold schedOverheadTask
  rw [divRoundUp_of_ne h]
  show Except.ok _ = Except.ok _
  congr 1
  unfold jobCosts jobCost
  generalize Resch.divRoundUp interval (c.usecs (s.task rt).period) = n
  split
  · rw [Nat.mul_add n (s.switchCost + s.releaseCost), ← Nat.cast_add s.switchCost, ← Nat.cast_mul,
      ← Nat.cast_mul]
    unfold ulong
    omega
  · rw [Nat.add_zero, ← Nat.cast_add s.switchCost, ← Nat.cast_mul]
    unfold ulong
    omega

theorem schedOverheadTask_ok {o : ℕ} (h : schedOverheadTask c s rt interval = .ok o) :
    c.usecs (s.task rt).period ≠ 0 := by
  obtain ⟨n, hn, -⟩ := bind_eq_ok.1 h
  exact divRoundUp_ok hn

/-- If there is a result, it is that of the function without the check. -/
theorem schedOverheadTask_value {o : ℕ} (h : schedOverheadTask c s rt interval = .ok o) :
    o = s.schedOverheadTask c rt interval := by
  have hperiod := schedOverheadTask_ok h
  unfold schedOverheadTask at h
  rw [divRoundUp_of_ne hperiod] at h
  exact (Except.ok.inj h).symm

/-- A sum over part of a list, as an `unsigned long` -/
theorem foldl_ulong_add (g : ℕ → ℕ) (q : ℕ → Bool) : ∀ (l : List ℕ) (o : ℕ),
    l.foldl (fun o p => if q p then ulong ((o : ℤ) + (g p % 2 ^ 64 : ℕ)) else o) (o % 2 ^ 64) =
      (o + ((l.filter q).map g).sum) % 2 ^ 64 := by
  intro l
  induction l with
  | nil => exact fun o => rfl
  | cons p l ih =>
    intro o
    rw [List.foldl_cons]
    by_cases hq : q p = true
    · have hstep : ulong (((o % 2 ^ 64 : ℕ) : ℤ) + (g p % 2 ^ 64 : ℕ)) = (o + g p) % 2 ^ 64 := by
        unfold ulong
        omega
      rw [if_pos hq, hstep, ih, List.filter_cons_of_pos hq, List.map_cons, List.sum_cons,
        Nat.add_assoc]
    · rw [if_neg hq, ih, List.filter_cons_of_neg hq]

theorem schedOverheadCpu_eq (h : Periods c s cpu) :
    schedOverheadCpu c s cpu interval = .ok
      ((((s.list.filter fun p => decide ((s.task p).cpuId = cpu)).map
        (jobCosts c s · interval)).sum + c.jiffies interval * s.switchCost % 2 ^ 64 / 2) %
          2 ^ 64) := by
  have hloop : s.list.foldlM (fun overhead rt => do
      if (s.task rt).cpuId = cpu then
        return ulong ((overhead : ℤ) + (← schedOverheadTask c s rt interval))
      else return overhead) 0 = Except.ok (ε := Fault) (s.list.foldl (fun o p =>
        if decide ((s.task p).cpuId = cpu) then
          ulong ((o : ℤ) + (jobCosts c s p interval % 2 ^ 64 : ℕ)) else o) 0) := by
    refine foldlM_eq_ok (fun p hp o => ?_) 0
    by_cases hcpu : (s.task p).cpuId = cpu
    · rw [if_pos hcpu, if_pos (decide_eq_true hcpu), schedOverheadTask_eq (h p hp hcpu)]
      rfl
    · rw [if_neg hcpu, if_neg (by simpa using hcpu)]
      rfl
  have hsum := foldl_ulong_add (jobCosts c s · interval) (fun p => decide ((s.task p).cpuId = cpu))
    s.list 0
  rw [Nat.zero_mod, Nat.zero_add] at hsum
  unfold schedOverheadCpu
  rw [hloop, hsum]
  show Except.ok _ = Except.ok _
  rw [← Nat.cast_mul]
  unfold ulong
  congr 1
  omega

/-- A loop that has a result has one in every turn. -/
theorem schedOverheadCpu_ok {o : ℕ} (h : schedOverheadCpu c s cpu interval = .ok o) :
    Periods c s cpu := by
  obtain ⟨sum, hsum, -⟩ := bind_eq_ok.1 h
  intro p hp hcpu
  obtain ⟨a, b, hab⟩ := foldlM_ok_mem hsum hp
  rw [if_pos hcpu] at hab
  obtain ⟨t, ht, -⟩ := bind_eq_ok.1 hab
  exact schedOverheadTask_ok ht

theorem schedOverheadCpu_value {o : ℕ} (h : schedOverheadCpu c s cpu interval = .ok o) :
    o = s.schedOverheadCpu c cpu interval := by
  obtain ⟨sum, hsum, h⟩ := bind_eq_ok.1 h
  have hloop : sum = s.list.foldl (fun o p => if (s.task p).cpuId = cpu then
      ulong ((o : ℤ) + s.schedOverheadTask c p interval) else o) 0 := by
    refine foldlM_ok_eq (fun p _ o o' hturn => ?_) hsum
    by_cases hcpu : (s.task p).cpuId = cpu
    · rw [if_pos hcpu] at hturn ⊢
      obtain ⟨t, ht, hturn⟩ := bind_eq_ok.1 hturn
      rw [← Except.ok.inj hturn, schedOverheadTask_value ht]
    · rw [if_neg hcpu] at hturn ⊢
      exact (Except.ok.inj hturn).symm
  rw [← Except.ok.inj h, hloop]
  rfl

/-! ## The overhead of a window -/

/-- What the plugins make of the core's overhead functions, in jiffies -/
def overheadAt (c : Config) (s : TaskSet) (rt cpu interval : ℕ) : Except Fault ℕ := do
  let us := (← schedOverheadCpu c s cpu interval) + (← schedOverheadTask c s rt interval)
  return c.jiffies (ulong us)

/-- The overhead that FP-FF and FP-PM charge for a window of `L` jiffies -/
def fpOverhead (c : Config) (s : TaskSet) (rt cpu L : ℕ) : Except Fault ℕ :=
  overheadAt c s rt cpu (c.usecs L)

/-- `usecs_to_jiffies` of the two overheads, which takes the sum as an `unsigned int` -/
theorem jiffies_add (tasks ticks job : ℕ) :
    c.jiffies (ulong ((((tasks + ticks) % 2 ^ 64 : ℕ) : ℤ) + (job % 2 ^ 64 : ℕ))) =
      c.usecsToJiffies ((tasks + job + ticks) % 2 ^ 32) := by
  unfold Config.jiffies ulong
  congr 1
  omega

theorem overheadAt_ok_iff {o : ℕ} :
    overheadAt c s rt cpu interval = .ok o ↔
      (Periods c s cpu ∧ c.usecs (s.task rt).period ≠ 0) ∧
        c.usecsToJiffies (charge c s rt cpu interval % 2 ^ 32) = o := by
  constructor
  · intro h
    obtain ⟨us, hus, hus'⟩ := bind_eq_ok.1 h
    obtain ⟨ut, hut, hut'⟩ := bind_eq_ok.1 hus'
    have hp := schedOverheadCpu_ok hus
    have hrt := schedOverheadTask_ok hut
    refine ⟨⟨hp, hrt⟩, ?_⟩
    rw [schedOverheadCpu_eq hp] at hus
    rw [schedOverheadTask_eq hrt] at hut
    cases hus
    cases hut
    cases hut'
    exact (jiffies_add ..).symm
  · rintro ⟨⟨hp, hrt⟩, rfl⟩
    unfold overheadAt
    rw [schedOverheadCpu_eq hp, schedOverheadTask_eq hrt]
    exact congrArg Except.ok (jiffies_add ..)

/-- EDF-FF and EDF-WM charge for the window what FP-FF and FP-PM charge for it. -/
def SameOverhead (c : Config) (s : EdfWm) (rt cpu L : ℕ) : Prop :=
  ∃ o, EdfFf.overhead c s.toTaskSet rt cpu L = .ok o ∧ EdfWm.overhead c s rt cpu L = .ok o ∧
    fpOverhead c s.toTaskSet rt cpu L = .ok o

/-! ## What is left out -/

/-- The costs of the jobs of a task that begin in `L` jiffies, less those in `L` microseconds -/
def missedJobs (c : Config) (s : TaskSet) (L p : ℕ) : ℤ :=
  ((Resch.divRoundUp (c.usecs L) (c.usecs (s.task p).period) : ℤ) -
    Resch.divRoundUp L (c.usecs (s.task p).period)) * jobCost s p

/-- The same for the ticks -/
def missedTicks (c : Config) (s : TaskSet) (L : ℕ) : ℤ :=
  (c.jiffies (c.usecs L) * s.switchCost % 2 ^ 64 / 2 : ℕ) -
    (c.jiffies L * s.switchCost % 2 ^ 64 / 2 : ℕ)

/-- What the jobs of the tasks on the CPU and of `rt`, and the ticks, cost more in `L` jiffies. -/
def missed (c : Config) (s : TaskSet) (rt cpu L : ℕ) : ℤ :=
  ((s.list.filter fun p => decide ((s.task p).cpuId = cpu)).map (missedJobs c s L)).sum +
    missedJobs c s L rt + missedTicks c s L

/-- `more` microseconds fit into what rounding `us` up to a jiffy adds, or as many less into what `us`
has of its last jiffy, as `unsigned int`s. -/
def Absorbed (c : Config) (us : ℕ) (more : ℤ) : Prop :=
  (more % 2 ^ 32 ≤ c.usecPerTick * c.usecsToJiffies us - us ∧ us + more % 2 ^ 32 < 2 ^ 32) ∨
    (-more) % 2 ^ 32 < us - c.usecPerTick * ((us - 1) / c.usecPerTick : ℕ)

theorem jobCosts_usecs (p : ℕ) :
    (jobCosts c s p (c.usecs L) : ℤ) = jobCosts c s p L + missedJobs c s L p := by
  unfold jobCosts missedJobs
  rw [Nat.cast_mul, Nat.cast_mul, Int.sub_mul]
  omega

theorem charge_usecs :
    (charge c s rt cpu (c.usecs L) : ℤ) = charge c s rt cpu L + missed c s rt cpu L := by
  have hsum : ∀ l : List ℕ, ((l.map (jobCosts c s · (c.usecs L))).sum : ℤ) =
      (l.map (jobCosts c s · L)).sum + (l.map (missedJobs c s L)).sum := by
    intro l
    induction l with
    | nil => rfl
    | cons p l ih =>
      rw [List.map_cons, List.sum_cons, List.map_cons, List.sum_cons, List.map_cons, List.sum_cons,
        Nat.cast_add, Nat.cast_add, ih, jobCosts_usecs]
      omega
  unfold charge missed missedTicks
  rw [Nat.cast_add, Nat.cast_add, Nat.cast_add, Nat.cast_add, hsum, jobCosts_usecs]
  omega

theorem usecsToJiffies_eq {us q : ℕ} : c.usecsToJiffies us = q ↔
    us ≤ c.usecPerTick * q ∧ c.usecPerTick * q < us + c.usecPerTick := by
  have ht := c.tick_pos
  have hdm := Nat.div_add_mod (us + c.usecPerTick - 1) c.usecPerTick
  have hmod := Nat.mod_lt (us + c.usecPerTick - 1) ht
  unfold Config.usecsToJiffies
  constructor
  · rintro rfl
    omega
  · rintro ⟨hle, hlt⟩
    refine Nat.div_eq_of_lt_le ?_ ?_
    · rw [Nat.mul_comm]
      omega
    · rw [Nat.mul_comm, Nat.mul_add, Nat.mul_one]
      omega

/-- Rounding up ends in the same jiffy. -/
theorem usecsToJiffies_eq_iff {us us' : ℕ} {more : ℤ} (hus : (us' : ℤ) = us + more) :
    c.usecsToJiffies (us' % 2 ^ 32) = c.usecsToJiffies (us % 2 ^ 32) ↔
      Absorbed c (us % 2 ^ 32) more := by
  have ht := c.tick_pos
  have hlt : us % 2 ^ 32 < 2 ^ 32 := Nat.mod_lt _ (by decide)
  have hmod : ((us' % 2 ^ 32 : ℕ) : ℤ) = ((us % 2 ^ 32 : ℕ) + more) % 2 ^ 32 := by omega
  generalize us % 2 ^ 32 = a at hlt hmod ⊢
  generalize us' % 2 ^ 32 = b at hmod ⊢
  obtain ⟨hend, hlast⟩ := usecsToJiffies_eq.1 (rfl : c.usecsToJiffies a = c.usecsToJiffies a)
  -- the last jiffy of `a` begins at a multiple of the tick
  have hbegin : 0 < a → c.usecPerTick * ((a - 1) / c.usecPerTick) + c.usecPerTick =
      c.usecPerTick * c.usecsToJiffies a := by
    intro ha
    unfold Config.usecsToJiffies
    rw [show a + c.usecPerTick - 1 = a - 1 + c.usecPerTick by omega, Nat.add_div_right _ ht,
      Nat.mul_succ]
  have hnone : a = 0 → c.usecPerTick * ((a - 1) / c.usecPerTick) = 0 := by
    rintro rfl
    rw [Nat.zero_sub, Nat.zero_div, Nat.mul_zero]
  rw [usecsToJiffies_eq]
  unfold Absorbed
  rw [← Nat.cast_mul, ← Nat.cast_mul]
  generalize c.usecPerTick * c.usecsToJiffies a = q at *
  generalize c.usecPerTick * ((a - 1) / c.usecPerTick) = n at *
  omega

/-- **The overhead of a window** is the same with the EDF and the FP plugins iff the periods are not
zero in microseconds, and what the jobs and ticks of `L` jiffies cost more than those of `L`
microseconds goes into what rounding up adds. -/
theorem overhead_same_iff (c : Config) (s : EdfWm) (rt cpu L : ℕ) :
    SameOverhead c s rt cpu L ↔
      (Periods c s.toTaskSet cpu ∧ c.usecs (s.task rt).period ≠ 0) ∧
        Absorbed c (charge c s.toTaskSet rt cpu L % 2 ^ 32) (missed c s.toTaskSet rt cpu L) := by
  have hff : ∀ o, EdfFf.overhead c s.toTaskSet rt cpu L = .ok o ↔
      overheadAt c s.toTaskSet rt cpu L = .ok o := fun _ => Iff.rfl
  have hwm : ∀ o, EdfWm.overhead c s rt cpu L = .ok o ↔
      overheadAt c s.toTaskSet rt cpu L = .ok o := fun _ => Iff.rfl
  unfold SameOverhead fpOverhead
  simp only [hff, hwm, overheadAt_ok_iff]
  rw [← usecsToJiffies_eq_iff charge_usecs]
  constructor
  · rintro ⟨o, ⟨hp, ho⟩, -, -, ho'⟩
    exact ⟨hp, ho'.trans ho.symm⟩
  · rintro ⟨hp, he⟩
    exact ⟨_, ⟨hp, rfl⟩, ⟨hp, rfl⟩, hp, he⟩

/-- A task alone, with a period of 10 jiffies -/
def oneTask : EdfWm where
  list := []
  task _ := ⟨10, 10, 1000, 1000, 1, 1, false⟩
  switchCost := 500
  releaseCost := 500
  migrationCost := 0
  edfWmTask _ := EdfWmTask.clear (Config.small false)

/-- In 20 jiffies the task has two jobs, and in 20 microseconds one. -/
theorem overhead_not_same : ¬ ∀ (c : Config) (s : EdfWm) (rt cpu L : ℕ),
    (∀ p, 0 < (s.task p).period) → SameOverhead c s rt cpu L := by
  intro hall
  obtain ⟨o, hff, -, hfp⟩ := hall (Config.small false) oneTask 0 0 20 fun _ => (by decide : 0 < 10)
  rw [show EdfFf.overhead (Config.small false) oneTask.toTaskSet 0 0 20 = .ok 2 by decide +kernel]
    at hff
  rw [show fpOverhead (Config.small false) oneTask.toTaskSet 0 0 20 = .ok 7 by decide +kernel] at hfp
  cases hff
  cases hfp

end Resch.Checked
