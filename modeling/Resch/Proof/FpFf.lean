import Resch.Lib.Sorted
import Resch.Proof.Overhead
import Resch.Spec.FpFf

/-!
# The response times that FP-FF admits

* `responseTimeAnalysis_ok_iff`: the analysis in closed form.
* `responseTime_assign`, `responseTime_assign_self`: what the analysis finds when a task has been
  placed on the CPU. The test of `partition` knows the new task's jobs but not its overhead, which
  is added to every task there, and a second time to the new task.
* `admission_stable_iff`: every task on the CPU passes again iff there is room for this overhead.
-/

namespace Resch.Checked.FpFf

open Lib

variable {c : Config} {s : TaskSet} {rt cpu k L P C : ℕ} {mask : ℕ → Bool}

/-! ## The analysis -/

/-- `interference` for a period that is not zero -/
def interfere (L P C : ℕ) : ℕ :=
  let F := cint (L / P)
  if ulong (P * F + C) ≤ L then ulong (C * (F + 1)) else ulong (L - F * (P - C))

/-- The interference of one task -/
def interfereTask (c : Config) (s : TaskSet) (hp L : ℕ) : ℕ :=
  interfere L (c.usecs (s.task hp).period) ((s.task hp).C c)

/-- The tasks of at least the priority of `rt` -/
def hps (s : TaskSet) (rt : ℕ) : List ℕ :=
  s.list.takeWhile fun hp => decide ((s.task rt).prio ≤ (s.task hp).prio)

/-- The interference of the tasks on the CPU -/
def interferences (c : Config) (s : TaskSet) (rt cpu L : ℕ) : ℕ :=
  (((hps s rt).filter fun hp => decide (s.taskIsOnCpu hp cpu ∧ hp ≠ rt)).map
    (interfereTask c s · L)).sum

/-- `response_time_analysis` before it is made an `unsigned long` -/
def responseTime (c : Config) (s : TaskSet) (rt cpu : ℕ) : ℕ :=
  interferences c s rt cpu (c.usecs (s.task rt).deadline) + (s.task rt).C c +
    charge c s rt cpu (c.usecs (s.task rt).deadline)

theorem interference_eq (h : P ≠ 0) : interference L P C = .ok (interfere L P C) := by
  unfold interference
  rw [div_of_ne h]
  rfl

theorem ulong_lt (x : ℤ) : ulong x < 2 ^ 64 := by
  unfold ulong
  omega

theorem interfere_lt : interfere L P C < 2 ^ 64 := by
  unfold interfere
  dsimp only
  split
  · exact ulong_lt _
  · exact ulong_lt _

/-- The loop of the analysis -/
theorem foldlM_interference (q : ℕ → Prop) [DecidablePred q] (L : ℕ) (l : List ℕ)
    (h : ∀ hp ∈ l, q hp → c.usecs (s.task hp).period ≠ 0) :
    l.foldlM (fun (ret : ℕ) hp => do
        if q hp then
          return ulong (ret + (← interference L (c.usecs (s.task hp).period) ((s.task hp).C c)))
        else return ret) 0 =
      Except.ok (ε := Fault) (((l.filter fun hp => decide (q hp)).map
        (interfereTask c s · L)).sum % 2 ^ 64) := by
  have hsum := foldl_ulong_add (interfereTask c s · L) (fun hp => decide (q hp)) l 0
  rw [Nat.zero_mod, Nat.zero_add] at hsum
  rw [← hsum]
  refine foldlM_eq_ok (fun hp hmem ret => ?_) 0
  by_cases hq : q hp
  · have hlt : interfereTask c s hp L < 2 ^ 64 := interfere_lt
    rw [if_pos hq, if_pos (decide_eq_true hq), interference_eq (h hp hmem hq),
      Nat.mod_eq_of_lt hlt]
    rfl
  · rw [if_neg hq, if_neg (by simpa using hq)]
    rfl

/-- **The response-time analysis** has a result iff no period it divides by is zero. -/
theorem responseTimeAnalysis_ok_iff {r : ℕ} :
    responseTimeAnalysis c s rt cpu = .ok r ↔
      (Periods c s cpu ∧ c.usecs (s.task rt).period ≠ 0) ∧
        responseTime c s rt cpu % 2 ^ 64 = r := by
  have hloop := foldlM_interference (c := c) (s := s)
    (fun hp => s.taskIsOnCpu hp cpu ∧ hp ≠ rt) (c.usecs (s.task rt).deadline) (hps s rt)
  constructor
  · intro h
    obtain ⟨ret, hret, h⟩ := bind_eq_ok.1 h
    obtain ⟨us, hus, h⟩ := bind_eq_ok.1 h
    obtain ⟨ut, hut, h⟩ := bind_eq_ok.1 h
    have hp := schedOverheadCpu_ok hus
    have hrt := schedOverheadTask_ok hut
    have hret' := hloop fun hp' hmem hq =>
      hp hp' ((List.takeWhile_sublist _).subset hmem) (of_decide_eq_true hq.1)
    rw [show ret = _ from Except.ok.inj (hret.symm.trans hret')] at h
    rw [schedOverheadCpu_eq hp] at hus
    rw [schedOverheadTask_eq hrt] at hut
    cases hus
    cases hut
    cases h
    refine ⟨⟨hp, hrt⟩, ?_⟩
    unfold responseTime interferences charge ulong
    omega
  · rintro ⟨⟨hp, hrt⟩, rfl⟩
    have hret' := hloop fun hp' hmem hq =>
      hp hp' ((List.takeWhile_sublist _).subset hmem) (of_decide_eq_true hq.1)
    unfold responseTimeAnalysis
    dsimp only
    rw [show s.list.takeWhile (fun hp => decide ((s.task rt).prio ≤ (s.task hp).prio)) = hps s rt
      from rfl, hret', schedOverheadCpu_eq hp, schedOverheadTask_eq hrt]
    refine congrArg Except.ok ?_
    unfold responseTime interferences charge ulong
    omega

/-! ## The task is placed -/

/-- The overhead of the jobs of a task that does not migrate -/
def ownOverhead (c : Config) (s : TaskSet) (rt L : ℕ) : ℕ :=
  Resch.divRoundUp L (c.usecs (s.task rt).period) * (s.switchCost + s.releaseCost)

/-- What migrations cost a task that may still migrate -/
def migrationCosts (c : Config) (s : TaskSet) (rt L : ℕ) : ℕ :=
  Resch.divRoundUp L (c.usecs (s.task rt).period) *
    if (s.task rt).migratory then s.migrationCost else 0

theorem jobCosts_eq : jobCosts c s rt L = ownOverhead c s rt L + migrationCosts c s rt L :=
  Nat.mul_add ..

/-- A task is new on a CPU: it is in the global list, which is in order, and not on the CPU. -/
structure New (c : Config) (s : TaskSet) (rt cpu : ℕ) : Prop where
  sorted : s.list.Pairwise fun a b => (s.task b).prio ≤ (s.task a).prio
  nodup : s.list.Nodup
  mem : rt ∈ s.list
  cpu_ne : (s.task rt).cpuId ≠ cpu
  defined : cpu ≠ c.cpuUndefined

theorem assign_task_self (h : New c s rt cpu) :
    (assign c s rt cpu).task rt = { s.task rt with cpuId := cpu, migratory := false } := by
  unfold assign
  dsimp only
  rw [Function.update_self, if_pos h.defined]

theorem assign_task_of_ne (hk : k ≠ rt) : (assign c s rt cpu).task k = s.task k :=
  Function.update_of_ne hk ..

/-- The fixed parameters of the tasks -/
theorem assign_fixed (h : New c s rt cpu) (k : ℕ) :
    ((assign c s rt cpu).task k).prio = (s.task k).prio ∧
      ((assign c s rt cpu).task k).period = (s.task k).period ∧
      ((assign c s rt cpu).task k).deadline = (s.task k).deadline ∧
      ((assign c s rt cpu).task k).C c = (s.task k).C c := by
  by_cases hk : k = rt
  · subst hk
    rw [assign_task_self h]
    exact ⟨rfl, rfl, rfl, rfl⟩
  · rw [assign_task_of_ne hk]
    exact ⟨rfl, rfl, rfl, rfl⟩

theorem assign_taskIsOnCpu (h : New c s rt cpu) :
    (assign c s rt cpu).taskIsOnCpu rt cpu = true := by
  unfold TaskSet.taskIsOnCpu
  rw [assign_task_self h]
  exact decide_eq_true rfl

theorem assign_taskIsOnCpu_of_ne (hk : k ≠ rt) :
    (assign c s rt cpu).taskIsOnCpu k cpu = s.taskIsOnCpu k cpu := by
  unfold TaskSet.taskIsOnCpu
  rw [assign_task_of_ne hk]

theorem assign_hps (h : New c s rt cpu) (k : ℕ) : hps (assign c s rt cpu) k = hps s k := by
  have hprio : ∀ x, ((assign c s rt cpu).task x).prio = (s.task x).prio :=
    fun x => (assign_fixed h x).1
  unfold hps
  simp only [hprio]
  rfl

theorem assign_interfereTask (h : New c s rt cpu) (k L : ℕ) :
    interfereTask c (assign c s rt cpu) k L = interfereTask c s k L := by
  obtain ⟨-, hperiod, -, hC⟩ := assign_fixed h k
  unfold interfereTask
  rw [hperiod, hC]

theorem New.mem_hps (h : New c s rt cpu) :
    rt ∈ hps s k ↔ (s.task k).prio ≤ (s.task rt).prio := by
  have hkey : hps s k = s.list.filter fun x => decide ((s.task k).prio ≤ (s.task x).prio) :=
    takeWhile_eq_filter h.sorted
  rw [hkey, List.mem_filter, decide_eq_true_iff, and_iff_right h.mem]

/-- The new task interferes with the tasks of at most its priority. -/
theorem interferences_assign (h : New c s rt cpu) (hk : k ≠ rt) (L : ℕ) :
    interferences c (assign c s rt cpu) k cpu L = interferences c s k cpu L +
      if (s.task k).prio ≤ (s.task rt).prio then interfereTask c s rt L else 0 := by
  have hsame : ∀ x, x ≠ rt →
      decide ((assign c s rt cpu).taskIsOnCpu x cpu ∧ x ≠ k) =
        decide (s.taskIsOnCpu x cpu ∧ x ≠ k) ∧
      interfereTask c (assign c s rt cpu) x L = interfereTask c s x L := by
    intro x hx
    rw [assign_taskIsOnCpu_of_ne hx]
    exact ⟨rfl, assign_interfereTask h x L⟩
  have hnodup : (hps s k).Nodup := (List.takeWhile_sublist _).nodup h.nodup
  have hno : s.taskIsOnCpu rt cpu = false := decide_eq_false h.cpu_ne
  unfold interferences
  rw [assign_hps h]
  by_cases hprio : (s.task k).prio ≤ (s.task rt).prio
  · rw [if_pos hprio, ← assign_interfereTask h rt L]
    refine sum_filter_add hnodup (h.mem_hps.2 hprio) ?_ ?_ hsame
    · rw [hno]
      rfl
    · exact decide_eq_true ⟨assign_taskIsOnCpu h, hk.symm⟩
  · have hne : ∀ x ∈ hps s k, x ≠ rt := by
      rintro x hx rfl
      exact hprio (h.mem_hps.1 hx)
    rw [if_neg hprio, Nat.add_zero, List.filter_congr fun x hx => (hsame x (hne x hx)).1,
      List.map_congr_left fun x hx => (hsame x (hne x (List.mem_of_mem_filter hx))).2]

theorem interferences_assign_self (h : New c s rt cpu) (L : ℕ) :
    interferences c (assign c s rt cpu) rt cpu L = interferences c s rt cpu L := by
  unfold interferences
  rw [assign_hps h]
  have hon : ∀ x, decide ((assign c s rt cpu).taskIsOnCpu x cpu ∧ x ≠ rt) =
      decide (s.taskIsOnCpu x cpu ∧ x ≠ rt) := by
    intro x
    by_cases hx : x = rt
    · simp [hx]
    · rw [assign_taskIsOnCpu_of_ne hx]
  simp only [hon, assign_interfereTask h]

theorem assign_jobCosts (h : New c s rt cpu) (L : ℕ) :
    jobCosts c (assign c s rt cpu) rt L = ownOverhead c s rt L := by
  unfold jobCosts jobCost ownOverhead
  rw [assign_task_self h]
  rfl

theorem assign_jobCosts_of_ne (hk : k ≠ rt) (L : ℕ) :
    jobCosts c (assign c s rt cpu) k L = jobCosts c s k L := by
  unfold jobCosts jobCost
  rw [assign_task_of_ne hk]
  rfl

/-- The overheads of the CPU, with those of the new task -/
theorem sum_jobCosts_assign (h : New c s rt cpu) (L : ℕ) :
    (((assign c s rt cpu).list.filter fun p =>
        decide (((assign c s rt cpu).task p).cpuId = cpu)).map
      (jobCosts c (assign c s rt cpu) · L)).sum =
    ((s.list.filter fun p => decide ((s.task p).cpuId = cpu)).map (jobCosts c s · L)).sum +
      ownOverhead c s rt L := by
  rw [← assign_jobCosts h]
  refine sum_filter_add h.nodup h.mem (decide_eq_false h.cpu_ne) (assign_taskIsOnCpu h)
    fun x hx => ⟨?_, assign_jobCosts_of_ne hx L⟩
  exact assign_taskIsOnCpu_of_ne hx

/-- **What the analysis of another task finds** -/
theorem responseTime_assign (h : New c s rt cpu) (hk : k ≠ rt) :
    responseTime c (assign c s rt cpu) k cpu = responseTime c s k cpu +
      (if (s.task k).prio ≤ (s.task rt).prio then
        interfereTask c s rt (c.usecs (s.task k).deadline) else 0) +
      ownOverhead c s rt (c.usecs (s.task k).deadline) := by
  unfold responseTime charge
  rw [assign_task_of_ne hk, interferences_assign h hk, sum_jobCosts_assign h,
    assign_jobCosts_of_ne hk]
  show _ + _ + (_ + _ + _ + c.jiffies (c.usecs (s.task k).deadline) * s.switchCost % 2 ^ 64 / 2) = _
  omega

/-- **What the analysis of the new task finds** -/
theorem responseTime_assign_self (h : New c s rt cpu) :
    responseTime c (assign c s rt cpu) rt cpu +
        migrationCosts c s rt (c.usecs (s.task rt).deadline) =
      responseTime c s rt cpu + ownOverhead c s rt (c.usecs (s.task rt).deadline) := by
  obtain ⟨-, -, hdl, hC⟩ := assign_fixed h rt
  unfold responseTime charge
  rw [hdl, hC, interferences_assign_self h, sum_jobCosts_assign h, assign_jobCosts h, jobCosts_eq]
  show _ + _ + (_ + _ + _ + c.jiffies (c.usecs (s.task rt).deadline) * s.switchCost % 2 ^ 64 / 2) +
    _ = _
  omega

theorem assign_periods (h : New c s rt cpu) (hp : Periods c s cpu)
    (hrt : c.usecs (s.task rt).period ≠ 0) : Periods c (assign c s rt cpu) cpu := by
  intro k hk hcpu
  rw [(assign_fixed h k).2.1]
  by_cases hkr : k = rt
  · rw [hkr]
    exact hrt
  · rw [assign_task_of_ne hkr] at hcpu
    exact hp k hk hcpu

/-! ## Admission -/

/-- The CPU that `partition` returns has passed its tests. -/
theorem partitionLoop_ok : ∀ (cpus : List ℕ), partitionLoop c s rt mask cpus = .ok cpu →
    cpu ≠ c.cpuUndefined → ∃ r, responseTimeAnalysis c s rt cpu = .ok r ∧
      r ≤ c.usecs (s.task rt).deadline ∧
        partitionTasks c s rt cpu (s.list.dropWhile fun lp =>
          decide ((s.task rt).prio < (s.task lp).prio)) = .ok true := by
  intro cpus
  induction cpus with
  | nil =>
    intro h hdef
    exact absurd (Except.ok.inj h).symm hdef
  | cons x cpus ih =>
    intro h hdef
    rw [partitionLoop] at h
    split at h
    swap
    · exact ih h hdef
    obtain ⟨r, hr, h⟩ := bind_eq_ok.1 h
    split at h
    · exact ih h hdef
    rename_i hle
    obtain ⟨b, hb, h⟩ := bind_eq_ok.1 h
    cases b with
    | true =>
      cases h
      exact ⟨r, hr, not_lt.1 hle, hb⟩
    | false => exact ih h hdef

/-- The tasks on a CPU pass the response-time test. -/
def Schedulable (c : Config) (s : TaskSet) (cpu : ℕ) : Prop :=
  ∀ k ∈ s.list, s.taskIsOnCpu k cpu = true →
    ∃ r, responseTimeAnalysis c s k cpu = .ok r ∧ r ≤ c.usecs (s.task k).deadline

/-- The response times that are found before leave room for the overhead of the new task. -/
structure HasRoom (c : Config) (s : TaskSet) (rt cpu : ℕ) : Prop where
  resident : ∀ k ∈ s.list, s.taskIsOnCpu k cpu = true →
    (responseTime c s k cpu + (if (s.task k).prio ≤ (s.task rt).prio then
        interfereTask c s rt (c.usecs (s.task k).deadline) else 0) +
      ownOverhead c s rt (c.usecs (s.task k).deadline)) % 2 ^ 64 ≤ c.usecs (s.task k).deadline
  self : (responseTime c s rt cpu + ownOverhead c s rt (c.usecs (s.task rt).deadline) -
    migrationCosts c s rt (c.usecs (s.task rt).deadline)) % 2 ^ 64 ≤ c.usecs (s.task rt).deadline

/-- **Admission is stable** under the analysis iff there is room for the overhead of the new task in
the response times of the tasks on the CPU, and once more in its own. -/
theorem admission_stable_iff (c : Config) (s : TaskSet) (rt cpu : ℕ) (mask : ℕ → Bool)
    (hnew : New c s rt cpu) (hpart : partition c s rt mask = .ok cpu) :
    Schedulable c (assign c s rt cpu) cpu ↔ HasRoom c s rt cpu := by
  obtain ⟨r, hr, -, -⟩ := partitionLoop_ok _ hpart hnew.defined
  obtain ⟨⟨hp, hrt⟩, -⟩ := responseTimeAnalysis_ok_iff.1 hr
  have hp' := assign_periods hnew hp hrt
  -- the analysis has a result for every task on the CPU
  have hpass : ∀ k ∈ s.list, (assign c s rt cpu).taskIsOnCpu k cpu = true →
      ((∃ r, responseTimeAnalysis c (assign c s rt cpu) k cpu = .ok r ∧
        r ≤ c.usecs ((assign c s rt cpu).task k).deadline) ↔
      responseTime c (assign c s rt cpu) k cpu % 2 ^ 64 ≤ c.usecs (s.task k).deadline) := by
    intro k hk hon
    rw [(assign_fixed hnew k).2.2.1]
    have hk' := hp' k hk (of_decide_eq_true hon)
    constructor
    · rintro ⟨r, hr, hle⟩
      rw [(responseTimeAnalysis_ok_iff.1 hr).2]
      exact hle
    · exact fun hle => ⟨_, responseTimeAnalysis_ok_iff.2 ⟨⟨hp', hk'⟩, rfl⟩, hle⟩
  have hself := responseTime_assign_self hnew
  have hself' : responseTime c (assign c s rt cpu) rt cpu =
      responseTime c s rt cpu + ownOverhead c s rt (c.usecs (s.task rt).deadline) -
        migrationCosts c s rt (c.usecs (s.task rt).deadline) := by omega
  constructor
  · intro h
    refine ⟨fun k hk hon => ?_, ?_⟩
    · have hkr : k ≠ rt := by
        rintro rfl
        exact hnew.cpu_ne (of_decide_eq_true hon)
      have hon' : (assign c s rt cpu).taskIsOnCpu k cpu = true := by
        rw [assign_taskIsOnCpu_of_ne hkr]
        exact hon
      rw [← responseTime_assign hnew hkr]
      exact (hpass k hk hon').1 (h k hk hon')
    · have hon' := assign_taskIsOnCpu hnew
      rw [← hself']
      exact (hpass rt hnew.mem hon').1 (h rt hnew.mem hon')
  · intro h k hk hon
    refine (hpass k hk hon).2 ?_
    by_cases hkr : k = rt
    · rw [hkr, hself']
      exact h.self
    · rw [responseTime_assign hnew hkr]
      rw [assign_taskIsOnCpu_of_ne hkr] at hon
      exact h.resident k hk hon

/-- Task 1 on CPU 0, with the higher priority, and the new task 0 -/
def oneResident (wcet : ℕ) : TaskSet where
  list := [1, 0]
  task i := if i = 0 then ⟨100, 100, 1, 1, 1, 1, true⟩ else ⟨10, 10, wcet, wcet, 2, 0, false⟩
  switchCost := 20
  releaseCost := 5
  migrationCost := 20

theorem oneResident_new (wcet : ℕ) : New (Config.small false) (oneResident wcet) 0 0 where
  sorted := by
    refine List.pairwise_cons.2 ⟨fun k hk => ?_, List.pairwise_singleton _ _⟩
    rw [List.mem_singleton.1 hk]
    exact (by decide : (1 : ℤ) ≤ 2)
  nodup := (by decide : [1, 0].Nodup)
  mem := (by decide : 0 ∈ [1, 0])
  cpu_ne := Nat.one_ne_zero
  defined := Nat.zero_ne_one

theorem admission_stable_iff_half :
    Schedulable (Config.small false) (assign (Config.small false) (oneResident 5000) 0 0) 0 ↔
      HasRoom (Config.small false) (oneResident 5000) 0 0 :=
  admission_stable_iff (Config.small false) (oneResident 5000) 0 0 (fun _ => true)
    (oneResident_new 5000) (by decide +kernel)

/-- The response time of task 1 is 10000 microseconds before, its deadline, and 10025 after. -/
theorem admission_not_stable : ¬ ∀ (c : Config) (s : TaskSet) (rt cpu : ℕ) (mask : ℕ → Bool),
    New c s rt cpu → Schedulable c s cpu → partition c s rt mask = .ok cpu →
      Schedulable c (assign c s rt cpu) cpu := by
  intro hall
  have hbefore : Schedulable (Config.small false) (oneResident 9850) 0 := by
    intro k hk hon
    rcases List.mem_cons.1 hk with rfl | hk
    · exact ⟨10000, by decide +kernel, by decide +kernel⟩
    · rw [List.mem_singleton.1 hk] at hon
      exact absurd hon (by decide)
  obtain ⟨r, hr, hle⟩ := hall (Config.small false) (oneResident 9850) 0 0 (fun _ => true)
    (oneResident_new 9850) hbefore (by decide +kernel) 1 (by decide) (by decide)
  rw [show responseTimeAnalysis (Config.small false)
    (assign (Config.small false) (oneResident 9850) 0 0) 1 0 = .ok 10025 by decide +kernel] at hr
  cases hr
  revert hle
  decide +kernel

end Resch.Checked.FpFf
