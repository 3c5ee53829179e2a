import Mathlib.Algebra.Order.BigOperators.Group.List
import Resch.Lib.BusyPeriod
import Resch.Proof.FpFf
import Resch.Proof.Interference

/-!
# The tasks that FP-FF places meet their deadlines

A task is placed on a CPU if its own work and that of the tasks of at least its priority there fit
in its deadline, and still do for the tasks of at most its priority.

* `Fits`, `Admits`: this for one task, and for all of them.
* `Admits.of_placed`, `Admits.assign`: it is kept when tasks leave, and when `partition` places one.
* `Admits.done_by_deadline`: the jobs of the tasks on a CPU finish by their deadlines in every
  schedule by priorities.
-/

namespace Resch.Checked.FpFf

open Lib

variable {c : Config} {s s' : TaskSet} {rt cpu cpu' k L : ℕ} {mask : ℕ → Bool}

/-- The tasks on a CPU -/
def tasksOn (s : TaskSet) (cpu : ℕ) : Finset ℕ := (s.list.filter (s.taskIsOnCpu · cpu)).toFinset

/-- The tasks on some CPU -/
def placed (c : Config) (s : TaskSet) : List ℕ :=
  s.list.filter fun k => decide ((s.task k).cpuId < c.nrRtCpus)

/-- The work of the task `k` and of the tasks of at least its priority on its CPU fits in its deadline,
in exact arithmetic. -/
structure Fits (c : Config) (s : TaskSet) (k : ℕ) : Prop where
  deadline_pos : 0 < (s.task k).deadline
  deadline_le : (s.task k).deadline ≤ (s.task k).period
  usecs : c.jiffiesToUsecs (s.task k).period < 2 ^ 32
  jobs : ∀ hp ∈ s.list, (s.task hp).cpuId = (s.task k).cpuId → hp ≠ k →
    (s.task k).prio ≤ (s.task hp).prio →
      c.usecs (s.task k).deadline / c.usecs (s.task hp).period < 2 ^ 31
  time : (s.task k).C c + interferences c s k (s.task k).cpuId (c.usecs (s.task k).deadline) ≤
    c.usecs (s.task k).deadline

/-- The global list is in order, and the tasks on the CPUs fit. -/
structure Admits (c : Config) (s : TaskSet) : Prop where
  sorted : s.list.Pairwise fun a b => (s.task b).prio ≤ (s.task a).prio
  nodup : s.list.Nodup
  fits : ∀ k ∈ placed c s, Fits c s k

/-- No value that `partition` computes for `rt` exceeds its type. -/
structure NoOverflow (c : Config) (s : TaskSet) (rt : ℕ) (mask : ℕ → Bool) : Prop where
  usecs : c.jiffiesToUsecs (s.task rt).period < 2 ^ 32
  own : ∀ cpu < c.nrRtCpus, mask cpu = true → responseTime c s rt cpu < 2 ^ 64
  ownJobs : ∀ k ∈ placed c s, mask (s.task k).cpuId = true → (s.task rt).prio ≤ (s.task k).prio →
    c.usecs (s.task rt).deadline / c.usecs (s.task k).period < 2 ^ 31
  others : ∀ k ∈ placed c s, mask (s.task k).cpuId = true → (s.task k).prio ≤ (s.task rt).prio →
    responseTime c s k (s.task k).cpuId + interfereTask c s rt (c.usecs (s.task k).deadline) < 2 ^ 64
  othersJobs : ∀ k ∈ placed c s, mask (s.task k).cpuId = true → (s.task k).prio ≤ (s.task rt).prio →
    c.usecs (s.task k).deadline / c.usecs (s.task rt).period < 2 ^ 31

instance : Decidable (NoOverflow c s rt mask) :=
  decidable_of_iff ((c.jiffiesToUsecs (s.task rt).period < 2 ^ 32 ∧
      ∀ cpu < c.nrRtCpus, mask cpu = true → responseTime c s rt cpu < 2 ^ 64) ∧
    ∀ k ∈ placed c s, mask (s.task k).cpuId = true →
      ((s.task rt).prio ≤ (s.task k).prio →
        c.usecs (s.task rt).deadline / c.usecs (s.task k).period < 2 ^ 31) ∧
      ((s.task k).prio ≤ (s.task rt).prio → responseTime c s k (s.task k).cpuId +
          interfereTask c s rt (c.usecs (s.task k).deadline) < 2 ^ 64 ∧
        c.usecs (s.task k).deadline / c.usecs (s.task rt).period < 2 ^ 31))
    ⟨fun ⟨⟨h1, h2⟩, h3⟩ => ⟨h1, h2, fun k hk hm => (h3 k hk hm).1,
      fun k hk hm hp => ((h3 k hk hm).2 hp).1, fun k hk hm hp => ((h3 k hk hm).2 hp).2⟩,
    fun h => ⟨⟨h.usecs, h.own⟩, fun k hk hm =>
      ⟨h.ownJobs k hk hm, fun hp => ⟨h.others k hk hm hp, h.othersJobs k hk hm hp⟩⟩⟩⟩

theorem mem_placed : k ∈ placed c s ↔ k ∈ s.list ∧ (s.task k).cpuId < c.nrRtCpus := by
  unfold placed
  rw [List.mem_filter, decide_eq_true_iff]

theorem mem_tasksOn : k ∈ tasksOn s cpu ↔ k ∈ s.list ∧ (s.task k).cpuId = cpu := by
  unfold tasksOn TaskSet.taskIsOnCpu
  rw [List.mem_toFinset, List.mem_filter, decide_eq_true_iff]

/-! ## Tasks that leave -/

/-- The tasks that interfere, in a list in order -/
theorem interferences_eq (h : s.list.Pairwise fun a b => (s.task b).prio ≤ (s.task a).prio)
    (hcpu : cpu < c.nrRtCpus) :
    interferences c s k cpu L = (((placed c s).filter fun hp => decide (s.taskIsOnCpu hp cpu ∧
      hp ≠ k ∧ (s.task k).prio ≤ (s.task hp).prio)).map (interfereTask c s · L)).sum := by
  have hkey : hps s k = s.list.filter fun x => decide ((s.task k).prio ≤ (s.task x).prio) :=
    takeWhile_eq_filter h
  unfold interferences placed
  rw [hkey, List.filter_filter, List.filter_filter]
  congr 2
  refine List.filter_congr fun x _ => ?_
  rw [← Bool.decide_and, ← Bool.decide_and, decide_eq_decide]
  unfold TaskSet.taskIsOnCpu
  rw [decide_eq_true_iff]
  constructor
  · rintro ⟨⟨hc, hne⟩, hp⟩
    exact ⟨⟨hc, hne, hp⟩, hc ▸ hcpu⟩
  · rintro ⟨⟨hc, hne, hp⟩, -⟩
    exact ⟨⟨hc, hne⟩, hp⟩

/-- **Tasks may leave**, and tasks that are on no CPU may come and go. -/
theorem Admits.of_placed (h : Admits c s)
    (hsorted : s'.list.Pairwise fun a b => (s'.task b).prio ≤ (s'.task a).prio)
    (hnodup : s'.list.Nodup) (hl : (placed c s').Sublist (placed c s))
    (ht : ∀ k ∈ placed c s', s'.task k = s.task k) : Admits c s' := by
  refine ⟨hsorted, hnodup, fun k hk => ?_⟩
  obtain ⟨hpos, hle, husecs, hjobs, htime⟩ := h.fits k (hl.subset hk)
  have hcpu := (mem_placed.1 hk).2
  rw [ht k hk] at hcpu
  have hint : interferences c s' k (s.task k).cpuId (c.usecs (s.task k).deadline) ≤
      interferences c s k (s.task k).cpuId (c.usecs (s.task k).deadline) := by
    rw [interferences_eq hsorted hcpu, interferences_eq h.sorted hcpu]
    have hsame : ∀ x ∈ placed c s',
        decide (s'.taskIsOnCpu x (s.task k).cpuId ∧ x ≠ k ∧ (s'.task k).prio ≤ (s'.task x).prio) =
          decide (s.taskIsOnCpu x (s.task k).cpuId ∧ x ≠ k ∧ (s.task k).prio ≤ (s.task x).prio) := by
      intro x hx
      unfold TaskSet.taskIsOnCpu
      rw [ht x hx, ht k hk]
    have hterm : ∀ x ∈ placed c s', interfereTask c s' x (c.usecs (s.task k).deadline) =
        interfereTask c s x (c.usecs (s.task k).deadline) := by
      intro x hx
      unfold interfereTask
      rw [ht x hx]
    rw [List.filter_congr hsame,
      List.map_congr_left fun x hx => hterm x (List.mem_of_mem_filter hx)]
    exact ((hl.filter _).map _).sum_le_sum fun _ _ => Nat.zero_le _
  refine ⟨?_, ?_, ?_, fun hp hhp hc hne hprio => ?_, ?_⟩
  · rw [ht k hk]
    exact hpos
  · rw [ht k hk]
    exact hle
  · rw [ht k hk]
    exact husecs
  · have hmem : hp ∈ placed c s' := by
      rw [mem_placed, hc, ht k hk]
      exact ⟨hhp, hcpu⟩
    rw [ht k hk, ht hp hmem] at hc hprio ⊢
    exact hjobs hp (mem_placed.1 (hl.subset hmem)).1 hc hne hprio
  · rw [ht k hk]
    omega

/-! ## A task is placed -/

/-- A CPU that `partition` returns is one of those it looks at. -/
theorem partitionLoop_mem : ∀ (cpus : List ℕ), partitionLoop c s rt mask cpus = .ok cpu →
    cpu ≠ c.cpuUndefined → cpu ∈ cpus ∧ mask cpu = true := by
  intro cpus
  induction cpus with
  | nil =>
    intro h hdef
    exact absurd (Except.ok.inj h).symm hdef
  | cons x cpus ih =>
    intro h hdef
    have hnext : partitionLoop c s rt mask cpus = .ok cpu → cpu ∈ x :: cpus ∧ mask cpu = true := by
      intro h
      obtain ⟨hmem, hmask⟩ := ih h hdef
      exact ⟨List.mem_cons_of_mem x hmem, hmask⟩
    rw [partitionLoop] at h
    split at h
    swap
    · exact hnext h
    rename_i hmask
    obtain ⟨r, -, h⟩ := bind_eq_ok.1 h
    split at h
    · exact hnext h
    obtain ⟨b, -, h⟩ := bind_eq_ok.1 h
    cases b with
    | true =>
      cases h
      exact ⟨List.mem_cons_self, hmask⟩
    | false => exact hnext h

/-- What the loop over the tasks has tested -/
theorem partitionTasks_ok : ∀ (lps : List ℕ), partitionTasks c s rt cpu lps = .ok true →
    ∀ k ∈ lps, s.taskIsOnCpu k cpu = true → ∃ Rk Ii, responseTimeAnalysis c s k cpu = .ok Rk ∧
      interference (c.usecs (s.task k).deadline) (c.usecs (s.task rt).period) ((s.task rt).C c) =
        .ok Ii ∧ ulong (Rk + Ii) ≤ c.usecs (s.task k).deadline := by
  intro lps
  induction lps with
  | nil => exact fun _ k hk => absurd hk List.not_mem_nil
  | cons lp lps ih =>
    intro h k hk hon
    rw [partitionTasks] at h
    split at h
    · obtain ⟨Rk, hR, h⟩ := bind_eq_ok.1 h
      obtain ⟨Ii, hI, h⟩ := bind_eq_ok.1 h
      split at h
      · cases h
      · rename_i hle
        rcases List.mem_cons.1 hk with rfl | hk
        · exact ⟨Rk, Ii, hR, hI, not_lt.1 hle⟩
        · exact ih h k hk hon
    · rename_i hoff
      rcases List.mem_cons.1 hk with rfl | hk
      · exact absurd hon hoff
      · exact ih h k hk hon

theorem time_le_responseTime (c : Config) (s : TaskSet) (k cpu : ℕ) :
    (s.task k).C c + interferences c s k cpu (c.usecs (s.task k).deadline) ≤
      responseTime c s k cpu := by
  unfold responseTime
  omega

/-- The test of the new task -/
theorem own_time_le (h : NoOverflow c s rt mask) (hpart : partition c s rt mask = .ok cpu)
    (hdef : cpu ≠ c.cpuUndefined) :
    (s.task rt).C c + interferences c s rt cpu (c.usecs (s.task rt).deadline) ≤
      c.usecs (s.task rt).deadline := by
  obtain ⟨hmem, hmask⟩ := partitionLoop_mem _ hpart hdef
  obtain ⟨r, hr, hle, -⟩ := partitionLoop_ok _ hpart hdef
  have hR := (responseTimeAnalysis_ok_iff.1 hr).2
  rw [Nat.mod_eq_of_lt (h.own cpu (List.mem_range.1 hmem) hmask)] at hR
  have htime := time_le_responseTime c s rt cpu
  omega

/-- The tests of the tasks on the CPU -/
theorem others_time_le (hs : s.list.Pairwise fun a b => (s.task b).prio ≤ (s.task a).prio)
    (h : NoOverflow c s rt mask) (hpart : partition c s rt mask = .ok cpu)
    (hdef : cpu ≠ c.cpuUndefined) (hk : k ∈ placed c s) (hcpu : (s.task k).cpuId = cpu)
    (hprio : (s.task k).prio ≤ (s.task rt).prio) :
    (s.task k).C c + interferences c s k cpu (c.usecs (s.task k).deadline) +
      interfereTask c s rt (c.usecs (s.task k).deadline) ≤ c.usecs (s.task k).deadline := by
  obtain ⟨hmem, hmask⟩ := partitionLoop_mem _ hpart hdef
  obtain ⟨r, hr, -, htasks⟩ := partitionLoop_ok _ hpart hdef
  have hlps : s.list.dropWhile (fun lp => decide ((s.task rt).prio < (s.task lp).prio)) =
      s.list.filter fun lp => decide ((s.task lp).prio ≤ (s.task rt).prio) := dropWhile_eq_filter hs
  rw [hlps] at htasks
  obtain ⟨Rk, Ii, hRk, hIi, hle⟩ := partitionTasks_ok _ htasks k
    (List.mem_filter.2 ⟨(mem_placed.1 hk).1, decide_eq_true hprio⟩) (decide_eq_true hcpu)
  have hP := (responseTimeAnalysis_ok_iff.1 hr).1.2
  have hsum := h.others k hk (hcpu ▸ hmask) hprio
  have hR := (responseTimeAnalysis_ok_iff.1 hRk).2
  rw [hcpu] at hsum
  rw [Nat.mod_eq_of_lt (by omega)] at hR
  rw [interference_eq hP] at hIi
  have hI : interfereTask c s rt (c.usecs (s.task k).deadline) = Ii := Except.ok.inj hIi
  have htime := time_le_responseTime c s k cpu
  rw [hI] at hsum ⊢
  rw [← hR, ← Nat.cast_add, ulong_natCast hsum] at hle
  omega

/-- On the other CPUs nothing changes. -/
theorem interferences_assign_other (h : New c s rt cpu) (hcpu : cpu' ≠ cpu)
    (hrt : (s.task rt).cpuId ≠ cpu') :
    interferences c (assign c s rt cpu) k cpu' L = interferences c s k cpu' L := by
  have hon : ∀ x, (assign c s rt cpu).taskIsOnCpu x cpu' = s.taskIsOnCpu x cpu' := by
    intro x
    unfold TaskSet.taskIsOnCpu
    by_cases hx : x = rt
    · rw [hx, assign_task_self h, decide_eq_false hrt]
      exact decide_eq_false hcpu.symm
    · rw [assign_task_of_ne hx]
  unfold interferences
  rw [assign_hps h]
  simp only [hon, assign_interfereTask h]

/-- **`partition` places a task** only where it and the tasks there still fit. -/
theorem Admits.assign (h : Admits c s) (hnew : New c s rt cpu)
    (hrt : (s.task rt).cpuId = c.cpuUndefined) (hpos : 0 < (s.task rt).deadline)
    (hle : (s.task rt).deadline ≤ (s.task rt).period) (hov : NoOverflow c s rt mask)
    (hpart : partition c s rt mask = .ok cpu) : Admits c (assign c s rt cpu) := by
  obtain ⟨hmem, hmask⟩ := partitionLoop_mem _ hpart hnew.defined
  have hcpu : cpu < c.nrRtCpus := List.mem_range.1 hmem
  have hself := assign_task_self hnew
  refine ⟨?_, h.nodup, fun k hk => ?_⟩
  · -- the assignment leaves alone what the list is ordered by
    refine List.Pairwise.imp (fun {a b} hab => ?_) h.sorted
    rw [(assign_fixed hnew a).1, (assign_fixed hnew b).1]
    exact hab
  obtain ⟨hklist, hkcpu⟩ := mem_placed.1 hk
  -- the new task, and then a task that was on a CPU already
  by_cases hkr : k = rt
  · subst hkr
    have htime := own_time_le hov hpart hnew.defined
    have hC : ((FpFf.assign c s k cpu).task k).C c = (s.task k).C c := (assign_fixed hnew k).2.2.2
    refine ⟨?_, ?_, ?_, fun hp hhp hc hne hprio => ?_, ?_⟩
    · rw [hself]
      exact hpos
    · rw [hself]
      exact hle
    · rw [hself]
      exact hov.usecs
    · rw [hself, assign_task_of_ne hne] at hc hprio
      rw [hself, assign_task_of_ne hne]
      dsimp only at hc hprio
      exact hov.ownJobs hp (mem_placed.2 ⟨hhp, hc ▸ hcpu⟩) (hc ▸ hmask) hprio
    · rw [hC, hself]
      dsimp only
      rw [interferences_assign_self hnew]
      exact htime
  · have htask : (FpFf.assign c s rt cpu).task k = s.task k := assign_task_of_ne hkr
    rw [htask] at hkcpu
    have hkin : k ∈ placed c s := mem_placed.2 ⟨hklist, hkcpu⟩
    obtain ⟨hkpos, hkle, hkusecs, hkjobs, hktime⟩ := h.fits k hkin
    refine ⟨?_, ?_, ?_, fun hp hhp hc hne hprio => ?_, ?_⟩
    · rw [htask]
      exact hkpos
    · rw [htask]
      exact hkle
    · rw [htask]
      exact hkusecs
    · rw [htask] at hc hprio ⊢
      by_cases hhprt : hp = rt
      · rw [hhprt, hself] at hc hprio
        rw [hhprt, hself]
        dsimp only at hc hprio
        exact hov.othersJobs k hkin (hc ▸ hmask) hprio
      · rw [assign_task_of_ne hhprt] at hc hprio ⊢
        exact hkjobs hp hhp hc hne hprio
    · rw [htask]
      -- only on `cpu` does the new task interfere, with those below its priority
      by_cases hkc : (s.task k).cpuId = cpu
      · rw [hkc] at hktime ⊢
        rw [interferences_assign hnew hkr]
        split
        · rename_i hprio
          have hothers := others_time_le h.sorted hov hpart hnew.defined hkin hkc hprio
          omega
        · omega
      · rw [interferences_assign_other hnew hkc]
        · exact hktime
        · rw [hrt]
          exact (show c.cpuUndefined ≠ (s.task k).cpuId from hkcpu.ne')

/-! ## Deadlines -/

theorem Fits.usecs_period (h : Fits c s k) :
    c.usecs (s.task k).period = c.jiffiesToUsecs (s.task k).period := Nat.mod_eq_of_lt h.usecs

theorem Fits.usecs_deadline (h : Fits c s k) :
    c.usecs (s.task k).deadline = c.jiffiesToUsecs (s.task k).deadline :=
  Nat.mod_eq_of_lt ((Nat.mul_le_mul_left _ h.deadline_le).trans_lt h.usecs)

theorem Fits.deadline_le_period (h : Fits c s k) :
    c.jiffiesToUsecs (s.task k).deadline ≤ c.jiffiesToUsecs (s.task k).period :=
  Nat.mul_le_mul_left _ h.deadline_le

theorem Fits.deadline_usecs_pos (h : Fits c s k) : 0 < c.jiffiesToUsecs (s.task k).deadline :=
  Nat.mul_pos c.tick_pos h.deadline_pos

theorem Fits.cost_le (h : Fits c s k) : (s.task k).C c ≤ c.jiffiesToUsecs (s.task k).deadline := by
  have htime := h.time
  rw [h.usecs_deadline] at htime
  omega

/-- What is added for a task that fits is the most work that its jobs do. -/
theorem interfereTask_eq {hp : ℕ} (hk : Fits c s k) (hhp : Fits c s hp)
    (hF : c.usecs (s.task k).deadline / c.usecs (s.task hp).period < 2 ^ 31) :
    interfereTask c s hp (c.usecs (s.task k).deadline) =
      workload (c.jiffiesToUsecs (s.task k).deadline) (c.jiffiesToUsecs (s.task hp).period)
        ((s.task hp).C c) := by
  have hP : 0 < c.jiffiesToUsecs (s.task hp).period :=
    hhp.deadline_usecs_pos.trans_le hhp.deadline_le_period
  have hC := hhp.cost_le.trans hhp.deadline_le_period
  have hD := hk.deadline_le_period
  have hkP := hk.usecs
  have hhpP := hhp.usecs
  unfold interfereTask
  rw [hk.usecs_deadline, hhp.usecs_period] at hF ⊢
  have hnat := interference_eq_nat hP hC hF (by omega)
  rw [interference_eq hP.ne'] at hnat
  rw [Except.ok.inj hnat, interferenceNat_eq hP hC]

/-- The own work of a task in a window up to its deadline is one job. -/
theorem Fits.workload_le (h : Fits c s k) :
    workload (c.jiffiesToUsecs (s.task k).deadline) (c.jiffiesToUsecs (s.task k).period)
      ((s.task k).C c) ≤ (s.task k).C c := by
  have hDP := h.deadline_le_period
  have hP : 0 < c.jiffiesToUsecs (s.task k).period := h.deadline_usecs_pos.trans_le hDP
  rw [workload_eq hP (h.cost_le.trans hDP)]
  rcases hDP.eq_or_lt with he | hlt
  · rw [he, Nat.div_self hP]
    omega
  · rw [Nat.div_eq_of_lt hlt]
    omega

/-- The work of at least the priority of a task fits in its deadline. -/
theorem Admits.workload_le (h : Admits c s) (hcpu : cpu < c.nrRtCpus) (hk : k ∈ tasksOn s cpu) :
    ∑ x ∈ (tasksOn s cpu).filter fun x => (s.task k).prio ≤ (s.task x).prio,
      workload (c.jiffiesToUsecs (s.task k).deadline) (c.jiffiesToUsecs (s.task x).period)
        ((s.task x).C c) ≤ c.jiffiesToUsecs (s.task k).deadline := by
  obtain ⟨hklist, hkcpu⟩ := mem_tasksOn.1 hk
  have hplaced : ∀ x ∈ tasksOn s cpu, x ∈ placed c s := by
    intro x hx
    obtain ⟨hxlist, hxcpu⟩ := mem_tasksOn.1 hx
    exact mem_placed.2 ⟨hxlist, hxcpu ▸ hcpu⟩
  have hkfits := h.fits k (hplaced k hk)
  have htime := hkfits.time
  -- the tasks that interfere are the others in the sum
  set l := (placed c s).filter fun hp => decide (s.taskIsOnCpu hp cpu ∧ hp ≠ k ∧
    (s.task k).prio ≤ (s.task hp).prio) with hl
  have hmem : ∀ x, x ∈ l ↔ x ∈ tasksOn s cpu ∧ x ≠ k ∧ (s.task k).prio ≤ (s.task x).prio := by
    intro x
    rw [hl, List.mem_filter, decide_eq_true_iff]
    constructor
    · rintro ⟨hx, hon, hne, hprio⟩
      exact ⟨mem_tasksOn.2 ⟨(mem_placed.1 hx).1, of_decide_eq_true hon⟩, hne, hprio⟩
    · rintro ⟨hx, hne, hprio⟩
      exact ⟨hplaced x hx, decide_eq_true (mem_tasksOn.1 hx).2, hne, hprio⟩
  have hset : (tasksOn s cpu).filter (fun x => (s.task k).prio ≤ (s.task x).prio) =
      insert k l.toFinset := by
    ext x
    rw [Finset.mem_insert, List.mem_toFinset, hmem, Finset.mem_filter]
    constructor
    · rintro ⟨hx, hprio⟩
      by_cases hxk : x = k
      · exact Or.inl hxk
      · exact Or.inr ⟨hx, hxk, hprio⟩
    · rintro (rfl | ⟨hx, -, hprio⟩)
      · exact ⟨hk, le_rfl⟩
      · exact ⟨hx, hprio⟩
  have hnot : k ∉ l.toFinset := by
    rw [List.mem_toFinset, hmem]
    exact fun hk => hk.2.1 rfl
  have hnodup : l.Nodup := (h.nodup.filter _).filter _
  rw [hkcpu, interferences_eq h.sorted hcpu, ← hl] at htime
  have hterm : ∀ x ∈ l, interfereTask c s x (c.usecs (s.task k).deadline) =
      workload (c.jiffiesToUsecs (s.task k).deadline) (c.jiffiesToUsecs (s.task x).period)
        ((s.task x).C c) := by
    intro x hx
    obtain ⟨hx, hne, hprio⟩ := (hmem x).1 hx
    obtain ⟨hxlist, hxcpu⟩ := mem_tasksOn.1 hx
    exact interfereTask_eq hkfits (h.fits x (hplaced x hx))
      (hkfits.jobs x hxlist (hxcpu.trans hkcpu.symm) hne hprio)
  rw [List.map_congr_left hterm, hkfits.usecs_deadline, ← List.sum_toFinset _ hnodup] at htime
  rw [hset, Finset.sum_insert hnot]
  have hown := hkfits.workload_le
  omega

/-- **The tasks on a CPU meet their deadlines** in every schedule by priorities, with zero-cost
switches. -/
theorem Admits.done_by_deadline (h : Admits c s) (hcpu : cpu < c.nrRtCpus) {J : Jobs ℕ}
    {run : ℝ → Option (ℕ × ℕ)}
    (hJ : J.Sporadic (tasksOn s cpu) (fun k => c.jiffiesToUsecs (s.task k).period)
      fun k => (s.task k).C c)
    (hrun : Schedule J (tasksOn s cpu) (fun k => (s.task k).prio) run) (hk : k ∈ tasksOn s cpu)
    {j : ℕ} (hj : J.Has (k, j)) :
    J.DoneBy run (k, j) (J.release k j + c.jiffiesToUsecs (s.task k).deadline) := by
  have hfits : ∀ x ∈ tasksOn s cpu, Fits c s x := by
    intro x hx
    obtain ⟨hxlist, hxcpu⟩ := mem_tasksOn.1 hx
    exact h.fits x (mem_placed.2 ⟨hxlist, hxcpu ▸ hcpu⟩)
  refine hrun.done_by_deadline hJ (fun x hx => ?_) hk (hfits k hk).deadline_usecs_pos
    (hfits k hk).deadline_le_period (hfits k hk).cost_le (h.workload_le hcpu hk) hj
  exact (hfits x hx).deadline_usecs_pos.trans_le (hfits x hx).deadline_le_period

end Resch.Checked.FpFf
