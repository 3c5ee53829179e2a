import Resch.Lib.EdfSlots
import Resch.Proof.DbfLen
import Resch.Proof.EdfTest
import Resch.Proof.FpFfFits

/-!
# The tasks that EDF-FF places and their deadlines

`dbf_test` rounds the demand of each task up to jiffies and adds the overheads, and so what it finds
to fit does fit in microseconds. It tests the deadlines up to `dbf_len`.

* `tested_fits`: what an accepted test has found out.
* `accepted_iff_untested`: beyond that it is the utilisation and the deadlines of one hyperperiod that
  decide whether deadlines are met.
-/

namespace Resch.Checked.EdfFf

open Lib

variable {c : Config} {s : TaskSet} {rt cpu p L Lmax d fuel : ℕ}

/-- What a task asks for, with its times in jiffies and its cost in microseconds -/
def piece (s : TaskSet) (p : ℕ) : Piece := ⟨(s.task p).deadline, (s.task p).period, (s.task p).wcet⟩

/-- The tasks that the test of `rt` on the CPU is about -/
def pieces (s : TaskSet) (rt cpu : ℕ) : List Piece := (counted s rt cpu).map (piece s)

/-- No demand that `dbf_test` computes exceeds its type; `usecs_to_jiffies` takes an `unsigned int`. -/
structure InRange (s : TaskSet) (rt cpu Lmax : ℕ) : Prop where
  length : s.list.length < 2 ^ 31
  work : ∀ p ∈ counted s rt cpu, (piece s p).jobs Lmax * (s.task p).wcet < 2 ^ 32
  next : ∀ p ∈ counted s rt cpu, Lmax + (s.task p).period < 2 ^ 64

/-- What `dbf_test` leaves open: the utilisation without truncation, and the deadlines after `dbf_len`,
up to a hyperperiod after the largest relative deadline. -/
def UntestedFit (c : Config) (s : TaskSet) (rt cpu Lmax : ℕ) : Prop :=
  Lib.util c.usecPerTick (pieces s rt cpu) ≤ 1 ∧ ∀ p ∈ pieces s rt cpu, ∀ n,
    Lmax < p.deadline + n * p.period →
      p.deadline + n * p.period < Lib.maxDeadline (pieces s rt cpu) + hyperperiod (pieces s rt cpu) →
        exactDemand (pieces s rt cpu) (p.deadline + n * p.period) ≤
          c.jiffiesToUsecs (p.deadline + n * p.period)

instance : Decidable (InRange s rt cpu Lmax) :=
  decidable_of_iff (s.list.length < 2 ^ 31 ∧
      (∀ p ∈ counted s rt cpu, (piece s p).jobs Lmax * (s.task p).wcet < 2 ^ 32) ∧
        ∀ p ∈ counted s rt cpu, Lmax + (s.task p).period < 2 ^ 64)
    ⟨fun h => ⟨h.1, h.2.1, h.2.2⟩, fun h => ⟨h.length, h.work, h.next⟩⟩

/-- It is enough to look at one deadline of a task for each unit of time. -/
instance : Decidable (UntestedFit c s rt cpu Lmax) :=
  decidable_of_iff (Lib.util c.usecPerTick (pieces s rt cpu) ≤ 1 ∧ ∀ p ∈ pieces s rt cpu,
    ∀ n < Lib.maxDeadline (pieces s rt cpu) + hyperperiod (pieces s rt cpu) + 1,
      Lmax < p.deadline + n * p.period →
        p.deadline + n * p.period < Lib.maxDeadline (pieces s rt cpu) + hyperperiod (pieces s rt cpu) →
          exactDemand (pieces s rt cpu) (p.deadline + n * p.period) ≤
            c.jiffiesToUsecs (p.deadline + n * p.period)) <| by
    refine and_congr_right fun _ => ⟨fun h p hp n hlt hend => ?_, fun h p hp n _ => h p hp n⟩
    rcases Nat.eq_zero_or_pos p.period with h0 | hpos
    · have hfirst := h p hp 0 (Nat.succ_pos _)
      rw [h0, Nat.mul_zero] at hlt hend ⊢
      rw [Nat.zero_mul] at hfirst
      exact hfirst hlt hend
    · have hle : n ≤ n * p.period := Nat.le_mul_of_pos_right n hpos
      exact h p hp n (by omega) hlt hend

/-! ## Rounding -/

theorem jiffies_lt (c : Config) (us : ℕ) : c.jiffies us < 2 ^ 32 := by
  have htick := c.tick_pos
  have hus : us % 2 ^ 32 < 2 ^ 32 := Nat.mod_lt us (by decide)
  unfold Config.jiffies Config.usecsToJiffies
  rw [Nat.div_lt_iff_lt_mul htick]
  omega

theorem le_jiffies {us : ℕ} (h : us < 2 ^ 32) : us ≤ c.jiffiesToUsecs (c.jiffies us) := by
  have htick := c.tick_pos
  unfold Config.jiffies Config.usecsToJiffies Config.jiffiesToUsecs
  rw [Nat.mod_eq_of_lt h]
  have hdiv := Nat.div_add_mod (us + c.usecPerTick - 1) c.usecPerTick
  have hmod := Nat.mod_lt (us + c.usecPerTick - 1) htick
  omega

theorem jobs_mono {q : Piece} {L' : ℕ} (h : L ≤ L') : q.jobs L ≤ q.jobs L' := by
  unfold Piece.jobs
  split
  · exact Nat.zero_le _
  · rw [if_neg (by omega)]
    exact Nat.succ_le_succ (Nat.div_le_div_right (by omega))

/-! ## What the test adds up -/

theorem dbfTask_cost (h : dbfTask c s p L = .ok d)
    (hr : (piece s p).jobs L * (s.task p).wcet < 2 ^ 32) :
    (piece s p).jobs L * (s.task p).wcet ≤ c.jiffiesToUsecs d ∧ d < 2 ^ 32 := by
  unfold dbfTask at h
  unfold Piece.jobs piece at hr ⊢
  dsimp only at hr ⊢
  split at h
  · rename_i hL
    cases h
    rw [if_pos hL, Nat.zero_mul]
    exact ⟨Nat.zero_le _, by decide⟩
  · rename_i hL
    rw [if_neg hL] at hr ⊢
    obtain ⟨q, hq, h⟩ := bind_eq_ok.1 h
    obtain ⟨hper, rfl⟩ : (s.task p).period ≠ 0 ∧
        (L - (s.task p).deadline) / (s.task p).period = q := by
      unfold div at hq
      split at hq
      · cases hq
      · rename_i hper
        exact ⟨hper, Except.ok.inj hq⟩
    have hd := Except.ok.inj h
    subst hd
    refine ⟨?_, jiffies_lt c _⟩
    rcases Nat.eq_zero_or_pos (s.task p).wcet with hw | hw
    · rw [hw, Nat.mul_zero]
      exact Nat.zero_le _
    · generalize (L - (s.task p).deadline) / (s.task p).period = n at hr ⊢
      have hjobs : n + 1 ≤ (n + 1) * (s.task p).wcet := Nat.le_mul_of_pos_right _ hw
      have h1 : ulong ((n : ℤ) + 1) = n + 1 := by
        have hn := ulong_natCast (n := n + 1) (by omega)
        rwa [Nat.cast_succ] at hn
      rw [h1, ← Nat.cast_mul, ulong_natCast (by omega)]
      exact le_jiffies hr

/-- The sum over the global list -/
theorem dbfCpu_cost : ∀ (ps : List ℕ) (a v : ℕ),
    (∀ p ∈ ps, s.taskIsOnCpu p cpu = true → (piece s p).jobs L * (s.task p).wcet < 2 ^ 32) →
    a + ps.length * 2 ^ 32 < 2 ^ 64 →
    ps.foldlM (fun sum p => do
      if s.taskIsOnCpu p cpu then return ulong (sum + (← dbfTask c s p L))
      else return sum) a = Except.ok (ε := Fault) v →
    c.jiffiesToUsecs a + exactDemand ((ps.filter (s.taskIsOnCpu · cpu)).map (piece s)) L ≤
      c.jiffiesToUsecs v ∧ v ≤ a + ps.length * 2 ^ 32 := by
  intro ps
  induction ps with
  | nil =>
    intro a v _ _ h
    cases h
    exact ⟨le_rfl, Nat.le_add_right _ _⟩
  | cons p ps ih =>
    intro a v hr hlen h
    rw [List.forall_mem_cons] at hr
    rw [List.length_cons, Nat.succ_mul] at hlen ⊢
    rw [List.foldlM_cons] at h
    obtain ⟨b, hb, h⟩ := bind_eq_ok.1 h
    by_cases hon : s.taskIsOnCpu p cpu = true
    · rw [if_pos hon] at hb
      obtain ⟨d, hd, hb⟩ := bind_eq_ok.1 hb
      obtain ⟨hcost, hlt⟩ := dbfTask_cost hd (hr.1 hon)
      have hb' : ulong ((a : ℤ) + d) = b := Except.ok.inj hb
      rw [← Nat.cast_add, ulong_natCast (by omega)] at hb'
      subst hb'
      obtain ⟨hsum, hle⟩ := ih (a + d) v hr.2 (by omega) h
      refine ⟨?_, by omega⟩
      rw [List.filter_cons_of_pos (p := (s.taskIsOnCpu · cpu)) hon, List.map_cons]
      unfold exactDemand at hsum ⊢
      rw [List.map_cons, List.sum_cons]
      refine le_trans ?_ hsum
      unfold Config.jiffiesToUsecs at hcost ⊢
      rw [Nat.mul_add]
      have hpiece : (piece s p).cost = (s.task p).wcet := rfl
      rw [hpiece]
      omega
    · rw [if_neg hon] at hb
      have hb' : a = b := Except.ok.inj hb
      rw [← hb'] at h
      have hlen' : a + ps.length * 2 ^ 32 ≤ a + (ps.length * 2 ^ 32 + 2 ^ 32) :=
        Nat.add_le_add_left (Nat.le_add_right ..) a
      obtain ⟨hsum, hle⟩ := ih a v hr.2 (hlen'.trans_lt hlen) h
      refine ⟨?_, hle.trans hlen'⟩
      rw [List.filter_cons_of_neg (p := (s.taskIsOnCpu · cpu)) hon]
      exact hsum

/-- A demand that `dbf_test` finds to fit does fit. -/
theorem fits_cost (h : fits c s rt cpu L = .ok true) (hr : InRange s rt cpu Lmax) (hL : L ≤ Lmax) :
    exactDemand (pieces s rt cpu) L ≤ c.jiffiesToUsecs L := by
  have hwork : ∀ p ∈ counted s rt cpu, (piece s p).jobs L * (s.task p).wcet < 2 ^ 32 := fun p hp =>
    (Nat.mul_le_mul_right _ (jobs_mono hL)).trans_lt (hr.work p hp)
  have hlen := hr.length
  obtain ⟨v, hv, h⟩ := bind_eq_ok.1 h
  obtain ⟨d, hd, h⟩ := bind_eq_ok.1 h
  obtain ⟨o, ho, h⟩ := bind_eq_ok.1 h
  obtain ⟨hsum, hvle⟩ := dbfCpu_cost s.list 0 v (fun p hp hon => hwork p (List.mem_append_left _
    (List.mem_filter.2 ⟨hp, hon⟩))) (by omega) hv
  obtain ⟨hcost, hdlt⟩ := dbfTask_cost hd (hwork rt (List.mem_append_right _ (List.mem_singleton.2 rfl)))
  have hlt : o < 2 ^ 32 := by
    unfold overhead at ho
    obtain ⟨_, -, ho⟩ := bind_eq_ok.1 ho
    obtain ⟨_, -, ho⟩ := bind_eq_ok.1 ho
    rw [← Except.ok.inj ho]
    exact jiffies_lt c _
  have hle : ulong ((v + d + o : ℕ) : ℤ) ≤ L := of_decide_eq_true (Except.ok.inj h)
  rw [ulong_natCast (by omega)] at hle
  unfold pieces counted
  unfold exactDemand at hsum ⊢
  rw [List.map_append, List.map_append, List.sum_append, List.map_singleton, List.map_singleton,
    List.sum_singleton]
  have hpiece : (piece s rt).cost = (s.task rt).wcet := rfl
  rw [hpiece]
  have hmono : c.jiffiesToUsecs (v + d) ≤ c.jiffiesToUsecs L := Nat.mul_le_mul_left _ (by omega)
  unfold Config.jiffiesToUsecs at hsum hcost hmono ⊢
  rw [Nat.mul_add] at hmono
  omega

/-! ## What the loops test -/

theorem fits_of_loop (hnext : Lmax + (s.task p).period < 2 ^ 64) : ∀ (fuel L : ℕ),
    testDeadlines c s rt cpu Lmax (s.task p).period fuel L = .ok true →
      ∀ n, L + n * (s.task p).period ≤ Lmax → fits c s rt cpu (L + n * (s.task p).period) = .ok true := by
  intro fuel
  induction fuel with
  | zero => exact fun L h => nomatch h
  | succ fuel ih =>
    intro L h n hn
    rw [testDeadlines, if_pos (by omega)] at h
    obtain ⟨b, hb, h⟩ := bind_eq_ok.1 h
    cases b with
    | false => cases h
    | true =>
      rcases n with _ | n
      · rw [Nat.zero_mul, Nat.add_zero]
        exact hb
      · rw [if_pos rfl, ← Nat.cast_add, ulong_natCast (by omega)] at h
        rw [Nat.succ_mul, Nat.add_comm (n * _), ← Nat.add_assoc] at hn ⊢
        exact ih _ h n hn

theorem fits_of_testTasks : ∀ (ps : List ℕ), testTasks c s rt cpu fuel Lmax ps = .ok true →
    ∀ p ∈ ps, s.taskIsOnCpu p cpu = true →
      testDeadlines c s rt cpu Lmax (s.task p).period fuel (s.task p).deadline = .ok true := by
  intro ps
  induction ps with
  | nil => exact fun _ p hp => absurd hp List.not_mem_nil
  | cons q ps ih =>
    intro h p hp hon
    rw [testTasks] at h
    split at h
    · obtain ⟨b, hb, h⟩ := bind_eq_ok.1 h
      cases b with
      | false => cases h
      | true =>
        rcases List.mem_cons.1 hp with rfl | hp
        · exact hb
        · exact ih h p hp hon
    · rename_i hq
      rcases List.mem_cons.1 hp with rfl | hp
      · exact absurd hon hq
      · exact ih h p hp hon

/-- **An accepted test** has found the demand to fit at the deadlines up to `dbf_len`. -/
theorem tested_fits (hwcet : (s.task rt).wcet ≠ 0) (hlen : dbfLen c s rt cpu = .ok Lmax)
    (hr : InRange s rt cpu Lmax) (h : dbfTest c s rt cpu fuel = .ok true) :
    ∀ p ∈ counted s rt cpu, ∀ n, (s.task p).deadline + n * (s.task p).period ≤ Lmax →
      exactDemand (pieces s rt cpu) ((s.task p).deadline + n * (s.task p).period) ≤
        c.jiffiesToUsecs ((s.task p).deadline + n * (s.task p).period) := by
  unfold dbfTest at h
  rw [if_neg hwcet] at h
  obtain ⟨L, hL, h⟩ := bind_eq_ok.1 h
  rw [hlen] at hL
  cases hL
  obtain ⟨b, hb, h⟩ := bind_eq_ok.1 h
  cases b with
  | false => cases h
  | true =>
    intro p hp n hn
    refine fits_cost (fits_of_loop (hr.next p hp) fuel _ ?_ n hn) hr hn
    rcases List.mem_append.1 hp with hp | hp
    · obtain ⟨hp, hon⟩ := List.mem_filter.1 hp
      exact fits_of_testTasks _ hb p hp hon
    · rw [List.mem_singleton.1 hp]
      exact h

/-! ## Deadlines -/

/-- Every job of the tasks meets its deadline, whenever the jobs are released, if they are at least a
period apart and execute for at most `wcet`, and in whatever way a scheduler by deadlines breaks ties. -/
def DeadlinesMet (c : Config) (s : TaskSet) (T : Finset ℕ) : Prop :=
  ∀ (J : Jobs ℕ) (run : ℝ → Option (ℕ × ℕ)),
    J.Sporadic T (fun k => c.jiffiesToUsecs (s.task k).period) (fun k => (s.task k).wcet) →
      EdfSchedule J T (fun k => c.jiffiesToUsecs (s.task k).deadline) run →
        ∀ x : ℕ × ℕ, x.1 ∈ T → J.Has x →
          J.DoneBy run x (J.due (fun k => c.jiffiesToUsecs (s.task k).deadline) x)

/-- The demand of the tasks in microseconds -/
def usecDemand (c : Config) (s : TaskSet) (T : Finset ℕ) (L : ℕ) : ℕ :=
  intervalDemand T (fun k => c.jiffiesToUsecs (s.task k).period) (fun k => (s.task k).wcet)
    (fun k => c.jiffiesToUsecs (s.task k).deadline) L

theorem deadlinesMet_iff {T : Finset ℕ} (hP : ∀ k ∈ T, (s.task k).period ≠ 0) :
    DeadlinesMet c s T ↔ ∀ L, usecDemand c s T L ≤ L := by
  refine edf_iff fun k hk => ?_
  exact Nat.mul_pos c.tick_pos (Nat.pos_of_ne_zero (hP k hk))

theorem toFinset_counted (s : TaskSet) (rt cpu : ℕ) :
    (counted s rt cpu).toFinset = insert rt (FpFf.tasksOn s cpu) := by
  unfold counted FpFf.tasksOn
  rw [List.toFinset_append, Finset.union_comm, Finset.insert_eq]
  rfl

theorem counted_nodup (hlist : s.list.Nodup) (hrt : s.taskIsOnCpu rt cpu = false) :
    (counted s rt cpu).Nodup := by
  refine List.Nodup.append (hlist.filter _) (List.nodup_singleton rt) ?_
  rw [List.disjoint_singleton]
  intro hmem
  have hon := (List.mem_filter.1 hmem).2
  rw [hrt] at hon
  cases hon

theorem usecDemand_eq (hn : (counted s rt cpu).Nodup) (L : ℕ) :
    usecDemand c s (insert rt (FpFf.tasksOn s cpu)) L =
      exactDemand ((pieces s rt cpu).map (Piece.scale c.usecPerTick)) L := by
  unfold usecDemand intervalDemand exactDemand pieces
  rw [← toFinset_counted, List.sum_toFinset _ hn, List.map_map, List.map_map]
  rfl

/-- `dbf_len` divides by the periods. -/
theorem period_of_dbfLen (hlen : dbfLen c s rt cpu = .ok Lmax) :
    ∀ p ∈ counted s rt cpu, (s.task p).period ≠ 0 := by
  have hutil : ∀ {p : ℕ} {sums r : ℕ × ℕ × ℕ}, dbfLenTask c s p sums = .ok r →
      (s.task p).period ≠ 0 := by
    intro p sums r h
    obtain ⟨u, hu, -⟩ := bind_eq_ok.1 h
    refine period_ne_zero (c := c) fun h0 => ?_
    unfold util div at hu
    rw [if_pos h0] at hu
    cases hu
  unfold dbfLen at hlen
  obtain ⟨sums, hsums, hlen⟩ := bind_eq_ok.1 hlen
  obtain ⟨r, hr, -⟩ := bind_eq_ok.1 hlen
  intro p hp
  rcases List.mem_append.1 hp with hp | hp
  · obtain ⟨hp, hon⟩ := List.mem_filter.1 hp
    obtain ⟨r', t', ht⟩ := foldlM_ok_mem hsums hp
    rw [if_pos hon] at ht
    exact hutil ht
  · rw [List.mem_singleton.1 hp]
    exact hutil hr

/-- Whether the demand of the tasks after an accepted test fits in every interval -/
theorem usecDemand_le_iff (hlist : s.list.Nodup) (hrt : s.taskIsOnCpu rt cpu = false)
    (hwcet : (s.task rt).wcet ≠ 0) (hlen : dbfLen c s rt cpu = .ok Lmax)
    (hr : InRange s rt cpu Lmax) (h : dbfTest c s rt cpu fuel = .ok true) :
    (∀ L, usecDemand c s (insert rt (FpFf.tasksOn s cpu)) L ≤ L) ↔ UntestedFit c s rt cpu Lmax := by
  have hne : pieces s rt cpu ≠ [] := by
    unfold pieces counted
    rw [List.map_append]
    exact List.append_ne_nil_of_right_ne_nil _ (List.cons_ne_nil _ _)
  have hP : ∀ p ∈ pieces s rt cpu, 0 < p.period := by
    intro p hp
    obtain ⟨k, hk, rfl⟩ := List.mem_map.1 hp
    exact Nat.pos_of_ne_zero (period_of_dbfLen hlen k hk)
  have htested : ∀ p ∈ pieces s rt cpu, ∀ n, p.deadline + n * p.period ≤ Lmax →
      exactDemand (pieces s rt cpu) (p.deadline + n * p.period) ≤
        c.usecPerTick * (p.deadline + n * p.period) := by
    intro p hp n hn
    obtain ⟨k, hk, rfl⟩ := List.mem_map.1 hp
    exact tested_fits hwcet hlen hr h k hk n hn
  simp only [usecDemand_eq (counted_nodup hlist hrt)]
  exact exact_le_iff c.tick_pos hne hP htested

/-- **What an accepted test is worth.** If `dbf_test` accepts a task for a CPU and no value exceeds its
type, the tasks there and the new one meet their deadlines iff the utilisation, without truncation, is at
most one and the demand also fits at the deadlines that were not tested. -/
theorem accepted_iff_untested (hlist : s.list.Nodup) (hrt : s.taskIsOnCpu rt cpu = false)
    (hwcet : (s.task rt).wcet ≠ 0) (hlen : dbfLen c s rt cpu = .ok Lmax)
    (hr : InRange s rt cpu Lmax) (h : dbfTest c s rt cpu fuel = .ok true) :
    DeadlinesMet c s (insert rt (FpFf.tasksOn s cpu)) ↔ UntestedFit c s rt cpu Lmax := by
  rw [← usecDemand_le_iff hlist hrt hwcet hlen hr h]
  refine deadlinesMet_iff fun k hk => period_of_dbfLen hlen k ?_
  rwa [← toFinset_counted, List.mem_toFinset] at hk

/-- Four tenths and three tenths of the time. -/
theorem accepted_iff_untested_pair :
    let s := TaskSet.pair 10 4000 20 6000
    let c := Config.small false
    DeadlinesMet c s (insert 2 (FpFf.tasksOn s 0)) ↔ UntestedFit c s 2 0 20 := by
  have hlen : dbfLen (Config.small false) (TaskSet.pair 10 4000 20 6000) 2 0 = .ok 20 := by
    decide +kernel
  have hr : InRange (TaskSet.pair 10 4000 20 6000) 2 0 20 :=
    ⟨by decide, by decide +kernel, by decide +kernel⟩
  have htest : dbfTest (Config.small false) (TaskSet.pair 10 4000 20 6000) 2 0 30 = .ok true := by
    decide +kernel
  exact accepted_iff_untested (List.nodup_singleton 1) (by decide) (by decide) hlen hr htest

/-- One half and three fifths of the time are accepted, and some deadline is missed. -/
example :
    let s := TaskSet.pair 10 5000 15 9000
    let c := Config.small false
    dbfTest c s 2 0 30 = .ok true ∧ ¬ DeadlinesMet c s (insert 2 (FpFf.tasksOn s 0)) := by
  refine ⟨by decide +kernel, fun h => ?_⟩
  have hfit := (deadlinesMet_iff (by decide)).1 h 30000
  exact absurd hfit (by decide +kernel)

end Resch.Checked.EdfFf
