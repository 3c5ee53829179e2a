import Resch.Proof.FpPmRun
import Resch.Proof.SplitJob
import Resch.Spec.FpPmJob
import Mathlib.Data.Nat.Find

/-!
# A job of a split task under FP-PM

* `Fppm.split_shares`: the shares that a successful split leaves begin with the first CPU and end
  with the last one.
* `fppm_job`: in every run each job goes through CPUs with shares in increasing order, with a timer
  for the share of each but the last, iff no such share is too long for the interval of the timer.
-/

namespace Resch

open Lib

variable {c : Config} {s : Fppm} {ft : FppmTask} {rt cpu k sum : ℕ} {cpus : List ℕ}

/-! ## The shares -/

/-- The CPUs with shares lie between the first and the last one, which have shares. -/
structure FppmTask.Shares (c : Config) (ft : FppmTask) : Prop where
  first : 0 < ft.runtime ft.firstCpu
  last : 0 < ft.runtime ft.lastCpu
  between : ∀ k, 0 < ft.runtime k → ft.firstCpu ≤ k ∧ k ≤ ft.lastCpu
  last_lt : ft.lastCpu < c.nrRtCpus

/-- What the loop of `split` has before it comes to the CPUs `cpus` -/
structure FppmTask.Before (c : Config) (ft : FppmTask) (sum : ℕ) (cpus : List ℕ) : Prop where
  last : ft.lastCpu = c.cpuUndefined
  below : ∀ k, 0 < ft.runtime k → ft.firstCpu ≤ k ∧ ∀ x ∈ cpus, k < x
  none : ft.firstCpu = c.cpuUndefined → sum = 0 ∧ ∀ k, ft.runtime k = 0
  first : ft.firstCpu ≠ c.cpuUndefined → 0 < ft.runtime ft.firstCpu

namespace FppmTask

theorem addShare_runtime_self (share : ℕ) : (ft.addShare c cpu share).runtime cpu = share :=
  Function.update_self ..

theorem addShare_runtime_of_ne {share : ℕ} (h : k ≠ cpu) :
    (ft.addShare c cpu share).runtime k = ft.runtime k := Function.update_of_ne h ..

/-- The CPU `cpu` gets its share. -/
theorem Before.add (h : ft.Before c sum (cpu :: cpus)) (hc : cpu < c.nrRtCpus)
    (hcpus : ∀ x ∈ cpus, cpu < x) (share : ℕ) :
    (ft.addShare c cpu share).Before c (ulong ((sum : ℤ) + share)) cpus := by
  have hne : cpu ≠ c.cpuUndefined := hc.ne
  have hfirst : (ft.addShare c cpu share).firstCpu =
      if ft.firstCpu = c.cpuUndefined ∧ 0 < share then cpu else ft.firstCpu := rfl
  refine ⟨h.last, fun k hk => ?_, fun hn => ?_, fun hf => ?_⟩
  · -- the first share settles the first CPU
    by_cases hkc : k = cpu
    · subst hkc
      rw [addShare_runtime_self] at hk
      refine ⟨?_, hcpus⟩
      rw [hfirst]
      split
      · exact le_rfl
      · rename_i hno
        have hdef : ft.firstCpu ≠ c.cpuUndefined := fun he => hno ⟨he, hk⟩
        exact ((h.below _ (h.first hdef)).2 k List.mem_cons_self).le
    · rw [addShare_runtime_of_ne hkc] at hk
      obtain ⟨hle, hlt⟩ := h.below k hk
      have hdef : ft.firstCpu ≠ c.cpuUndefined := fun he => hk.ne' ((h.none he).2 k)
      rw [hfirst, if_neg fun hn => hdef hn.1]
      exact ⟨hle, fun x hx => hlt x (List.mem_cons_of_mem _ hx)⟩
  · rw [hfirst] at hn
    split at hn
    · exact absurd hn hne
    · rename_i hno
      obtain ⟨hsum, hzero⟩ := h.none hn
      have hshare : share = 0 := by
        by_contra hpos
        exact hno ⟨hn, Nat.pos_of_ne_zero hpos⟩
      subst hsum hshare
      refine ⟨rfl, fun k => ?_⟩
      by_cases hkc : k = cpu
      · subst hkc
        exact addShare_runtime_self 0
      · rw [addShare_runtime_of_ne hkc]
        exact hzero k
  · rw [hfirst] at hf ⊢
    split
    · rename_i hnew
      rw [addShare_runtime_self]
      exact hnew.2
    · rename_i hno
      rw [if_neg hno] at hf
      have hlt := (h.below _ (h.first hf)).2 cpu List.mem_cons_self
      rw [addShare_runtime_of_ne hlt.ne]
      exact h.first hf

end FppmTask

namespace Fppm

/-- What the last CPU gets is what was missing before. -/
theorem lastShare_eq {C sum share : ℕ} (hsum : sum ≤ C) (hC : C ≤ ulong ((sum : ℤ) + share)) :
    ulong ((share : ℤ) - (ulong ((sum : ℤ) + share) - C)) = C - sum := by
  unfold ulong at hC ⊢
  omega

/-- **The loop of `split`.** If it comes to an end by itself, the shares are those of a split
task. -/
theorem splitLoop_shares : ∀ (cpus : List ℕ) (ft : FppmTask) (sum : ℕ),
    cpus.Pairwise (· < ·) → (∀ x ∈ cpus, x < c.nrRtCpus) → sum < (s.task rt).C c →
      ft.Before c sum cpus → (s.splitLoop c rt cpus ft sum).lastCpu ≠ c.cpuUndefined →
        (s.splitLoop c rt cpus ft sum).Shares c := by
  intro cpus
  induction cpus with
  | nil => exact fun ft sum _ _ _ h hl => absurd h.last hl
  | cons cpu cpus ih =>
    intro ft sum hsort hlt hsum h hl
    obtain ⟨hcpu, hsort'⟩ := List.pairwise_cons.1 hsort
    have hlt' : ∀ x ∈ cpus, x < c.nrRtCpus := fun x hx => hlt x (List.mem_cons_of_mem _ hx)
    have hc := hlt cpu List.mem_cons_self
    rw [splitLoop] at hl ⊢
    by_cases hav : s.cpuAvailable cpu = true
    swap
    · rw [if_neg hav] at hl ⊢
      refine ih ft sum hsort' hlt' hsum ⟨h.last, fun k hk => ?_, h.none, h.first⟩ hl
      obtain ⟨hle, hx⟩ := h.below k hk
      exact ⟨hle, fun x hm => hx x (List.mem_cons_of_mem _ hm)⟩
    rw [if_pos hav] at hl ⊢
    dsimp only at hl ⊢
    have hadd := h.add hc hcpu (s.splitRuntime c rt cpu)
    generalize s.splitRuntime c rt cpu = share at hadd hl ⊢
    by_cases hC : (s.task rt).C c ≤ ulong ((sum : ℤ) + share)
    · rw [if_pos hC]
      have hmissing := lastShare_eq hsum.le hC
      rw [hmissing]
      -- the CPU where the loop ends is not before the first one
      have hdef : (ft.addShare c cpu share).firstCpu ≠ c.cpuUndefined := by
        intro he
        have := (hadd.none he).1
        omega
      have hshare : ∀ k, 0 < Function.update (ft.addShare c cpu share).runtime cpu
          ((s.task rt).C c - sum) k → k = cpu ∨ 0 < ft.runtime k := by
        intro k hk
        by_cases hkc : k = cpu
        · exact Or.inl hkc
        · rw [Function.update_of_ne hkc, FppmTask.addShare_runtime_of_ne hkc] at hk
          exact Or.inr hk
      have hfirst : (ft.addShare c cpu share).firstCpu ≤ cpu ∧
          0 < Function.update (ft.addShare c cpu share).runtime cpu ((s.task rt).C c - sum)
            (ft.addShare c cpu share).firstCpu := by
        have hpos := hadd.first hdef
        by_cases hf : (ft.addShare c cpu share).firstCpu = cpu
        · rw [hf, Function.update_self]
          omega
        · rw [Function.update_of_ne hf]
          refine ⟨?_, hpos⟩
          rw [FppmTask.addShare_runtime_of_ne hf] at hpos
          exact ((h.below _ hpos).2 cpu List.mem_cons_self).le
      refine ⟨hfirst.2, ?_, fun k hk => ?_, hc⟩
      · dsimp only
        rw [Function.update_self]
        omega
      · rcases hshare k hk with rfl | hk'
        · exact ⟨hfirst.1, le_rfl⟩
        · have hkc := (h.below k hk').2 cpu List.mem_cons_self
          have hk : 0 < (ft.addShare c cpu share).runtime k := by
            rw [FppmTask.addShare_runtime_of_ne hkc.ne]
            exact hk'
          exact ⟨(hadd.below k hk).1, hkc.le⟩
    · rw [if_neg hC] at hl ⊢
      exact ih _ _ hsort' hlt' (by omega) hadd hl

/-- A task without execution time gets at most one CPU. -/
theorem splitLoop_zero (hC : (s.task rt).C c = 0) : ∀ (cpus : List ℕ) (ft : FppmTask) (sum : ℕ),
    ft.lastCpu = c.cpuUndefined → ft.firstCpu = c.cpuUndefined →
      (s.splitLoop c rt cpus ft sum).firstCpu = c.cpuUndefined ∨
        (s.splitLoop c rt cpus ft sum).firstCpu = (s.splitLoop c rt cpus ft sum).lastCpu := by
  intro cpus
  induction cpus with
  | nil => exact fun ft sum _ hf => Or.inl hf
  | cons cpu cpus ih =>
    intro ft sum hl hf
    rw [splitLoop]
    by_cases hav : s.cpuAvailable cpu = true
    swap
    · rw [if_neg hav]
      exact ih ft sum hl hf
    rw [if_pos hav]
    dsimp only
    rw [if_pos (by omega)]
    unfold FppmTask.addShare
    dsimp only
    split
    · exact Or.inr rfl
    · exact Or.inl hf

/-- **A successful split.** -/
theorem split_shares (h : s.split c rt = (ft, cpu)) (hcpu : cpu ≠ c.cpuUndefined)
    (hsplit : ft.firstCpu ≠ ft.lastCpu) : ft.Shares c ∧ cpu = ft.firstCpu := by
  unfold split at h
  dsimp only at h
  split at h
  swap
  · rw [Prod.mk.injEq] at h
    exact absurd h.2.symm hcpu
  rename_i hl
  rw [Prod.mk.injEq] at h
  obtain ⟨hft, hc⟩ := h
  have hfirst : (s.splitLoop c rt (List.range c.nrRtCpus) (FppmTask.clear c) 0).firstCpu =
      ft.firstCpu := by rw [← hft]
  refine ⟨?_, by rw [← hc, hfirst]⟩
  by_cases hC : (s.task rt).C c = 0
  · rcases splitLoop_zero hC (List.range c.nrRtCpus) (FppmTask.clear c) 0 rfl rfl with he | he
    · exact absurd (hc.symm.trans he) hcpu
    · refine absurd ?_ hsplit
      rw [← hft]
      exact he
  · have hsh : (s.splitLoop c rt (List.range c.nrRtCpus) (FppmTask.clear c) 0).Shares c :=
      splitLoop_shares (List.range c.nrRtCpus) (FppmTask.clear c) 0 List.pairwise_lt_range
        (fun x hx => List.mem_range.1 hx) (Nat.pos_of_ne_zero hC)
        ⟨rfl, nofun, fun _ => ⟨rfl, fun _ => rfl⟩, fun hn => absurd rfl hn⟩ hl
    rw [← hft]
    exact ⟨hsh.first, hsh.last, hsh.between, hsh.last_lt⟩

end Fppm

/-! ## Jobs -/

variable {fppmTask : ℕ → FppmTask}

/-- What is to hold of the job of a split task. -/
structure FppmJobOk (ft : FppmTask) (rt : ℕ) (s : SplitState (List (ℕ × ℕ))) : Prop where
  first : (s.job rt).active = true → (s.job rt).visits.head? = some ft.firstCpu
  increasing : (s.job rt).active = true → (s.job rt).visits.Pairwise (· < ·)
  here : (s.job rt).active = true → (s.job rt).visits.getLast? = some (s.job rt).cpu
  share : (s.job rt).active = true → ∀ k ∈ (s.job rt).visits, 0 < ft.runtime k ∧ k ≤ ft.lastCpu
  armed : (s.job rt).active = true → (s.job rt).data =
    ((s.job rt).visits.filter (· ≠ ft.lastCpu)).map fun k => (k, ft.runtime k * 1000)
  timer : ∀ k, (s.job rt).timer = some k → k = (s.job rt).cpu ∧ k ≠ ft.lastCpu
  done : (s.job rt).active = false → (s.job rt).cpu = ft.firstCpu ∧ (s.job rt).timer = none ∧
    ∀ k, rt ∉ s.kthread k

/-- All jobs of split tasks -/
def FppmJobsOk (fppmTask : ℕ → FppmTask) (s : SplitState (List (ℕ × ℕ))) : Prop :=
  ∀ rt, (fppmTask rt).firstCpu ≠ (fppmTask rt).lastCpu → FppmJobOk (fppmTask rt) rt s

/-- The timer has been run on each CPU visited but the last one of the task. -/
def FppmArmed (fppmTask : ℕ → FppmTask) (rt : ℕ) (l : List ℕ) (armed : List (ℕ × ℕ)) : Prop :=
  armed = (l.filter (· ≠ (fppmTask rt).lastCpu)).map fun k => (k, (fppmTask rt).interval k)

theorem fppmPlugin_keeps : (fppmPlugin c fppmTask).Keeps (FppmArmed fppmTask) := by
  refine ⟨fun rt t d hs => ?_, fun rt l cpu d _ h hl => ?_, fun rt l cpu d _ h hl => ?_⟩
  · have hne : (fppmTask rt).firstCpu ≠ (fppmTask rt).lastCpu := of_decide_eq_true hs
    unfold FppmArmed fppmPlugin
    simp [hne]
  · have hne : cpu ≠ (fppmTask rt).lastCpu := Ne.symm hl
    unfold FppmArmed fppmPlugin at *
    simp [h, hne]
  · have he : cpu = (fppmTask rt).lastCpu := hl.symm
    unfold FppmArmed fppmPlugin at *
    simp [h, he]

/-- The shares of every split task come from a successful split. -/
def FppmSplit (c : Config) (fppmTask : ℕ → FppmTask) : Prop :=
  ∀ rt, (fppmTask rt).firstCpu ≠ (fppmTask rt).lastCpu →
    ∃ (s : Fppm) (r cpu : ℕ), s.split c r = (fppmTask rt, cpu) ∧ cpu ≠ c.cpuUndefined

theorem FppmSplit.shares (h : FppmSplit c fppmTask)
    (hs : (fppmTask rt).firstCpu ≠ (fppmTask rt).lastCpu) : (fppmTask rt).Shares c := by
  obtain ⟨s, r, cpu, hsplit, hcpu⟩ := h rt hs
  exact (Fppm.split_shares hsplit hcpu hs).1

/-- The interval of the timer is the share, for every share but the last one. -/
def FppmTask.Intervals (ft : FppmTask) : Prop := ∀ k, k ≠ ft.lastCpu → ft.runtime k * 1000 < 2 ^ 64

theorem FppmTask.Intervals.eq (h : ft.Intervals) (hk : k ≠ ft.lastCpu) :
    ft.interval k = ft.runtime k * 1000 := by
  have hlt := h k hk
  unfold FppmTask.interval
  exact_mod_cast ulong_natCast hlt

theorem fppmJobOk_of_inv {s : SplitState (List (ℕ × ℕ))}
    (h : SplitInv (fppmPlugin c fppmTask) (FppmArmed fppmTask) s) (hsh : (fppmTask rt).Shares c)
    (hs : (fppmTask rt).firstCpu ≠ (fppmTask rt).lastCpu) (hi : (fppmTask rt).Intervals) :
    FppmJobOk (fppmTask rt) rt s := by
  have hj := h rt
  have hsplit : (fppmPlugin c fppmTask).isSplit rt = true := decide_eq_true hs
  refine ⟨fun ha => (hj.route hsplit ha).1.first, fun ha => (hj.route hsplit ha).1.increasing,
    fun ha => (hj.route hsplit ha).1.last, fun ha k hk => ?_, fun ha => ?_, fun k hk => ?_,
    fun ha => ?_⟩
  · obtain ⟨hr, -⟩ := hj.route hsplit ha
    have hpos : 0 < (fppmTask rt).runtime k := by
      obtain ⟨l, hl⟩ := List.head?_eq_some_iff.1 hr.first
      rw [hl] at hk
      rcases List.mem_cons.1 hk with rfl | hk
      · exact hsh.first
      · exact (hr.share k (by rw [hl]; exact hk)).1
    exact ⟨hpos, (hsh.between k hpos).2⟩
  · have harmed := (hj.route hsplit ha).2
    unfold FppmArmed at harmed
    rw [harmed]
    refine List.map_congr_left fun k hk => ?_
    rw [hi.eq (by simpa using (List.mem_filter.1 hk).2)]
  · obtain ⟨hkc, hlast⟩ := hj.timer k hk
    obtain ⟨-, ha, -⟩ := hj.active_of_timer hk
    refine ⟨hkc, ?_⟩
    rcases hlast with hnil | hlast
    · -- the job has not left the first CPU
      obtain ⟨hr, -⟩ := hj.route hsplit ha
      obtain ⟨l, hl⟩ := List.head?_eq_some_iff.1 hr.first
      rw [hl] at hnil
      have hlast := hr.last
      rw [hl, show l = [] from hnil] at hlast
      have hcpu : (fppmTask rt).firstCpu = (s.job rt).cpu := Option.some.inj hlast
      rw [hkc, ← hcpu]
      exact hs
    · rw [hkc]
      exact hlast
  · obtain ⟨hsl, hidle⟩ := hj.idle ha
    obtain ⟨hcpu, htimer⟩ := hidle hsplit
    exact ⟨hcpu, htimer, fun k => List.count_eq_zero.1 (hj.awake hsl k)⟩

/-! ## Every CPU with a share is reached -/

/-- The job of `rt` is on `k`, with its timer run there, and no task waits for a thread. -/
structure Arrived (p : SplitPlugin (List (ℕ × ℕ))) (rt k : ℕ) (s : SplitState (List (ℕ × ℕ))) :
    Prop where
  active : (s.job rt).active = true
  visited : k ∈ (s.job rt).visits
  timer : k ≠ p.lastCpu rt → (s.job rt).timer = some k
  queues : ∀ x, s.kthread x = []

theorem nextCpu_of_share {p : SplitPlugin (List (ℕ × ℕ))} {m : ℕ} (hmk : m < k)
    (hk : 0 < p.runtime rt k) (hn : k < p.nrRtCpus)
    (hbetween : ∀ x, m < x → x < k → p.runtime rt x = 0) : p.nextCpu rt m = some k := by
  unfold SplitPlugin.nextCpu
  rw [List.find?_range'_eq_some]
  refine ⟨decide_eq_true hk, ?_, fun x hx hxk => ?_⟩
  · rw [List.mem_range'_1]
    omega
  · simp [hbetween x (by omega) hxk]

/-- The job goes on from `m` to the next CPU with a share. -/
theorem Arrived.next {p : SplitPlugin (List (ℕ × ℕ))} {s : SplitState (List (ℕ × ℕ))} {m : ℕ}
    (h : Arrived p rt m s) (hm : m ≠ p.lastCpu rt) (hnext : p.nextCpu rt m = some k) :
    ∃ s', final (splitStep p) s [.timer rt, .thread k] = some s' ∧ Arrived p rt k s' := by
  have htimer := h.timer hm
  have hexpire : splitStep p s (.timer rt) =
      some ((s.setJob rt { s.job rt with timer := none }).requestMigration rt k) := by
    rw [splitStep, SplitState.timerExpire, htimer, Option.map_some, hnext]
  have hqueue : ((s.setJob rt { s.job rt with timer := none }).requestMigration rt k).kthread k =
      [rt] := by
    unfold SplitState.requestMigration SplitState.setKthread SplitState.setJob
    dsimp only
    rw [Function.update_self, h.queues]
    rfl
  rw [final, hexpire, Option.bind_some, final, splitStep, SplitState.migrationThread, hqueue]
  refine ⟨_, rfl, ?_⟩
  unfold SplitState.requestMigration SplitState.setKthread SplitState.setJob
  dsimp only
  refine ⟨?_, ?_, fun hk => ?_, fun x => ?_⟩
  · simp only [Function.update_self]
    split <;> exact h.active
  · simp only [Function.update_self]
    split <;> exact List.mem_append_right _ (List.mem_singleton.2 rfl)
  · simp only [Function.update_self]
    rw [if_pos (Ne.symm hk)]
    rfl
  · by_cases hx : x = k
    · subst hx
      simp only [Function.update_self]
    · simp only [Function.update_of_ne hx]
      exact h.queues x

theorem exists_arrived (hsh : (fppmTask rt).Shares c)
    (hs : (fppmTask rt).firstCpu ≠ (fppmTask rt).lastCpu) (cpus : ℕ → ℕ)
    (data : ℕ → List (ℕ × ℕ)) : ∀ k, 0 < (fppmTask rt).runtime k →
      ∃ ops s, final (splitStep (fppmPlugin c fppmTask))
        (splitInit (fppmPlugin c fppmTask) cpus data) ops = some s ∧
        Arrived (fppmPlugin c fppmTask) rt k s := by
  have hsplit : (fppmPlugin c fppmTask).isSplit rt = true := decide_eq_true hs
  intro k
  induction k using Nat.strong_induction_on with
  | _ k ih =>
    intro hk
    obtain ⟨hfirst, hlast⟩ := hsh.between k hk
    rcases Nat.eq_or_lt_of_le hfirst with he | hlt
    · -- the first CPU is where the job starts
      refine ⟨[.jobStart rt 0], _, rfl, ?_⟩
      have hcpu : ((splitInit (fppmPlugin c fppmTask) cpus data).job rt).cpu = k :=
        (if_pos hsplit).trans he
      unfold SplitState.jobStart SplitState.setJob
      dsimp only
      rw [if_pos hsplit, hcpu]
      refine ⟨?_, ?_, fun _ => ?_, fun _ => rfl⟩
      · simp only [Function.update_self]
        rfl
      · simp only [Function.update_self]
        exact List.mem_singleton.2 rfl
      · simp only [Function.update_self]
        exact congrArg some rfl
    · -- the greatest CPU before it that has a share
      have hpos := hsh.first
      generalize hm : Nat.findGreatest (fun x => 0 < (fppmTask rt).runtime x) (k - 1) = m
      have hmpos : 0 < (fppmTask rt).runtime m := by
        rw [← hm]
        exact Nat.findGreatest_spec (P := fun x => 0 < (fppmTask rt).runtime x) (by omega) hpos
      have hmk : m < k := by
        have := Nat.findGreatest_le (P := fun x => 0 < (fppmTask rt).runtime x) (k - 1)
        omega
      obtain ⟨ops, s, hops, harr⟩ := ih m hmk hmpos
      have hnext : (fppmPlugin c fppmTask).nextCpu rt m = some k := by
        refine nextCpu_of_share hmk hk (hlast.trans_lt hsh.last_lt) fun x hmx hxk => ?_
        by_contra hx
        have := Nat.le_findGreatest (P := fun x => 0 < (fppmTask rt).runtime x) (n := k - 1)
          (by omega) (Nat.pos_of_ne_zero hx)
        omega
      -- there the timer expires, and the thread of `k` takes the task
      have hml : m ≠ (fppmTask rt).lastCpu := by omega
      obtain ⟨s', hs', harr'⟩ := harr.next hml hnext
      refine ⟨ops ++ [.timer rt, .thread k], s', ?_, harr'⟩
      rw [final_append, hops]
      exact hs'

/-- **A job of a split task.** In every run of jobs starting and completing, timers expiring and
threads migrating, of any tasks with shares that come from successful splits: each job of a split
task goes through CPUs with shares in increasing order, from the first one and not beyond the last
one, with a timer for the share of each of them but the last, and ends on the first CPU with no
timer and no request left, iff no share but that of the last CPU is too long for the timer. -/
theorem fppm_job (c : Config) (fppmTask : ℕ → FppmTask) (cpus : ℕ → ℕ)
    (data : ℕ → List (ℕ × ℕ)) (hsplit : FppmSplit c fppmTask) :
    (∀ ops, Always (splitStep (fppmPlugin c fppmTask)) (FppmJobsOk fppmTask)
      (splitInit (fppmPlugin c fppmTask) cpus data) ops) ↔
    ∀ rt, (fppmTask rt).firstCpu ≠ (fppmTask rt).lastCpu → (fppmTask rt).Intervals := by
  constructor
  · intro hall rt hs k hk
    rcases Nat.eq_zero_or_pos ((fppmTask rt).runtime k) with hz | hpos
    · rw [hz]
      decide
    obtain ⟨ops, s, hops, harr⟩ := exists_arrived (hsplit.shares hs) hs cpus data k hpos
    have hok := (hall ops).final hops rt hs
    have hinv := (split_run (fppmPlugin_keeps (c := c)) cpus data ops).final hops rt
    -- the interval that the timer was run for is the share
    have hmap := (hok.armed harr.active).symm.trans (hinv.route (decide_eq_true hs) harr.active).2
    have hmem : k ∈ (s.job rt).visits.filter (· ≠ (fppmTask rt).lastCpu) :=
      List.mem_filter.2 ⟨harr.visited, decide_eq_true hk⟩
    have heq := congrArg Prod.snd (List.map_inj_left.1 hmap k hmem)
    have hlt : (fppmTask rt).interval k < 2 ^ 64 := by
      unfold FppmTask.interval ulong
      omega
    dsimp only at heq
    omega
  · intro hi ops
    refine Always.mono (fun s h rt hs => ?_) ops _ (split_run fppmPlugin_keeps cpus data ops)
    exact fppmJobOk_of_inv h (hsplit.shares hs) hs (hi rt hs)

/-- The state in which `split` is called for task 3, which the other tasks of the run have left no
CPU. -/
def splitState (ops : List FppmOp) : Fppm :=
  let s := (final (fppmStep threeCpus) (fppmInit 0 0 0 fun _ => .periodic 0 0 0 0) ops).getD
    (fppmInit 0 0 0 fun _ => .periodic 0 0 0 0)
  let s := (s.setTask 3 ⟨10, 10, 4000, 4000, 5, 3, false⟩).globalListInsert 3
  ((s.reset threeCpus 3).partition threeCpus 3 fun _ => true).2

/-- Task 3 is the only one that is split. -/
def splitTasks (ops : List FppmOp) : ℕ → FppmTask :=
  Function.update (fun _ => FppmTask.clear threeCpus) 3 ((splitState ops).split threeCpus 3).1

theorem splitTasks_split (ops : List FppmOp)
    (h : ((splitState ops).split threeCpus 3).2 ≠ threeCpus.cpuUndefined) :
    FppmSplit threeCpus (splitTasks ops) := by
  intro rt hs
  by_cases hrt : rt = 3
  · subst hrt
    refine ⟨splitState ops, 3, _, ?_, h⟩
    unfold splitTasks
    rw [Function.update_self]
  · unfold splitTasks at hs
    rw [Function.update_of_ne hrt] at hs
    exact absurd rfl hs

/-- Tasks 0, 1 and 2 leave 4 milliseconds in all of every 10. -/
def threeResidents : List FppmOp :=
  [.attach 0 (.periodic 10 8000 10 3) 1, .taskRun 0 (· = 0),
    .attach 1 (.periodic 10 8500 10 3) 1, .taskRun 1 (· = 1),
    .attach 2 (.periodic 10 9500 10 3) 1, .taskRun 2 (· = 2)]

theorem fppm_job_threeResidents :
    (∀ ops, Always (splitStep (fppmPlugin threeCpus (splitTasks threeResidents)))
      (FppmJobsOk (splitTasks threeResidents))
      (splitInit (fppmPlugin threeCpus (splitTasks threeResidents)) (fun _ => 0) fun _ => []) ops) ↔
    ∀ rt, (splitTasks threeResidents rt).firstCpu ≠ (splitTasks threeResidents rt).lastCpu →
      (splitTasks threeResidents rt).Intervals :=
  fppm_job threeCpus (splitTasks threeResidents) (fun _ => 0) (fun _ => [])
    (splitTasks_split threeResidents (by decide +kernel))

/-- The period of task 3 is less than the response time of task 1, so its share of CPU 1 is less
than zero. -/
def longResident : List FppmOp :=
  [.attach 0 (.periodic 10 7000 10 3) 1, .taskRun 0 (· = 0),
    .attach 1 ⟨20, 15, 12500, 12500, 10, 3, false⟩ 1, .taskRun 1 (· = 1),
    .attach 2 (.periodic 10 6500 10 3) 1, .taskRun 2 (· = 2)]

theorem fppm_not_job : ¬ ∀ (c : Config) (fppmTask : ℕ → FppmTask) (cpus : ℕ → ℕ)
    (data : ℕ → List (ℕ × ℕ)), FppmSplit c fppmTask →
    ∀ ops, Always (splitStep (fppmPlugin c fppmTask)) (FppmJobsOk fppmTask)
      (splitInit (fppmPlugin c fppmTask) cpus data) ops := by
  intro hall
  have hrun := hall threeCpus (splitTasks longResident) (fun _ => 0) (fun _ => [])
    (splitTasks_split longResident (by decide +kernel)) [.jobStart 3 0, .timer 3, .thread 1]
  obtain ⟨s, hok, ht⟩ := hrun.final_test (fun s => decide ((s.job 3).active = true ∧
    (s.job 3).visits = [0, 1] ∧ (s.job 3).data ≠ [(0, 3000000), (1, (2 ^ 64 - 2500) * 1000)]))
    (by decide +kernel)
  obtain ⟨hactive, hvisits, hdata⟩ := of_decide_eq_true ht
  apply hdata
  have harmed := (hok 3 (by decide +kernel)).armed hactive
  rw [hvisits] at harmed
  rw [harmed]
  decide +kernel

end Resch
