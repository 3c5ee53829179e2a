import Mathlib.Algebra.BigOperators.Group.Finset.Basic
import Mathlib.Algebra.Order.BigOperators.Group.List
import Resch.Proof.FpPm
import Resch.Proof.FpPmJob

/-!
# A split accounts for the execution time

* `splitLoop_reaches`: the loop of `split` goes through the available CPUs and ends at the one where
  what they can spare reaches the execution time, as `unsigned long`s.
* `Reaches.spareSum_lt`: what they can spare is in range if the bounds of no task go below zero.
* `split_accounts`: the shares add up to the execution time iff the sum has not gone beyond an
  `unsigned long` before that CPU.
-/

namespace Resch.Fppm

open Lib

variable (c : Config) (s : Fppm) (rt cpu : ℕ)

/-- What the tasks on a CPU can bear of `rt`: nothing if one of them misses its deadline. -/
def spare : ℕ :=
  if ∃ lp ∈ s.residents cpu, s.Misses c cpu lp then 0
  else leastBound ((s.residents cpu).map (s.lpSplitBound c rt cpu))

def spareSum (cpus : List ℕ) : ℕ := (cpus.map (s.spare c rt)).sum

/-- The CPUs that `split` goes through -/
def available : List ℕ := (List.range c.nrRtCpus).filter s.cpuAvailable

/-- The available CPUs `before` leave some of the execution time, and `cpu` is the next one and
takes the rest. -/
structure Reaches (before : List ℕ) (cpu : ℕ) : Prop where
  available : before ++ [cpu] <+: s.available c
  missing : ∀ l, l <+: before → l ≠ [] → s.spareSum c rt l % 2 ^ 64 < (s.task rt).C c
  reached : (s.task rt).C c ≤ s.spareSum c rt (before ++ [cpu]) % 2 ^ 64

/-- What they can spare does not come to the execution time. -/
def TooLittle : Prop :=
  ∀ l, l <+: s.available c → l ≠ [] → s.spareSum c rt l % 2 ^ 64 < (s.task rt).C c

variable {c s rt cpu} {before before' : List ℕ} {cpu' : ℕ}

theorem TooLittle.not_reaches (h : s.TooLittle c rt) (before : List ℕ) (cpu : ℕ) :
    ¬ s.Reaches c rt before cpu :=
  fun hr => absurd hr.reached (not_le.2 (h _ hr.available (by simp)))

theorem splitRuntime_eq_spare : s.splitRuntime c rt cpu = s.spare c rt cpu := by
  unfold spare
  split
  · rename_i h
    obtain ⟨lp, hlp, hm⟩ := h
    obtain ⟨hlist, ho⟩ := List.mem_filter.1 hlp
    exact splitRuntimeLoop_of_misses s.list 0 ⟨lp, hlist, ho, hm⟩
  · rename_i h
    refine splitRuntimeLoop_eq s.list 0 fun lp hlp ho hm => ?_
    exact h ⟨lp, List.mem_filter.2 ⟨hlp, ho⟩, hm⟩

theorem spareSum_append (l : List ℕ) :
    s.spareSum c rt (l ++ [cpu]) = s.spareSum c rt l + s.spare c rt cpu := by
  unfold spareSum
  rw [List.map_append, List.sum_append, List.map_singleton, List.sum_singleton]

/-- The CPU that takes the rest is the only one. -/
theorem Reaches.eq (h : s.Reaches c rt before cpu) (h' : s.Reaches c rt before' cpu') :
    before = before' ∧ cpu = cpu' := by
  have hle : ∀ {b b' : List ℕ} {k k' : ℕ}, s.Reaches c rt b k → s.Reaches c rt b' k' →
      b'.length ≤ b.length := by
    intro b b' k k' h h'
    by_contra hlt
    have hpre : b ++ [k] <+: b' := by
      refine List.prefix_of_prefix_length_le h.available ((List.prefix_append b' [k']).trans
        h'.available) ?_
      rw [List.length_append, List.length_singleton]
      omega
    exact absurd h.reached (not_le.2 (h'.missing _ hpre (by simp)))
  have heq : before ++ [cpu] = before' ++ [cpu'] := by
    have hl := hle h h'
    have hl' := hle h' h
    refine List.IsPrefix.eq_of_length (List.prefix_of_prefix_length_le h.available h'.available ?_) ?_
    · rw [List.length_append, List.length_append, List.length_singleton, List.length_singleton]
      omega
    · rw [List.length_append, List.length_append, List.length_singleton, List.length_singleton]
      omega
  obtain ⟨hb, hc⟩ := List.append_inj' heq rfl
  exact ⟨hb, List.singleton_inj.1 hc⟩

theorem ulong_add_mod (x y : ℕ) : ulong (((x % 2 ^ 64 : ℕ) : ℤ) + y) = (x + y) % 2 ^ 64 := by
  unfold ulong
  omega

/-- The first CPU with something to spare -/
def firstSpare (c : Config) (s : Fppm) (rt : ℕ) (cpus : List ℕ) : ℕ :=
  (cpus.find? fun k => decide (0 < s.spare c rt k)).getD c.cpuUndefined

theorem firstSpare_append {past : List ℕ} (hdef : ∀ k ∈ past, k ≠ c.cpuUndefined) :
    s.firstSpare c rt (past ++ [cpu]) =
      if s.firstSpare c rt past = c.cpuUndefined ∧ 0 < s.spare c rt cpu then cpu
      else s.firstSpare c rt past := by
  unfold firstSpare
  rw [List.find?_append]
  cases h : past.find? fun k => decide (0 < s.spare c rt k) with
  | some k =>
    have hk := hdef k (List.mem_of_find?_eq_some h)
    rw [Option.some_or, Option.getD_some, if_neg fun hn => hk hn.1]
  | none =>
    rw [Option.none_or, Option.getD_none, List.find?_singleton]
    by_cases hpos : 0 < s.spare c rt cpu
    · rw [if_pos (decide_eq_true hpos), if_pos ⟨rfl, hpos⟩, Option.getD_some]
    · rw [if_neg (by simpa using hpos), if_neg fun hn => hpos hn.2, Option.getD_none]

/-- **The loop of `split`.** It has gone through `past`, and `cpus` are the CPUs to come. -/
theorem splitLoop_reaches : ∀ (cpus past : List ℕ) (ft : FppmTask),
    (∀ k ∈ past ++ cpus, k ≠ c.cpuUndefined) →
    (∀ l, l <+: past → l ≠ [] → s.spareSum c rt l % 2 ^ 64 < (s.task rt).C c) →
    ft.lastCpu = c.cpuUndefined → ft.firstCpu = s.firstSpare c rt past →
    (ft.runtime = fun k => if k ∈ past then s.spare c rt k else 0) →
    ((s.splitLoop c rt cpus ft (s.spareSum c rt past % 2 ^ 64)).lastCpu = c.cpuUndefined ∧
      ∀ l, l <+: past ++ cpus.filter s.cpuAvailable → l ≠ [] →
        s.spareSum c rt l % 2 ^ 64 < (s.task rt).C c) ∨
    ∃ before cpu, before ++ [cpu] <+: past ++ cpus.filter s.cpuAvailable ∧
      (∀ l, l <+: before → l ≠ [] → s.spareSum c rt l % 2 ^ 64 < (s.task rt).C c) ∧
      (s.task rt).C c ≤ s.spareSum c rt (before ++ [cpu]) % 2 ^ 64 ∧
      (s.splitLoop c rt cpus ft (s.spareSum c rt past % 2 ^ 64)).lastCpu = cpu ∧
      (s.splitLoop c rt cpus ft (s.spareSum c rt past % 2 ^ 64)).firstCpu =
        s.firstSpare c rt (before ++ [cpu]) ∧
      (s.splitLoop c rt cpus ft (s.spareSum c rt past % 2 ^ 64)).runtime = fun k =>
        if k = cpu then (s.task rt).C c - s.spareSum c rt before % 2 ^ 64
        else if k ∈ before then s.spare c rt k else 0 := by
  intro cpus
  induction cpus with
  | nil =>
    intro past ft _ hpast hl _ _
    refine Or.inl ⟨hl, fun l h => hpast l ?_⟩
    rw [List.filter_nil, List.append_nil] at h
    exact h
  | cons cpu cpus ih =>
    intro past ft hdef hpast hl hfirst hft
    by_cases hav : s.cpuAvailable cpu = true
    swap
    · -- a CPU that is not available is passed over
      rw [splitLoop, if_neg hav, List.filter_cons_of_neg hav]
      refine ih past ft (fun k hk => hdef k ?_) hpast hl hfirst hft
      rw [List.mem_append] at hk ⊢
      exact hk.imp id (List.mem_cons_of_mem _)
    have hsum := ulong_add_mod (s.spareSum c rt past) (s.spare c rt cpu)
    rw [← spareSum_append] at hsum
    have hmove : past ++ (cpu :: cpus).filter s.cpuAvailable =
        past ++ [cpu] ++ cpus.filter s.cpuAvailable := by
      rw [List.filter_cons_of_pos hav, List.append_assoc, List.singleton_append]
    have hfirst' : (ft.addShare c cpu (s.spare c rt cpu)).firstCpu =
        s.firstSpare c rt (past ++ [cpu]) := by
      rw [firstSpare_append fun k hk => hdef k (List.mem_append_left _ hk), ← hfirst]
      rfl
    rw [splitLoop, if_pos hav, splitRuntime_eq_spare, hmove]
    dsimp only
    rw [hsum]
    by_cases hC : (s.task rt).C c ≤ s.spareSum c rt (past ++ [cpu]) % 2 ^ 64
    · -- this CPU takes what was missing before it
      have hle : s.spareSum c rt past % 2 ^ 64 ≤ (s.task rt).C c := by
        by_cases hnil : past = []
        · rw [hnil]
          exact Nat.zero_le _
        · exact (hpast past (List.prefix_refl past) hnil).le
      have hmissing := lastShare_eq hle (hsum ▸ hC)
      rw [hsum] at hmissing
      rw [if_pos hC, hmissing]
      refine Or.inr ⟨past, cpu, List.prefix_append .., hpast, hC, rfl, hfirst', ?_⟩
      funext k
      dsimp only [FppmTask.addShare]
      rw [Function.update_apply, Function.update_apply, hft]
      by_cases hk : k = cpu
      · rw [if_pos hk, if_pos hk]
      · rw [if_neg hk, if_neg hk, if_neg hk]
    · -- the sum goes on, with this CPU among those past
      rw [if_neg hC]
      refine ih (past ++ [cpu]) _ (fun k hk => hdef k ?_) (fun l h => ?_) hl hfirst' ?_
      · rw [List.append_assoc] at hk
        exact hk
      · rcases List.prefix_concat_iff.1 h with he | h
        · rw [he]
          exact fun _ => not_le.1 hC
        · exact hpast l h
      · funext k
        dsimp only [FppmTask.addShare]
        rw [Function.update_apply, hft]
        by_cases hk : k = cpu
        · rw [if_pos hk, if_pos (List.mem_append_right _ (List.mem_singleton.2 hk)), hk]
        · have hmem : k ∈ past ++ [cpu] ↔ k ∈ past := by
            rw [List.mem_append, List.mem_singleton, or_iff_left hk]
          rw [if_neg hk]
          simp only [hmem]

/-- The result of the loop, when the CPUs reach the execution time and when they do not. -/
theorem splitLoop_cases :
    ((s.splitLoop c rt (List.range c.nrRtCpus) (FppmTask.clear c) 0).lastCpu = c.cpuUndefined ∧
      s.TooLittle c rt) ∨
    ∃ before cpu, s.Reaches c rt before cpu ∧
      (s.splitLoop c rt (List.range c.nrRtCpus) (FppmTask.clear c) 0).lastCpu = cpu ∧
      (s.splitLoop c rt (List.range c.nrRtCpus) (FppmTask.clear c) 0).firstCpu =
        s.firstSpare c rt (before ++ [cpu]) ∧
      (s.splitLoop c rt (List.range c.nrRtCpus) (FppmTask.clear c) 0).runtime = fun k =>
        if k = cpu then (s.task rt).C c - s.spareSum c rt before % 2 ^ 64
        else if k ∈ before then s.spare c rt k else 0 := by
  have hnil : s.spareSum c rt [] % 2 ^ 64 = 0 := Nat.zero_mod _
  have hloop := @splitLoop_reaches c s rt (List.range c.nrRtCpus) []
    (FppmTask.clear c) (fun k hk => (List.mem_range.1 hk).ne)
    (fun l h hne => absurd (List.prefix_nil.1 h) hne) rfl rfl (funext fun k => rfl)
  rw [hnil, List.nil_append] at hloop
  rcases hloop with ⟨hl, hno⟩ | ⟨before, cpu, hav, hmiss, hreach, hl, hf, hrt⟩
  · exact Or.inl ⟨hl, hno⟩
  · exact Or.inr ⟨before, cpu, ⟨hav, hmiss, hreach⟩, hl, hf, hrt⟩

theorem Reaches.nodup (h : s.Reaches c rt before cpu) : (before ++ [cpu]).Nodup :=
  (h.available.sublist.trans List.filter_sublist).nodup List.nodup_range

theorem Reaches.lt (h : s.Reaches c rt before cpu) {k : ℕ} (hk : k ∈ before ++ [cpu]) :
    k < c.nrRtCpus :=
  List.mem_range.1 (List.mem_of_mem_filter (h.available.subset hk))

/-- A function on the CPUs that is zero outside a list of them. -/
theorem sum_range_of_nodup {l : List ℕ} {f : ℕ → ℕ} {n : ℕ} (hl : l.Nodup) (hlt : ∀ k ∈ l, k < n)
    (hf : ∀ k, k ∉ l → f k = 0) : ∑ k ∈ Finset.range n, f k = (l.map f).sum := by
  rw [← List.sum_toFinset f hl]
  symm
  refine Finset.sum_subset (fun k hk => ?_) fun k _ hk => ?_
  · exact Finset.mem_range.2 (hlt k (List.mem_toFinset.1 hk))
  · exact hf k fun h => hk (List.mem_toFinset.2 h)

/-- The shares in all, as natural numbers -/
theorem Reaches.total (h : s.Reaches c rt before cpu) :
    (∑ k ∈ Finset.range c.nrRtCpus, if k = cpu then (s.task rt).C c - s.spareSum c rt before % 2 ^ 64
      else if k ∈ before then s.spare c rt k else 0) =
      s.spareSum c rt before + ((s.task rt).C c - s.spareSum c rt before % 2 ^ 64) := by
  have hnodup := h.nodup
  rw [sum_range_of_nodup hnodup (fun k hk => h.lt hk) fun k hk => ?_]
  · obtain ⟨-, -, hdisj⟩ := List.nodup_append'.1 hnodup
    have hne : ∀ k ∈ before, k ≠ cpu := by
      rintro k hk rfl
      exact hdisj hk (List.mem_singleton.2 rfl)
    rw [List.map_append, List.sum_append, List.map_singleton, List.sum_singleton, if_pos rfl]
    congr 2
    refine List.map_congr_left fun k hk => ?_
    rw [if_neg (hne k hk), if_pos hk]
  · rw [List.mem_append, List.mem_singleton, not_or] at hk
    rw [if_neg hk.2, if_neg hk.1]

/-- The bounds of the tasks on a CPU do not go below zero. -/
def BoundsGenuine (c : Config) (s : Fppm) (rt cpu : ℕ) : Prop :=
  ∀ lp ∈ s.residents cpu, s.fppmResponseTimeAnalysis c lp cpu /
    (c.usecs (s.task lp).deadline / c.usecs (s.task rt).period) ≤ c.usecs (s.task rt).period

theorem spare_lt (hP : 1 < c.usecs (s.task rt).period) (h : BoundsGenuine c s rt cpu) :
    s.spare c rt cpu < 2 ^ 32 := by
  have husecs : ∀ j, c.usecs j < 2 ^ 32 := fun j => Nat.mod_lt _ (by decide)
  unfold spare
  split
  · decide
  rename_i hno
  obtain ⟨hnil, hmem⟩ := leastBound_spec ((s.residents cpu).map (s.lpSplitBound c rt cpu))
  by_cases he : ((s.residents cpu).map (s.lpSplitBound c rt cpu)).rtakeWhile (· ≠ 0) = []
  · rw [hnil he]
    decide
  obtain ⟨hin, -⟩ := hmem he
  obtain ⟨lp, hlp, hb⟩ := List.mem_map.1 ((List.rtakeWhile_suffix _ _).subset hin)
  have hle := h lp hlp
  have hD := husecs (s.task lp).deadline
  have hPi := husecs (s.task rt).period
  rw [← hb, lpSplitBound_eq hP fun hm => hno ⟨lp, hlp, hm⟩]
  unfold lpBound closedBound
  split
  · exact (Nat.div_le_self _ _).trans_lt (by omega)
  · exact (Nat.sub_le _ _).trans_lt hPi

/-- With such bounds the sum of what the CPUs can spare is in range. -/
theorem Reaches.spareSum_lt (hP : 1 < c.usecs (s.task rt).period) (hn : c.nrRtCpus < 2 ^ 32)
    (hb : ∀ k, s.cpuAvailable k = true → BoundsGenuine c s rt k) (h : s.Reaches c rt before cpu) :
    s.spareSum c rt before < 2 ^ 64 := by
  have hlen : before.length ≤ c.nrRtCpus := by
    have hle := (h.available.sublist.trans List.filter_sublist).length_le
    rw [List.length_append, List.length_range] at hle
    omega
  have hsum : s.spareSum c rt before ≤ (before.map (s.spare c rt)).length • 2 ^ 32 := by
    refine List.sum_le_card_nsmul _ _ fun x hx => ?_
    obtain ⟨k, hk, rfl⟩ := List.mem_map.1 hx
    have hav := List.of_mem_filter (h.available.subset (List.mem_append_left _ hk))
    exact (spare_lt hP (hb k hav)).le
  rw [List.length_map, nsmul_eq_mul, Nat.cast_id] at hsum
  have hmul : before.length * 2 ^ 32 ≤ (2 ^ 32 - 1) * 2 ^ 32 := Nat.mul_le_mul_right _ (by omega)
  omega

/-- What the result of `split` is to be. -/
structure Accounts (c : Config) (C : ℕ) (r : FppmTask × ℕ) : Prop where
  total : r.2 ≠ c.cpuUndefined → ∑ k ∈ Finset.range c.nrRtCpus, r.1.runtime k = C
  first : r.2 ≠ c.cpuUndefined → r.2 = r.1.firstCpu
  shares : r.2 ≠ c.cpuUndefined → r.1.Shares c
  clear : r.2 = c.cpuUndefined → r.1 = FppmTask.clear c

/-- **A split accounts for the execution time** of the task, with shares from the first to the last
CPU, or leaves nothing, iff what the CPUs before the last one can spare is in all less than
`2 ^ 64`. -/
theorem split_accounts (c : Config) (s : Fppm) (rt : ℕ) (hC : 0 < (s.task rt).C c) :
    Accounts c ((s.task rt).C c) (s.split c rt) ↔
      ∀ before cpu, s.Reaches c rt before cpu → s.spareSum c rt before < 2 ^ 64 := by
  have hsh : (s.splitLoop c rt (List.range c.nrRtCpus) (FppmTask.clear c) 0).lastCpu ≠
      c.cpuUndefined →
        (s.splitLoop c rt (List.range c.nrRtCpus) (FppmTask.clear c) 0).Shares c :=
    splitLoop_shares (List.range c.nrRtCpus) (FppmTask.clear c) 0 List.pairwise_lt_range
      (fun x hx => List.mem_range.1 hx) hC
      ⟨rfl, nofun, fun _ => ⟨rfl, fun _ => rfl⟩, fun hn => absurd rfl hn⟩
  unfold split
  dsimp only
  -- no last CPU was found, or `cpu` is the one that completes the job
  rcases splitLoop_cases with ⟨hl, hno⟩ | ⟨before, cpu, hreach, hl, -, hrt⟩
  · rw [if_neg (not_not.2 hl)]
    refine ⟨fun _ before cpu h => absurd h (hno.not_reaches before cpu),
      fun _ => ⟨fun h => ?_, fun h => ?_, fun h => ?_, fun _ => rfl⟩⟩
    · exact absurd rfl h
    · exact absurd rfl h
    · exact absurd rfl h
  · have hlast : (s.splitLoop c rt (List.range c.nrRtCpus) (FppmTask.clear c) 0).lastCpu ≠
        c.cpuUndefined := by
      rw [hl]
      exact (hreach.lt (List.mem_append_right _ (List.mem_singleton.2 rfl))).ne
    have hshares := hsh hlast
    have hfirst := ((hshares.between _ hshares.first).2.trans_lt hshares.last_lt).ne
    have hsum := hreach.total
    -- before `cpu` the sum was still too small
    have hmiss : s.spareSum c rt before % 2 ^ 64 < (s.task rt).C c := by
      by_cases hnil : before = []
      · rw [hnil]
        exact hC
      · exact hreach.missing before (List.prefix_refl before) hnil
    rw [if_pos hlast]
    generalize s.splitLoop c rt (List.range c.nrRtCpus) (FppmTask.clear c) 0 = ft at *
    constructor
    · intro h before' cpu' hreach'
      rw [← (hreach.eq hreach').1]
      have htotal := h.total hfirst
      dsimp only at htotal
      rw [hrt, hsum] at htotal
      omega
    · intro h
      have hlt := h before cpu hreach
      refine ⟨fun _ => ?_, fun _ => rfl, fun _ => ?_, fun he => absurd he hfirst⟩
      · dsimp only
        rw [hrt, hsum]
        omega
      · exact ⟨hshares.first, hshares.last, hshares.between, hshares.last_lt⟩

theorem split_accounts_threeResidents :
    Accounts threeCpus (((splitState threeResidents).task 3).C threeCpus)
      ((splitState threeResidents).split threeCpus 3) ↔
    ∀ before cpu, (splitState threeResidents).Reaches threeCpus 3 before cpu →
      (splitState threeResidents).spareSum threeCpus 3 before < 2 ^ 64 :=
  split_accounts threeCpus (splitState threeResidents) 3 (by decide +kernel)

/-- The share of CPU 1 is less than zero, and the shares add up to `2 ^ 64 + 4000` of 4000. -/
theorem split_not_accounts : ¬ ∀ (c : Config) (s : Fppm) (rt : ℕ), 0 < (s.task rt).C c →
    Accounts c ((s.task rt).C c) (s.split c rt) := by
  intro hall
  have htotal := (hall threeCpus (splitState longResident) 3 (by decide +kernel)).total
    (by decide +kernel)
  revert htotal
  decide +kernel

end Resch.Fppm
