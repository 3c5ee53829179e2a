import Resch.Proof.EdfWmRoom
import Resch.Proof.FpPmSplit
import Resch.Proof.WorstFit

/-!
# The CPUs that a semi-partitioned task is given

The loops that look for one CPU test the mask of the task, and those that split it do not.

* `Fppm.Clears`, `EdfWm.Clears`: no CPU outside the mask has anything to give when the turn comes to
  it, in the parameters of the tasks.
* `place_within_iff`: FP-PM stays within the mask iff it places the task whole or the CPUs are such.
* `split_within_iff`: the same for a split of EDF-WM whose sums are in range and whose subtractions do
  not wrap.
* `affinity_kept`: both.
-/

namespace Resch

open Lib

variable {c : Config} {rt cpu k num fuel : ℕ} {mask : ℕ → Bool}

/-- The CPUs that a task is given, whole or in shares, are in its mask. -/
def Within (c : Config) (mask : ℕ → Bool) (cpuId : ℕ) (runtime : ℕ → ℕ) : Prop :=
  (cpuId ≠ c.cpuUndefined → mask cpuId = true) ∧
    ∀ k < c.nrRtCpus, 0 < runtime k → mask k = true

/-! ## FP-PM -/

namespace Fppm

variable {s : Fppm} {before : List ℕ}

/-- The CPU that `partition` returns is in the mask. -/
theorem partitionLoop_mask : ∀ (cpus : List ℕ) (s : Fppm),
    (partitionLoop c rt mask cpus s).1 ≠ c.cpuUndefined →
      mask (partitionLoop c rt mask cpus s).1 = true := by
  intro cpus
  induction cpus with
  | nil => exact fun s h => absurd rfl h
  | cons cpu cpus ih =>
    intro s h
    rw [partitionLoop] at h ⊢
    by_cases hm : mask cpu = true
    swap
    · rw [if_neg hm] at h ⊢
      exact ih s h
    rw [if_pos hm] at h ⊢
    dsimp only at h ⊢
    split
    · rename_i hlt
      rw [if_pos hlt] at h
      exact ih _ h
    · rename_i hlt
      rw [if_neg hlt] at h
      split at h
      · exact hm
      · exact ih _ h

/-- The CPU where the split ends has something to spare, and the task has a share of it, unless it
has no execution time. -/
theorem Reaches.last (h : s.Reaches c rt before cpu) (hC : 0 < (s.task rt).C c) :
    s.spareSum c rt before % 2 ^ 64 < (s.task rt).C c ∧ 0 < s.spare c rt cpu := by
  have hlt : s.spareSum c rt before % 2 ^ 64 < (s.task rt).C c := by
    by_cases hnil : before = []
    · rw [hnil]
      exact hC
    · exact h.missing before (List.prefix_refl before) hnil
  refine ⟨hlt, Nat.pos_of_ne_zero fun h0 => ?_⟩
  have hreached := h.reached
  rw [spareSum_append, h0, Nat.add_zero] at hreached
  exact absurd hreached (not_le.2 hlt)

/-- A task without execution time ends at the first CPU. -/
theorem Reaches.nil_of_zero (h : s.Reaches c rt before cpu) (hC : (s.task rt).C c = 0) :
    before = [] := by
  by_contra hnil
  have := h.missing before (List.prefix_refl before) hnil
  omega

theorem firstSpare_spec {cpus : List ℕ} (h : s.firstSpare c rt cpus ≠ c.cpuUndefined) :
    s.firstSpare c rt cpus ∈ cpus ∧ 0 < s.spare c rt (s.firstSpare c rt cpus) := by
  unfold firstSpare at h ⊢
  cases he : cpus.find? fun k => decide (0 < s.spare c rt k) with
  | none =>
    rw [he] at h
    exact absurd rfl h
  | some k =>
    have hpos : 0 < s.spare c rt k := by simpa using List.find?_some he
    exact ⟨List.mem_of_find?_eq_some he, hpos⟩

/-- **The CPUs of a split** are in the mask iff those with something to spare are. -/
theorem split_within : Within c mask (s.split c rt).2 (s.split c rt).1.runtime ↔
    ∀ before cpu, s.Reaches c rt before cpu →
      ∀ k ∈ before ++ [cpu], 0 < s.spare c rt k → mask k = true := by
  unfold split
  dsimp only
  rcases @splitLoop_cases c s rt with ⟨hl, hno⟩ | ⟨before, cpu, hr, hl, hf, hrt⟩
  · rw [if_neg (not_not.2 hl)]
    exact ⟨fun _ before cpu h => absurd h (hno.not_reaches before cpu),
      fun _ => ⟨fun h => absurd rfl h, fun k _ hk => absurd hk (lt_irrefl 0)⟩⟩
  · have hcpu := hr.lt (List.mem_append_right _ (List.mem_singleton.2 rfl))
    rw [if_pos (by rw [hl]; exact hcpu.ne)]
    dsimp only
    rw [hf, hrt]
    constructor
    · rintro ⟨hfirst, hshares⟩ before' cpu' hr' k hk hpos
      obtain ⟨rfl, rfl⟩ := hr.eq hr'
      have hkc := hr.lt hk
      rcases Nat.eq_zero_or_pos ((s.task rt).C c) with hC | hC
      · -- the only CPU, without a share
        obtain rfl := hr.nil_of_zero hC
        rw [List.nil_append, List.mem_singleton] at hk
        subst hk
        have hone : s.firstSpare c rt ([] ++ [k]) = k := by
          rw [firstSpare_append fun x hx => absurd hx List.not_mem_nil, if_pos ⟨rfl, hpos⟩]
        rw [hone] at hfirst
        exact hfirst hkc.ne
      · refine hshares k hkc ?_
        dsimp only
        -- the last CPU has what is missing, the ones before it what they can spare
        by_cases hk' : k = cpu
        · rw [if_pos hk']
          have := (hr.last hC).1
          omega
        · rw [if_neg hk', if_pos]
          · exact hpos
          · rcases List.mem_append.1 hk with hk | hk
            · exact hk
            · exact absurd (List.mem_singleton.1 hk) hk'
    · intro h
      refine ⟨fun hdef => ?_, fun k hkc hpos => ?_⟩
      · obtain ⟨hmem, hpos⟩ := firstSpare_spec hdef
        exact h before cpu hr _ hmem hpos
      · dsimp only at hpos
        split at hpos
        · rename_i hk
          rw [hk]
          refine h before cpu hr _ (List.mem_append_right _ (List.mem_singleton.2 rfl)) ?_
          exact (hr.last (by omega)).2
        · split at hpos
          · rename_i hk
            exact h before cpu hr _ (List.mem_append_left _ hk) hpos
          · exact absurd hpos (lt_irrefl 0)

/-- The CPUs before it can already bear the task. -/
def BorneBefore (c : Config) (s : Fppm) (rt k : ℕ) : Prop :=
  ∃ l, l <+: s.available c ∧ l ≠ [] ∧ (∀ j ∈ l, j < k) ∧ (s.task rt).C c ≤ s.spareSum c rt l % 2 ^ 64

/-- The available CPUs cannot bear the task, or those outside the mask have nothing to spare or come
after enough others. -/
def Clears (c : Config) (s : Fppm) (rt : ℕ) (mask : ℕ → Bool) : Prop :=
  s.TooLittle c rt ∨
    ∀ k ∈ s.available c, mask k = false → s.spare c rt k = 0 ∨ s.BorneBefore c rt k

theorem available_pairwise : (s.available c).Pairwise (· < ·) := List.pairwise_lt_range.filter _

theorem clears_iff : s.Clears c rt mask ↔ ∀ before cpu, s.Reaches c rt before cpu →
    ∀ k ∈ before ++ [cpu], 0 < s.spare c rt k → mask k = true := by
  constructor
  · rintro (hlittle | hall) before cpu hr k hk hpos
    · exact absurd hr (hlittle.not_reaches before cpu)
    by_contra hmask
    rcases hall k (hr.available.subset hk) (Bool.eq_false_of_not_eq_true hmask) with
      h0 | ⟨l, hl, hne, hlt, hsum⟩
    · omega
    · -- `l` ends before `k`, where the execution time is not reached yet
      rcases List.prefix_or_prefix_of_prefix hl hr.available with hpre | hpre
      · rcases List.prefix_concat_iff.1 hpre with rfl | hpre
        · exact absurd (hlt k hk) (lt_irrefl k)
        · exact absurd hsum (not_le.2 (hr.missing l hpre hne))
      · exact absurd (hlt k (hpre.subset hk)) (lt_irrefl k)
  · intro h
    rcases @splitLoop_cases c s rt with ⟨-, hlittle⟩ | ⟨before, cpu, hr, -⟩
    · exact Or.inl hlittle
    refine Or.inr fun k hk hmask => ?_
    by_cases hmem : k ∈ before ++ [cpu]
    · refine Or.inl (Nat.eq_zero_of_not_pos fun hpos => ?_)
      rw [h before cpu hr k hmem hpos] at hmask
      cases hmask
    · refine Or.inr ⟨before ++ [cpu], hr.available, by simp, fun j hj => ?_, hr.reached⟩
      obtain ⟨after, hafter⟩ := hr.available
      have hsorted := available_pairwise (c := c) (s := s)
      rw [← hafter] at hk hsorted
      exact (List.pairwise_append.1 hsorted).2.2 j hj k ((List.mem_append.1 hk).resolve_left hmem)

/-- The state that `partition` leaves `split` -/
def unplaced (c : Config) (s : Fppm) (rt : ℕ) (mask : ℕ → Bool) : Fppm :=
  ((s.reset c rt).partition c rt mask).2

/-- A CPU of the mask passes, or the others have nothing to give. -/
def Keeps (c : Config) (s : Fppm) (rt : ℕ) (mask : ℕ → Bool) : Prop :=
  ((s.reset c rt).partition c rt mask).1 ≠ c.cpuUndefined ∨ (s.unplaced c rt mask).Clears c rt mask

theorem place_within_iff :
    Within c mask (s.place c rt mask).1 (s.place c rt mask).2.runtime ↔ s.Keeps c rt mask := by
  have hclear : ((s.reset c rt).partition c rt mask).2.fppmTask rt = FppmTask.clear c := by
    have hmarks : Marks (s.reset c rt) ((s.reset c rt).partition c rt mask).2 :=
      partitionLoop_marks c rt mask _ _
    rw [hmarks.fppmTask]
    exact Function.update_self ..
  unfold Keeps unplaced place
  dsimp only
  by_cases hwhole : ((s.reset c rt).partition c rt mask).1 = c.cpuUndefined
  · rw [if_neg (not_not.2 hwhole), or_iff_right (not_not.2 hwhole), clears_iff]
    exact split_within
  · rw [if_pos hwhole]
    dsimp only
    rw [hclear]
    refine ⟨fun _ => Or.inl hwhole, fun _ => ⟨fun _ => ?_, fun k _ hk => ?_⟩⟩
    · exact partitionLoop_mask _ _ hwhole
    · exact absurd hk (lt_irrefl 0)

end Fppm

namespace FppmState

theorem setScheduler_cpuId (s : FppmState) (rt : ℕ) (policy prio : ℤ) :
    ((s.setScheduler rt policy prio).task rt).cpuId = (s.task rt).cpuId := by
  unfold setScheduler
  dsimp only
  split
  · rfl
  · have hset : ((setTask { s with policy := Function.update s.policy rt policy } rt
        { s.task rt with prio := prio }).task rt).cpuId = (s.task rt).cpuId := by
      unfold setTask
      dsimp only
      rw [Function.update_self]
    split
    · rw [(globalListInsert_same _ rt).1]
      exact hset
    · exact hset

/-- What `task_run` stores -/
theorem taskRun_given (s : FppmState) (hperiod : (s.task rt).period ≠ 0) :
    ((s.taskRun c rt mask).task rt).cpuId = (s.place c rt mask).1 ∧
      (s.taskRun c rt mask).fppmTask rt = (s.place c rt mask).2 := by
  have hself : ∀ (s : FppmState) (t : RtTask), (s.setTask rt t).task rt = t :=
    fun s t => Function.update_self ..
  unfold taskRun
  rw [if_neg hperiod]
  generalize s.place c rt mask = r
  obtain ⟨cpuDst, ft⟩ := r
  dsimp only
  generalize hu : (setTask { s with fppmTask := Function.update s.fppmTask rt ft } rt
    { s.task rt with cpuId := cpuDst }) = u
  have hcpu : (u.task rt).cpuId = cpuDst := by rw [← hu, hself]
  have hft : u.fppmTask rt = ft := by
    rw [← hu]
    exact Function.update_self ..
  -- no policy changes the CPU or the shares
  have hsched : ∀ policy prio, ((u.setScheduler rt policy prio).task rt).cpuId = cpuDst ∧
      (u.setScheduler rt policy prio).fppmTask rt = ft := by
    intro policy prio
    rw [setScheduler_cpuId, (setScheduler_spec u rt policy prio).1]
    exact ⟨hcpu, hft⟩
  split
  · generalize hv : (if ft.firstCpu ≠ ft.lastCpu then
        u.setScheduler rt reschSchedFp fppmPrioMigratory
      else if u.policy rt ≠ reschSchedFp then u.setScheduler rt reschSchedFp (u.task rt).prio
      else u) = v
    have hgiven : (v.task rt).cpuId = cpuDst ∧ v.fppmTask rt = ft := by
      rw [← hv]
      split
      · exact hsched _ _
      · split
        · exact hsched _ _
        · exact ⟨hcpu, hft⟩
    rw [hself]
    exact hgiven
  · exact hsched _ _

end FppmState

/-! ## EDF-WM -/

namespace Checked.EdfWm

variable {s s' : EdfWm} {offer : ℕ → ℕ}

/-- The CPU that `cpu_worst_fit` returns is in the mask. -/
theorem cpuWorstFit_mask (h : cpuWorstFit c s rt fuel mask = .ok cpu)
    (hdef : cpu ≠ c.cpuUndefined) : mask cpu = true := by
  obtain ⟨⟨dst, u⟩, hloop, h⟩ := bind_eq_ok.1 h
  cases h
  refine (foldlM_inv (P := fun r : ℕ × ℕ => r.1 = c.cpuUndefined ∨ mask r.1 = true) ?_ (Or.inl rfl)
    hloop).resolve_left hdef
  rintro ⟨dst, u⟩ cpu t hr ht
  dsimp only at ht
  split at ht
  swap
  · cases ht
    exact hr
  rename_i hm
  obtain ⟨b, -, ht⟩ := bind_eq_ok.1 ht
  split at ht
  swap
  · cases ht
    exact hr
  obtain ⟨u', -, ht⟩ := bind_eq_ok.1 ht
  cases ht
  split
  · exact Or.inr hm
  · exact hr

/-- `k` is the last of several CPUs with a share, and nothing is left of the share. -/
def LeftEmpty (c : Config) (s : EdfWm) (rt num : ℕ) (offer : ℕ → ℕ) (k : ℕ) : Prop :=
  (∀ j ∈ chosen c num offer, 0 < share s rt num offer j → j ≤ k) ∧
    (∃ j ∈ chosen c num offer, 0 < share s rt num offer j ∧ j < k) ∧
    ulong (share s rt num offer k - leftOver c s rt num offer) = 0

theorem Taken.within_iff {et : EdfWmTask} (h : Taken c s rt num offer et) :
    Within c mask et.firstCpu et.runtime ↔
      ∀ k ∈ chosen c num offer, 0 < share s rt num offer k →
        LeftEmpty c s rt num offer k ∨ mask k = true := by
  -- the last CPU gives the excess back
  have hrt : ∀ k ∈ chosen c num offer, et.runtime k = if k = et.lastCpu then
      ulong (share s rt num offer k - leftOver c s rt num offer) else share s rt num offer k := by
    intro k hk
    rw [h.runtime k (lt_of_mem_chosen hk), if_pos hk]
  have hspans := h.spans
  constructor
  · rintro ⟨hfirst, hshares⟩ k hk hpos
    rcases hspans with ⟨-, -, hz⟩ | ⟨⟨hf, hfp⟩, ⟨hl, hlp⟩, hb⟩
    · exact absurd (hz k hk) hpos.ne'
    obtain ⟨hle, hle'⟩ := hb k hk hpos
    -- only the last CPU can have lost its share
    by_cases h0 : et.runtime k = 0
    · have hlast : k = et.lastCpu := by
        by_contra hne
        rw [hrt k hk, if_neg hne] at h0
        omega
      rw [hrt k hk, if_pos hlast] at h0
      rcases Nat.eq_or_lt_of_le hle with he | hlt
      · -- the first CPU is the task's even without a share
        refine Or.inr ?_
        dsimp only at he
        rw [← he]
        exact hfirst (lt_of_mem_chosen hf).ne
      · exact Or.inl ⟨fun j hj hj' => hlast ▸ (hb j hj hj').2, ⟨_, hf, hfp, hlt⟩, h0⟩
    · exact Or.inr (hshares k (lt_of_mem_chosen hk) (Nat.pos_of_ne_zero h0))
  · intro hcond
    refine ⟨fun hdef => ?_, fun k hk hpos => ?_⟩
    · rcases hspans with ⟨hf, -, -⟩ | ⟨⟨hf, hfp⟩, -, hb⟩
      · exact absurd hf hdef
      · refine (hcond _ hf hfp).resolve_left ?_
        rintro ⟨-, ⟨j, hj, hjp, hlt⟩, -⟩
        exact absurd (hb j hj hjp).1 (not_le.2 hlt)
    · have hmem : k ∈ chosen c num offer := by
        by_contra hno
        rw [h.runtime k hk, if_neg hno] at hpos
        exact absurd hpos (lt_irrefl 0)
      -- a CPU with a share afterwards had one before
      have hsh : 0 < share s rt num offer k := by
        rcases hspans with ⟨-, hl, -⟩ | ⟨-, ⟨-, hlp⟩, -⟩
        · rw [hrt k hmem, if_neg] at hpos
          · exact hpos
          · rintro rfl
            exact hk.ne hl
        · rw [hrt k hmem] at hpos
          split at hpos
          · rename_i he
            rw [he]
            exact hlp
          · exact hpos
      refine (hcond k hmem hsh).resolve_left ?_
      rintro ⟨hgreat, -, h0⟩
      rw [hrt k hmem] at hpos
      split at hpos
      · omega
      · rename_i hne
        rcases hspans with ⟨-, -, hz⟩ | ⟨-, ⟨hl, hlp⟩, hb⟩
        · exact absurd (hz k hmem) hsh.ne'
        · exact hne (le_antisymm (hb k hmem hsh).2 (hgreat _ hl hlp))

/-- `k` is the last of several CPUs that are to bear the task, and the others bear all of it, less
than a jiffy apart. -/
structure Relieved (c : Config) (s : EdfWm) (rt : ℕ) (E : ℕ → ℕ → ℕ) (n k : ℕ) : Prop where
  last : ∀ j ∈ bearers c s rt E n, 0 < burden c s rt E n j → j ≤ k
  several : ∃ j ∈ bearers c s rt E n, 0 < burden c s rt E n j ∧ j < k
  rest : ∑ j ∈ (bearers c s rt E n).erase k, burden c s rt E n j = (s.task rt).C c / c.usecPerTick

/-- With the number of windows that suffices, a CPU outside the mask is not among those with the most
room, has no room, or is relieved by the others. -/
def Clears (c : Config) (s : EdfWm) (rt : ℕ) (E : ℕ → ℕ → ℕ) (mask : ℕ → Bool) : Prop :=
  ∀ n, ComesTo c s rt E n → Suffices c s rt E n → ∀ k < c.nrRtCpus, mask k = false →
    k ∉ bearers c s rt E n ∨ burden c s rt E n k = 0 ∨ Relieved c s rt E n k

variable {E : ℕ → ℕ → ℕ}

theorem leftEmpty_iff (hin : SplitInRange c s rt E) (hnum : num ≤ c.nrRtCpus)
    (hoffer : ∀ k < c.nrRtCpus, offer k = roomFor c s rt E num k) (hen : Enough c s rt num offer)
    (hk : k ∈ chosen c num offer) : LeftEmpty c s rt num offer k ↔ Relieved c s rt E num k := by
  have hD := hin.deadline_lt
  have hmem := (mem_bearers_iff hoffer).1 hk
  have hshare : ∀ j ∈ chosen c num offer, share s rt num offer j = burden c s rt E num j :=
    fun j hj => share_eq_burden hoffer (lt_of_mem_chosen hj)
  have hsum : shareSum c s rt num offer = ∑ k ∈ bearers c s rt E num, burden c s rt E num k := by
    rw [shareSum_eq hnum (by omega), sum_chosen hoffer]
  have hrest : ulong (share s rt num offer k - leftOver c s rt num offer) = 0 ↔
      ∑ j ∈ (bearers c s rt E num).erase k, burden c s rt E num j =
        (s.task rt).C c / c.usecPerTick := by
    have hadd := Finset.add_sum_erase _ (burden c s rt E num) hmem
    have hle : (s.task rt).C c / c.usecPerTick ≤ shareSum c s rt num offer :=
      Nat.div_le_of_le_mul (hen.trans (Nat.mod_le _ _))
    have hlt : shareSum c s rt num offer ≤ (s.task rt).deadline := by
      rw [shareSum_eq hnum (by omega)]
      exact sum_share_le hnum
    rw [← hsum] at hadd
    unfold leftOver
    rw [jiffies_left (hin.shareSum_lt hnum) hen, hshare k hk]
    generalize (s.task rt).C c / c.usecPerTick = q at hle ⊢
    unfold ulong
    omega
  constructor
  · rintro ⟨hlast, ⟨j, hj, hpos, hjk⟩, h0⟩
    refine ⟨fun j hj hpos => ?_, ⟨j, (mem_bearers_iff hoffer).1 hj, hshare j hj ▸ hpos, hjk⟩,
      hrest.1 h0⟩
    have hj := (mem_bearers_iff hoffer).2 hj
    exact hlast j hj ((hshare j hj).symm ▸ hpos)
  · rintro ⟨hlast, ⟨j, hj, hpos, hjk⟩, h0⟩
    have hj := (mem_bearers_iff hoffer).2 hj
    refine ⟨fun j hj hpos => ?_, ⟨j, hj, (hshare j hj).symm ▸ hpos, hjk⟩, hrest.2 h0⟩
    exact hlast j ((mem_bearers_iff hoffer).1 hj) (hshare j hj ▸ hpos)

theorem clear_within : Within c mask (EdfWmTask.clear c).firstCpu (EdfWmTask.clear c).runtime :=
  ⟨fun h => absurd rfl h, fun _ _ hk => absurd hk (lt_irrefl 0)⟩

/-- **The CPUs of a split** are in the mask iff those outside it have nothing to give. -/
theorem split_within_iff (hs : s.edfWmTask rt = EdfWmTask.clear c) (hin : SplitInRange c s rt E)
    (hnone : ∀ n, ComesTo c s rt E n → NoneWraps c s rt E n)
    (hsplit : split c s rt fuel = .ok (s', num)) :
    Within c mask (s'.edfWmTask rt).firstCpu (s'.edfWmTask rt).runtime ↔
      Clears c s rt E mask := by
  rcases split_spec hs hsplit with ⟨-, rfl, hfails⟩ | ⟨-, offer, hfirst, htaken⟩
  · -- no number of windows suffices
    rw [hs]
    refine ⟨fun _ n hn hsuf => ?_, fun _ => clear_within⟩
    obtain ⟨offer, hoffer, hno⟩ := hfails n hn.1 hn.2.1
    exact absurd ((hin.enough_iff hn.2.1 fun k hk =>
      hin.offer_eq hs hn (hnone n hn) hoffer hk).2 hsuf) hno
  · obtain ⟨hnum, hsuf, hoffer⟩ := hin.first hs hfirst fun n _ => hnone n
    rw [htaken.within_iff]
    constructor
    · intro h n hn hsuf' k hk hmask
      obtain rfl : n = num := le_antisymm (hn.le hnum.1 hsuf) (hnum.le hn.1 hsuf')
      by_cases hmem : k ∈ bearers c s rt E n
      swap
      · exact Or.inl hmem
      refine Or.inr ?_
      have hch := (mem_bearers_iff hoffer).2 hmem
      rcases Nat.eq_zero_or_pos (burden c s rt E n k) with h0 | hpos
      · exact Or.inl h0
      · rw [← share_eq_burden hoffer hk] at hpos
        rcases h k hch hpos with hempty | hyes
        · exact Or.inr ((leftEmpty_iff hin hfirst.le hoffer hfirst.enough hch).1 hempty)
        · rw [hmask] at hyes
          cases hyes
    · intro h k hch hpos
      have hk := lt_of_mem_chosen hch
      cases hmask : mask k with
      | true => exact Or.inr rfl
      | false =>
        refine Or.inl ((leftEmpty_iff hin hfirst.le hoffer hfirst.enough hch).2 ?_)
        rw [share_eq_burden hoffer hk] at hpos
        rcases h num hnum hsuf k hk hmask with hno | h0 | hrel
        · exact absurd ((mem_bearers_iff hoffer).1 hch) hno
        · omega
        · exact hrel

/-- What `task_run` of EDF-WM stores -/
theorem assign_given (s : EdfWm) (rt cpuDst : ℕ) :
    ((assign c s rt cpuDst).task rt).cpuId = cpuDst ∧
      (assign c s rt cpuDst).edfWmTask rt = s.edfWmTask rt := by
  refine ⟨?_, rfl⟩
  unfold assign
  dsimp only
  rw [Function.update_self]
  split
  · rfl
  · rfl

/-- A CPU of the mask passes the test and is used by less than 100 percent. -/
def Fitted (c : Config) (s : EdfWm) (rt fuel : ℕ) (mask : ℕ → Bool) : Prop :=
  SomeIsBelow c mask (dbfTest c s rt · fuel) (utilCpu c s)

/-- Such a CPU is there, or the others have nothing to give. -/
def Keeps (c : Config) (s : EdfWm) (rt fuel : ℕ) (E : ℕ → ℕ → ℕ) (mask : ℕ → Bool) : Prop :=
  Fitted c s rt fuel mask ∨ Clears c s rt E mask

/-- No sum of a split goes out of range, and no subtraction wraps. -/
structure Plain (c : Config) (s : EdfWm) (rt : ℕ) (E : ℕ → ℕ → ℕ) : Prop where
  inRange : SplitInRange c s rt E
  noneWraps : ∀ n, ComesTo c s rt E n → NoneWraps c s rt E n

theorem place_within_iff (hs : s.edfWmTask rt = EdfWmTask.clear c)
    (hplain : ¬ Fitted c s rt fuel mask → Plain c s rt E)
    (hplace : place c s rt fuel mask = .ok (s', cpu)) :
    Within c mask cpu (s'.edfWmTask rt).runtime ↔ Keeps c s rt fuel E mask := by
  have heq : cpuWorstFit c s rt fuel mask =
      worstFit c mask (dbfTest c s rt · fuel) (utilCpu c s) := worstFit_eq ..
  unfold place at hplace
  obtain ⟨dst, hfit, hplace⟩ := bind_eq_ok.1 hplace
  by_cases hundef : dst = c.cpuUndefined
  · rw [if_neg (not_not.2 hundef)] at hplace
    obtain ⟨⟨s₁, num⟩, hsplit, hplace⟩ := bind_eq_ok.1 hplace
    cases hplace
    rw [heq, hundef, worstFit_undefined_iff] at hfit
    obtain ⟨hin, hnone⟩ := hplain hfit.2
    rw [split_within_iff hs hin hnone hsplit]
    exact (or_iff_right hfit.2).symm
  · rw [if_pos hundef] at hplace
    cases hplace
    rw [hs]
    refine ⟨fun _ => Or.inl ?_, fun _ => ⟨fun _ => cpuWorstFit_mask hfit hundef, clear_within.2⟩⟩
    by_contra hno
    rw [heq] at hfit
    have hnone' := (worstFit_undefined_iff _ _).2 ⟨allTested_of_worstFit hfit, hno⟩
    exact hundef (Except.ok.inj (hfit.symm.trans hnone'))

end Checked.EdfWm

/-- Tasks 1, 2 and 3 use 6 milliseconds in every 10 on their CPUs, and task 0 needs as much. -/
def threeBusy : TaskSet where
  list := [1, 2, 3, 0]
  task rt := ⟨10, 10, 6000, 6000, 3, if rt = 0 then threeCpus.cpuUndefined else rt - 1, false⟩
  switchCost := 0
  releaseCost := 0
  migrationCost := 0

def fppmBusy : FppmState where
  toTaskSet := threeBusy
  fppmTask _ := FppmTask.clear threeCpus
  cpuAvailable _ := true
  policy _ := reschSchedFp

def edfWmBusy : EdfWm where
  toTaskSet := threeBusy
  edfWmTask _ := EdfWmTask.clear threeCpus

namespace Checked.EdfWm

/-- Before `split` -/
def edfWmCleared : EdfWm := setEdfWmTask edfWmBusy 0 (EdfWmTask.clear threeCpus)

theorem suffices_edfWmCleared : Suffices threeCpus edfWmCleared 0 (fun _ _ => 10) 2 := by
  unfold Suffices
  decide +kernel

/-- The deadline of the resident is where each CPU is tightest. -/
theorem inRange_edfWmCleared : SplitInRange threeCpus edfWmCleared 0 fun _ _ => 10 := by
  have hloops : ∀ k < 3, loops (withWindow edfWmCleared 0 2) 0 k = [(10, 10), (5, 10)] := by
    decide +kernel
  have hunused : ∀ k < 3, unused threeCpus (withWindow edfWmCleared 0 2) 0 k = 4 := by
    decide +kernel
  have hleft : ∀ k < 3, left threeCpus (withWindow edfWmCleared 0 2) 0 k 10 = 4 := by
    decide +kernel
  refine ⟨by decide, fun n hn k hk => ?_⟩
  obtain rfl : n = 2 := le_antisymm (hn.le le_rfl suffices_edfWmCleared) hn.1
  refine ⟨⟨(10, 10), [(5, 10)], 0, hloops k hk, rfl, nofun, ?_⟩, fun x hpos hx => ?_, ?_, ?_⟩
  · rw [hunused k hk, hleft k hk]
  · rw [hunused k hk] at hx
    exact lenOf_eq hpos (lt_of_lt_of_le (by omega) (by decide : 1000 ≤ 10000))
  · revert k
    decide +kernel
  · revert k
    decide +kernel

theorem plain_edfWmCleared : Plain threeCpus edfWmCleared 0 fun _ _ => 10 := by
  refine ⟨inRange_edfWmCleared, fun n hn => ?_⟩
  obtain rfl : n = 2 := le_antisymm (hn.le le_rfl suffices_edfWmCleared) hn.1
  have hlooked : ∀ k < 3, lookedAt threeCpus (withWindow edfWmCleared 0 2) 0 k 10 = [10, 5] := by
    decide +kernel
  have hdue : ∀ k < 3, ∀ L ∈ [10, 5], ((withWindow edfWmCleared 0 2).edfWmTask 0).deadline ≤ L ∧
      dueAt threeCpus (withWindow edfWmCleared 0 2) 0 k L ≤ L := by
    decide +kernel
  intro k hk
  refine ⟨?_, ?_, fun _ => ⟨by decide, ?_⟩⟩
  · revert k
    decide +kernel
  · rw [hlooked k hk]
    exact ⟨hdue k hk 10 (by decide), fun _ => ⟨hdue k hk 5 (by decide), fun _ => trivial⟩⟩
  · revert k
    decide +kernel

/-- Of the three CPUs with 4 jiffies each, the first two bear the task. -/
theorem clears_edfWmCleared : Clears threeCpus edfWmCleared 0 (fun _ _ => 10) (· < 2) := by
  intro n hn _ k hk hmask
  obtain rfl : n = 2 := le_antisymm (hn.le le_rfl suffices_edfWmCleared) hn.1
  have hbearers : bearers threeCpus edfWmCleared 0 (fun _ _ => 10) 2 = {0, 1} := by decide +kernel
  refine Or.inl ?_
  rw [hbearers]
  revert k
  decide

end Checked.EdfWm

/-- CPUs 0 and 1 can spare 4 milliseconds each. -/
theorem clears_fppmBusy :
    (fppmBusy.unplaced threeCpus 0 (· < 2)).Clears threeCpus 0 (· < 2) := by
  have havailable : (fppmBusy.unplaced threeCpus 0 (· < 2)).available threeCpus = [0, 1, 2] := by
    decide +kernel
  refine Or.inr fun k hk hmask => Or.inr ⟨[0, 1], ?_, by decide, ?_, by decide +kernel⟩
  · rw [havailable]
    exact List.prefix_append [0, 1] [2]
  · rw [havailable] at hk
    revert k
    decide

end Resch
