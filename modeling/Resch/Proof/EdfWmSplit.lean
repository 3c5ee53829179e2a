import Mathlib.Algebra.BigOperators.Group.List.Basic
import Resch.Proof.EdfWm

/-!
# What `split` of EDF-WM gives a task

* `offers`: the shares that the CPUs offer for windows of a length.
* `takeCpus_spec`: the CPUs chosen get their offers, a window at most, and the first and the last
  CPU are those among them with a share.
* `split_spec`: the first number of windows for which the shares are enough is taken, and what is
  left over is taken from the last CPU.
-/

namespace Resch.Checked.EdfWm

open Lib

variable {c : Config} {s s' : EdfWm} {rt cpu k num sum fuel : ℕ} {et : EdfWmTask}
  {runtime : ℕ → ℕ} {l past : List ℕ}

/-! ## The CPUs chosen -/

/-- The first and the last CPU are the least and the greatest one of `cpus` with a share. -/
def Spans (c : Config) (et : EdfWmTask) (cpus : List ℕ) : Prop :=
  (et.firstCpu = c.cpuUndefined ∧ et.lastCpu = c.cpuUndefined ∧ ∀ k ∈ cpus, et.runtime k = 0) ∨
    (et.firstCpu ∈ cpus ∧ 0 < et.runtime et.firstCpu) ∧ (et.lastCpu ∈ cpus ∧
      0 < et.runtime et.lastCpu) ∧
      ∀ k ∈ cpus, 0 < et.runtime k → et.firstCpu ≤ k ∧ k ≤ et.lastCpu

/-- A share that is a window at most -/
def clipped (et : EdfWmTask) (k : ℕ) : ℕ := min (et.runtime k) et.deadline

theorem takeCpu_eq (et : EdfWmTask) (cpu : ℕ) :
    takeCpu c cpu et = { et with
      runtime := Function.update et.runtime cpu (clipped et cpu)
      firstCpu :=
        if 0 < clipped et cpu ∧ (et.firstCpu = c.cpuUndefined ∨ cpu < et.firstCpu) then cpu
        else et.firstCpu
      lastCpu :=
        if 0 < clipped et cpu ∧ (et.lastCpu = c.cpuUndefined ∨ et.lastCpu < cpu) then cpu
        else et.lastCpu } := by
  -- the share has been clipped, or is a window at most
  have hclip : (if et.deadline < et.runtime cpu then
      { et with runtime := Function.update et.runtime cpu et.deadline } else et) =
      { et with runtime := Function.update et.runtime cpu (clipped et cpu) } := by
    unfold clipped
    by_cases hlt : et.deadline < et.runtime cpu
    · rw [if_pos hlt, min_eq_right hlt.le]
    · rw [if_neg hlt, min_eq_left (not_lt.1 hlt), Function.update_eq_self]
  unfold takeCpu
  rw [hclip]
  simp only [Function.update_self]
  by_cases hpos : 0 < clipped et cpu
  · simp only [hpos, if_true, true_and]
  · simp only [hpos, if_false, false_and]

theorem takeCpu_runtime (et : EdfWmTask) (cpu : ℕ) :
    (takeCpu c cpu et).runtime = Function.update et.runtime cpu (clipped et cpu) := by
  rw [takeCpu_eq]

/-- The first and the last CPU, when `split` comes to the CPU -/
theorem takeCpu_cpus (et : EdfWmTask) (cpu : ℕ) :
    if 0 < clipped et cpu then
      ((takeCpu c cpu et).firstCpu =
        if et.firstCpu = c.cpuUndefined ∨ cpu < et.firstCpu then cpu else et.firstCpu) ∧
      (takeCpu c cpu et).lastCpu =
        if et.lastCpu = c.cpuUndefined ∨ et.lastCpu < cpu then cpu else et.lastCpu
    else (takeCpu c cpu et).firstCpu = et.firstCpu ∧ (takeCpu c cpu et).lastCpu = et.lastCpu := by
  rw [takeCpu_eq]
  by_cases hpos : 0 < clipped et cpu
  · simp only [hpos, if_true, true_and, and_self]
  · simp only [hpos, if_false, false_and, and_self]

theorem Spans.take (h : Spans c et past) (hcpu : cpu ∉ past)
    (hdef : ∀ k ∈ past ++ [cpu], k ≠ c.cpuUndefined) :
    Spans c (takeCpu c cpu et) (past ++ [cpu]) := by
  have hcpus := takeCpu_cpus (c := c) et cpu
  have hself : (takeCpu c cpu et).runtime cpu = clipped et cpu := by
    rw [takeCpu_runtime, Function.update_self]
  have hother : ∀ k ∈ past, (takeCpu c cpu et).runtime k = et.runtime k := by
    intro k hk
    rw [takeCpu_runtime, Function.update_of_ne]
    rintro rfl
    exact hcpu hk
  have hmem : cpu ∈ past ++ [cpu] := List.mem_append_right _ (List.mem_singleton.2 rfl)
  have hall : ∀ P : ℕ → Prop, (∀ k ∈ past, P k) → P cpu → ∀ k ∈ past ++ [cpu], P k := by
    intro P hpast hP k hk
    rcases List.mem_append.1 hk with hk | hk
    · exact hpast k hk
    · rw [List.mem_singleton.1 hk]
      exact hP
  by_cases hpos : 0 < clipped et cpu
  · rw [if_pos hpos] at hcpus
    obtain ⟨hf, hl⟩ := hcpus
    rcases h with ⟨hf0, hl0, hzero⟩ | ⟨⟨hfm, hfp⟩, ⟨hlm, hlp⟩, hbetween⟩
    · -- the first CPU with a share
      rw [if_pos (Or.inl hf0)] at hf
      rw [if_pos (Or.inl hl0)] at hl
      refine Or.inr ⟨?_, ?_, ?_⟩
      · rw [hf, hself]
        exact ⟨hmem, hpos⟩
      · rw [hl, hself]
        exact ⟨hmem, hpos⟩
      · rw [hf, hl]
        refine hall _ (fun k hk hk0 => ?_) fun _ => ⟨le_rfl, le_rfl⟩
        rw [hother k hk, hzero k hk] at hk0
        exact absurd hk0 (lt_irrefl 0)
    · -- the span grows to `cpu`, and keeps its ends where they are further out
      have hfd := hdef _ (List.mem_append_left _ hfm)
      have hld := hdef _ (List.mem_append_left _ hlm)
      have hflast := hbetween _ hfm hfp
      have hfirst : (takeCpu c cpu et).firstCpu = min cpu et.firstCpu := by
        rw [hf]
        by_cases hlt : cpu < et.firstCpu
        · rw [if_pos (Or.inr hlt), min_eq_left hlt.le]
        · rw [if_neg (not_or.2 ⟨hfd, hlt⟩), min_eq_right (not_lt.1 hlt)]
      have hlast : (takeCpu c cpu et).lastCpu = max cpu et.lastCpu := by
        rw [hl]
        by_cases hlt : et.lastCpu < cpu
        · rw [if_pos (Or.inr hlt), max_eq_left hlt.le]
        · rw [if_neg (not_or.2 ⟨hld, hlt⟩), max_eq_right (not_lt.1 hlt)]
      have hhas : ∀ k, k = cpu ∨ k = et.firstCpu ∨ k = et.lastCpu →
          k ∈ past ++ [cpu] ∧ 0 < (takeCpu c cpu et).runtime k := by
        rintro k (rfl | rfl | rfl)
        · exact ⟨hmem, hself ▸ hpos⟩
        · exact ⟨List.mem_append_left _ hfm, hother _ hfm ▸ hfp⟩
        · exact ⟨List.mem_append_left _ hlm, hother _ hlm ▸ hlp⟩
      refine Or.inr ⟨hhas _ (by omega), hhas _ (by omega), ?_⟩
      rw [hfirst, hlast]
      refine hall _ (fun k hk hk0 => ?_) fun _ => ⟨min_le_left _ _, le_max_left _ _⟩
      rw [hother k hk] at hk0
      obtain ⟨hle, hle'⟩ := hbetween k hk hk0
      exact ⟨(min_le_right _ _).trans hle, hle'.trans (le_max_right _ _)⟩
  · -- without a share, the ends stay
    rw [if_neg hpos] at hcpus
    obtain ⟨hf, hl⟩ := hcpus
    have hzero' : (takeCpu c cpu et).runtime cpu = 0 := by omega
    rcases h with ⟨hf0, hl0, hzero⟩ | ⟨⟨hfm, hfp⟩, ⟨hlm, hlp⟩, hbetween⟩
    · refine Or.inl ⟨hf.trans hf0, hl.trans hl0, hall _ (fun k hk => ?_) hzero'⟩
      rw [hother k hk, hzero k hk]
    · refine Or.inr ⟨?_, ?_, ?_⟩
      · rw [hf, hother _ hfm]
        exact ⟨List.mem_append_left _ hfm, hfp⟩
      · rw [hl, hother _ hlm]
        exact ⟨List.mem_append_left _ hlm, hlp⟩
      · rw [hf, hl]
        refine hall _ (fun k hk hk0 => ?_) fun hk0 => ?_
        · rw [hother k hk] at hk0
          exact hbetween k hk hk0
        · rw [hzero'] at hk0
          exact absurd hk0 (lt_irrefl 0)

/-- **The CPUs with the largest offers.** -/
theorem takeCpus_spec : ∀ (l past : List ℕ) (et : EdfWmTask) (sum : ℕ), (past ++ l).Nodup →
    (∀ k ∈ past ++ l, k ≠ c.cpuUndefined) → sum < 2 ^ 64 → Spans c et past →
      Spans c (takeCpus c l et sum).1 (past ++ l) ∧
      ((takeCpus c l et sum).1.runtime = fun k => if k ∈ l then clipped et k else et.runtime k) ∧
      (takeCpus c l et sum).2 = (sum + (l.map (clipped et)).sum) % 2 ^ 64 := by
  intro l
  induction l with
  | nil =>
    intro past et sum _ _ hsum h
    rw [takeCpus, List.append_nil, List.map_nil, List.sum_nil, Nat.add_zero, Nat.mod_eq_of_lt hsum]
    refine ⟨h, funext fun k => ?_, rfl⟩
    rw [if_neg List.not_mem_nil]
  | cons cpu l ih =>
    intro past et sum hnodup hdef hsum h
    have hmove : past ++ cpu :: l = past ++ [cpu] ++ l := by
      rw [List.append_assoc, List.singleton_append]
    rw [hmove] at hnodup hdef ⊢
    have hnd := List.nodup_append'.1 hnodup
    have hcpu : cpu ∉ past := fun hp => (List.nodup_append'.1 hnd.1).2.2 hp (List.mem_singleton.2 rfl)
    -- the CPU taken now is not among those to come, whose offers it leaves alone
    have hcl : cpu ∉ l := fun hl => hnd.2.2 (List.mem_append_right _ (List.mem_singleton.2 rfl)) hl
    have hspans := h.take hcpu fun k hk => hdef k (List.mem_append_left _ hk)
    have hself : (takeCpu c cpu et).runtime cpu = clipped et cpu := by
      rw [takeCpu_runtime, Function.update_self]
    have hclip : ∀ k, k ≠ cpu → clipped (takeCpu c cpu et) k = clipped et k := by
      intro k hk
      unfold clipped
      rw [takeCpu_runtime, takeCpu_deadline, Function.update_of_ne hk]
    have hne : ∀ k ∈ l, k ≠ cpu := by
      rintro k hk rfl
      exact hcl hk
    rw [takeCpus]
    obtain ⟨hspans', hrt, hsum'⟩ := ih (past ++ [cpu]) (takeCpu c cpu et)
      (ulong (sum + (takeCpu c cpu et).runtime cpu)) hnodup hdef
      (by unfold ulong; omega) hspans
    refine ⟨hspans', ?_, ?_⟩
    · rw [hrt]
      funext k
      by_cases hk : k ∈ l
      · rw [if_pos hk, if_pos (List.mem_cons_of_mem _ hk), hclip k (hne k hk)]
      · rw [if_neg hk, takeCpu_runtime]
        by_cases hkc : k = cpu
        · rw [hkc, Function.update_self, if_pos List.mem_cons_self]
        · rw [Function.update_of_ne hkc, if_neg fun h => (List.mem_cons.1 h).elim hkc hk]
    · -- the sum wraps around at each step or once at the end alike
      rw [hsum', hself, List.map_congr_left fun k hk => hclip k (hne k hk), List.map_cons,
        List.sum_cons]
      unfold ulong
      omega

/-! ## A try -/

/-- The windows are a `num`-th of the deadline. -/
def withWindow (s : EdfWm) (rt num : ℕ) : EdfWm :=
  setEdfWmTask s rt { s.edfWmTask rt with deadline := (s.task rt).deadline / num }

/-- What the CPUs offer -/
def offers (c : Config) (s : EdfWm) (rt fuel num : ℕ) : Except Fault (ℕ → ℕ) := do
  let s ← (List.range c.nrRtCpus).foldlM (fun s cpu => setSplitRuntime c s rt cpu fuel)
    (withWindow s rt num)
  return (s.edfWmTask rt).runtime

/-- The CPUs with the `num` largest offers -/
def chosen (c : Config) (num : ℕ) (offer : ℕ → ℕ) : List ℕ := (sortRuntime c offer).take num

/-- An offer, a window at most -/
def share (s : EdfWm) (rt num : ℕ) (offer : ℕ → ℕ) (k : ℕ) : ℕ :=
  min (offer k) ((s.task rt).deadline / num)

/-- The shares in all, in jiffies -/
def shareSum (c : Config) (s : EdfWm) (rt num : ℕ) (offer : ℕ → ℕ) : ℕ :=
  ((chosen c num offer).map (share s rt num offer)).sum % 2 ^ 64

/-- The shares are enough for the task. -/
def Enough (c : Config) (s : EdfWm) (rt num : ℕ) (offer : ℕ → ℕ) : Prop :=
  (s.task rt).C c ≤ c.usecs (shareSum c s rt num offer)

instance (offer : ℕ → ℕ) : Decidable (Enough c s rt num offer) := inferInstanceAs (Decidable (_ ≤ _))

/-- What is left over, in jiffies -/
def leftOver (c : Config) (s : EdfWm) (rt num : ℕ) (offer : ℕ → ℕ) : ℕ :=
  c.jiffies (c.usecs (shareSum c s rt num offer) - (s.task rt).C c)

/-- The task gets the shares, with what is left over taken from the last one. -/
structure Taken (c : Config) (s : EdfWm) (rt num : ℕ) (offer : ℕ → ℕ) (et : EdfWmTask) : Prop where
  spans : Spans c { et with runtime := share s rt num offer } (chosen c num offer)
  runtime : ∀ k < c.nrRtCpus, et.runtime k =
    if k ∈ chosen c num offer then
      if k = et.lastCpu then ulong (share s rt num offer k - leftOver c s rt num offer)
      else share s rt num offer k
    else 0
  deadline : et.deadline = (s.task rt).deadline / num

variable {offer : ℕ → ℕ}

theorem chosen_nodup (c : Config) (num : ℕ) (offer : ℕ → ℕ) : (chosen c num offer).Nodup :=
  (List.take_sublist ..).nodup ((sortRuntime_perm c offer).nodup_iff.2 List.nodup_range)

theorem lt_of_mem_chosen (h : k ∈ chosen c num offer) : k < c.nrRtCpus :=
  List.mem_range.1 ((sortRuntime_perm c offer).mem_iff.1 (List.mem_of_mem_take h))

theorem length_chosen (h : num ≤ c.nrRtCpus) : (chosen c num offer).length = num := by
  have hlen := (sortRuntime_perm c offer).length_eq
  unfold chosen
  rw [List.length_take, hlen, List.length_range, min_eq_left h]

/-- The CPUs that are not chosen -/
theorem mem_drop_iff (hk : k < c.nrRtCpus) :
    k ∈ (sortRuntime c offer).drop num ↔ k ∉ chosen c num offer := by
  have hmem : k ∈ sortRuntime c offer := (sortRuntime_perm c offer).mem_iff.2 (List.mem_range.2 hk)
  have hnodup := (sortRuntime_perm c offer).nodup_iff.2 List.nodup_range
  unfold chosen
  rw [← List.take_append_drop num (sortRuntime c offer)] at hmem hnodup
  have hdisj := (List.nodup_append'.1 hnodup).2.2
  exact ⟨fun hd ht => hdisj ht hd, fun ht => (List.mem_append.1 hmem).resolve_left ht⟩

theorem offers_ok (h : offers c s rt fuel num = .ok offer) :
    ∃ s₁, (List.range c.nrRtCpus).foldlM (fun s cpu => setSplitRuntime c s rt cpu fuel)
      (withWindow s rt num) = .ok s₁ ∧ (s₁.edfWmTask rt).runtime = offer ∧
        SameBut rt (withWindow s rt num) s₁ := by
  obtain ⟨s₁, hs₁, h⟩ := bind_eq_ok.1 h
  exact ⟨s₁, hs₁, Except.ok.inj h, foldlM_same _ _ _ hs₁⟩

theorem trySplit_offers {r : EdfWm × Bool} (h : trySplit c s rt fuel num = .ok r) :
    num ≤ c.nrRtCpus ∧ ∃ offer, offers c s rt fuel num = .ok offer := by
  unfold trySplit at h
  dsimp only at h
  obtain ⟨s₁, hs₁, h⟩ := bind_eq_ok.1 h
  have hlen := (sortRuntime_perm c (s₁.edfWmTask rt).runtime).length_eq
  rw [List.length_range] at hlen
  split at h
  · cases h
  · refine ⟨by omega, (s₁.edfWmTask rt).runtime, bind_eq_ok.2 ⟨s₁, hs₁, rfl⟩⟩

/-- The state after a try is the one before it, but for the shares of the task. -/
structure Tried (rt : ℕ) (s s' : EdfWm) : Prop where
  toTaskSet : s'.toTaskSet = s.toTaskSet
  other : ∀ q, q ≠ rt → s'.edfWmTask q = s.edfWmTask q

/-- After a failed try `split` goes on from the state it began with. -/
theorem Tried.clear_eq (h : Tried rt s s') (hs : s.edfWmTask rt = EdfWmTask.clear c) :
    setEdfWmTask s' rt (EdfWmTask.clear c) = s := by
  obtain ⟨ts, et⟩ := s
  obtain ⟨ts', et'⟩ := s'
  obtain ⟨rfl, hother⟩ := h
  unfold setEdfWmTask
  congr 1
  funext q
  dsimp only at hs hother ⊢
  by_cases hq : q = rt
  · rw [hq, Function.update_self, hs]
  · rw [Function.update_of_ne hq, hother q hq]

/-- **A try** succeeds iff the shares are enough. -/
theorem trySplit_spec (hs : s.edfWmTask rt = EdfWmTask.clear c) (hnum : num ≤ c.nrRtCpus)
    (h : offers c s rt fuel num = .ok offer) :
    ∃ s', trySplit c s rt fuel num = .ok (s', decide (Enough c s rt num offer)) ∧ Tried rt s s' ∧
      (Enough c s rt num offer → Taken c s rt num offer (s'.edfWmTask rt)) := by
  obtain ⟨s₁, hs₁, rfl, hsame⟩ := offers_ok h
  -- before the loop: a task that has been cleared, with its window and the offers
  have hdl : (s₁.edfWmTask rt).deadline = (s.task rt).deadline / num := by
    rw [hsame.deadline, withWindow, setEdfWmTask_self]
  have hfirst : (s₁.edfWmTask rt).firstCpu = c.cpuUndefined := by
    rw [hsame.firstCpu, withWindow, setEdfWmTask_self, hs]
    rfl
  have hlast : (s₁.edfWmTask rt).lastCpu = c.cpuUndefined := by
    rw [hsame.lastCpu, withWindow, setEdfWmTask_self, hs]
    rfl
  have htask : s₁.toTaskSet = s.toTaskSet := hsame.toTaskSet
  have hother : ∀ q, q ≠ rt → s₁.edfWmTask q = s.edfWmTask q := fun q hq =>
    (hsame.other q hq).trans (Function.update_of_ne hq ..)
  generalize hoffer : (s₁.edfWmTask rt).runtime = offer
  have hnodup := chosen_nodup c num offer
  -- the loop over the chosen CPUs, from no CPU past and a sum of 0
  obtain ⟨hspans, hrt, hsum⟩ := takeCpus_spec (c := c) (chosen c num offer) [] (s₁.edfWmTask rt) 0
    hnodup (fun k hk => (lt_of_mem_chosen hk).ne) (by decide)
    (Or.inl ⟨hfirst, hlast, fun k hk => absurd hk List.not_mem_nil⟩)
  have htdl := takeCpus_deadline (c := c) (chosen c num offer) (s₁.edfWmTask rt) 0
  have hshare : clipped (s₁.edfWmTask rt) = share s rt num offer := by
    funext k
    unfold clipped share
    rw [hoffer, hdl]
  rw [hshare] at hrt hsum
  rw [Nat.zero_add] at hsum
  rw [List.nil_append] at hspans
  have hlen := (sortRuntime_perm c offer).length_eq
  rw [List.length_range] at hlen
  have hCs : (s₁.task rt).C c = (s.task rt).C c := by rw [htask]
  generalize hr : takeCpus c (chosen c num offer) (s₁.edfWmTask rt) 0 = r at hspans hrt hsum htdl
  obtain ⟨et, sum⟩ := r
  have hsum : sum = shareSum c s rt num offer := hsum
  subst hsum
  -- what is left of the function, after the loop
  have htry : trySplit c s rt fuel num =
      if (s.task rt).C c ≤ c.usecs (shareSum c s rt num offer) then
        .ok (setEdfWmTask s₁ rt (finishSplit c rt et
          (c.usecs (shareSum c s rt num offer) - (s.task rt).C c)
          ((sortRuntime c offer).drop num)), true)
      else .ok (setEdfWmTask s₁ rt et, false) := by
    unfold trySplit
    rw [show setEdfWmTask s rt { s.edfWmTask rt with deadline := (s.task rt).deadline / num } =
      withWindow s rt num from rfl]
    dsimp only
    rw [hs₁]
    dsimp only [bind, Except.bind]
    rw [hoffer, if_neg (by omega), show (sortRuntime c offer).take num = chosen c num offer from rfl,
      hr, hCs]
    rfl
  rw [htry]
  dsimp only at hspans hrt htdl
  have htried : ∀ et', Tried rt s (setEdfWmTask s₁ rt et') := fun et' =>
    ⟨htask, fun q hq => (Function.update_of_ne hq ..).trans (hother q hq)⟩
  by_cases hen : Enough c s rt num offer
  · have hle : (s.task rt).C c ≤ c.usecs (shareSum c s rt num offer) := hen
    rw [if_pos hle, decide_eq_true hen]
    refine ⟨_, rfl, htried _, fun _ => ?_⟩
    rw [setEdfWmTask_self]
    refine ⟨?_, fun k hk => ?_, htdl.trans hdl⟩
    · -- the shares of the CPUs chosen are those before the last one is cut
      unfold Spans at hspans ⊢
      rw [hrt] at hspans
      have hin : ∀ k ∈ chosen c num offer, (if k ∈ chosen c num offer then share s rt num offer k
          else (s₁.edfWmTask rt).runtime k) = share s rt num offer k := fun k hk => if_pos hk
      rcases hspans with ⟨hf, hl, hz⟩ | ⟨⟨hf, hfp⟩, ⟨hl, hlp⟩, hb⟩
      · exact Or.inl ⟨hf, hl, fun k hk => (hin k hk).symm.trans (hz k hk)⟩
      · refine Or.inr ⟨⟨hf, ?_⟩, ⟨hl, ?_⟩, fun k hk hpos => hb k hk ?_⟩
        · exact hfp.trans_eq (hin _ hf)
        · exact hlp.trans_eq (hin _ hl)
        · dsimp only
          rw [hin k hk]
          exact hpos
    · -- a CPU that was not chosen has no share
      unfold finishSplit
      dsimp only
      by_cases hmem : k ∈ chosen c num offer
      · rw [if_neg ((mem_drop_iff hk).not.2 (not_not.2 hmem)), if_pos hmem, hrt]
        dsimp only
        rw [if_pos hmem]
        rfl
      · rw [if_pos ((mem_drop_iff hk).2 hmem), if_neg hmem]
  · have hno : ¬ (s.task rt).C c ≤ c.usecs (shareSum c s rt num offer) := hen
    rw [if_neg hno, decide_eq_false hen]
    exact ⟨_, rfl, htried _, fun h => absurd h hen⟩

/-! ## The number of windows -/

/-- The shares of `n` windows are not enough. -/
def Fails (c : Config) (s : EdfWm) (rt fuel n : ℕ) : Prop :=
  ∃ offer, offers c s rt fuel n = .ok offer ∧ ¬ Enough c s rt n offer

/-- The least number of windows, two or more, with which the shares are enough, and the offers
made for it -/
structure FirstEnough (c : Config) (s : EdfWm) (rt fuel num : ℕ) (offer : ℕ → ℕ) : Prop where
  two_le : 2 ≤ num
  le : num ≤ c.nrRtCpus
  fails : ∀ n, 2 ≤ n → n < num → Fails c s rt fuel n
  offers : offers c s rt fuel num = .ok offer
  enough : Enough c s rt num offer

theorem FirstEnough.eq {num' : ℕ} {offer' : ℕ → ℕ} (h : FirstEnough c s rt fuel num offer)
    (h' : FirstEnough c s rt fuel num' offer') : num = num' ∧ offer = offer' := by
  have hle : ∀ {n n' : ℕ} {o o' : ℕ → ℕ}, FirstEnough c s rt fuel n o →
      FirstEnough c s rt fuel n' o' → n' ≤ n := by
    intro n n' o o' h h'
    by_contra hlt
    obtain ⟨o₁, ho, hno⟩ := h'.fails n h.two_le (not_le.1 hlt)
    rw [h.offers] at ho
    cases ho
    exact hno h.enough
  obtain rfl : num = num' := le_antisymm (hle h' h) (hle h h')
  exact ⟨rfl, Except.ok.inj (h.offers.symm.trans h'.offers)⟩

/-- The tries from `a` windows on -/
theorem splitLoop_spec (hs : s.edfWmTask rt = EdfWmTask.clear c) {m : ℕ} : ∀ (len a : ℕ), 0 < a →
    splitLoop c rt fuel (List.range' a len) s = .ok (s', m) →
      (m = 0 ∧ s' = s ∧ ∀ n, a ≤ n → n < a + len → Fails c s rt fuel n) ∨
      (a ≤ m ∧ m ≤ c.nrRtCpus ∧ (∀ n, a ≤ n → n < m → Fails c s rt fuel n) ∧
        ∃ offer, offers c s rt fuel m = .ok offer ∧ Enough c s rt m offer ∧ Tried rt s s' ∧
          Taken c s rt m offer (s'.edfWmTask rt)) := by
  intro len
  induction len with
  | zero =>
    intro a _ h
    cases h
    exact Or.inl ⟨rfl, rfl, fun n h1 h2 => absurd h1 (by omega)⟩
  | succ len ih =>
    intro a ha h
    rw [List.range'_succ, splitLoop] at h
    obtain ⟨r, htry, h⟩ := bind_eq_ok.1 h
    obtain ⟨hle, offer, hoffer⟩ := trySplit_offers htry
    obtain ⟨s₁, hs₁, htried, htaken⟩ := trySplit_spec hs hle hoffer
    cases htry.symm.trans hs₁
    by_cases hen : Enough c s rt a offer
    · rw [decide_eq_true hen] at h
      cases h
      exact Or.inr ⟨le_rfl, hle, fun n h1 h2 => absurd h1 (by omega), offer, hoffer, hen, htried,
        htaken hen⟩
    · rw [decide_eq_false hen] at h
      dsimp only at h
      rw [htried.clear_eq hs] at h
      have hfail : ∀ n, a ≤ n → (a + 1 ≤ n → Fails c s rt fuel n) → Fails c s rt fuel n := by
        intro n h1 hrest
        rcases Nat.eq_or_lt_of_le h1 with rfl | hlt
        · exact ⟨offer, hoffer, hen⟩
        · exact hrest hlt
      rcases ih (a + 1) (by omega) h with ⟨hm, hsame, hall⟩ | ⟨h1, h2, hall, hrest⟩
      · refine Or.inl ⟨hm, hsame, fun n h1 h2 => hfail n h1 fun h3 => hall n h3 (by omega)⟩
      · exact Or.inr ⟨by omega, h2, fun n h1 h2 => hfail n h1 fun h3 => hall n h3 h2, hrest⟩

/-- The tries end with the first one that is enough. -/
theorem splitLoop_first (hs : s.edfWmTask rt = EdfWmTask.clear c) : ∀ (len a : ℕ),
    a ≤ num → num < a + len → num ≤ c.nrRtCpus → (∀ n, a ≤ n → n < num → Fails c s rt fuel n) →
      offers c s rt fuel num = .ok offer → Enough c s rt num offer →
        ∃ s', splitLoop c rt fuel (List.range' a len) s = .ok (s', num) := by
  intro len
  induction len with
  | zero => exact fun a h1 h2 => absurd h1 (by omega)
  | succ len ih =>
    intro a h1 h2 hle hfails hoffer hen
    rw [List.range'_succ]
    rcases Nat.eq_or_lt_of_le h1 with rfl | hlt
    · obtain ⟨s₁, hs₁, -, -⟩ := trySplit_spec hs hle hoffer
      rw [decide_eq_true hen] at hs₁
      refine ⟨s₁, ?_⟩
      rw [splitLoop, hs₁]
      rfl
    · obtain ⟨o, ho, hno⟩ := hfails a le_rfl hlt
      obtain ⟨s₁, hs₁, htried, -⟩ := trySplit_spec hs (by omega) ho
      rw [decide_eq_false hno] at hs₁
      obtain ⟨s', hs'⟩ := ih (a + 1) hlt (by omega) hle (fun n h3 => hfails n (by omega)) hoffer hen
      refine ⟨s', ?_⟩
      rw [splitLoop, hs₁, ← hs']
      show splitLoop c rt fuel _ (setEdfWmTask s₁ rt (EdfWmTask.clear c)) = _
      rw [htried.clear_eq hs]

theorem nums_eq (n : ℕ) : 2 :: List.range' 3 n = List.range' 2 (n + 1) := by
  rw [List.range'_succ]

/-- **A split** leaves the task as it was, or it takes the first number of windows that is
enough. -/
theorem split_spec (hs : s.edfWmTask rt = EdfWmTask.clear c)
    (h : split c s rt fuel = .ok (s', num)) :
    (num = 0 ∧ s' = s ∧ ∀ n, 2 ≤ n → n ≤ c.nrRtCpus → Fails c s rt fuel n) ∨ Tried rt s s' ∧
      ∃ offer, FirstEnough c s rt fuel num offer ∧ Taken c s rt num offer (s'.edfWmTask rt) := by
  unfold split at h
  rw [nums_eq] at h
  rcases splitLoop_spec hs _ 2 (by decide) h with ⟨hm, hsame, hall⟩ | ⟨h1, h2, hall, offer, ho, hen, ht, htk⟩
  · exact Or.inl ⟨hm, hsame, fun n h1 h2 => hall n h1 (by omega)⟩
  · exact Or.inr ⟨ht, offer, ⟨h1, h2, hall, ho, hen⟩, htk⟩

theorem FirstEnough.split (h : FirstEnough c s rt fuel num offer)
    (hs : s.edfWmTask rt = EdfWmTask.clear c) :
    ∃ s', split c s rt fuel = .ok (s', num) ∧ Tried rt s s' ∧
      Taken c s rt num offer (s'.edfWmTask rt) := by
  have htwo := h.two_le
  have hle := h.le
  obtain ⟨s', hs'⟩ := splitLoop_first hs (c.nrRtCpus - 2 + 1) 2 h.two_le (by omega) h.le h.fails
    h.offers h.enough
  have hsplit : EdfWm.split c s rt fuel = .ok (s', num) := by
    unfold EdfWm.split
    rw [nums_eq]
    exact hs'
  refine ⟨s', hsplit, ?_⟩
  rcases split_spec hs hsplit with ⟨h0, -, -⟩ | ⟨htried, offer', hfirst, htaken⟩
  · omega
  · obtain ⟨-, rfl⟩ := h.eq hfirst
    exact ⟨htried, htaken⟩

end Resch.Checked.EdfWm
