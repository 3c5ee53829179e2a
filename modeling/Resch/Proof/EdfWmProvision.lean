import Mathlib.Algebra.BigOperators.Ring.List
import Resch.Proof.EdfWmRoom

/-!
# What a split of EDF-WM is to provide

* `Taken.last`: the first and the last CPU of a split that is enough for a task.
* `sum_cut`: what is left over is rounded up to jiffies, so the shares that remain cover the
  execution time rounded down.
* `provisions_iff`: what the offers have to be like.
* `split_provisions`: as long as sums are in range, a split provides for the task iff no subtraction
  wraps on the CPUs, the execution time is a number of jiffies, and the CPUs with the most room
  cannot do without the last one of them.
-/

namespace Resch.Checked.EdfWm

open Lib

variable {c : Config} {s s' : EdfWm} {rt cpu k num fuel m : ℕ} {offer : ℕ → ℕ}

/-! ## The shares -/

/-- What a split is to provide with `num` windows -/
structure Provisions (c : Config) (s : EdfWm) (rt fuel num : ℕ) (s' : EdfWm) : Prop where
  count : ((List.range c.nrRtCpus).filter fun k => 0 < (s'.edfWmTask rt).runtime k).length ≤ num
  window : ∀ k < c.nrRtCpus, (s'.edfWmTask rt).runtime k ≤ (s.task rt).deadline / num
  first : (s'.edfWmTask rt).firstCpu < c.nrRtCpus ∧
    0 < (s'.edfWmTask rt).runtime (s'.edfWmTask rt).firstCpu
  last : (s'.edfWmTask rt).lastCpu < c.nrRtCpus ∧
    0 < (s'.edfWmTask rt).runtime (s'.edfWmTask rt).lastCpu
  between : ∀ k < c.nrRtCpus, 0 < (s'.edfWmTask rt).runtime k →
    (s'.edfWmTask rt).firstCpu ≤ k ∧ k ≤ (s'.edfWmTask rt).lastCpu
  exact : Exact c s rt fuel num
  excess : ∀ offer, offers c s rt fuel num = .ok offer →
    leftOver c s rt num offer ≤ share s rt num offer (s'.edfWmTask rt).lastCpu
  cover : (s.task rt).C c ≤
    ((List.range c.nrRtCpus).map fun k => c.usecs ((s'.edfWmTask rt).runtime k)).sum

/-- The greatest CPU with a share -/
def lastShare (c : Config) (s : EdfWm) (rt num : ℕ) (offer : ℕ → ℕ) : ℕ :=
  ((chosen c num offer).filter fun k => 0 < share s rt num offer k).foldr max 0

/-- What remains of a share -/
def cutShare (c : Config) (s : EdfWm) (rt num : ℕ) (offer : ℕ → ℕ) (k : ℕ) : ℕ :=
  if k = lastShare c s rt num offer then share s rt num offer k - leftOver c s rt num offer
  else share s rt num offer k

/-- The offers made for `num` windows are such that the split provides for the task. -/
structure Provided (c : Config) (s : EdfWm) (rt fuel num : ℕ) (offer : ℕ → ℕ) : Prop where
  exact : Exact c s rt fuel num
  excess : leftOver c s rt num offer < share s rt num offer (lastShare c s rt num offer)
  cover : if c.usecPerTick * shareSum c s rt num offer < 2 ^ 32 then c.usecPerTick ∣ (s.task rt).C c
    else (s.task rt).C c ≤
      ((chosen c num offer).map fun k => c.usecs (cutShare c s rt num offer k)).sum

theorem foldr_max_eq {l : List ℕ} (hk : k ∈ l) (hle : ∀ j ∈ l, j ≤ k) : l.foldr max 0 = k := by
  have hub : ∀ l : List ℕ, (∀ j ∈ l, j ≤ k) → l.foldr max 0 ≤ k := by
    intro l
    induction l with
    | nil => exact fun _ => Nat.zero_le k
    | cons j l ih =>
      intro h
      rw [List.forall_mem_cons] at h
      exact max_le h.1 (ih h.2)
  have hlb : ∀ l : List ℕ, k ∈ l → k ≤ l.foldr max 0 := by
    intro l
    induction l with
    | nil => exact fun h => absurd h List.not_mem_nil
    | cons j l ih =>
      intro h
      rcases List.mem_cons.1 h with rfl | h
      · exact le_max_left _ _
      · exact (ih h).trans (le_max_right _ _)
  exact le_antisymm (hub l hle) (hlb l hk)

/-- One number less in a sum -/
theorem sum_sub_add {f : ℕ → ℕ} {l : List ℕ} (hnodup : l.Nodup) (hk : k ∈ l) (hm : m ≤ f k) :
    (l.map fun j => if j = k then f j - m else f j).sum + m = (l.map f).sum := by
  have hrest : ((l.erase k).map fun j => if j = k then f j - m else f j) = (l.erase k).map f := by
    refine List.map_congr_left fun j hj => if_neg ?_
    rintro rfl
    exact (List.Nodup.mem_erase_iff hnodup).1 hj |>.1 rfl
  rw [← List.sum_map_erase _ hk, ← List.sum_map_erase f hk, hrest, if_pos rfl]
  omega

/-- The CPUs that are not chosen add nothing. -/
theorem sum_range_eq (num : ℕ) (offer : ℕ → ℕ) {f : ℕ → ℕ}
    (h : ∀ k < c.nrRtCpus, k ∉ chosen c num offer → f k = 0) :
    ((List.range c.nrRtCpus).map f).sum = ((chosen c num offer).map f).sum := by
  have hperm := (sortRuntime_perm c offer).map f
  have hdrop : (((sortRuntime c offer).drop num).map f).sum = 0 := by
    refine List.sum_eq_zero fun x hx => ?_
    obtain ⟨k, hk, rfl⟩ := List.mem_map.1 hx
    have hlt : k < c.nrRtCpus :=
      List.mem_range.1 ((sortRuntime_perm c offer).mem_iff.1 (List.mem_of_mem_drop hk))
    exact h k hlt ((mem_drop_iff hlt).1 hk)
  rw [← hperm.sum_eq, ← List.take_append_drop num (sortRuntime c offer), List.map_append,
    List.sum_append, hdrop]
  rfl

/-- **Rounding.** What is left over of `T` jiffies is rounded up, so the `C` microseconds are
covered iff they are a number of jiffies. -/
theorem sum_cut {T C : ℕ} (hT : c.usecPerTick * T < 2 ^ 32) (hC : C ≤ c.usecs T) :
    C ≤ c.usecPerTick * (T - c.jiffies (c.usecs T - C)) ↔ c.usecPerTick ∣ C := by
  have hle : C ≤ c.usecPerTick * T := hC.trans (Nat.mod_le _ _)
  have hdm := Nat.div_add_mod C c.usecPerTick
  rw [jiffies_left hT hC, Nat.sub_sub_self (Nat.div_le_of_le_mul hle), Nat.dvd_iff_mod_eq_zero]
  omega

/-! ## A split -/

/-- The shares that are enough for a task have a first and a last CPU. -/
theorem Taken.span (h : Taken c s rt num offer (s'.edfWmTask rt)) (hC : 0 < (s.task rt).C c)
    (hen : Enough c s rt num offer) :
    ((s'.edfWmTask rt).firstCpu ∈ chosen c num offer ∧
      0 < share s rt num offer (s'.edfWmTask rt).firstCpu) ∧
    ((s'.edfWmTask rt).lastCpu ∈ chosen c num offer ∧
      0 < share s rt num offer (s'.edfWmTask rt).lastCpu) ∧
    ∀ k ∈ chosen c num offer, 0 < share s rt num offer k →
      (s'.edfWmTask rt).firstCpu ≤ k ∧ k ≤ (s'.edfWmTask rt).lastCpu := by
  rcases h.spans with ⟨-, -, hz⟩ | hspan
  · -- without a share, the sum is not enough
    exfalso
    have hsum : shareSum c s rt num offer = 0 := by
      unfold shareSum
      rw [List.sum_eq_zero, Nat.zero_mod]
      intro x hx
      obtain ⟨k, hk, rfl⟩ := List.mem_map.1 hx
      exact hz k hk
    unfold Enough at hen
    rw [hsum] at hen
    unfold Config.usecs Config.jiffiesToUsecs at hen
    rw [Nat.mul_zero, Nat.zero_mod] at hen
    omega
  · exact hspan

theorem Taken.last (h : Taken c s rt num offer (s'.edfWmTask rt)) (hC : 0 < (s.task rt).C c)
    (hen : Enough c s rt num offer) :
    (s'.edfWmTask rt).lastCpu = lastShare c s rt num offer := by
  obtain ⟨-, ⟨hmem, hpos⟩, hle⟩ := h.span hC hen
  refine (foldr_max_eq (List.mem_filter.2 ⟨hmem, decide_eq_true hpos⟩) fun j hj => ?_).symm
  obtain ⟨hj, hjpos⟩ := List.mem_filter.1 hj
  exact (hle j hj (of_decide_eq_true hjpos)).2

/-- The shares if the last one is enough for what is left over -/
theorem Taken.runtime_eq (h : Taken c s rt num offer (s'.edfWmTask rt)) (hC : 0 < (s.task rt).C c)
    (hen : Enough c s rt num offer) (hD : (s.task rt).deadline < 2 ^ 64)
    (hle : leftOver c s rt num offer ≤ share s rt num offer (lastShare c s rt num offer))
    (hk : k < c.nrRtCpus) : (s'.edfWmTask rt).runtime k =
      if k ∈ chosen c num offer then cutShare c s rt num offer k else 0 := by
  have hlast := h.last hC hen
  rw [h.runtime k hk]
  split
  · unfold cutShare
    rw [hlast]
    by_cases hkl : k = lastShare c s rt num offer
    · have hshare : share s rt num offer k ≤ (s.task rt).deadline :=
        (min_le_right _ _).trans (Nat.div_le_self _ _)
      rw [if_pos hkl, if_pos hkl, ← Nat.cast_sub (hkl ▸ hle), ulong_natCast (by omega)]
    · rw [if_neg hkl, if_neg hkl]
  · rfl

theorem cutShare_le : cutShare c s rt num offer k ≤ share s rt num offer k := by
  unfold cutShare
  split
  · exact Nat.sub_le _ _
  · exact le_rfl

/-- The shares that remain cover the execution time. -/
theorem cover_iff (hfirst : FirstEnough c s rt fuel num offer) (hD : (s.task rt).deadline < 2 ^ 64)
    (hmem : lastShare c s rt num offer ∈ chosen c num offer)
    (hle : leftOver c s rt num offer ≤ share s rt num offer (lastShare c s rt num offer)) :
    (s.task rt).C c ≤ ((chosen c num offer).map fun k => c.usecs (cutShare c s rt num offer k)).sum ↔
      if c.usecPerTick * shareSum c s rt num offer < 2 ^ 32 then c.usecPerTick ∣ (s.task rt).C c
      else (s.task rt).C c ≤
        ((chosen c num offer).map fun k => c.usecs (cutShare c s rt num offer k)).sum := by
  split
  · rename_i hT
    have hsum : shareSum c s rt num offer =
        ((chosen c num offer).map (share s rt num offer)).sum := shareSum_eq hfirst.le hD
    have hcut := sum_sub_add (chosen_nodup c num offer) hmem hle
    rw [← hsum] at hcut
    have hval : ((chosen c num offer).map fun k => c.usecs (cutShare c s rt num offer k)).sum =
        c.usecPerTick * (shareSum c s rt num offer - leftOver c s rt num offer) := by
      have hone : ∀ k ∈ chosen c num offer, c.usecs (cutShare c s rt num offer k) =
          c.usecPerTick * cutShare c s rt num offer k := by
        intro k hk
        have hk' := List.single_le_sum (fun x _ => Nat.zero_le x) _
          (List.mem_map_of_mem (f := share s rt num offer) hk)
        rw [← hsum] at hk'
        have hcutle : cutShare c s rt num offer k ≤ shareSum c s rt num offer :=
          cutShare_le.trans hk'
        have hmul := Nat.mul_le_mul_left c.usecPerTick hcutle
        exact Nat.mod_eq_of_lt (by unfold Config.jiffiesToUsecs; omega)
      rw [List.map_congr_left hone, List.sum_map_mul_left]
      congr 1
      exact Nat.eq_sub_of_add_eq hcut
    rw [hval]
    exact sum_cut hT hfirst.enough
  · exact Iff.rfl

/-- A split with the least number of windows that is enough -/
theorem provisions_iff (hfirst : FirstEnough c s rt fuel num offer)
    (htaken : Taken c s rt num offer (s'.edfWmTask rt)) (hC : 0 < (s.task rt).C c)
    (hD : (s.task rt).deadline < 2 ^ 64) :
    Provisions c s rt fuel num s' ↔ Provided c s rt fuel num offer := by
  have hlast := htaken.last hC hfirst.enough
  obtain ⟨⟨hfmem, hfpos⟩, ⟨hlmem, hlpos⟩, hbetween⟩ := htaken.span hC hfirst.enough
  rw [hlast] at hlmem hlpos
  -- the shares add up to those of the CPUs chosen
  have hsum : leftOver c s rt num offer ≤ share s rt num offer (lastShare c s rt num offer) →
      ((List.range c.nrRtCpus).map fun k => c.usecs ((s'.edfWmTask rt).runtime k)).sum =
        ((chosen c num offer).map fun k => c.usecs (cutShare c s rt num offer k)).sum := by
    intro hle
    have hrt := fun k hk => htaken.runtime_eq (k := k) hC hfirst.enough hD hle hk
    rw [sum_range_eq num offer]
    · congr 1
      refine List.map_congr_left fun k hk => ?_
      rw [hrt k (lt_of_mem_chosen hk), if_pos hk]
    · intro k hk hnot
      rw [hrt k hk, if_neg hnot]
      unfold Config.usecs Config.jiffiesToUsecs
      rw [Nat.mul_zero, Nat.zero_mod]
  constructor
  · intro h
    have hle := h.excess offer hfirst.offers
    rw [hlast] at hle
    refine ⟨h.exact, ?_, ?_⟩
    · -- the last CPU has kept a share
      have hpos := h.last.2
      rw [hlast, htaken.runtime_eq hC hfirst.enough hD hle (lt_of_mem_chosen hlmem), if_pos hlmem]
        at hpos
      unfold cutShare at hpos
      rw [if_pos rfl] at hpos
      omega
    · rw [← cover_iff hfirst hD hlmem hle, ← hsum hle]
      exact h.cover
  · intro h
    have hle := h.excess.le
    have hrt := fun k hk => htaken.runtime_eq (k := k) hC hfirst.enough hD hle hk
    -- a chosen CPU keeps its share, the last one what is not cut off
    have hkept : ∀ k ∈ chosen c num offer, 0 < share s rt num offer k →
        0 < (s'.edfWmTask rt).runtime k := by
      intro k hk hpos
      rw [hrt k (lt_of_mem_chosen hk), if_pos hk]
      unfold cutShare
      split
      · rename_i hkl
        have := h.excess
        rw [hkl]
        omega
      · exact hpos
    have hshare : ∀ k < c.nrRtCpus, 0 < (s'.edfWmTask rt).runtime k →
        k ∈ chosen c num offer ∧ 0 < share s rt num offer k := by
      intro k hk hpos
      rw [hrt k hk] at hpos
      split at hpos
      · rename_i hmem
        exact ⟨hmem, hpos.trans_le cutShare_le⟩
      · cases hpos
    refine ⟨?_, fun k hk => ?_, ⟨lt_of_mem_chosen hfmem, hkept _ hfmem hfpos⟩, ?_, fun k hk hpos => ?_,
      h.exact, fun offer' hoffer' => ?_, ?_⟩
    · -- no more CPUs than windows
      have hsub : (List.range c.nrRtCpus).filter (fun k => 0 < (s'.edfWmTask rt).runtime k) ⊆
          chosen c num offer := by
        intro k hk
        obtain ⟨hk, hpos⟩ := List.mem_filter.1 hk
        exact (hshare k (List.mem_range.1 hk) (of_decide_eq_true hpos)).1
      have hlen := (List.subperm_of_subset (List.nodup_range.filter _) hsub).length_le
      rwa [length_chosen hfirst.le] at hlen
    · rw [hrt k hk]
      split
      · exact cutShare_le.trans (min_le_right _ _)
      · exact Nat.zero_le _
    · rw [hlast]
      exact ⟨lt_of_mem_chosen hlmem, hkept _ hlmem hlpos⟩
    · obtain ⟨hmem, hkpos⟩ := hshare k hk hpos
      exact hbetween k hmem hkpos
    · cases hfirst.offers.symm.trans hoffer'
      rw [hlast]
      exact hle
    · rw [hsum hle, cover_iff hfirst hD hlmem hle]
      exact h.cover

/-! ## In the parameters -/

/-- No subtraction wraps on the CPUs, the execution time is a number of jiffies, and those who are to
bear the task in the first number of windows that suffices cannot do so without the last of them. -/
structure Suited (c : Config) (s : EdfWm) (rt : ℕ) (E : ℕ → ℕ → ℕ) : Prop where
  noneWraps : ∀ n, ComesTo c s rt E n → NoneWraps c s rt E n
  jiffies : c.usecPerTick ∣ (s.task rt).C c
  needed : ∀ n, ComesTo c s rt E n → Suffices c s rt E n → ∀ last ∈ bearers c s rt E n,
    0 < burden c s rt E n last →
      (∀ k ∈ bearers c s rt E n, 0 < burden c s rt E n k → k ≤ last) →
        c.usecPerTick * ∑ k ∈ (bearers c s rt E n).erase last, burden c s rt E n k < (s.task rt).C c

variable {E : ℕ → ℕ → ℕ} {last : ℕ}

/-- Less than the last share is left over iff the others do not suffice. -/
theorem SplitInRange.excess_iff (h : SplitInRange c s rt E) (hnum : num ≤ c.nrRtCpus)
    (hoffer : ∀ k < c.nrRtCpus, offer k = roomFor c s rt E num k) (hen : Enough c s rt num offer)
    (hdvd : c.usecPerTick ∣ (s.task rt).C c) (hmem : last ∈ bearers c s rt E num) :
    leftOver c s rt num offer < share s rt num offer last ↔
      c.usecPerTick * ∑ k ∈ (bearers c s rt E num).erase last, burden c s rt E num k <
        (s.task rt).C c := by
  have hD := h.deadline_lt
  have hlt : c.usecPerTick * shareSum c s rt num offer < 2 ^ 32 := h.shareSum_lt hnum
  have hsum : shareSum c s rt num offer = ∑ k ∈ bearers c s rt E num, burden c s rt E num k := by
    rw [shareSum_eq hnum (by omega), sum_chosen hoffer]
  have hlast : share s rt num offer last = burden c s rt E num last :=
    share_eq_burden hoffer (lt_of_mem_chosen ((mem_bearers_iff hoffer).2 hmem))
  have hadd := Finset.add_sum_erase _ (burden c s rt E num) hmem
  have hle : (s.task rt).C c ≤ c.usecPerTick * shareSum c s rt num offer :=
    hen.trans (Nat.mod_le _ _)
  unfold leftOver
  rw [jiffies_left hlt hen, hlast]
  obtain ⟨q, hq⟩ := hdvd
  rw [hq] at hle ⊢
  have hqle := Nat.le_of_mul_le_mul_left hle c.tick_pos
  rw [Nat.mul_div_cancel_left _ c.tick_pos, Nat.mul_lt_mul_left c.tick_pos]
  omega

/-- **A split provides for the task** iff no subtraction wraps on the CPUs, the execution time is a
number of jiffies, and the CPUs with the most room cannot do without the last one of them. -/
theorem split_provisions (c : Config) (s s' : EdfWm) (rt fuel num : ℕ) (E : ℕ → ℕ → ℕ)
    (hs : s.edfWmTask rt = EdfWmTask.clear c) (hC : 0 < (s.task rt).C c)
    (hin : SplitInRange c s rt E) (hsplit : split c s rt fuel = .ok (s', num))
    (hcpu : (s'.edfWmTask rt).firstCpu ≠ c.cpuUndefined) :
    Provisions c s rt fuel num s' ↔ Suited c s rt E := by
  have hD := hin.deadline_lt
  rcases split_spec hs hsplit with ⟨-, rfl, -⟩ | ⟨-, offer, hfirst, htaken⟩
  · rw [hs] at hcpu
    exact absurd rfl hcpu
  have hlast := htaken.last hC hfirst.enough
  obtain ⟨-, ⟨hlmem, hlpos⟩, hbetween⟩ := htaken.span hC hfirst.enough
  rw [hlast] at hlmem hlpos hbetween
  have hmicros : c.usecPerTick * shareSum c s rt num offer < 2 ^ 32 := hin.shareSum_lt hfirst.le
  rw [provisions_iff hfirst htaken hC (by omega)]
  -- the last share is that of the last bearer
  have hgreatest : (∀ k < c.nrRtCpus, offer k = roomFor c s rt E num k) →
      lastShare c s rt num offer ∈ bearers c s rt E num ∧
        0 < burden c s rt E num (lastShare c s rt num offer) ∧
        ∀ k ∈ bearers c s rt E num, 0 < burden c s rt E num k → k ≤ lastShare c s rt num offer := by
    intro hoffer
    have hshare : ∀ k ∈ chosen c num offer, share s rt num offer k = burden c s rt E num k :=
      fun k hk => share_eq_burden hoffer (lt_of_mem_chosen hk)
    refine ⟨(mem_bearers_iff hoffer).1 hlmem, hshare _ hlmem ▸ hlpos, fun k hk hpos => ?_⟩
    have hk := (mem_bearers_iff hoffer).2 hk
    exact (hbetween k hk (hshare k hk ▸ hpos)).2
  constructor
  · intro h
    have hnone := (hin.exact_iff hs hfirst).1 h.exact
    obtain ⟨hnum, hsuf, hoffer⟩ := hin.first hs hfirst hnone
    have hdvd : c.usecPerTick ∣ (s.task rt).C c := by
      have hcover := h.cover
      rwa [if_pos hmicros] at hcover
    refine ⟨fun n hn => hnone n (hn.le hnum.1 hsuf) hn, hdvd,
      fun n hn hsuf' last hmem hpos hgreat => ?_⟩
    obtain rfl : n = num := le_antisymm (hn.le hnum.1 hsuf) (hnum.le hn.1 hsuf')
    obtain ⟨hlmem', hlpos', hlgreat⟩ := hgreatest hoffer
    obtain rfl : last = lastShare c s rt n offer :=
      le_antisymm (hlgreat last hmem hpos) (hgreat _ hlmem' hlpos')
    exact (hin.excess_iff hfirst.le hoffer hfirst.enough hdvd hmem).1 h.excess
  · intro h
    have hnone : ∀ n ≤ num, ComesTo c s rt E n → NoneWraps c s rt E n := fun n _ => h.noneWraps n
    obtain ⟨hnum, hsuf, hoffer⟩ := hin.first hs hfirst hnone
    refine ⟨(hin.exact_iff hs hfirst).2 hnone, ?_, ?_⟩
    · obtain ⟨hlmem', hlpos', hlgreat⟩ := hgreatest hoffer
      exact (hin.excess_iff hfirst.le hoffer hfirst.enough h.jiffies hlmem').2
        (h.needed num hnum hsuf _ hlmem' hlpos' hlgreat)
    · rw [if_pos hmicros]
      exact h.jiffies

def twoCpuConfig : Config := { Config.small false with nrRtCpus := 2 }

/-- Two CPUs that are half busy, and a task 0 that fits on none of them as a whole -/
def halfBusy (C : ℕ) : EdfWm where
  list := [1, 2]
  task p := if p = 0 then ⟨10, 10, C, C, 1, 2, false⟩ else ⟨10, 10, 5000, 5000, 2, p - 1, false⟩
  switchCost := 0
  releaseCost := 0
  migrationCost := 0
  edfWmTask _ := EdfWmTask.clear twoCpuConfig

/-- The deadline of the resident is where each CPU is tightest. -/
theorem inRange_halfBusy : SplitInRange twoCpuConfig (halfBusy 8000) 0 fun _ _ => 10 := by
  refine ⟨by decide, fun n hn k hk => ?_⟩
  obtain rfl : n = 2 := le_antisymm hn.2.1 hn.1
  have hcpu : k = 0 ∨ k = 1 := by
    have hk : k < 2 := hk
    omega
  rcases hcpu with rfl | rfl
  · refine ⟨⟨(10, 10), [(5, 10)], 0, by decide, rfl, nofun, by decide +kernel⟩, fun x hpos hx => ?_,
      by decide +kernel, by decide +kernel⟩
    have hunused : unused twoCpuConfig (withWindow (halfBusy 8000) 0 2) 0 0 = 5 := by decide +kernel
    exact lenOf_eq hpos (lt_of_lt_of_le (by omega) (by decide : 1000 ≤ 10000))
  · refine ⟨⟨(10, 10), [(5, 10)], 0, by decide, rfl, nofun, by decide +kernel⟩, fun x hpos hx => ?_,
      by decide +kernel, by decide +kernel⟩
    have hunused : unused twoCpuConfig (withWindow (halfBusy 8000) 0 2) 0 1 = 5 := by decide +kernel
    exact lenOf_eq hpos (lt_of_lt_of_le (by omega) (by decide : 1000 ≤ 10000))

/-- Each CPU has room for 5 jiffies, and 8 are needed. -/
theorem suited_halfBusy : Suited twoCpuConfig (halfBusy 8000) 0 fun _ _ => 10 := by
  have hbearers : bearers twoCpuConfig (halfBusy 8000) 0 (fun _ _ => 10) 2 = {0, 1} := by
    decide +kernel
  have hburden : ∀ k < 2, burden twoCpuConfig (halfBusy 8000) 0 (fun _ _ => 10) 2 k = 5 := by
    decide +kernel
  refine ⟨fun n hn k hk => ?_, by decide, fun n hn _ last hmem _ hgreat => ?_⟩
  · obtain rfl : n = 2 := le_antisymm hn.2.1 hn.1
    have hlooked : ∀ k < 2,
        lookedAt twoCpuConfig (withWindow (halfBusy 8000) 0 2) 0 k 10 = [10, 5] := by
      decide +kernel
    have hdue : ∀ k < 2, ∀ L ∈ [10, 5], ((withWindow (halfBusy 8000) 0 2).edfWmTask 0).deadline ≤ L ∧
        dueAt twoCpuConfig (withWindow (halfBusy 8000) 0 2) 0 k L ≤ L := by
      decide +kernel
    refine ⟨?_, ?_, fun _ => ⟨by decide, ?_⟩⟩
    · revert k
      decide +kernel
    · rw [hlooked k hk]
      exact ⟨hdue k hk 10 (by decide), fun _ => ⟨hdue k hk 5 (by decide), fun _ => trivial⟩⟩
    · revert k
      decide +kernel
  · obtain rfl : n = 2 := le_antisymm hn.2.1 hn.1
    rw [hbearers] at hmem hgreat
    have hone := hgreat 1 (by decide) (by rw [hburden 1 (by decide)]; decide)
    obtain rfl : last = 1 := by
      rcases Finset.mem_insert.1 hmem with rfl | hmem
      · omega
      · exact Finset.mem_singleton.1 hmem
    rw [hbearers, show ({0, 1} : Finset ℕ).erase 1 = {0} by decide, Finset.sum_singleton,
      hburden 0 (by decide)]
    decide

/-- What `split` does with it -/
def halfBusySplit : EdfWm × ℕ :=
  (split twoCpuConfig (halfBusy 8000) 0 100).toOption.getD (halfBusy 8000, 0)

theorem split_provisions_halfBusy :
    Provisions twoCpuConfig (halfBusy 8000) 0 100 halfBusySplit.2 halfBusySplit.1 :=
  (split_provisions twoCpuConfig (halfBusy 8000) _ 0 100 _ (fun _ _ => 10) rfl (by decide)
    inRange_halfBusy (eq_ok_getD (halfBusy 8000, 0) (by decide +kernel)) (by decide +kernel)).2
    suited_halfBusy

/-- The two shares of 5 jiffies leave 2500 microseconds over, for which 3 jiffies are taken: 7 remain
for 7500 microseconds. -/
theorem split_provisions_not : ¬ ∀ (c : Config) (s s' : EdfWm) (rt fuel num : ℕ),
    s.edfWmTask rt = EdfWmTask.clear c → 0 < (s.task rt).C c → (s.task rt).deadline < 2 ^ 64 →
      split c s rt fuel = .ok (s', num) → (s'.edfWmTask rt).firstCpu ≠ c.cpuUndefined →
        Provisions c s rt fuel num s' := by
  intro hall
  have hok : (split twoCpuConfig (halfBusy 7500) 0 100).toOption.isSome = true := by decide +kernel
  have h := hall twoCpuConfig (halfBusy 7500) _ 0 100 _ rfl (by decide) (by decide)
    (eq_ok_getD (halfBusy 7500, 0) hok) (by decide +kernel)
  have hcover := h.cover
  revert hcover
  decide +kernel

end Resch.Checked.EdfWm
