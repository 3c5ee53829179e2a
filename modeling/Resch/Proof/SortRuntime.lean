import Resch.Lib.Sorted
import Resch.Proof.EdfWm
import Resch.Spec.SortRuntime

/-!
# `sort_runtime`

* `exchangeDown_eq`, `sortArray_eq`: the loops on the array make no access outside it, and their result
  is the list that `sortRuntime` describes.
* `sortRuntime_pairwise`: the CPUs are in the order of their runtimes, those of equal runtime in the
  order of their numbers.
* `sortArray_sorted`: what `split` gets.
-/

namespace Resch.Checked.EdfWm

open Lib

variable {c : Config} {runtime : List ℕ}

/-! ## The loops on the array -/

theorem loadFrom_of_lt {xs : List ℕ} {i : ℕ} (h : i < xs.length) :
    loadFrom xs i = .ok (xs.getD i 0) := by
  unfold loadFrom
  rw [List.getD_eq_getElem?_getD, List.getElem?_eq_getElem h]
  rfl

theorem storeTo_of_lt {xs : List ℕ} {i x : ℕ} (h : i < xs.length) :
    storeTo xs i x = .ok (xs.set i x) := if_pos h

/-- An exchange in the array is that of the library, on the numbers of the CPUs. -/
theorem exchange_eq {ids : List ℕ} {j : ℕ} (hj : j + 1 < ids.length)
    (hlt : ∀ k ∈ ids, k < runtime.length) :
    exchange runtime ids (j + 1) =
      .ok (exchangeAt (descending (runtime.getD · 0)) ids (j + 1)) := by
  have hj' : j < ids.length := by omega
  have hload : ∀ i (hi : i < ids.length), loadFrom ids i = .ok ids[i] := by
    intro i hi
    unfold loadFrom
    rw [List.getElem?_eq_getElem hi]
    rfl
  unfold exchangeAt
  rw [Nat.add_sub_cancel, List.getElem?_eq_getElem hj', List.getElem?_eq_getElem hj, exchange,
    hload j hj', hload (j + 1) hj]
  show (loadFrom runtime ids[j] >>= fun x => loadFrom runtime ids[j + 1] >>= fun y => _) = _
  rw [loadFrom_of_lt (hlt _ (List.getElem_mem hj')), loadFrom_of_lt (hlt _ (List.getElem_mem hj))]
  show (if runtime.getD ids[j] 0 < runtime.getD ids[j + 1] 0 then _ else _) = Except.ok (ite _ _ _)
  have hiff : descending (runtime.getD · 0) ids[j + 1] < descending (runtime.getD · 0) ids[j] ↔
      runtime.getD ids[j] 0 < runtime.getD ids[j + 1] 0 := Iff.rfl
  by_cases h : runtime.getD ids[j] 0 < runtime.getD ids[j + 1] 0
  · rw [if_pos h, if_pos (hiff.2 h)]
    show (storeTo _ _ _ >>= fun xs => storeTo xs _ _) = _
    rw [storeTo_of_lt hj]
    exact storeTo_of_lt (by rw [List.length_set]; omega)
  · rw [if_neg h, if_neg (mt hiff.1 h)]
    rfl

theorem exchangeDown_eq {ids : List ℕ} (hruntime : runtime.length = c.nrRtCpus)
    (hids : ids.Perm (List.range c.nrRtCpus)) (i : ℕ) : exchangeDown c runtime ids i =
      .ok (exchangeDownTo (descending (runtime.getD · 0)) ids i) := by
  have hlen : ids.length = c.nrRtCpus := by rw [hids.length_eq, List.length_range]
  unfold exchangeDown exchangeDownTo
  rw [hlen]
  refine foldlM_eq_ok_of_inv (P := (·.Perm (List.range c.nrRtCpus))) (fun j hj ids hp => ?_) hids
  obtain ⟨hle, hjlt⟩ := List.mem_range'_1.1 (List.mem_reverse.1 hj)
  have hlen' : ids.length = c.nrRtCpus := by rw [hp.length_eq, List.length_range]
  obtain ⟨j, rfl⟩ : ∃ k, j = k + 1 := ⟨j - 1, by omega⟩
  refine ⟨exchange_eq (by omega) fun k hk => ?_, (exchangeAt_perm _ _ _).trans hp⟩
  rw [hruntime]
  exact List.mem_range.1 (hp.mem_iff.1 hk)

/-- The first loop leaves nothing of what was in the array. -/
theorem foldlM_storeTo : ∀ (m : ℕ) (before after : List ℕ), after.length = m →
    (List.range' before.length m).foldlM (fun cpuId i => storeTo cpuId i i) (before ++ after) =
      .ok (before ++ List.range' before.length m) := by
  intro m
  induction m with
  | zero =>
    intro before after hlen
    rw [List.length_eq_zero_iff.1 hlen]
    rfl
  | succ m ih =>
    intro before after hlen
    obtain ⟨a, after, rfl⟩ := List.exists_cons_of_length_eq_add_one hlen
    rw [List.length_cons] at hlen
    have hrest := ih (before ++ [before.length]) after (by omega)
    rw [List.length_append, List.length_singleton, List.append_assoc, List.append_assoc] at hrest
    rw [List.range'_succ, List.foldlM_cons, storeTo_of_lt (by
      rw [List.length_append, List.length_cons]
      omega)]
    show List.foldlM _ ((before ++ a :: after).set before.length before.length) _ = _
    rw [List.set_append_right _ _ le_rfl, Nat.sub_self, List.set_cons_zero]
    exact hrest

/-- **The array is sorted as described**, whatever was in it. -/
theorem sortArray_eq {cpuId : List ℕ} (hruntime : runtime.length = c.nrRtCpus)
    (hcpuId : cpuId.length = c.nrRtCpus) :
    sortArray c runtime cpuId = .ok (sortRuntime c (runtime.getD · 0)) := by
  have hstart := foldlM_storeTo c.nrRtCpus [] cpuId hcpuId
  rw [List.nil_append, List.nil_append, List.length_nil, ← List.range_eq_range'] at hstart
  unfold sortArray
  rw [hstart, sortRuntime_eq]
  unfold bubbleArray
  rw [List.length_range]
  exact foldlM_eq_ok_of_inv (P := (·.Perm (List.range c.nrRtCpus))) (fun i _ ids hp =>
    ⟨exchangeDown_eq hruntime hp i, (exchangeDownTo_perm _ _ _).trans hp⟩) (.refl _)

/-! ## The order -/

/-- `a` comes before `b`: its runtime is larger, or the runtimes are equal and so is the order of
the numbers. -/
def Before (runtime : ℕ → ℕ) (a b : ℕ) : Prop :=
  runtime b < runtime a ∨ runtime a = runtime b ∧ a < b

instance (runtime : ℕ → ℕ) : DecidableRel (Before runtime) :=
  fun _ _ => inferInstanceAs (Decidable (_ ∨ _))

theorem before_asymm {f : ℕ → ℕ} (a b : ℕ) (h : Before f a b) : ¬ Before f b a := by
  unfold Before at *
  omega

theorem sortRuntime_pairwise (c : Config) (f : ℕ → ℕ) :
    (sortRuntime c f).Pairwise (Before f) := by
  rw [sortRuntime_eq]
  have hsorted := bubbleArray_sorted (descending f) (List.range c.nrRtCpus)
  have hstable := bubbleArray_pairwise (descending f) (@List.pairwise_lt_range c.nrRtCpus)
  refine (hsorted.and hstable).imp ?_
  rintro a b ⟨hle, hlt⟩
  rcases Nat.lt_or_ge (f b) (f a) with h | h
  · exact .inl h
  · have heq : f a = f b := le_antisymm h hle
    exact .inr ⟨heq, hlt (congrArg OrderDual.toDual heq)⟩

/-! ## What `split` gets -/

/-- **The CPUs in the order of their runtimes.** Every access is inside the arrays. The result has
each CPU once, the runtimes do not increase, CPUs of equal runtime are in the order of their
numbers, and no `num` CPUs have a larger sum than the first ones. -/
theorem sortArray_sorted (c : Config) (runtime cpuId : List ℕ)
    (hruntime : runtime.length = c.nrRtCpus) (hcpuId : cpuId.length = c.nrRtCpus) :
    ∃ ids, sortArray c runtime cpuId = .ok ids ∧ ids = sortRuntime c (runtime.getD · 0) ∧
      ids.Perm (List.range c.nrRtCpus) ∧
      ids.Pairwise (fun a b => runtime.getD b 0 ≤ runtime.getD a 0) ∧
      ids.Pairwise (fun a b => runtime.getD a 0 = runtime.getD b 0 → a < b) ∧
      ∀ num ≤ c.nrRtCpus, ∀ t ⊆ Finset.range c.nrRtCpus, t.card = num →
        ∑ k ∈ t, runtime.getD k 0 ≤ ((ids.take num).map (runtime.getD · 0)).sum := by
  have hperm := sortRuntime_perm c (runtime.getD · 0)
  have hbefore := sortRuntime_pairwise c (runtime.getD · 0)
  have hsorted := hbefore.imp fun {a b} h => show runtime.getD b 0 ≤ runtime.getD a 0 by
    rcases h with hlt | ⟨heq, -⟩
    · exact hlt.le
    · exact heq.ge
  refine ⟨_, sortArray_eq hruntime hcpuId, rfl, hperm, hsorted, hbefore.imp ?_, ?_⟩
  · rintro a b (hlt | ⟨-, hab⟩) heq
    · exact absurd heq hlt.ne'
    · exact hab
  · intro num _ t ht hcard
    refine sum_le_sum_take hsorted (fun k hk => ?_) hcard
    exact hperm.mem_iff.2 (List.mem_range.2 (Finset.mem_range.1 (ht hk)))

/-- Of four CPUs no two have more than the last and the second. -/
theorem sortArray_sorted_four :
    sortArray { Config.small false with nrRtCpus := 4 } [3, 7, 3, 9] [0, 0, 0, 0] =
        .ok [3, 1, 0, 2] ∧
      ∀ t ⊆ Finset.range 4, t.card = 2 → ∑ k ∈ t, [3, 7, 3, 9].getD k 0 ≤ 16 := by
  obtain ⟨ids, hrun, rfl, -, -, -, hlargest⟩ :=
    sortArray_sorted { Config.small false with nrRtCpus := 4 } [3, 7, 3, 9] [0, 0, 0, 0] rfl rfl
  have hids : sortRuntime { Config.small false with nrRtCpus := 4 } ([3, 7, 3, 9].getD · 0) =
      [3, 1, 0, 2] := by decide +kernel
  rw [hids] at hrun hlargest
  exact ⟨hrun, hlargest 2 (by decide)⟩

end Resch.Checked.EdfWm
