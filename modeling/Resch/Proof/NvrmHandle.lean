import Resch.Lib.LeastUnused
import Resch.Spec.NvrmHandle

/-!
# The chain of handles is a set of numbers

`poolRun` says what handles are for: from a set of numbers in use, the least one that is not in it
is taken, and a number of the set is given back.

* `handleWalk_spec`: on a chain in order, the walk finds the least number that is not in use.
* `handleRun_refines`: all sequences of calls on the chain are those on the set.
-/

namespace Resch

open Lib

variable {used : Finset ℕ} {chain chain' : List ℕ} {handle e : ℕ}

/-! ## The set of handles -/

def poolStep (used : Finset ℕ) : HandleOp → Except NvrmAbort (Option ℕ × Finset ℕ)
  | .alloc =>
    if maxHandle < leastUnused used then .error .outOfHandles
    else .ok (some (leastUnused used), insert (leastUnused used) used)
  | .free handle =>
    if handle ∈ used then .ok (none, used.erase handle) else .error (.nonexistentHandle handle)

def poolRun (used : Finset ℕ) : List HandleOp → Except NvrmAbort (List (Option ℕ) × Finset ℕ)
  | [] => .ok ([], used)
  | op :: ops => (poolStep used op).bind fun r =>
    (poolRun r.2 ops).map fun rs => (r.1 :: rs.1, rs.2)

/-! ## The walk -/

/-- The handles of the chain are in increasing order, from 1 on. -/
def ChainInOrder (chain : List ℕ) : Prop := chain.Pairwise (· < ·) ∧ ∀ h ∈ chain, 0 < h

/-- **The walk** from an expected number on, along a chain with no lower one. -/
theorem handleWalk_spec (hchain : chain.Pairwise (· < ·)) (he : ∀ h ∈ chain, e ≤ h) :
    e ≤ (handleWalk e chain).1 ∧ (handleWalk e chain).1 ∉ chain ∧
      (∀ m, e ≤ m → m < (handleWalk e chain).1 → m ∈ chain) ∧
      (handleWalk e chain).2.Pairwise (· < ·) ∧
      ∀ h, h ∈ (handleWalk e chain).2 ↔ h = (handleWalk e chain).1 ∨ h ∈ chain := by
  induction chain generalizing e with
  | nil =>
    refine ⟨le_rfl, List.not_mem_nil, ?_, List.pairwise_singleton .., ?_⟩
    · intro m hm hlt
      exact absurd hlt (Nat.not_lt.2 hm)
    · intro h
      simp [handleWalk]
  | cons a chain ih =>
    obtain ⟨ha, hchain⟩ := List.pairwise_cons.1 hchain
    have hea := he a List.mem_cons_self
    -- the number is taken, or there is a gap before `a`
    by_cases heq : a = e
    · subst heq
      obtain ⟨hle, hnot, hall, hsort, hmem⟩ := ih (e := a + 1) hchain fun h hh => ha h hh
      simp only [handleWalk, if_true]
      refine ⟨by omega, ?_, ?_, ?_, ?_⟩
      · rw [List.mem_cons]
        rintro (hw | hw)
        · omega
        · exact hnot hw
      · intro m hm hlt
        rcases Nat.eq_or_lt_of_le hm with hm | hm
        · exact hm ▸ List.mem_cons_self
        · exact List.mem_cons_of_mem _ (hall m hm hlt)
      · refine List.pairwise_cons.2 ⟨fun h hh => ?_, hsort⟩
        rcases (hmem h).1 hh with hh | hh
        · omega
        · exact ha h hh
      · intro h
        rw [List.mem_cons, hmem, List.mem_cons]
        tauto
    · simp only [handleWalk, if_neg heq]
      have hlt : ∀ h ∈ a :: chain, e < h := by
        intro h hh
        rcases List.mem_cons.1 hh with rfl | hh
        · omega
        · have := ha h hh
          omega
      refine ⟨le_rfl, fun h => absurd (hlt e h) (lt_irrefl e), ?_, ?_, ?_⟩
      · intro m hm hlt
        omega
      · exact List.pairwise_cons.2 ⟨hlt, List.pairwise_cons.2 ⟨ha, hchain⟩⟩
      · intro h
        rw [List.mem_cons]

/-- What an allocation does to a chain in order -/
theorem nvrmHandleAlloc_ok (h : ChainInOrder chain)
    (halloc : nvrmHandleAlloc chain = .ok (handle, chain')) :
    handle ∉ chain ∧ 0 < handle ∧ handle ≤ maxHandle ∧ ChainInOrder chain' ∧
      (∀ m, 0 < m → m < handle → m ∈ chain) ∧ ∀ m, m ∈ chain' ↔ m = handle ∨ m ∈ chain := by
  unfold nvrmHandleAlloc at halloc
  obtain ⟨hle, hnot, hall, hsort, hmem⟩ := handleWalk_spec (e := 1) h.1 h.2
  split at halloc
  · cases halloc
  · rename_i hmax
    obtain ⟨rfl, rfl⟩ := Prod.mk.inj (Except.ok.inj halloc)
    refine ⟨hnot, hle, Nat.not_lt.1 hmax, ⟨hsort, fun m hm => ?_⟩, hall, hmem⟩
    rcases (hmem m).1 hm with rfl | hm
    · exact hle
    · exact h.2 m hm

/-- What giving back a handle does -/
theorem nvrmHandleFree_eq (hchain : chain.Nodup) : nvrmHandleFree handle chain =
    if handle ∈ chain then .ok (chain.erase handle) else .error (.nonexistentHandle handle) := by
  induction chain with
  | nil =>
    rw [if_neg List.not_mem_nil]
    rfl
  | cons a chain ih =>
    obtain ⟨ha, hchain⟩ := List.nodup_cons.1 hchain
    rw [nvrmHandleFree]
    by_cases heq : a = handle
    · subst heq
      rw [if_pos rfl, if_pos List.mem_cons_self, List.erase_cons_head]
    · rw [if_neg heq, ih hchain, List.erase_cons_tail (by simpa using heq)]
      have hiff : handle ∈ a :: chain ↔ handle ∈ chain := by simp [Ne.symm heq]
      by_cases hmem : handle ∈ chain
      · rw [if_pos hmem, if_pos (hiff.2 hmem)]
        rfl
      · rw [if_neg hmem, if_neg fun h => hmem (hiff.1 h)]
        rfl

theorem ChainInOrder.nodup (h : ChainInOrder chain) : chain.Nodup := h.1.imp Nat.ne_of_lt

theorem ChainInOrder.erase (h : ChainInOrder chain) : ChainInOrder (chain.erase handle) :=
  ⟨h.1.sublist List.erase_sublist, fun m hm => h.2 m (List.mem_of_mem_erase hm)⟩

/-! ## The refinement -/

/-- The chain is the set in increasing order. -/
structure PoolRel (chain : List ℕ) (used : Finset ℕ) : Prop where
  inOrder : ChainInOrder chain
  le : ∀ h ∈ chain, h ≤ maxHandle
  mem : ∀ h, h ∈ chain ↔ h ∈ used

theorem PoolRel.sort_eq (h : PoolRel chain used) : chain = used.sort :=
  Lib.sort_eq h.inOrder.1 h.mem

theorem PoolRel.walk_eq (h : PoolRel chain used) : (handleWalk 1 chain).1 = leastUnused used := by
  obtain ⟨hle, hnot, hall, -⟩ := handleWalk_spec (e := 1) h.inOrder.1 h.inOrder.2
  apply eq_leastUnused hle
  · rwa [← h.mem]
  · intro m hpos hm
    exact (h.mem m).1 (hall m hpos hm)

/-- **One call** on the chain is that on the set. -/
theorem handleStep_refines (h : PoolRel chain used) (op : HandleOp) :
    (∃ a, handleStep chain op = .error a ∧ poolStep used op = .error a) ∨
      ∃ o chain' used', handleStep chain op = .ok (o, chain') ∧ poolStep used op = .ok (o, used') ∧
        PoolRel chain' used' := by
  cases op with
  | alloc =>
    rw [handleStep, poolStep, ← h.walk_eq]
    by_cases hmax : maxHandle < (handleWalk 1 chain).1
    · left
      exact ⟨.outOfHandles, by rw [nvrmHandleAlloc, if_pos hmax]; rfl, if_pos hmax⟩
    · right
      have halloc : nvrmHandleAlloc chain = .ok (handleWalk 1 chain) := if_neg hmax
      obtain ⟨-, -, -, hin, -, hmem⟩ := nvrmHandleAlloc_ok h.inOrder halloc
      refine ⟨_, _, _, by rw [halloc]; rfl, if_neg hmax, hin, fun m hm => ?_, fun m => ?_⟩
      · rcases (hmem m).1 hm with rfl | hm
        · exact Nat.not_lt.1 hmax
        · exact h.le m hm
      · rw [hmem, Finset.mem_insert, h.mem]
  | free handle =>
    rw [handleStep, poolStep, nvrmHandleFree_eq h.inOrder.nodup]
    by_cases hmem : handle ∈ chain
    · right
      refine ⟨none, chain.erase handle, used.erase handle, by rw [if_pos hmem]; rfl,
        if_pos ((h.mem handle).1 hmem), h.inOrder.erase, fun m hm => ?_, fun m => ?_⟩
      · exact h.le m (List.mem_of_mem_erase hm)
      · rw [h.inOrder.nodup.mem_erase_iff, Finset.mem_erase, h.mem]
    · left
      exact ⟨.nonexistentHandle handle, by rw [if_neg hmem]; rfl,
        if_neg fun hu => hmem ((h.mem handle).2 hu)⟩

theorem handleRun_of_rel (h : PoolRel chain used) (ops : List HandleOp) :
    (∃ a, handleRun chain ops = .error a ∧ poolRun used ops = .error a) ∨
      ∃ o chain' used', handleRun chain ops = .ok (o, chain') ∧ poolRun used ops = .ok (o, used') ∧
        PoolRel chain' used' := by
  induction ops generalizing chain used with
  | nil => exact .inr ⟨[], chain, used, rfl, rfl, h⟩
  | cons op ops ih =>
    rw [handleRun, poolRun]
    rcases handleStep_refines h op with ⟨a, hs, hp⟩ | ⟨o, chain', used', hs, hp, hrel⟩
    · rw [hs, hp]
      exact .inl ⟨a, rfl, rfl⟩
    · rw [hs, hp]
      simp only [Except.bind]
      rcases ih hrel with ⟨a, hs, hp⟩ | ⟨os, chain', used', hs, hp, hrel⟩
      · rw [hs, hp]
        exact .inl ⟨a, rfl, rfl⟩
      · rw [hs, hp]
        exact .inr ⟨o :: os, chain', used', rfl, rfl, hrel⟩

theorem PoolRel.empty : PoolRel [] ∅ := by
  refine ⟨⟨List.Pairwise.nil, ?_⟩, ?_, ?_⟩ <;> simp

/-- An allocation fails if and only if all handles are in use. -/
theorem PoolRel.alloc_error_iff (h : PoolRel chain used) :
    nvrmHandleAlloc chain = .error .outOfHandles ↔ maxHandle ≤ chain.length := by
  have hcard : used.card = chain.length := by rw [h.sort_eq, Finset.length_sort]
  have hsub : used ⊆ Finset.Icc 1 maxHandle := by
    intro m hm
    rw [← h.mem] at hm
    exact Finset.mem_Icc.2 ⟨h.inOrder.2 m hm, h.le m hm⟩
  unfold nvrmHandleAlloc
  rw [h.walk_eq]
  constructor
  · intro he
    split at he
    · have := leastUnused_le_card used
      omega
    · cases he
  · intro hlen
    have hall : used = Finset.Icc 1 maxHandle := by
      apply Finset.eq_of_subset_of_card_le hsub
      rw [Nat.card_Icc]
      omega
    rw [if_pos]
    by_contra hle
    apply leastUnused_notMem used
    have hmem := Finset.mem_Icc.2 ⟨leastUnused_pos used, Nat.not_lt.1 hle⟩
    exact hall ▸ hmem

/-- **Handles.** Any sequence of calls returns what it returns on a set of numbers from which the
least one that is not in use is taken, and ends in the same way: the chain holds the numbers of
the set in increasing order. After it, an allocation fails if and only if all handles are in use. -/
theorem handleRun_refines (ops : List HandleOp) :
    handleRun [] ops = (poolRun ∅ ops).map (fun r => (r.1, r.2.sort)) ∧
      ∀ handles chain, handleRun [] ops = .ok (handles, chain) →
        (nvrmHandleAlloc chain = .error .outOfHandles ↔ maxHandle ≤ chain.length) := by
  rcases handleRun_of_rel .empty ops with ⟨a, hs, hp⟩ | ⟨o, chain', used', hs, hp, hrel⟩
  · rw [hs, hp]
    refine ⟨rfl, fun handles chain h => ?_⟩
    cases h
  · rw [hs, hp]
    refine ⟨?_, fun handles chain h => ?_⟩
    · rw [hrel.sort_eq]
      rfl
    · obtain ⟨-, rfl⟩ := Prod.mk.inj (Except.ok.inj h)
      exact hrel.alloc_error_iff

end Resch
