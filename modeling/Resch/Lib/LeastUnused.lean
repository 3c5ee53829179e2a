import Mathlib.Data.Finset.Sort
import Mathlib.Order.Interval.Finset.Nat

/-!
# The least number that is not used

Numbers from 1 on are given out, always the least one that is not in the set.

* `leastUnused_le_card`: it is at most one more than there are numbers in use.
* `eq_leastUnused`: what it is characterised by.
* `sort_eq`: a list in increasing order is determined by its elements.
-/

namespace Resch.Lib

variable {S : Finset ℕ} {n : ℕ} {l : List ℕ}

theorem exists_unused (S : Finset ℕ) : ∃ n, 0 < n ∧ n ∉ S := by
  refine ⟨S.sup id + 1, Nat.succ_pos _, fun h => ?_⟩
  have := Finset.le_sup (f := id) h
  simp only [id_eq] at this
  omega

/-- The least positive number that is not in the set -/
def leastUnused (S : Finset ℕ) : ℕ := Nat.find (exists_unused S)

theorem leastUnused_pos (S : Finset ℕ) : 0 < leastUnused S := (Nat.find_spec (exists_unused S)).1

theorem leastUnused_notMem (S : Finset ℕ) : leastUnused S ∉ S := (Nat.find_spec (exists_unused S)).2

theorem mem_of_lt_leastUnused (hpos : 0 < n) (hn : n < leastUnused S) : n ∈ S := by
  by_contra hmem
  exact Nat.find_min (exists_unused S) hn ⟨hpos, hmem⟩

theorem eq_leastUnused (hpos : 0 < n) (hn : n ∉ S) (hlt : ∀ m, 0 < m → m < n → m ∈ S) :
    n = leastUnused S := by
  apply Nat.le_antisymm
  · by_contra hle
    exact leastUnused_notMem S (hlt _ (leastUnused_pos S) (by omega))
  · exact Nat.find_min' (exists_unused S) ⟨hpos, hn⟩

/-- **Numbers stay small.** The numbers below the one that is given out are all in use. -/
theorem leastUnused_le_card (S : Finset ℕ) : leastUnused S ≤ S.card + 1 := by
  have hsub : Finset.Ico 1 (leastUnused S) ⊆ S := by
    intro n hn
    obtain ⟨hpos, hlt⟩ := Finset.mem_Ico.1 hn
    exact mem_of_lt_leastUnused hpos hlt
  have hcard := Finset.card_le_card hsub
  rw [Nat.card_Ico] at hcard
  omega

theorem sort_eq (hl : l.Pairwise (· < ·)) (hS : ∀ n, n ∈ l ↔ n ∈ S) : l = S.sort := by
  have hle : l.Pairwise (· ≤ ·) := hl.imp Nat.le_of_lt
  refine List.Perm.eq_of_pairwise ?_ hle (Finset.pairwise_sort S _) ?_
  · intro a b _ _ hab hba
    omega
  · refine (List.perm_ext_iff_of_nodup (hl.imp Nat.ne_of_lt) (Finset.sort_nodup S _)).2 fun n => ?_
    rw [hS, Finset.mem_sort]

end Resch.Lib
