import Mathlib.Logic.Function.Basic
import Mathlib.Data.Nat.Notation

/-!
# Entries of a circular buffer

Entry `i` of a growing list is kept in slot `i % cap`. `HoldsFrom mem cap l lo` says that the
slots hold the entries of `l` from number `lo` on.

* `HoldsFrom.store`: the next entry can be stored while fewer than `cap` are kept.
* `mod_cases`: the slots of two entries less than `cap` apart, with and without a wrap.
-/

namespace Resch.Lib

variable {α : Type*} {mem : ℕ → α} {cap lo i j : ℕ} {l : List α}

/-- **The slot of a later entry**, with or without a wrap. -/
theorem mod_cases (cap i j : ℕ) (hij : i ≤ j) (hj : j < i + cap) :
    i % cap ≤ j % cap ∧ j % cap = i % cap + (j - i) ∨
      j % cap < i % cap ∧ j % cap + cap = i % cap + (j - i) := by
  have hcap : 0 < cap := by omega
  have hi := Nat.mod_lt i hcap
  have hsum : j % cap = (i % cap + (j - i)) % cap := by
    rw [Nat.mod_add_mod]
    congr 1
    omega
  by_cases hw : i % cap + (j - i) < cap
  · left
    rw [hsum, Nat.mod_eq_of_lt hw]
    omega
  · right
    rw [hsum, Nat.mod_eq_sub_mod (by omega), Nat.mod_eq_of_lt (by omega)]
    omega

/-- Entries less than `cap` apart have different slots. -/
theorem mod_ne_of_lt (cap i j : ℕ) (hij : i < j) (hj : j < i + cap) : i % cap ≠ j % cap := by
  rcases mod_cases cap i j (Nat.le_of_lt hij) hj with ⟨-, h⟩ | ⟨h, -⟩ <;> omega

/-- The slots hold the entries from number `lo` on. -/
def HoldsFrom (mem : ℕ → α) (cap : ℕ) (l : List α) (lo : ℕ) : Prop :=
  ∀ i (h : i < l.length), lo ≤ i → mem (i % cap) = l[i]

theorem HoldsFrom.mono {lo' : ℕ} (h : HoldsFrom mem cap l lo) (hl : lo ≤ lo') :
    HoldsFrom mem cap l lo' := fun i hi hlo => h i hi (Nat.le_trans hl hlo)

/-- **The next entry** takes no slot of an entry that is kept. -/
theorem HoldsFrom.store (h : HoldsFrom mem cap l lo) (hroom : l.length < lo + cap) (x : α) :
    HoldsFrom (Function.update mem (l.length % cap) x) cap (l ++ [x]) lo := by
  intro i hi hlo
  rw [List.length_append, List.length_singleton] at hi
  by_cases he : i = l.length
  · subst he
    rw [Function.update_self, List.getElem_concat_length rfl]
  · have hlt : i < l.length := by omega
    rw [Function.update_of_ne (mod_ne_of_lt cap i l.length hlt (by omega)), List.getElem_append_left hlt]
    exact h i hlt hlo

end Resch.Lib
