import Mathlib.Algebra.Group.Nat.Defs
import Mathlib.Data.Nat.Notation
import Mathlib.Tactic.Push

/-!
# The order of words under a common offset

Words of `w` bits are compared as naturals. Adding `k` to both sides of a comparison can turn it
over when one of the sums wraps around and the other does not.

* `Together k x y`: both sums wrap around, or neither does.
* `add_lt_add_iff`: the comparison stays as it is exactly then.
* `findIdx_eq_findIdx_iff`: two searches in a list stop at one place iff the tests agree on what
  the first one looks at.
-/

namespace Resch.Lib

variable {w : ℕ}

/-- Adding `k` does not separate `x` and `y`. -/
def Together (k x y : BitVec w) : Prop := x.uaddOverflow k = y.uaddOverflow k

instance (k x y : BitVec w) : Decidable (Together k x y) := inferInstanceAs (Decidable (_ = _))

/-- Two words lie within half the range of each other. -/
def Near (x y : BitVec w) : Prop := (x - y).toNat < 2 ^ (w - 1) ∨ (y - x).toNat < 2 ^ (w - 1)

instance (x y : BitVec w) : Decidable (Near x y) := inferInstanceAs (Decidable (_ ∨ _))

theorem toNat_add_cases (x k : BitVec w) :
    (x.uaddOverflow k = false ∧ (x + k).toNat = x.toNat + k.toNat) ∨
      (x.uaddOverflow k = true ∧ (x + k).toNat + 2 ^ w = x.toNat + k.toNat) := by
  have hx := x.isLt
  have hk := k.isLt
  rw [BitVec.toNat_add]
  unfold BitVec.uaddOverflow
  by_cases h : x.toNat + k.toNat < 2 ^ w
  · refine Or.inl ⟨decide_eq_false (by omega), Nat.mod_eq_of_lt h⟩
  · refine Or.inr ⟨decide_eq_true (by omega), ?_⟩
    rw [Nat.mod_eq_sub_mod (by omega), Nat.mod_eq_of_lt (by omega)]
    omega

/-- **A comparison under an offset.** -/
theorem add_lt_add_iff (k x y : BitVec w) : (x + k < y + k ↔ x < y) ↔ Together k x y := by
  have hx := x.isLt
  have hy := y.isLt
  unfold Together
  rw [BitVec.lt_def, BitVec.lt_def]
  rcases toNat_add_cases x k with ⟨hcx, hx'⟩ | ⟨hcx, hx'⟩ <;>
    rcases toNat_add_cases y k with ⟨hcy, hy'⟩ | ⟨hcy, hy'⟩ <;> rw [hcx, hcy]
  · exact iff_of_true (by omega) rfl
  · -- only the right side wraps around, so it was the greater one and is the smaller one now
    exact iff_of_false (by omega) nofun
  · exact iff_of_false (by omega) nofun
  · exact iff_of_true (by omega) rfl

theorem add_le_add_iff (k x y : BitVec w) : (x + k ≤ y + k ↔ x ≤ y) ↔ Together k x y := by
  rw [← BitVec.not_lt, ← BitVec.not_lt, not_iff_not, add_lt_add_iff]
  exact eq_comm

/-! ## Searches -/

variable {α : Type*}

/-- The entries that a search for the first one with `p` looks at -/
def looked (p : α → Bool) : List α → List α
  | [] => []
  | y :: l => if p y then [y] else y :: looked p l

theorem findIdx_eq_findIdx_iff {p q : α → Bool} {l : List α} :
    l.findIdx q = l.findIdx p ↔ ∀ y ∈ looked p l, (q y ↔ p y) := by
  induction l with
  | nil => simp [looked]
  | cons y l ih =>
    rw [List.findIdx_cons, List.findIdx_cons]
    unfold looked
    by_cases hp : p y = true
    · by_cases hq : q y = true <;> simp [hp, hq]
    · by_cases hq : q y = true
      · simp [hp, hq]
      · simp [hp, hq, ih]

end Resch.Lib
