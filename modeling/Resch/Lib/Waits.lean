import Mathlib.Logic.Relation
import Mathlib.Tactic.Common

/-!
# Locks that are held and waited for

`lock l` is the thread that holds `l`, and `wants i` the lock that thread `i` waits for.

* `deadlock_iff`: threads wait for each other in a cycle iff there is a cycle of locks, each
  held by a thread that waits for the next one (`LockEdge`).
* `acyclic_insert_iff`: an edge keeps a graph free of cycles iff no path leads from its end
  back to its start.
-/

namespace Resch.Lib

open Relation

variable {τ l α : Type*} {lock : l → Option τ} {wants : τ → Option l}

/-- `i` waits for a lock that `j` holds. -/
def WaitsFor (lock : l → Option τ) (wants : τ → Option l) (i j : τ) : Prop :=
  ∃ a, wants i = some a ∧ lock a = some j

/-- The holder of `a` waits for `b`. -/
def LockEdge (lock : l → Option τ) (wants : τ → Option l) (a b : l) : Prop :=
  ∃ i, lock a = some i ∧ wants i = some b

/-- No thread waits for itself through others. -/
def Acyclic (r : α → α → Prop) : Prop := ∀ x, ¬ TransGen r x x

theorem Acyclic.mono {r r' : α → α → Prop} (h : Acyclic r) (hr : ∀ a b, r' a b → r a b) :
    Acyclic r' := fun x hx => h x (TransGen.mono hr _ _ hx)

/-- The locks between two threads one of which waits for the other. -/
theorem locks_of_waits {i j : τ} (h : TransGen (WaitsFor lock wants) i j) :
    ∃ a b, wants i = some a ∧ lock b = some j ∧ ReflTransGen (LockEdge lock wants) a b := by
  induction h with
  | single h =>
    obtain ⟨a, hw, hl⟩ := h
    exact ⟨a, a, hw, hl, .refl⟩
  | tail _ h ih =>
    obtain ⟨a, b, hw, hl, hab⟩ := ih
    obtain ⟨b', hw', hl'⟩ := h
    exact ⟨a, b', hw, hl', hab.tail ⟨_, hl, hw'⟩⟩

/-- The threads between two locks. -/
theorem threads_of_edges {a b : l} {j : τ} (h : TransGen (LockEdge lock wants) a b)
    (hj : lock b = some j) : ∃ i, lock a = some i ∧ TransGen (WaitsFor lock wants) i j := by
  induction h generalizing j with
  | single h =>
    obtain ⟨i, hl, hw⟩ := h
    exact ⟨i, hl, .single ⟨_, hw, hj⟩⟩
  | tail _ h ih =>
    obtain ⟨i', hl', hw'⟩ := h
    obtain ⟨i, hl, hi⟩ := ih hl'
    exact ⟨i, hl, hi.tail ⟨_, hw', hj⟩⟩

/-- **Deadlock on threads and on locks.** -/
theorem deadlock_iff : Acyclic (WaitsFor lock wants) ↔ Acyclic (LockEdge lock wants) := by
  constructor
  · intro h a ha
    obtain ⟨i, hi⟩ : ∃ i, lock a = some i := by
      obtain ⟨_, ⟨i, hl, -⟩, -⟩ := TransGen.head'_iff.1 ha
      exact ⟨i, hl⟩
    obtain ⟨i', hi', hw⟩ := threads_of_edges ha hi
    rw [hi, Option.some.injEq] at hi'
    subst hi'
    exact h i hw
  · intro h i hi
    obtain ⟨a, b, hw, hl, hab⟩ := locks_of_waits hi
    exact h b (TransGen.head' ⟨i, hl, hw⟩ hab)

/-- A path that may use the new edge either does not, or leads to the edge and on from it. -/
theorem path_insert {r : α → α → Prop} {u v x y : α}
    (h : TransGen (fun a b => r a b ∨ (a = u ∧ b = v)) x y) :
    TransGen r x y ∨ (ReflTransGen r x u ∧ ReflTransGen r v y) := by
  induction h with
  | single h =>
    rcases h with h | ⟨rfl, rfl⟩
    · exact Or.inl (.single h)
    · exact Or.inr ⟨.refl, .refl⟩
  | tail _ h ih =>
    rcases h with h | ⟨rfl, rfl⟩
    · rcases ih with ih | ⟨hu, hv⟩
      · exact Or.inl (ih.tail h)
      · exact Or.inr ⟨hu, hv.tail h⟩
    · rcases ih with ih | ⟨hu, -⟩
      · exact Or.inr ⟨ih.to_reflTransGen, .refl⟩
      · exact Or.inr ⟨hu, .refl⟩

theorem acyclic_insert_iff {r : α → α → Prop} (hr : Acyclic r) (u v : α) :
    Acyclic (fun a b => r a b ∨ (a = u ∧ b = v)) ↔ ¬ ReflTransGen r v u := by
  constructor
  · intro h hvu
    refine h u (TransGen.head' (Or.inr ⟨rfl, rfl⟩) ?_)
    exact ReflTransGen.mono (fun _ _ => Or.inl) _ _ hvu
  · intro h x hx
    rcases path_insert hx with hx | ⟨hu, hv⟩
    · exact hr x hx
    · exact h (hv.trans hu)

end Resch.Lib
