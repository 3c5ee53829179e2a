import Mathlib.Algebra.BigOperators.Group.Multiset.Defs
import Mathlib.Algebra.Order.Group.Multiset
import Mathlib.Tactic.Abel

/-!
# Accounts of what a program holds

A program goes from state to state, and may stop with an error. What it holds can be read off the
state. `Owns A P m Q` says that `m` turns `P` into `Q` of its result, and leaves whatever else is
held as it is.

* `Owns.call`: a program that begins with another one takes from what it holds what that one needs;
  `Owns.get` and `Owns.give` are for programs that only get something, or only give it back.
* `Owns.forM`: a loop.
* `Owns.foldlM`: the same for steps that take the state of a client along.
-/

namespace Resch.Lib

variable {σ ρ ε α β τ : Type}

/-- What is held in a state, which states can occur, and which errors. -/
structure Account (σ ρ ε : Type) where
  held : σ → Multiset ρ
  Good : σ → Prop
  Allowed : ε → Prop

/-- **The triple** of an account -/
def Owns (A : Account σ ρ ε) (P : Multiset ρ) (m : StateT σ (Except ε) α) (Q : α → Multiset ρ) :
    Prop :=
  ∀ s F, A.Good s → A.held s = P + F →
    (∀ e, m s = .error e → A.Allowed e) ∧
      ∀ a s', m s = .ok (a, s') → A.Good s' ∧ A.held s' = Q a + F

variable {A : Account σ ρ ε} {P P' R : Multiset ρ} {m : StateT σ (Except ε) α}
  {f : α → StateT σ (Except ε) β} {Q : α → Multiset ρ} {Q' : β → Multiset ρ}

theorem Owns.pure {a : α} (h : P = Q a) : Owns A P (pure a) Q := by
  intro s F hs hF
  refine ⟨fun e he => ?_, fun a' s' hok => ?_⟩
  · cases he
  · obtain ⟨rfl, rfl⟩ := Prod.mk.inj (Except.ok.inj hok)
    exact ⟨hs, by rw [hF, h]⟩

theorem Owns.throw {e : ε} (h : A.Allowed e) : Owns A P (throw e : StateT σ (Except ε) α) Q := by
  rintro s F - -
  refine ⟨fun e' he => ?_, fun a s' hok => ?_⟩
  · cases he
    exact h
  · cases hok

theorem Owns.bind (hm : Owns A P m Q) (hf : ∀ a, Owns A (Q a) (f a) Q') : Owns A P (m >>= f) Q' := by
  intro s F hs hF
  obtain ⟨herr, hok⟩ := hm s F hs hF
  have hrun : (m >>= f) s = (m s).bind fun r => f r.1 r.2 := rfl
  rw [hrun]
  cases hms : m s with
  | error e =>
    refine ⟨fun e' he => ?_, fun b s' h => ?_⟩
    · cases he
      exact herr e hms
    · cases h
  | ok r =>
    obtain ⟨hs', hF'⟩ := hok r.1 r.2 hms
    exact hf r.1 r.2 F hs' hF'

/-- What a program does not need stays. -/
theorem Owns.frame (hm : Owns A P m Q) (R : Multiset ρ) :
    Owns A (P + R) m fun a => Q a + R := by
  intro s F hs hF
  rw [Multiset.add_assoc] at hF
  obtain ⟨herr, hok⟩ := hm s (R + F) hs hF
  refine ⟨herr, fun a s' h => ?_⟩
  obtain ⟨hs', hF'⟩ := hok a s' h
  exact ⟨hs', by rw [hF', Multiset.add_assoc]⟩

/-- **The rule for calls.** Of what is held, `R` is not for the program called. -/
theorem Owns.call (hm : Owns A P m Q) (hP : P' = P + R) (hf : ∀ a, Owns A (Q a + R) (f a) Q') :
    Owns A P' (m >>= f) Q' := by
  subst hP
  exact (hm.frame R).bind hf

/-- A program that begins with getting something -/
theorem Owns.get (hm : Owns A 0 m Q) (hf : ∀ a, Owns A (Q a + P) (f a) Q') :
    Owns A P (m >>= f) Q' :=
  hm.call (zero_add P).symm hf

/-- A program that begins with giving something back -/
theorem Owns.give (hm : Owns A P m fun _ => 0) (hf : ∀ a, Owns A R (f a) Q') :
    Owns A (P + R) (m >>= f) Q' :=
  hm.call rfl fun a => by rw [zero_add]; exact hf a

theorem Owns.of_eq (h : P = P') (hm : Owns A P' m Q) : Owns A P m Q := h ▸ hm

theorem Owns.conseq (hm : Owns A P m Q) (hP : P' = P + R) {Q' : α → Multiset ρ}
    (hQ : ∀ a, Q a + R = Q' a) : Owns A P' m Q' := by
  subst hP
  have hframe := hm.frame R
  rwa [funext hQ] at hframe

theorem Owns.ite {p : Prop} [Decidable p] {m' : StateT σ (Except ε) α} (h : p → Owns A P m Q)
    (h' : ¬p → Owns A P m' Q) : Owns A P (if p then m else m') Q := by
  split
  · rename_i hp
    exact h hp
  · rename_i hp
    exact h' hp

/-- A loop whose turns each use up what they are given. -/
theorem Owns.forM {g : β → StateT σ (Except ε) PUnit} {G : β → Multiset ρ} {l : List β}
    (h : ∀ b ∈ l, Owns A (G b) (g b) fun _ => 0) : Owns A (l.map G).sum (l.forM g) fun _ => 0 := by
  induction l with
  | nil => exact .pure (by simp)
  | cons b l ih =>
    change Owns A _ (g b >>= fun _ => l.forM g) _
    refine (h b List.mem_cons_self).call (R := (l.map G).sum) (by simp) fun _ => ?_
    rw [zero_add]
    exact ih fun b hb => h b (List.mem_cons_of_mem _ hb)

/-- A run of steps of a client, whose own state says what it holds. -/
theorem Owns.foldlM {step : τ → β → StateT σ (Except ε) τ} {G : τ → Multiset ρ} {bs : List β}
    (h : ∀ b ∈ bs, ∀ t, Owns A (G t) (step t b) G) (t : τ) :
    Owns A (G t) (bs.foldlM step t) G := by
  induction bs generalizing t with
  | nil => exact .pure rfl
  | cons b bs ih =>
    rw [List.foldlM_cons]
    exact (h b List.mem_cons_self t).bind (ih fun b' hb' => h b' (List.mem_cons_of_mem _ hb'))

end Resch.Lib
