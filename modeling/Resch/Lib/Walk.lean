import Mathlib.Data.List.Basic
import Mathlib.Data.List.Nodup
import Mathlib.Data.Nat.Notation

/-!
# Following links

`Follows next l` says that the links `next` lead through the entries of `l` in order and end after
the last one.

* `visited_eq_take_iff`: this is what it takes for every walk from the first entry to see the entries
  of `l` and no others.
* `Follows.inverse`: links forward through a list and back through it are inverse to each other.
-/

namespace Resch.Lib

variable {α : Type*} {next prev : α → Option α} {l l' : List α} {x y : α}

/-- The first entries that one sees when one goes on from `start`. -/
def visited (next : α → Option α) : ℕ → Option α → List α
  | 0, _ => []
  | _ + 1, none => []
  | n + 1, some x => x :: visited next n (next x)

def Follows (next : α → Option α) : List α → Prop
  | [] => True
  | x :: l => next x = l.head? ∧ Follows next l

theorem Follows.visited_eq (h : Follows next l) (n : ℕ) : visited next n l.head? = l.take n := by
  induction l generalizing n with
  | nil => cases n <;> rfl
  | cons x l ih =>
    cases n with
    | zero => rfl
    | succ n =>
      rw [List.head?_cons, visited, h.1, ih h.2, List.take_succ_cons]

theorem visited_eq_take_iff : (∀ n, visited next n l.head? = l.take n) ↔ Follows next l := by
  refine ⟨fun h => ?_, fun h n => h.visited_eq n⟩
  induction l with
  | nil => trivial
  | cons x l ih =>
    have hstep : ∀ n, visited next n (next x) = l.take n := by
      intro n
      have hn := h (n + 1)
      rw [List.head?_cons, visited, List.take_succ_cons] at hn
      exact (List.cons.inj hn).2
    have hnext : next x = l.head? := by
      have h1 := hstep 1
      cases hx : next x with
      | none =>
        rw [hx] at h1
        cases l with
        | nil => rfl
        | cons y l => cases h1
      | some y =>
        rw [hx] at h1
        cases l with
        | nil => cases h1
        | cons z l =>
          rw [List.head?_cons, (List.cons.inj h1).1]
    refine ⟨hnext, ih fun n => ?_⟩
    rw [← hnext]
    exact hstep n

/-- The link after one entry, with the entries around it. -/
theorem Follows.next_eq (h : Follows next l) {a b : List α} (hl : l = a ++ x :: b) :
    next x = b.head? := by
  induction a generalizing l with
  | nil =>
    subst hl
    exact h.1
  | cons z a ih =>
    subst hl
    exact ih h.2 rfl

theorem Follows.append (h' : Follows next l')
    (h : ∀ a x b, l = a ++ x :: b → next x = (b ++ l').head?) : Follows next (l ++ l') := by
  induction l with
  | nil => exact h'
  | cons x l ih =>
    exact ⟨h [] x l rfl, ih fun a y b hl => h (x :: a) y b (congrArg (x :: ·) hl)⟩

/-- The next entry of `x` is `y`. -/
theorem Follows.split (h : Follows next l) (hx : x ∈ l) (hxy : next x = some y) :
    ∃ a b, l = a ++ x :: y :: b := by
  obtain ⟨a, b, hl⟩ := List.append_of_mem hx
  have hb := h.next_eq hl
  rw [hxy] at hb
  cases b with
  | nil => cases hb
  | cons z b =>
    rw [List.head?_cons, Option.some.injEq] at hb
    subst hb
    exact ⟨a, b, hl⟩

/-- **Links in both directions.** -/
theorem Follows.inverse (h : Follows next l) (h' : Follows prev l.reverse) (hx : x ∈ l)
    (hy : y ∈ l) : next x = some y ↔ prev y = some x := by
  constructor
  · intro hxy
    obtain ⟨a, b, hl⟩ := h.split hx hxy
    have hr : l.reverse = b.reverse ++ y :: x :: a.reverse := by
      rw [hl]
      simp
    exact h'.next_eq hr
  · intro hyx
    obtain ⟨a, b, hr⟩ := h'.split (List.mem_reverse.2 hy) hyx
    have hl : l = b.reverse ++ x :: y :: a.reverse := by
      rw [← List.reverse_reverse l, hr]
      simp
    exact h.next_eq hl

/-- An entry is not seen again. -/
theorem Follows.not_back (h : Follows next l) (hl : l.Nodup) {a b : List α}
    (hab : l = a ++ x :: b) (hy : y ∈ a ++ [x]) : next x ≠ some y := by
  intro hxy
  have hb := h.next_eq hab
  rw [hxy] at hb
  have hyb : y ∈ b := List.mem_of_mem_head? hb.symm
  have hsplit : l = (a ++ [x]) ++ b := by
    rw [hab, List.append_assoc, List.singleton_append]
  rw [hsplit, List.nodup_append] at hl
  exact hl.2.2 y hy y hyb rfl

end Resch.Lib
