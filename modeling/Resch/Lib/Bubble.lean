import Mathlib.Data.List.Perm.Basic
import Mathlib.Order.Lattice

/-!
# Bubble sort

An array is sorted in place, by exchanges of neighbours from its end to its front.

* `bubble_front`, `bubble_filter`: a turn of the outer loop brings an element with the least key to the
  front, and leaves elements of one key in their order.
* `bubbleArray_eq`: the loops on the array.
* `bubbleArray_sorted`, `bubbleArray_filter`: the array is sorted, and elements of one key are in the
  order in which they were.
* `bubbleArray_pairwise`: so any order of the elements stays among those of one key.
* `exchangeAt_perm`, `exchangeDownTo_perm`: the elements are the same after each exchange.
-/

namespace Resch.Lib

variable {α κ : Type*} [LinearOrder κ] {key : α → κ} {v : κ} {l : List α} {y : α} {ys : List α}

/-- What a turn of the outer loop leaves of the elements that are not sorted yet -/
def bubble (key : α → κ) : List α → List α
  | [] => []
  | x :: xs => match bubble key xs with
    | [] => [x]
    | y :: ys => if key y < key x then y :: x :: ys else x :: y :: ys

/-- `n` turns -/
def bubbleSort (key : α → κ) : ℕ → List α → List α
  | 0, l => l
  | n + 1, l => match bubble key l with
    | [] => []
    | y :: ys => y :: bubbleSort key n ys

/-- The body of the inner loop -/
def exchangeAt (key : α → κ) (l : List α) (j : ℕ) : List α :=
  match l[j - 1]?, l[j]? with
  | some a, some b => if key b < key a then (l.set j a).set (j - 1) b else l
  | _, _ => l

/-- The inner loop, with `j` from the last index down to `i + 1` -/
def exchangeDownTo (key : α → κ) (l : List α) (i : ℕ) : List α :=
  (List.range' (i + 1) (l.length - 1 - i)).reverse.foldl (exchangeAt key) l

/-- The outer loop -/
def bubbleArray (key : α → κ) (l : List α) : List α :=
  (List.range (l.length - 1)).foldl (exchangeDownTo key) l

/-! ## Turns -/

theorem bubble_perm (key : α → κ) (l : List α) : (bubble key l).Perm l := by
  induction l with
  | nil => exact .refl []
  | cons x xs ih =>
    rw [bubble]
    cases h : bubble key xs with
    | nil =>
      rw [h] at ih
      rw [ih.symm.eq_nil]
    | cons y ys =>
      rw [h] at ih
      dsimp only
      split
      · exact (List.Perm.swap x y ys).trans (ih.cons x)
      · exact ih.cons x

/-- **An element with the least key comes to the front.** -/
theorem bubble_front (h : bubble key l = y :: ys) : ∀ b ∈ ys, key y ≤ key b := by
  induction l generalizing y ys with
  | nil => cases h
  | cons x xs ih =>
    rw [bubble] at h
    cases hrest : bubble key xs with
    | nil =>
      rw [hrest] at h
      obtain ⟨-, rfl⟩ := List.cons.inj h
      exact fun b hb => absurd hb List.not_mem_nil
    | cons z zs =>
      have hz := ih hrest
      rw [hrest] at h
      dsimp only at h
      intro b hb
      split at h
      · rename_i hlt
        obtain ⟨rfl, rfl⟩ := List.cons.inj h
        rcases List.mem_cons.1 hb with rfl | hb
        · exact hlt.le
        · exact hz b hb
      · rename_i hle
        obtain ⟨rfl, rfl⟩ := List.cons.inj h
        rcases List.mem_cons.1 hb with rfl | hb
        · exact not_lt.1 hle
        · exact (not_lt.1 hle).trans (hz b hb)

/-- **Elements of one key keep their order.** -/
theorem bubble_filter (key : α → κ) (v : κ) (l : List α) :
    (bubble key l).filter (fun a => decide (key a = v)) = l.filter fun a => decide (key a = v) := by
  induction l with
  | nil => rfl
  | cons x xs ih =>
    rw [bubble, List.filter_cons, ← ih]
    cases bubble key xs with
    | nil => exact List.filter_cons
    | cons y ys =>
      dsimp only
      split
      · rename_i hlt
        -- only one of the two has the key
        rw [List.filter_cons, List.filter_cons, List.filter_cons]
        by_cases hx : key x = v
        · have hy : key y ≠ v := fun hy => hlt.ne (hy.trans hx.symm)
          rw [if_neg (by rwa [decide_eq_true_iff])]
          rw [if_neg (c := decide (key y = v) = true) (by rwa [decide_eq_true_iff])]
        · rw [if_neg (c := decide (key x = v) = true) (by rwa [decide_eq_true_iff])]
          rw [if_neg (c := decide (key x = v) = true) (by rwa [decide_eq_true_iff])]
      · exact List.filter_cons

theorem bubbleSort_perm (key : α → κ) : ∀ (n : ℕ) (l : List α), (bubbleSort key n l).Perm l := by
  intro n
  induction n with
  | zero => exact fun l => .refl l
  | succ n ih =>
    intro l
    have hperm := bubble_perm key l
    rw [bubbleSort]
    cases h : bubble key l with
    | nil =>
      rw [h] at hperm
      exact hperm
    | cons y ys =>
      rw [h] at hperm
      exact ((ih ys).cons y).trans hperm

theorem bubbleSort_sorted : ∀ {n : ℕ} {l : List α}, l.length ≤ n + 1 →
    (bubbleSort key n l).Pairwise fun a b => key a ≤ key b := by
  intro n
  induction n with
  | zero =>
    intro l hlen
    rcases l with _ | ⟨a, _ | ⟨b, l⟩⟩
    · exact .nil
    · exact List.pairwise_singleton _ _
    · simp only [List.length_cons] at hlen
      omega
  | succ n ih =>
    intro l hlen
    have hperm := (bubble_perm key l).length_eq
    rw [bubbleSort]
    cases h : bubble key l with
    | nil => exact .nil
    | cons y ys =>
      rw [h, List.length_cons] at hperm
      refine List.pairwise_cons.2 ⟨fun b hb => ?_, ih (by omega)⟩
      exact bubble_front h b ((bubbleSort_perm key n ys).mem_iff.1 hb)

theorem bubbleSort_filter (key : α → κ) (v : κ) : ∀ (n : ℕ) (l : List α),
    (bubbleSort key n l).filter (fun a => decide (key a = v)) =
      l.filter fun a => decide (key a = v) := by
  intro n
  induction n with
  | zero => exact fun l => rfl
  | succ n ih =>
    intro l
    have hfilter := bubble_filter key v l
    rw [bubbleSort]
    cases h : bubble key l with
    | nil =>
      rw [h] at hfilter
      exact hfilter
    | cons y ys =>
      rw [h] at hfilter
      rw [← hfilter, List.filter_cons, ih ys]
      exact (List.filter_cons (p := fun a => decide (key a = v))).symm

/-! ## The array -/

/-- The exchange of two neighbours behind any elements -/
theorem exchangeAt_append {before after : List α} {a b : α} :
    exchangeAt key (before ++ a :: b :: after) (before.length + 1) =
      before ++ if key b < key a then b :: a :: after else a :: b :: after := by
  have ha : (before ++ a :: b :: after)[before.length + 1 - 1]? = some a := by simp
  have hb : (before ++ a :: b :: after)[before.length + 1]? = some b := by simp
  unfold exchangeAt
  rw [ha, hb]
  dsimp only
  split <;> simp

theorem exchangeAt_perm (key : α → κ) (l : List α) (j : ℕ) : (exchangeAt key l j).Perm l := by
  rcases j with _ | j
  · -- an element is not exchanged with itself
    unfold exchangeAt
    rw [Nat.zero_sub]
    cases l[0]? with
    | none => exact .refl l
    | some a =>
      dsimp only
      rw [if_neg (lt_irrefl (key a))]
  by_cases hj : j + 1 < l.length
  · have hsplit : l = l.take j ++ l[j] :: l[j + 1] :: l.drop (j + 2) := by
      rw [← List.drop_eq_getElem_cons, ← List.drop_eq_getElem_cons, List.take_append_drop]
    have hlen : (l.take j).length = j := by
      rw [List.length_take]
      omega
    have hexch := @exchangeAt_append _ _ _ key (l.take j) (l.drop (j + 2)) l[j] l[j + 1]
    rw [← hsplit, hlen] at hexch
    rw [hexch]
    split
    · refine List.Perm.trans ?_ (List.Perm.of_eq hsplit.symm)
      exact (List.Perm.swap ..).append_left _
    · exact .of_eq hsplit.symm
  · have hnone : l[j + 1]? = none := List.getElem?_eq_none (by omega)
    unfold exchangeAt
    rw [hnone]
    cases l[j + 1 - 1]? with
    | none => exact .refl l
    | some a => exact .refl l

theorem exchangeDownTo_perm (key : α → κ) (l : List α) (i : ℕ) : (exchangeDownTo key l i).Perm l := by
  unfold exchangeDownTo
  generalize (List.range' (i + 1) (l.length - 1 - i)).reverse = js
  induction js generalizing l with
  | nil => exact .refl l
  | cons j js ih => exact (ih _).trans (exchangeAt_perm key l j)

/-- The inner loop over the last elements of the array -/
theorem foldl_exchangeAt_append : ∀ (l before : List α),
    (List.range' (before.length + 1) (l.length - 1)).reverse.foldl (exchangeAt key) (before ++ l) =
      before ++ bubble key l := by
  intro l
  induction l with
  | nil => exact fun _ => rfl
  | cons a l ih =>
    intro before
    cases l with
    | nil => rfl
    | cons b l =>
      have hrest := ih (before ++ [a])
      rw [List.length_append, List.length_singleton, List.append_assoc, List.append_assoc,
        List.singleton_append, List.singleton_append, List.length_cons, Nat.add_sub_cancel] at hrest
      obtain ⟨y, ys, hpass⟩ : ∃ y ys, bubble key (b :: l) = y :: ys :=
        List.exists_cons_of_length_eq_add_one (bubble_perm key _).length_eq
      rw [hpass] at hrest
      rw [List.length_cons, List.length_cons, Nat.add_sub_cancel, List.range'_succ, List.reverse_cons,
        List.foldl_append, hrest, List.foldl_cons, List.foldl_nil, exchangeAt_append, bubble, hpass]

theorem exchangeDownTo_append (before l : List α) :
    exchangeDownTo key (before ++ l) before.length = before ++ bubble key l := by
  unfold exchangeDownTo
  rw [← foldl_exchangeAt_append, List.length_append,
    show before.length + l.length - 1 - before.length = l.length - 1 by omega]

/-- The outer loop, with `n` turns left -/
theorem foldl_exchangeDownTo_append (key : α → κ) : ∀ (n : ℕ) (before l : List α), n ≤ l.length →
    (List.range' before.length n).foldl (exchangeDownTo key) (before ++ l) =
      before ++ bubbleSort key n l := by
  intro n
  induction n with
  | zero => exact fun _ _ _ => rfl
  | succ n ih =>
    intro before l hn
    have hperm := (bubble_perm key l).length_eq
    rw [List.range'_succ, List.foldl_cons, exchangeDownTo_append, bubbleSort]
    cases h : bubble key l with
    | nil =>
      rw [h, List.length_nil] at hperm
      omega
    | cons y ys =>
      rw [h, List.length_cons] at hperm
      have hrest := ih (before ++ [y]) ys (by omega)
      rw [List.length_append, List.length_singleton, List.append_assoc, List.append_assoc] at hrest
      exact hrest

theorem bubbleArray_eq (key : α → κ) (l : List α) :
    bubbleArray key l = bubbleSort key (l.length - 1) l := by
  have hloop := foldl_exchangeDownTo_append key (l.length - 1) [] l (by omega)
  rw [List.nil_append, List.length_nil, ← List.range_eq_range'] at hloop
  exact hloop

theorem bubbleArray_perm (key : α → κ) (l : List α) : (bubbleArray key l).Perm l := by
  rw [bubbleArray_eq]
  exact bubbleSort_perm key _ l

/-- **The array is sorted.** -/
theorem bubbleArray_sorted (key : α → κ) (l : List α) :
    (bubbleArray key l).Pairwise fun a b => key a ≤ key b := by
  rw [bubbleArray_eq]
  exact bubbleSort_sorted (by omega)

/-- **The sort is stable.** -/
theorem bubbleArray_filter (key : α → κ) (v : κ) (l : List α) :
    (bubbleArray key l).filter (fun a => decide (key a = v)) = l.filter fun a => decide (key a = v) := by
  rw [bubbleArray_eq]
  exact bubbleSort_filter key v _ l

/-- Any order of the elements is kept among those of one key. -/
theorem bubbleArray_pairwise {R : α → α → Prop} (key : α → κ) (h : l.Pairwise R) :
    (bubbleArray key l).Pairwise fun a b => key a = key b → R a b := by
  rw [List.pairwise_iff_forall_sublist] at h ⊢
  intro a b hab heq
  have hboth : [a, b].filter (fun x => decide (key x = key b)) = [a, b] :=
    List.filter_eq_self.2 (by simp [heq])
  have hsub := hab.filter fun x => decide (key x = key b)
  rw [bubbleArray_filter, hboth] at hsub
  exact h (hsub.trans List.filter_sublist)

end Resch.Lib
