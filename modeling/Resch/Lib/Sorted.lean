import Mathlib.Algebra.BigOperators.Group.Finset.Basic
import Mathlib.Algebra.BigOperators.Group.List.Basic
import Mathlib.Algebra.GroupWithZero.Nat
import Mathlib.Order.Basic

/-!
# Lists in decreasing order of a key

* `takeWhile_eq_filter`, `dropWhile_eq_filter`: the parts up to and from a key.
* `sum_filter_add`: a sum over part of a list to which an element is added.
* `mem_take_iff`: the first elements are those that few others come before.
* `sum_le_sum_take`: no choice of as many elements has a larger sum than the first ones.
-/

namespace Resch.Lib

variable {α κ : Type*} [LinearOrder κ] {key : α → κ} {v : κ} {l : List α}

theorem takeWhile_eq_filter (h : l.Pairwise fun a b => key b ≤ key a) :
    l.takeWhile (fun x => decide (v ≤ key x)) = l.filter fun x => decide (v ≤ key x) := by
  induction l with
  | nil => rfl
  | cons a l ih =>
    obtain ⟨ha, hl⟩ := List.pairwise_cons.1 h
    by_cases hv : v ≤ key a
    · rw [List.takeWhile_cons, List.filter_cons, if_pos (decide_eq_true hv),
        if_pos (decide_eq_true hv), ih hl]
    · have hno : ¬ decide (v ≤ key a) = true := by simpa using hv
      rw [List.takeWhile_cons, List.filter_cons, if_neg hno, if_neg hno, eq_comm,
        List.filter_eq_nil_iff]
      intro b hb hvb
      exact hv ((of_decide_eq_true hvb).trans (ha b hb))

theorem dropWhile_eq_filter (h : l.Pairwise fun a b => key b ≤ key a) :
    l.dropWhile (fun x => decide (v < key x)) = l.filter fun x => decide (key x ≤ v) := by
  induction l with
  | nil => rfl
  | cons a l ih =>
    obtain ⟨ha, hl⟩ := List.pairwise_cons.1 h
    by_cases hv : v < key a
    · have hno : ¬ decide (key a ≤ v) = true := by simpa using hv
      rw [List.dropWhile_cons, List.filter_cons, if_pos (decide_eq_true hv), if_neg hno, ih hl]
    · have hle : key a ≤ v := not_lt.1 hv
      rw [List.dropWhile_cons, if_neg (by simpa using hle), eq_comm, List.filter_eq_self]
      intro b hb
      rcases List.mem_cons.1 hb with rfl | hb
      · exact decide_eq_true hle
      · exact decide_eq_true ((ha b hb).trans hle)

theorem mem_takeWhile_sorted {x : α} (h : l.Pairwise fun a b => key b ≤ key a) (hx : x ∈ l)
    (hv : v ≤ key x) : x ∈ l.takeWhile fun y => decide (v ≤ key y) := by
  rw [takeWhile_eq_filter h]
  exact List.mem_filter.2 ⟨hx, decide_eq_true hv⟩

/-- One more element counts in the sum, with a value of its own. -/
theorem sum_filter_add {q q' : α → Bool} {f f' : α → ℕ} {x : α} (hl : l.Nodup) (hx : x ∈ l)
    (hq : q x = false) (hq' : q' x = true) (hsame : ∀ y, y ≠ x → q' y = q y ∧ f' y = f y) :
    ((l.filter q').map f').sum = ((l.filter q).map f).sum + f' x := by
  have hrest : ∀ {l : List α}, x ∉ l → ((l.filter q').map f').sum = ((l.filter q).map f).sum := by
    intro l hx
    have hne : ∀ y ∈ l, y ≠ x := by
      rintro y hy rfl
      exact hx hy
    rw [List.filter_congr fun y hy => (hsame y (hne y hy)).1,
      List.map_congr_left fun y hy => (hsame y (hne y (List.mem_of_mem_filter hy))).2]
  induction l with
  | nil => cases hx
  | cons a l ih =>
    obtain ⟨ha, hl⟩ := List.nodup_cons.1 hl
    rcases List.mem_cons.1 hx with rfl | hx
    · rw [List.filter_cons_of_pos hq', List.filter_cons_of_neg (by rw [hq]; decide), List.map_cons,
        List.sum_cons, hrest ha, Nat.add_comm]
    · obtain ⟨hqa, hfa⟩ := hsame a (by rintro rfl; exact ha hx)
      by_cases hqt : q a = true
      · rw [List.filter_cons_of_pos (hqa.trans hqt), List.filter_cons_of_pos hqt, List.map_cons,
          List.map_cons, List.sum_cons, List.sum_cons, hfa, ih hl hx, Nat.add_assoc]
      · rw [List.filter_cons_of_neg (by rw [hqa]; exact hqt), List.filter_cons_of_neg hqt, ih hl hx]

/-- **The first `n` elements** of a list in a strict order are those with fewer than `n` before
them. -/
theorem mem_take_iff {r : α → α → Prop} [DecidableRel r] (hr : ∀ a b, r a b → ¬ r b a)
    (hl : l.Pairwise r) {a : α} (ha : a ∈ l) : ∀ {n : ℕ},
      a ∈ l.take n ↔ (l.filter fun b => decide (r b a)).length < n := by
  induction l with
  | nil => exact absurd ha List.not_mem_nil
  | cons b l ih =>
    intro n
    obtain ⟨hb, hl⟩ := List.pairwise_cons.1 hl
    rcases List.mem_cons.1 ha with rfl | hal
    · -- nothing comes before the head
      have hnone : ((a :: l).filter fun b => decide (r b a)) = [] := by
        refine List.filter_eq_nil_iff.2 fun x hx => ?_
        rw [decide_eq_true_eq]
        rcases List.mem_cons.1 hx with rfl | hx
        · exact fun h => hr x x h h
        · exact hr a x (hb x hx)
      rw [hnone]
      cases n with
      | zero => exact ⟨fun h => absurd h List.not_mem_nil, fun h => absurd h (lt_irrefl 0)⟩
      | succ n => exact ⟨fun _ => Nat.succ_pos n, fun _ => List.mem_cons_self⟩
    · have hne : a ≠ b := by
        rintro rfl
        exact hr a a (hb a hal) (hb a hal)
      rw [List.filter_cons_of_pos (p := fun b => decide (r b a)) (decide_eq_true (hb a hal)),
        List.length_cons]
      cases n with
      | zero => exact ⟨fun h => absurd h List.not_mem_nil, fun h => absurd h (Nat.not_lt_zero _)⟩
      | succ n =>
        rw [List.take_succ_cons, List.mem_cons, or_iff_right hne, ih hl hal, Nat.succ_lt_succ_iff]

/-- The elements at the front have the largest sum. -/
theorem sum_le_sum_take [DecidableEq α] {f : α → ℕ} (hl : l.Pairwise fun a b => f b ≤ f a) :
    ∀ {n : ℕ} {t : Finset α}, (∀ x ∈ t, x ∈ l) → t.card = n →
      ∑ x ∈ t, f x ≤ ((l.take n).map f).sum := by
  induction l with
  | nil =>
    intro n t ht hcard
    have hempty : t = ∅ := Finset.eq_empty_of_forall_notMem fun x hx => List.not_mem_nil (ht x hx)
    rw [hempty, Finset.sum_empty]
    exact Nat.zero_le _
  | cons a l ih =>
    intro n t ht hcard
    obtain ⟨ha, hl⟩ := List.pairwise_cons.1 hl
    rcases Nat.eq_zero_or_pos n with rfl | hn
    · rw [Finset.card_eq_zero.1 hcard, Finset.sum_empty]
      exact Nat.zero_le _
    · -- The element given up for `a` is `a` itself if it was chosen, and any other one if not.
      obtain ⟨x, hx, hrest⟩ : ∃ x ∈ t, ∀ y ∈ t.erase x, y ∈ l := by
        by_cases hat : a ∈ t
        · refine ⟨a, hat, fun y hy => ?_⟩
          exact (List.mem_cons.1 (ht y (Finset.mem_of_mem_erase hy))).resolve_left
            (Finset.ne_of_mem_erase hy)
        · obtain ⟨x, hx⟩ := Finset.card_pos.1 (hcard ▸ hn)
          refine ⟨x, hx, fun y hy => ?_⟩
          have hy := Finset.mem_of_mem_erase hy
          refine (List.mem_cons.1 (ht y hy)).resolve_left ?_
          rintro rfl
          exact hat hy
      -- it costs no more than `a`
      have hfx : f x ≤ f a := by
        rcases List.mem_cons.1 (ht x hx) with rfl | hxl
        · exact le_rfl
        · exact ha x hxl
      obtain ⟨m, rfl⟩ : ∃ m, n = m + 1 := ⟨n - 1, by omega⟩
      have hle := ih hl hrest (by rw [Finset.card_erase_of_mem hx, hcard, Nat.add_sub_cancel])
      rw [List.take_succ_cons, List.map_cons, List.sum_cons, ← Finset.add_sum_erase t f hx]
      omega

end Resch.Lib
