import Mathlib.Logic.Function.Basic
import Mathlib.Data.List.Count
import Mathlib.Data.List.Nodup
import Resch.Lib.Insert

/-!
# Entries linked into a family of lists

A family of lists `q : κ → List α` in which each entry can be linked at most once,
as intrusive linked lists are. `Placed q place` says where each entry is: `x` occurs
once in `q k` if `place x = some k`, and nowhere else.

* `Placed.insert`: adding an unlinked entry to one list links it there.
* `Placed.unlink`: taking an entry out of whatever list holds it unlinks it.
-/

namespace Resch.Lib

variable {κ α : Type*}

/-- An insertion function adds `x` once and keeps the other entries. -/
def AddsOnce (ins : List α → List α) (x : α) : Prop :=
  ∀ l, (ins l).Perm (x :: l)

theorem addsOnce_append (x : α) : AddsOnce (fun l => l ++ [x]) x :=
  fun _ => List.perm_append_singleton _ _

theorem addsOnce_insertBefore (p : α → Bool) (x : α) : AddsOnce (insertBefore p x) x :=
  insertBefore_perm p x

theorem AddsOnce.ne_nil {ins : List α → List α} {x : α} (h : AddsOnce ins x) (l : List α) :
    ins l ≠ [] := by
  intro hn
  have := (h l).length_eq
  rw [hn] at this; simp at this

theorem AddsOnce.length {ins : List α → List α} {x : α} (h : AddsOnce ins x) (l : List α) :
    (ins l).length = l.length + 1 := by
  rw [(h l).length_eq, List.length_cons]

variable [DecidableEq κ] [DecidableEq α]

/-- **Where each entry is linked.** `place x = none` says that `x` is in no list. -/
def Placed (q : κ → List α) (place : α → Option κ) : Prop :=
  ∀ x k, (q k).count x = if place x = some k then 1 else 0

/-- Take `x` out of every list. -/
def unlinkAll (q : κ → List α) (x : α) : κ → List α := fun k => (q k).filter (· ≠ x)

omit [DecidableEq κ] in
theorem AddsOnce.count {ins : List α → List α} {x : α} (h : AddsOnce ins x) (l : List α) (y : α) :
    (ins l).count y = l.count y + if y = x then 1 else 0 := by
  rw [(h l).count_eq, List.count_cons]
  by_cases hyx : y = x
  · simp [hyx]
  · simp [hyx, Ne.symm hyx]

variable {q : κ → List α} {place : α → Option κ}

theorem Placed.mem_iff (h : Placed q place) {x : α} {k : κ} : x ∈ q k ↔ place x = some k := by
  rw [← List.count_pos_iff, h x k]
  split <;> simp_all

theorem Placed.nodup (h : Placed q place) (k : κ) : (q k).Nodup := by
  rw [List.nodup_iff_count_le_one]
  intro x
  rw [h x k]
  split <;> simp

theorem count_filter_ne (l : List α) (x y : α) :
    (l.filter (· ≠ x)).count y = if y = x then 0 else l.count y := by
  by_cases h : y = x
  · subst h
    rw [if_pos rfl, List.count_eq_zero]
    simp [List.mem_filter]
  · rw [if_neg h, List.count_filter]
    simpa using h

/-- Taking an entry out unlinks it and moves no other. -/
theorem Placed.unlink (h : Placed q place) (x : α) :
    Placed (unlinkAll q x) (Function.update place x none) := by
  intro y k
  unfold unlinkAll
  rw [count_filter_ne, h y k]
  by_cases hyx : y = x
  · simp [hyx]
  · simp [hyx]

/-- An unlinked entry is in no list, so taking it out changes nothing. -/
theorem Placed.unlink_self (h : Placed q place) {x : α} (hx : place x = none) :
    unlinkAll q x = q := by
  funext k
  unfold unlinkAll
  rw [List.filter_eq_self]
  intro y hy
  have hyk := h.mem_iff.1 hy
  have : y ≠ x := by rintro rfl; rw [hx] at hyk; cases hyk
  simpa using this

/-- **Linking an unlinked entry.** -/
theorem Placed.insert (h : Placed q place) {ins : List α → List α} {x : α} (hins : AddsOnce ins x)
    (hx : place x = none) (k : κ) :
    Placed (Function.update q k (ins (q k))) (Function.update place x (some k)) := by
  intro y k'
  by_cases hk : k' = k
  · subst hk
    rw [Function.update_self, hins.count, h y k']
    by_cases hyx : y = x
    · subst hyx; simp [hx]
    · simp [hyx]
  · rw [Function.update_of_ne hk, h y k']
    by_cases hyx : y = x
    · subst hyx; simp [hx, Ne.symm hk]
    · simp [hyx]

end Resch.Lib
