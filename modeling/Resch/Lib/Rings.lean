import Mathlib.Logic.Function.Basic
import Mathlib.Data.List.Nodup
import Mathlib.Data.List.Perm.Basic

/-!
# Circular doubly linked lists

Nodes with two pointers each, and the operations of an intrusive list. A list is a ring that
goes through its head; only the head has no container.

* `IsRing`: the pointers lead from the head through the given nodes and back, both ways.
* `IsRing.addTail`, `IsRing.addFront`, `IsRing.del`: what the operations make of a ring.
* `IsRing.find`: a walk along the ring is a search in the list.
-/

namespace Resch.Lib

variable {α β : Type*}

/-- The pointers of all nodes. -/
structure Links (α : Type*) where
  next : α → α
  prev : α → α

namespace Links

/-! ## Operations -/

section Operations

variable [DecidableEq α] (r : Links α) (e p h : α)

/-- The node points to itself. -/
def init : Links α where
  next := Function.update r.next e e
  prev := Function.update r.prev e e

/-- `e` is put between `p` and the node after it. -/
def addNext : Links α where
  next := Function.update (Function.update r.next e (r.next p)) p e
  prev := Function.update (Function.update r.prev (r.next p) e) e p

/-- `e` is put between `p` and the node before it. -/
def addPrev : Links α where
  next := Function.update (Function.update r.next (r.prev p) e) e p
  prev := Function.update (Function.update r.prev e (r.prev p)) p e

/-- `e` is taken out, and points to itself. -/
def del : Links α where
  next := Function.update (Function.update r.next (r.prev e) (r.next e)) e e
  prev := Function.update (Function.update r.prev (r.next e) (r.prev e)) e e

def isEmpty : Bool := decide (r.next e = r.prev e ∧ r.next e = e)

/-- The first node of the list with head `h` -/
def head : Option α := if r.isEmpty h then none else some (r.next h)

/-- The walk from node `p` on, to the first container that passes the test, in at most
`fuel` nodes; the result is `some none` if a node without a container is reached. -/
def walk (r : Links α) (container : α → Option β) (test : β → Bool) : ℕ → α → Option (Option β)
  | 0, _ => none
  | fuel + 1, p =>
    match container p with
    | none => some none
    | some c => if test c then some (some c) else walk r container test fuel (r.next p)

/-- The loop over the list with head `h` -/
def find (r : Links α) (container : α → Option β) (test : β → Bool) (fuel : ℕ) (h : α) :
    Option (Option β) :=
  match r.head h with
  | none => some none
  | some p => r.walk container test fuel p

end Operations

/-! ## Paths -/

variable {r r' : Links α} {a b e p h x : α} {l m : List α}

/-- The pointers lead from `a` through `l` to `b` and back. -/
def Path (r : Links α) : α → List α → α → Prop
  | a, [], b => r.next a = b ∧ r.prev b = a
  | a, x :: l, b => (r.next a = x ∧ r.prev x = a) ∧ Path r x l b

theorem path_append : r.Path a (l ++ x :: m) b ↔ r.Path a l x ∧ r.Path x m b := by
  induction l generalizing a with
  | nil => exact Iff.rfl
  | cons y l ih =>
    rw [List.cons_append, Path, Path, ih]
    exact and_assoc.symm

/-- A path does not depend on the pointers of other nodes. -/
theorem Path.congr (hp : r.Path a l b) (hn : ∀ y ∈ a :: l, r'.next y = r.next y)
    (hv : ∀ y ∈ l ++ [b], r'.prev y = r.prev y) : r'.Path a l b := by
  induction l generalizing a with
  | nil =>
    obtain ⟨h₁, h₂⟩ := hp
    refine ⟨?_, ?_⟩
    · rw [hn a (by simp), h₁]
    · rw [hv b (by simp), h₂]
  | cons x l ih =>
    obtain ⟨⟨h₁, h₂⟩, hp⟩ := hp
    refine ⟨⟨?_, ?_⟩, ih hp (fun y hy => ?_) fun y hy => ?_⟩
    · rw [hn a (by simp), h₁]
    · rw [hv x (by simp), h₂]
    · exact hn y (List.mem_cons_of_mem _ hy)
    · exact hv y (List.mem_cons_of_mem _ hy)

/-- A path ends with a step to its end. -/
theorem Path.last (hp : r.Path a l b) : r.prev b ∈ a :: l ∧ r.next (r.prev b) = b := by
  induction l generalizing a with
  | nil =>
    obtain ⟨h₁, h₂⟩ := hp
    rw [h₂]
    exact ⟨List.mem_singleton.2 rfl, h₁⟩
  | cons x l ih =>
    obtain ⟨hm, hn⟩ := ih hp.2
    exact ⟨List.mem_cons_of_mem _ hm, hn⟩

/-- A path begins with a step to its first node. -/
theorem Path.first (hp : r.Path a l b) : r.next a ∈ l ++ [b] ∧ r.prev (r.next a) = a := by
  cases l with
  | nil =>
    obtain ⟨h₁, h₂⟩ := hp
    rw [h₁]
    exact ⟨List.mem_singleton.2 rfl, h₂⟩
  | cons x l =>
    obtain ⟨⟨h₁, h₂⟩, -⟩ := hp
    rw [h₁]
    exact ⟨List.mem_cons_self, h₂⟩

variable [DecidableEq α]

/-- Before the node `p` that `e` is put in front of, the path goes on to `e`. -/
theorem Path.addPrev_before (hp : r.Path a l p) (hl : (a :: l).Nodup) (he : e ∉ a :: l)
    (hep : e ≠ p) (hpl : p ∉ l) : (r.addPrev e p).Path a (l ++ [e]) p := by
  -- the links between the last node and `e`, and between `e` and `p`
  have hlast : (r.addPrev e p).next (r.prev p) = e ∧ (r.addPrev e p).prev e = r.prev p := by
    have hne : r.prev p ≠ e := by
      rintro rfl
      exact he hp.last.1
    refine ⟨?_, ?_⟩
    · simp only [addPrev, Function.update_of_ne hne, Function.update_self]
    · simp only [addPrev, Function.update_of_ne hep, Function.update_self]
  have hend : (r.addPrev e p).next e = p ∧ (r.addPrev e p).prev p = e := by
    refine ⟨?_, ?_⟩ <;> simp only [addPrev, Function.update_self]
  rcases List.eq_nil_or_concat l with rfl | ⟨l', z, rfl⟩
  · obtain ⟨-, hv⟩ := hp
    rw [hv] at hlast
    exact ⟨hlast, hend⟩
  · rw [List.concat_eq_append] at *
    rw [path_append] at hp
    obtain ⟨hp, -, hv⟩ := hp
    rw [hv] at hlast
    rw [List.append_assoc, List.singleton_append, path_append]
    refine ⟨hp.congr (fun y hy => ?_) fun y hy => ?_, hlast, hend⟩
    · -- the last node before `p` occurs once
      have hyz : y ≠ z := by
        rintro rfl
        rw [← List.cons_append] at hl
        exact (List.nodup_append.1 hl).2.2 y hy y (List.mem_singleton.2 rfl) rfl
      have hye : y ≠ e := by
        rintro rfl
        exact he (by rw [← List.cons_append]; exact List.mem_append_left _ hy)
      simp only [addPrev, hv, Function.update_of_ne hyz, Function.update_of_ne hye]
    · have hye : y ≠ e := by
        rintro rfl
        exact he (List.mem_cons_of_mem _ hy)
      have hyp : y ≠ p := by
        rintro rfl
        exact hpl hy
      simp only [addPrev, Function.update_of_ne hye, Function.update_of_ne hyp]

theorem next_addPrev_of_ne {y : α} (h₁ : y ≠ e) (h₂ : y ≠ r.prev p) :
    (r.addPrev e p).next y = r.next y := by
  simp only [addPrev, Function.update_of_ne h₁, Function.update_of_ne h₂]

theorem prev_addPrev_of_ne {y : α} (h₁ : y ≠ e) (h₂ : y ≠ p) :
    (r.addPrev e p).prev y = r.prev y := by
  simp only [addPrev, Function.update_of_ne h₁, Function.update_of_ne h₂]

theorem next_addNext_of_ne {y : α} (h₁ : y ≠ e) (h₂ : y ≠ p) :
    (r.addNext e p).next y = r.next y := by
  simp only [addNext, Function.update_of_ne h₁, Function.update_of_ne h₂]

theorem prev_addNext_of_ne {y : α} (h₁ : y ≠ e) (h₂ : y ≠ r.next p) :
    (r.addNext e p).prev y = r.prev y := by
  simp only [addNext, Function.update_of_ne h₁, Function.update_of_ne h₂]

theorem next_del_of_ne {y : α} (h₁ : y ≠ e) (h₂ : y ≠ r.prev e) : (r.del e).next y = r.next y := by
  simp only [del, Function.update_of_ne h₁, Function.update_of_ne h₂]

theorem prev_del_of_ne {y : α} (h₁ : y ≠ e) (h₂ : y ≠ r.next e) : (r.del e).prev y = r.prev y := by
  simp only [del, Function.update_of_ne h₁, Function.update_of_ne h₂]

/-- Without `e` the path that led to it goes on to the node after it. -/
theorem Path.del_before (hp : r.Path a l e) (hl : (a :: l).Nodup) (he : e ∉ a :: l)
    (hne : r.next e ≠ e) (hn : r.next e ∉ l) : (r.del e).Path a l (r.next e) := by
  have hlast : (r.del e).next (r.prev e) = r.next e ∧ (r.del e).prev (r.next e) = r.prev e := by
    have hpe : r.prev e ≠ e := by
      intro h
      exact he (h ▸ hp.last.1)
    refine ⟨?_, ?_⟩
    · simp only [del, Function.update_of_ne hpe, Function.update_self]
    · simp only [del, Function.update_of_ne hne, Function.update_self]
  rcases List.eq_nil_or_concat l with rfl | ⟨l', z, rfl⟩
  · obtain ⟨-, hv⟩ := hp
    rw [hv] at hlast
    exact hlast
  · rw [List.concat_eq_append] at *
    rw [path_append] at hp ⊢
    obtain ⟨hp, -, hv⟩ := hp
    rw [hv] at hlast
    refine ⟨hp.congr (fun y hy => next_del_of_ne ?_ ?_) fun y hy => prev_del_of_ne ?_ ?_, hlast⟩
    · rintro rfl
      exact he (by rw [← List.cons_append]; exact List.mem_append_left _ hy)
    · rw [hv]
      rintro rfl
      rw [← List.cons_append] at hl
      exact (List.nodup_append.1 hl).2.2 y hy y (List.mem_singleton.2 rfl) rfl
    · rintro rfl
      exact he (List.mem_cons_of_mem _ hy)
    · rintro rfl
      exact hn hy

/-- Without `e` the path through it goes past it. -/
theorem Path.del (h₁ : r.Path a l e) (h₂ : r.Path e m b) (hn : (a :: (l ++ e :: m)).Nodup)
    (hb : b ∉ l ++ e :: m) : (r.del e).Path a (l ++ m) b := by
  have hal : (a :: l).Nodup := (List.nodup_append.1 (by rwa [← List.cons_append] at hn)).1
  have he : e ∉ a :: l := by
    intro he
    rw [← List.cons_append] at hn
    exact (List.nodup_append.1 hn).2.2 e he e List.mem_cons_self rfl
  have hm : (e :: m).Nodup := (List.nodup_append.1 (List.nodup_cons.1 hn).2).2.1
  -- what comes after `e` now has what led to `e` before it
  cases m with
  | nil =>
    have hnext : r.next e = b := h₂.1
    rw [List.append_nil, ← hnext]
    refine h₁.del_before hal he ?_ ?_
    · rintro h
      exact hb (by rw [← hnext, h]; simp)
    · rw [hnext]
      exact fun h => hb (List.mem_append_left _ h)
  | cons n m =>
    obtain ⟨⟨hnext, -⟩, h₂⟩ := h₂
    rw [path_append]
    have hne : n ≠ e := by
      rintro rfl
      exact (List.nodup_cons.1 hm).1 List.mem_cons_self
    refine ⟨?_, h₂.congr (fun y hy => next_del_of_ne ?_ ?_) fun y hy => prev_del_of_ne ?_ ?_⟩
    · rw [← hnext]
      refine h₁.del_before hal he (by rw [hnext]; exact hne) ?_
      rw [hnext]
      intro h
      exact (List.nodup_append.1 (List.nodup_cons.1 hn).2).2.2 n h n (by simp) rfl
    · rintro rfl
      exact (List.nodup_cons.1 hm).1 hy
    · -- what led to `e` is not after it
      rintro rfl
      rw [← List.cons_append] at hn
      exact (List.nodup_append.1 hn).2.2 _ h₁.last.1 _ (List.mem_cons_of_mem _ hy) rfl
    · rintro rfl
      rcases List.mem_append.1 hy with hy | hy
      · exact (List.nodup_cons.1 hm).1 (List.mem_cons_of_mem _ hy)
      · rw [List.mem_singleton] at hy
        subst hy
        exact hb (by simp)
    · rw [hnext]
      rintro rfl
      rcases List.mem_append.1 hy with hy | hy
      · exact (List.nodup_cons.1 (List.nodup_cons.1 hm).2).1 hy
      · rw [List.mem_singleton] at hy
        subst hy
        exact hb (by simp)

/-! ## Rings -/

/-- The list with head `h` holds the nodes `l`, in this order. -/
structure IsRing (r : Links α) (h : α) (l : List α) : Prop where
  nodup : (h :: l).Nodup
  path : r.Path h l h

namespace IsRing

omit [DecidableEq α] in
theorem head_notMem (hr : r.IsRing h l) : h ∉ l := (List.nodup_cons.1 hr.nodup).1

omit [DecidableEq α] in
/-- A ring does not depend on the pointers of the nodes that are not on it. -/
theorem congr (hr : r.IsRing h l) (hn : ∀ y ∈ h :: l, r'.next y = r.next y)
    (hv : ∀ y ∈ h :: l, r'.prev y = r.prev y) : r'.IsRing h l := by
  refine ⟨hr.nodup, hr.path.congr hn fun y hy => hv y ?_⟩
  rcases List.mem_append.1 hy with hy | hy
  · exact List.mem_cons_of_mem _ hy
  · rw [List.mem_singleton.1 hy]
    exact List.mem_cons_self

theorem init : (r.init h).IsRing h [] :=
  ⟨List.nodup_singleton h, Function.update_self .., Function.update_self ..⟩

omit [DecidableEq α] in
/-- The neighbours of a node of a ring are on it. -/
theorem neighbours (hr : r.IsRing h l) (hx : x ∈ h :: l) :
    r.next x ∈ h :: l ∧ r.prev x ∈ h :: l := by
  rcases List.mem_cons.1 hx with rfl | hx
  · refine ⟨?_, hr.path.last.1⟩
    have := hr.path.first.1
    simpa [or_comm] using this
  · obtain ⟨l₁, l₂, rfl⟩ := List.append_of_mem hx
    obtain ⟨h₁, h₂⟩ := path_append.1 hr.path
    refine ⟨?_, ?_⟩
    · rcases List.mem_append.1 h₂.first.1 with hm | hm
      · simp [hm]
      · simp [List.mem_singleton.1 hm]
    · rcases List.mem_cons.1 h₁.last.1 with hm | hm
      · simp [hm]
      · simp [hm]

/-- **Insertion at the end.** -/
theorem addTail (hr : r.IsRing h l) (he : e ∉ h :: l) : (r.addPrev e h).IsRing h (l ++ [e]) := by
  refine ⟨?_, hr.path.addPrev_before hr.nodup he (by rintro rfl; simp at he) hr.head_notMem⟩
  have hperm : (h :: (l ++ [e])).Perm (e :: h :: l) :=
    ((List.perm_append_singleton e l).cons h).trans (List.Perm.swap ..)
  exact hperm.nodup_iff.2 (List.nodup_cons.2 ⟨he, hr.nodup⟩)

/-- **Removal.** -/
theorem del (hr : r.IsRing h (l ++ e :: m)) : (r.del e).IsRing h (l ++ m) := by
  obtain ⟨h₁, h₂⟩ := path_append.1 hr.path
  refine ⟨?_, h₁.del h₂ hr.nodup hr.head_notMem⟩
  exact hr.nodup.sublist ((List.Sublist.append_left (List.sublist_cons_self e m) l).cons_cons h)

/-- **Insertion at the front.** -/
theorem addFront (hr : r.IsRing h l) (he : e ∉ h :: l) : (r.addNext e h).IsRing h (e :: l) := by
  refine ⟨?_, ⟨?_, ?_⟩, ?_⟩
  · exact (List.Perm.swap h e l).nodup_iff.1 (List.nodup_cons.2 ⟨he, hr.nodup⟩)
  · simp only [Links.addNext, Function.update_self]
  · simp only [Links.addNext, Function.update_self]
  · have heh : e ≠ h := fun h => he (by simp [h])
    have hne : r.next h ≠ e := fun h' => he (h' ▸ (hr.neighbours List.mem_cons_self).1)
    have hnext : (r.addNext e h).next e = r.next h ∧ (r.addNext e h).prev (r.next h) = e := by
      refine ⟨?_, ?_⟩
      · simp only [Links.addNext, Function.update_of_ne heh, Function.update_self]
      · simp only [Links.addNext, Function.update_of_ne hne, Function.update_self]
    cases l with
    | nil =>
      have hh : r.next h = h := hr.path.1
      rw [hh] at hnext
      exact hnext
    | cons n l =>
      obtain ⟨⟨hn, -⟩, hp⟩ := hr.path
      have hnd := hr.nodup
      rw [hn] at hnext
      refine ⟨hnext, hp.congr (fun y hy => next_addNext_of_ne ?_ ?_)
        fun y hy => prev_addNext_of_ne ?_ ?_⟩
      · rintro rfl
        exact he (List.mem_cons_of_mem _ hy)
      · rintro rfl
        exact hr.head_notMem hy
      · rintro rfl
        exact he (by simp at hy ⊢; tauto)
      · rw [hn]
        rintro rfl
        rcases List.mem_append.1 hy with hy | hy
        · exact (List.nodup_cons.1 (List.nodup_cons.1 hnd).2).1 hy
        · rw [List.mem_singleton] at hy
          exact hr.head_notMem (by simp [hy])

omit [DecidableEq α] in
/-- A node of the list does not point to itself. -/
theorem next_ne (hr : r.IsRing h l) (hx : x ∈ l) : r.next x ≠ x := by
  obtain ⟨l₁, l₂, rfl⟩ := List.append_of_mem hx
  obtain ⟨-, h₂⟩ := path_append.1 hr.path
  intro hn
  have hm := h₂.first.1
  rw [hn] at hm
  rcases List.mem_append.1 hm with hm | hm
  · have hnd := (List.nodup_append.1 (List.nodup_cons.1 hr.nodup).2).2.1
    exact (List.nodup_cons.1 hnd).1 hm
  · exact hr.head_notMem (List.mem_singleton.1 hm ▸ hx)

/-- An insertion before a node of a ring moves no other pointers. -/
theorem addPrev_frame {y : α} (hr : r.IsRing h l) (hp : p ∈ h :: l) (hy : y ∉ h :: l) (hye : y ≠ e) :
    (r.addPrev e p).next y = r.next y ∧ (r.addPrev e p).prev y = r.prev y := by
  refine ⟨next_addPrev_of_ne hye ?_, prev_addPrev_of_ne hye ?_⟩
  · rintro rfl
    exact hy (hr.neighbours hp).2
  · rintro rfl
    exact hy hp

/-- An insertion after a node of a ring moves no other pointers. -/
theorem addNext_frame {y : α} (hr : r.IsRing h l) (hp : p ∈ h :: l) (hy : y ∉ h :: l) (hye : y ≠ e) :
    (r.addNext e p).next y = r.next y ∧ (r.addNext e p).prev y = r.prev y := by
  refine ⟨next_addNext_of_ne hye ?_, prev_addNext_of_ne hye ?_⟩
  · rintro rfl
    exact hy hp
  · rintro rfl
    exact hy (hr.neighbours hp).1

/-- A removal from a ring moves no other pointers. -/
theorem del_frame {y : α} (hr : r.IsRing h l) (he : e ∈ l) (hy : y ∉ h :: l) :
    (r.del e).next y = r.next y ∧ (r.del e).prev y = r.prev y := by
  obtain ⟨hn, hp⟩ := hr.neighbours (List.mem_cons_of_mem h he)
  refine ⟨next_del_of_ne ?_ ?_, prev_del_of_ne ?_ ?_⟩
  · rintro rfl
    exact hy (List.mem_cons_of_mem h he)
  · rintro rfl
    exact hy hp
  · rintro rfl
    exact hy (List.mem_cons_of_mem h he)
  · rintro rfl
    exact hy hn

end IsRing

theorem next_del_self : (r.del e).next e = e := Function.update_self ..

theorem prev_del_self : (r.del e).prev e = e := Function.update_self ..

/-- A node that points to itself is in no list, and its removal does nothing. -/
theorem del_of_alone (hn : r.next e = e) (hp : r.prev e = e) : r.del e = r := by
  have h₁ : Function.update r.next e e = r.next := Function.update_eq_self_iff.2 hn.symm
  have h₂ : Function.update r.prev e e = r.prev := Function.update_eq_self_iff.2 hp.symm
  unfold Links.del
  rw [hn, hp, h₁, h₂, h₁, h₂]

/-! ## Walks -/

omit [DecidableEq α] in
/-- **A walk along a path** that has containers up to its end is a search. -/
theorem Path.walk {container : α → Option β} {test : β → Bool} {cs : List β} {fuel : ℕ}
    (hp : r.Path x l h) (hc : (x :: l).map container = cs.map some) (hh : container h = none)
    (hf : cs.length < fuel) : r.walk container test fuel x = some (cs.find? test) := by
  induction l generalizing x cs fuel with
  | nil =>
    obtain ⟨hn, -⟩ := hp
    obtain ⟨c, rfl, hcx⟩ : ∃ c, cs = [c] ∧ container x = some c := by
      match cs with
      | [] => simp at hc
      | [c] => exact ⟨c, rfl, by simpa using hc⟩
      | _ :: _ :: _ => simp at hc
    obtain ⟨fuel, rfl⟩ : ∃ n, fuel = n + 2 := ⟨fuel - 2, by simp at hf; omega⟩
    rw [Links.walk, hcx]
    by_cases ht : test c = true
    · simp [ht]
    · simp [ht, hn, Links.walk, hh]
  | cons y l ih =>
    obtain ⟨⟨hn, -⟩, hp⟩ := hp
    obtain ⟨c, cs, rfl, hcx, hcs⟩ :
        ∃ c cs', cs = c :: cs' ∧ container x = some c ∧ (y :: l).map container = cs'.map some := by
      match cs with
      | [] => simp at hc
      | c :: cs' =>
        obtain ⟨h₁, h₂⟩ := List.cons.inj hc
        exact ⟨c, cs', rfl, h₁, h₂⟩
    obtain ⟨fuel, rfl⟩ : ∃ n, fuel = n + 1 := ⟨fuel - 1, by omega⟩
    rw [Links.walk, hcx]
    by_cases ht : test c = true
    · simp [ht]
    · simp only [ht, Bool.false_eq_true, if_false, List.find?_cons]
      rw [hn]
      exact ih hp hcs (by simpa using hf)

theorem IsRing.head_eq (hr : r.IsRing h l) : r.head h = l.head? := by
  unfold Links.head Links.isEmpty
  cases l with
  | nil =>
    have hn : r.next h = h := hr.path.1
    have hv : r.prev h = h := hr.path.2
    simp [hn, hv]
  | cons x l =>
    have hx : x ≠ h := fun he => hr.head_notMem (by simp [he])
    rw [hr.path.1.1, decide_eq_false fun he => hx he.2]
    simp

/-- **The loop over a ring** is a search in the list of its containers. -/
theorem IsRing.find {container : α → Option β} {test : β → Bool} {cs : List β} {fuel : ℕ}
    (hr : r.IsRing h l) (hc : l.map container = cs.map some) (hh : container h = none)
    (hf : cs.length < fuel) : r.find container test fuel h = some (cs.find? test) := by
  unfold Links.find
  rw [hr.head_eq]
  cases l with
  | nil =>
    obtain rfl : cs = [] := by
      cases cs with
      | nil => rfl
      | cons c cs => simp at hc
    rfl
  | cons x l =>
    have hp : r.Path x l h := hr.path.2
    exact hp.walk hc hh hf

end Links

end Resch.Lib
