import Mathlib.Logic.Relation
import Mathlib.Order.Basic
import Mathlib.Order.Lattice
import Resch.Lib.Insert

/-!
# A list in order of a key that others write

`Keyed` is a linked list of elements that each have a key and a mark that says whether
they are linked. An element goes in before the first one of a lower key. Keys are
assigned from outside, so the order holds only as long as each assignment is followed by
a removal and an insertion, or the new key fits where the element is.

* `Moves.ordered`: insertions, removals and assignments with a reinsertion keep the order;
* `ordered_assign_iff`: a bare assignment keeps it iff the key fits (`Fits`);
* `firstLe_none`, `firstLe_before`: what a search in an ordered list says.
-/

namespace Resch.Lib

structure Keyed (α κ : Type*) where
  list : List α
  key : α → κ
  linked : α → Bool

namespace Keyed

variable {α κ : Type*} [DecidableEq α] [LinearOrder κ] {v w : Keyed α κ} {x y : α} {p : κ}

/-- Before the first element of a lower key; a linked element stays where it is. -/
def insert (v : Keyed α κ) (x : α) : Keyed α κ :=
  if v.linked x then v
  else
    { v with
      list := insertBefore (fun y => decide (v.key y < v.key x)) x v.list
      linked := Function.update v.linked x true }

/-- Take an element out. -/
def remove (v : Keyed α κ) (x : α) : Keyed α κ :=
  { v with list := v.list.filter (· ≠ x), linked := Function.update v.linked x false }

/-- Assign a key. -/
def assign (v : Keyed α κ) (x : α) (p : κ) : Keyed α κ :=
  { v with key := Function.update v.key x p }

/-- Take a linked element out and put it in again. -/
def reinsert (v : Keyed α κ) (x : α) : Keyed α κ := if v.linked x then (v.remove x).insert x else v

/-- Each linked element is in the list once, and no other is. -/
structure Ok (v : Keyed α κ) : Prop where
  nodup : v.list.Nodup
  mem : ∀ x, x ∈ v.list ↔ v.linked x = true

/-- The keys do not increase along the list. -/
def Ordered (v : Keyed α κ) : Prop := v.list.Pairwise fun x y => v.key y ≤ v.key x

/-- The elements before and after `x`. -/
def before (v : Keyed α κ) (x : α) : List α := v.list.takeWhile (· ≠ x)

def after (v : Keyed α κ) (x : α) : List α := (v.list.dropWhile (· ≠ x)).tail

/-- If `x` is linked, the key `p` is between those before it and those after it. -/
def Fits (v : Keyed α κ) (x : α) (p : κ) : Prop :=
  v.linked x = true → (∀ y ∈ v.before x, p ≤ v.key y) ∧ ∀ y ∈ v.after x, v.key y ≤ p

instance (v : Keyed α κ) (x : α) (p : κ) : Decidable (v.Fits x p) :=
  inferInstanceAs (Decidable (_ → _))

/-! ## The place of an element -/

omit [LinearOrder κ] in
theorem split (h : x ∈ v.list) : v.list = v.before x ++ x :: v.after x := by
  unfold before after
  generalize v.list = l at h ⊢
  induction l with
  | nil => cases h
  | cons y l ih =>
    by_cases hy : y = x
    · subst hy; simp
    · have hx : x ∈ l := by
        rcases List.mem_cons.1 h with rfl | hx
        · exact absurd rfl hy
        · exact hx
      simpa [hy] using ih hx

omit [LinearOrder κ] in
theorem Ok.not_mem (h : v.Ok) (hx : v.linked x = true) : x ∉ v.before x ∧ x ∉ v.after x := by
  have hn := h.nodup
  rw [split ((h.mem x).2 hx), List.nodup_append] at hn
  obtain ⟨-, hn, hd⟩ := hn
  refine ⟨fun hb => hd x hb x (by simp) rfl, (List.nodup_cons.1 hn).1⟩

/-! ## The operations keep the list well formed -/

theorem Ok.insert (h : v.Ok) : (v.insert x).Ok := by
  unfold Keyed.insert
  split
  · exact h
  rename_i hl
  have hn : x ∉ v.list := fun hx => hl ((h.mem x).1 hx)
  refine ⟨(insertBefore_perm _ x _).nodup_iff.2 (List.nodup_cons.2 ⟨hn, h.nodup⟩), fun y => ?_⟩
  by_cases hy : y = x
  · subst hy; simp
  · simp [hy, h.mem y]

omit [LinearOrder κ] in
theorem Ok.remove (h : v.Ok) : (v.remove x).Ok := by
  refine ⟨h.nodup.filter _, fun y => ?_⟩
  by_cases hy : y = x
  · subst hy; simp [Keyed.remove]
  · simp [Keyed.remove, hy, h.mem y]

omit [LinearOrder κ] in
theorem Ok.assign (h : v.Ok) : (v.assign x p).Ok := ⟨h.nodup, h.mem⟩

theorem Ok.reinsert (h : v.Ok) : (v.reinsert x).Ok := by
  unfold Keyed.reinsert
  split
  · exact h.remove.insert
  · exact h

/-! ## The operations and the order -/

theorem Ordered.insert (h : v.Ordered) : (v.insert x).Ordered := by
  unfold Keyed.insert
  split
  · exact h
  refine insertBefore_sorted (fun a b c hab hbc => hbc.trans hab) ?_ ?_ h
  · intro y _ hy
    exact (of_decide_eq_true hy).le
  · intro y _ hy
    exact not_lt.1 (of_decide_eq_false hy)

/-- Taking an element out restores the order whatever its key has become. -/
theorem Ordered.remove_assign (h : v.Ordered) : ((v.assign x p).remove x).Ordered := by
  refine (h.filter _).imp_of_mem fun {a b} ha hb hab => ?_
  have ha' : a ≠ x := by simpa using (List.mem_filter.1 ha).2
  have hb' : b ≠ x := by simpa using (List.mem_filter.1 hb).2
  simpa [Keyed.assign, Keyed.remove, ha', hb'] using hab

omit [LinearOrder κ] in
theorem assign_self : v.assign x (v.key x) = v := by
  unfold assign
  rw [Function.update_eq_self]

theorem Ordered.remove (h : v.Ordered) : (v.remove x).Ordered := by
  have := h.remove_assign (x := x) (p := v.key x)
  rwa [assign_self] at this

/-- **A bare assignment keeps the order iff the key fits.** -/
theorem ordered_assign_iff (hok : v.Ok) (h : v.Ordered) : (v.assign x p).Ordered ↔ v.Fits x p := by
  by_cases hl : v.linked x = true
  swap
  · refine ⟨fun _ hx => absurd hx hl, fun _ => h.imp_of_mem fun {a b} ha hb hab => ?_⟩
    have ha' : a ≠ x := fun he => hl ((hok.mem x).1 (he ▸ ha))
    have hb' : b ≠ x := fun he => hl ((hok.mem x).1 (he ▸ hb))
    simpa [assign, ha', hb'] using hab
  have hsplit := split ((hok.mem x).2 hl)
  obtain ⟨hnb, hna⟩ := hok.not_mem hl
  -- only the key of `x` changes
  have hk : ∀ y, y ≠ x → (v.assign x p).key y = v.key y := by
    intro y hy
    simp [assign, hy]
  have hx : (v.assign x p).key x = p := by simp [assign]
  have hb : ∀ y ∈ v.before x, y ≠ x := fun y hy he => hnb (he ▸ hy)
  have ha : ∀ y ∈ v.after x, y ≠ x := fun y hy he => hna (he ▸ hy)
  unfold Ordered at h
  rw [hsplit, List.pairwise_append, List.pairwise_cons] at h
  obtain ⟨h₁, ⟨-, h₂⟩, h₃⟩ := h
  have hgoal : (v.assign x p).Ordered ↔
      (v.before x ++ x :: v.after x).Pairwise
        fun a b => (v.assign x p).key b ≤ (v.assign x p).key a := by
    rw [← hsplit]
    exact Iff.rfl
  rw [hgoal, List.pairwise_append, List.pairwise_cons]
  constructor
  · rintro ⟨-, ⟨hafter, -⟩, hcross⟩ -
    refine ⟨fun y hy => ?_, fun y hy => ?_⟩
    · have := hcross y hy x (by simp)
      rwa [hx, hk y (hb y hy)] at this
    · have := hafter y hy
      rwa [hx, hk y (ha y hy)] at this
  · intro hfits
    obtain ⟨hbefore, hafter⟩ := hfits hl
    refine ⟨h₁.imp_of_mem fun {a b} ha' hb' hab => ?_, ⟨fun y hy => ?_, ?_⟩, fun a ha' b hb' => ?_⟩
    · rw [hk a (hb a ha'), hk b (hb b hb')]; exact hab
    · rw [hx, hk y (ha y hy)]; exact hafter y hy
    · refine h₂.imp_of_mem fun {a b} ha' hb' hab => ?_
      rw [hk a (ha a ha'), hk b (ha b hb')]; exact hab
    · rw [hk a (hb a ha')]
      rcases List.mem_cons.1 hb' with rfl | hb'
      · rw [hx]; exact hbefore a ha'
      · rw [hk b (ha b hb')]
        exact h₃ a ha' b (by simp [hb'])

/-! ## Sequences of operations on one element -/

/-- An operation on `x` that leaves an ordered list in order. -/
inductive Move (x : α) : Keyed α κ → Keyed α κ → Prop
  | insert (v : Keyed α κ) : Move x v (v.insert x)
  | remove (v : Keyed α κ) : Move x v (v.remove x)
  | leave (v : Keyed α κ) (p : κ) : Move x v ((v.assign x p).remove x)
  | rekey (v : Keyed α κ) (p : κ) : Move x v ((v.assign x p).reinsert x)

/-- A sequence of them. -/
def Moves (x : α) : Keyed α κ → Keyed α κ → Prop := Relation.ReflTransGen (Move x)

theorem Moves.refl (v : Keyed α κ) : Moves x v v := Relation.ReflTransGen.refl

theorem Moves.of_eq (h : w = v) : Moves x v w := h ▸ .refl w

theorem Moves.trans {u : Keyed α κ} (h : Moves x u v) (h' : Moves x v w) : Moves x u w :=
  Relation.ReflTransGen.trans h h'

theorem Move.moves (h : Move x v w) : Moves x v w := Relation.ReflTransGen.single h

theorem Move.ok (h : Move x v w) (hok : v.Ok) : w.Ok := by
  cases h with
  | insert => exact hok.insert
  | remove => exact hok.remove
  | leave p => exact hok.assign.remove
  | rekey p => exact hok.assign.reinsert

theorem Move.ordered (h : Move x v w) (hok : v.Ok) (ho : v.Ordered) : w.Ordered := by
  cases h with
  | insert => exact ho.insert
  | remove => exact ho.remove
  | leave p => exact ho.remove_assign
  | rekey p =>
    unfold Keyed.reinsert
    split
    · exact ho.remove_assign.insert
    · rename_i hl
      exact (ordered_assign_iff hok ho).2 fun hx => absurd hx hl

/-- **Operations that reinsert keep the list in order.** -/
theorem Moves.ordered (h : Moves x v w) (hok : v.Ok) (ho : v.Ordered) : w.Ok ∧ w.Ordered := by
  induction h with
  | refl => exact ⟨hok, ho⟩
  | tail _ h ih => exact ⟨h.ok ih.1, h.ordered ih.1 ih.2⟩

/-- A key may be assigned to an element that is not linked, or is taken out then. -/
theorem moves_leave (v : Keyed α κ) (x : α) (p : κ) :
    Moves x v (if v.linked x then (v.assign x p).remove x else v.assign x p) := by
  split
  · exact (Move.leave v p).moves
  · rename_i hl
    have h : (v.assign x p).reinsert x = v.assign x p := if_neg hl
    exact h ▸ (Move.rekey v p).moves

theorem Move.other (h : Move x v w) (hy : y ≠ x) : w.linked y = v.linked y := by
  cases h with
  | insert =>
    unfold Keyed.insert
    split
    · rfl
    · simp [hy]
  | remove => simp [Keyed.remove, hy]
  | leave p => simp [Keyed.remove, Keyed.assign, hy]
  | rekey p =>
    unfold Keyed.reinsert
    split
    · simp [Keyed.insert, Keyed.remove, Keyed.assign, hy]
    · rfl

/-- Other elements stay linked, or not linked. -/
theorem Moves.other (h : Moves x v w) (hy : y ≠ x) : w.linked y = v.linked y := by
  induction h with
  | refl => rfl
  | tail _ h ih => exact (h.other hy).trans ih

/-! ## Searching -/

/-- The first element of a key that is `p` or less. -/
def firstLe (v : Keyed α κ) (p : κ) : Option α := v.list.find? fun x => decide (v.key x ≤ p)

omit [DecidableEq α] in
theorem Ok.firstLe_none (h : v.Ok) (hn : v.firstLe p = none) (hx : v.linked x = true) :
    p < v.key x := by
  have := List.find?_eq_none.1 hn x ((h.mem x).2 hx)
  simpa using this

/-- Elements of a higher key than the one found lie before it. -/
theorem firstLe_before (hok : v.Ok) (h : v.Ordered) (hf : v.firstLe p = some y)
    (hx : v.linked x = true) (hlt : v.key y < v.key x) : x ∈ v.before y := by
  have hy : y ∈ v.list := List.mem_of_find?_eq_some hf
  have hxl := (hok.mem x).2 hx
  unfold Ordered at h
  rw [split hy] at hxl h
  rcases List.mem_append.1 hxl with hb | ha
  · exact hb
  rcases List.mem_cons.1 ha with rfl | ha
  · exact absurd hlt (lt_irrefl _)
  · obtain ⟨-, h, -⟩ := List.pairwise_append.1 h
    exact absurd hlt (not_lt.2 (List.rel_of_pairwise_cons h ha))

end Keyed

end Resch.Lib
