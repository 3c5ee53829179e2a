import Mathlib.Data.List.Count
import Mathlib.Data.List.Pairwise
import Mathlib.Data.List.Nodup

/-!
# Inserting before the first element that should come later

`insertBefore p x l` puts `x` before the first element of `l` that satisfies `p`,
or at the end. It is the loop that keeps a linked list ordered by a key: on a
sorted list the result is sorted (`insertBefore_sorted`), elements with an equal
key stay in order of arrival, and only `x` is added (`insertBefore_perm`).
-/

namespace Resch.Lib

variable {α : Type*}

/-- Put `x` before the first element that satisfies `p`, or at the end. -/
def insertBefore (p : α → Bool) (x : α) : List α → List α
  | [] => [x]
  | y :: l => if p y then x :: y :: l else y :: insertBefore p x l

theorem insertBefore_perm (p : α → Bool) (x : α) (l : List α) :
    (insertBefore p x l).Perm (x :: l) := by
  induction l with
  | nil => exact List.Perm.refl _
  | cons y l ih =>
    unfold insertBefore
    split
    · exact List.Perm.refl _
    · exact (ih.cons y).trans (List.Perm.swap x y l)

@[simp] theorem mem_insertBefore {p : α → Bool} {x y : α} {l : List α} :
    y ∈ insertBefore p x l ↔ y = x ∨ y ∈ l := by
  rw [(insertBefore_perm p x l).mem_iff, List.mem_cons]

@[simp] theorem length_insertBefore (p : α → Bool) (x : α) (l : List α) :
    (insertBefore p x l).length = l.length + 1 := by
  rw [(insertBefore_perm p x l).length_eq, List.length_cons]

/-- The list is split by the insertion: nothing before `x` satisfies `p`, and what
follows starts with an element that does. -/
theorem insertBefore_split (p : α → Bool) (x : α) (l : List α) :
    ∃ A B, l = A ++ B ∧ insertBefore p x l = A ++ x :: B ∧ (∀ y ∈ A, p y = false) ∧
      ∀ y ∈ B.head?, p y = true := by
  induction l with
  | nil => exact ⟨[], [], rfl, rfl, by simp, by simp⟩
  | cons y l ih =>
    unfold insertBefore
    by_cases hy : p y = true
    · exact ⟨[], y :: l, rfl, by simp [hy], by simp, by simpa using hy⟩
    · obtain ⟨A, B, hl, hi, hA, hB⟩ := ih
      refine ⟨y :: A, B, by rw [hl]; rfl, by simp [hy, hi], ?_, hB⟩
      intro z hz
      rcases List.mem_cons.1 hz with rfl | hz
      · simpa using hy
      · exact hA z hz

/-- The insertion is at the first place whose element satisfies `p`. -/
theorem insertBefore_eq_insertIdx (p : α → Bool) (x : α) (l : List α) :
    insertBefore p x l = l.insertIdx (l.findIdx p) x := by
  induction l with
  | nil => rfl
  | cons y l ih =>
    unfold insertBefore
    rw [List.findIdx_cons]
    by_cases hy : p y = true
    · simp [hy]
    · simp [hy, ih]

/-- An element that is filtered out may as well not be inserted. -/
theorem filter_insertBefore {p q : α → Bool} {x : α} (hx : q x = false) (l : List α) :
    (insertBefore p x l).filter q = l.filter q := by
  obtain ⟨A, B, rfl, hi, -, -⟩ := insertBefore_split p x l
  rw [hi, List.filter_append, List.filter_append, List.filter_cons_of_neg (by rw [hx]; decide)]

theorem insertBefore_congr {p p' : α → Bool} {x : α} {l : List α} (h : ∀ y ∈ l, p y = p' y) :
    insertBefore p x l = insertBefore p' x l := by
  induction l with
  | nil => rfl
  | cons y l ih =>
    unfold insertBefore
    rw [h y (by simp), ih fun z hz => h z (by simp [hz])]

/-- Whether `x` comes first. -/
theorem insertBefore_cases (p : α → Bool) (x : α) (l : List α) :
    (insertBefore p x l = x :: l ∧ ∀ y ∈ l.head?, p y = true) ∨
      ∃ y t, l = y :: t ∧ p y = false ∧ insertBefore p x l = y :: insertBefore p x t := by
  cases l with
  | nil => exact Or.inl ⟨rfl, by simp⟩
  | cons y t =>
    by_cases hy : p y = true
    · exact Or.inl ⟨by simp [insertBefore, hy], by simpa using hy⟩
    · exact Or.inr ⟨y, t, rfl, by simpa using hy, by simp [insertBefore, hy]⟩

/-- All of the second list comes after `x`. -/
theorem insertBefore_append_left {p : α → Bool} {x : α} {A B : List α} (h : ∀ y ∈ B, p y = true) :
    insertBefore p x (A ++ B) = insertBefore p x A ++ B := by
  induction A with
  | nil =>
    cases B with
    | nil => rfl
    | cons b B => simp [insertBefore, h b (by simp)]
  | cons y A ih =>
    rw [List.cons_append]
    unfold insertBefore
    split
    · rfl
    · rw [ih]; rfl

/-- All of the first list comes before `x`. -/
theorem insertBefore_append_right {p : α → Bool} {x : α} {A B : List α} (h : ∀ y ∈ A, p y = false) :
    insertBefore p x (A ++ B) = A ++ insertBefore p x B := by
  induction A with
  | nil => rfl
  | cons y A ih =>
    rw [List.cons_append, insertBefore, h y (by simp), ih fun z hz => h z (by simp [hz])]
    rfl

/-- **Sorted insertion.** If `p` says "should come after `x`" for a total order `R`
on keys, the insertion keeps the list sorted. -/
theorem insertBefore_sorted {R : α → α → Prop} {p : α → Bool} {x : α} {l : List α}
    (htrans : ∀ a b c, R a b → R b c → R a c)
    (hp : ∀ y ∈ l, p y = true → R x y) (hn : ∀ y ∈ l, p y = false → R y x)
    (hl : l.Pairwise R) : (insertBefore p x l).Pairwise R := by
  obtain ⟨A, B, rfl, hi, hA, hB⟩ := insertBefore_split p x l
  rw [hi]
  rw [List.pairwise_append] at hl ⊢
  obtain ⟨hlA, hlB, hAB⟩ := hl
  have hAx : ∀ y ∈ A, R y x := fun y hy => hn y (List.mem_append_left _ hy) (hA y hy)
  have hxB : ∀ y ∈ B, R x y := by
    intro y hy
    cases B with
    | nil => simp at hy
    | cons b B =>
      have hxb : R x b := hp b (by simp) (hB b (by simp))
      rcases List.mem_cons.1 hy with rfl | hy
      · exact hxb
      · exact htrans _ _ _ hxb (List.rel_of_pairwise_cons hlB hy)
  refine ⟨hlA, List.Pairwise.cons hxB hlB, ?_⟩
  intro a ha b hb
  rcases List.mem_cons.1 hb with rfl | hb
  · exact hAx a ha
  · exact hAB a ha b hb

/-- On a sorted list along which `p` stays true, the result is sorted only if `p` says which
elements may come after `x`. -/
theorem insertBefore_sorted_iff {R : α → α → Prop} {p : α → Bool} {x : α} {l : List α}
    (htrans : ∀ a b c, R a b → R b c → R a c) (hl : l.Pairwise R)
    (hmono : ∀ y ∈ l, ∀ z ∈ l, R y z → p y = true → p z = true) :
    (insertBefore p x l).Pairwise R ↔
      ∀ y ∈ l, (p y = true → R x y) ∧ (p y = false → R y x) := by
  refine ⟨fun h => ?_, fun h => ?_⟩
  · obtain ⟨A, B, rfl, hi, hA, hB⟩ := insertBefore_split p x l
    rw [hi, List.pairwise_append, List.pairwise_cons] at h
    obtain ⟨-, ⟨hxB, -⟩, hcross⟩ := h
    intro y hy
    rcases List.mem_append.1 hy with hyA | hyB
    · refine ⟨fun hp => ?_, fun _ => hcross y hyA x (by simp)⟩
      rw [hA y hyA] at hp
      cases hp
    · refine ⟨fun _ => hxB y hyB, fun hp => ?_⟩
      -- everything from the first element that satisfies `p` on satisfies it
      cases B with
      | nil => cases hyB
      | cons b B =>
        have hb : p b = true := hB b (by simp)
        rcases List.mem_cons.1 hyB with rfl | hyB
        · rw [hb] at hp
          cases hp
        · have hby := List.rel_of_pairwise_cons (List.pairwise_append.1 hl).2.1 hyB
          rw [hmono b (by simp) y (by simp [hyB]) hby hb] at hp
          cases hp
  · exact insertBefore_sorted htrans (fun y hy => (h y hy).1) (fun y hy => (h y hy).2) hl

end Resch.Lib
