import Resch.Lib.Walk

/-!
# Doubly linked chains

`Chain next prev p l q` says that the links `next` and `prev` lead through the entries of `l`, which
stand between `p` and `q`.

* `Chain.insert` and `Chain.remove`: an entry is put between two others, or taken out, by writing the
  links of its neighbours.
* `Chain.follows`: a walk along `next` sees the entries of `l` in order.
-/

namespace Resch.Lib

variable {α : Type*} {next prev next' prev' : α → Option α} {p p' q q' : Option α} {a b l : List α}
  {x y : α}

def Chain (next prev : α → Option α) : Option α → List α → Option α → Prop
  | _, [], _ => True
  | p, x :: l, q => prev x = p ∧ next x = l.head?.or q ∧ Chain next prev (some x) l q

theorem Chain.congr (h : Chain next prev p l q) (hn : ∀ y ∈ l, next' y = next y)
    (hp : ∀ y ∈ l, prev' y = prev y) : Chain next' prev' p l q := by
  induction l generalizing p with
  | nil => trivial
  | cons x l ih =>
    obtain ⟨h1, h2, h3⟩ := h
    refine ⟨?_, ?_, ih h3 (fun y hy => hn y (List.mem_cons_of_mem _ hy))
      fun y hy => hp y (List.mem_cons_of_mem _ hy)⟩
    · rw [hp x List.mem_cons_self]
      exact h1
    · rw [hn x List.mem_cons_self]
      exact h2

theorem chain_append : Chain next prev p (a ++ b) q ↔
    Chain next prev p a (b.head?.or q) ∧ Chain next prev (a.getLast?.or p) b q := by
  induction a generalizing p with
  | nil => exact ⟨fun h => ⟨trivial, h⟩, fun h => h.2⟩
  | cons x a ih =>
    have hlast : (x :: a).getLast?.or p = a.getLast?.or (some x) := by
      rw [List.getLast?_cons]
      cases a.getLast? <;> rfl
    rw [hlast, List.cons_append, Chain, Chain, ih, List.head?_append, Option.or_assoc, and_assoc,
      and_assoc]

section Writes

variable [DecidableEq α]

/-- Another entry after the last one -/
theorem Chain.setEnd (h : Chain next prev p a q) (hl : a.Nodup) (hp : ∀ y ∈ a, prev' y = prev y)
    (hn : ∀ y ∈ a, next' y = if a.getLast? = some y then q' else next y) :
    Chain next' prev' p a q' := by
  induction a generalizing p with
  | nil => trivial
  | cons x a ih =>
    obtain ⟨h1, h2, h3⟩ := h
    obtain ⟨hx, hl⟩ := List.nodup_cons.1 hl
    have hnx := hn x List.mem_cons_self
    refine ⟨(hp x List.mem_cons_self).trans h1, ?_, ?_⟩
    · cases a with
      | nil => simpa using hnx
      | cons z a =>
        have hne : (x :: z :: a).getLast? ≠ some x := by
          rw [List.getLast?_cons_cons]
          intro he
          exact hx (List.mem_of_getLast? he)
        rw [if_neg hne] at hnx
        rw [hnx, h2]
        rfl
    · refine ih h3 hl (fun y hy => hp y (List.mem_cons_of_mem _ hy)) fun y hy => ?_
      rw [hn y (List.mem_cons_of_mem _ hy)]
      cases a with
      | nil => cases hy
      | cons z a => rw [List.getLast?_cons_cons]

/-- Another entry before the first one -/
theorem Chain.setStart (h : Chain next prev p b q) (hl : b.Nodup) (hn : ∀ y ∈ b, next' y = next y)
    (hp : ∀ y ∈ b, prev' y = if b.head? = some y then p' else prev y) :
    Chain next' prev' p' b q := by
  cases b with
  | nil => trivial
  | cons x b =>
    obtain ⟨-, h2, h3⟩ := h
    obtain ⟨hx, -⟩ := List.nodup_cons.1 hl
    refine ⟨?_, (hn x List.mem_cons_self).trans h2, ?_⟩
    · rw [hp x List.mem_cons_self, List.head?_cons, if_pos rfl]
    · refine h3.congr (fun y hy => hn y (List.mem_cons_of_mem _ hy)) fun y hy => ?_
      rw [hp y (List.mem_cons_of_mem _ hy), List.head?_cons, if_neg]
      rintro he
      rw [Option.some.injEq] at he
      subst he
      exact hx hy

/-- **Putting `x` in** between the entries of `a` and those of `b` -/
theorem Chain.insert (h : Chain next prev none (a ++ b) none) (hl : (a ++ b).Nodup)
    (hxn : next' x = b.head?) (hxp : prev' x = a.getLast?)
    (hn : ∀ y ∈ a ++ b, next' y = if a.getLast? = some y then some x else next y)
    (hp : ∀ y ∈ a ++ b, prev' y = if b.head? = some y then some x else prev y) :
    Chain next' prev' none (a ++ x :: b) none := by
  rw [chain_append] at h ⊢
  obtain ⟨ha, hb⟩ := h
  obtain ⟨hla, hlb, hab⟩ := List.nodup_append.1 hl
  simp only [Option.or_none] at ha hb ⊢
  refine ⟨ha.setEnd hla (fun y hy => ?_) fun y hy => ?_, hxp, ?_, hb.setStart hlb (fun y hy => ?_)
    fun y hy => ?_⟩
  · rw [hp y (List.mem_append_left _ hy), if_neg]
    exact fun he => hab y hy y (List.mem_of_mem_head? he) rfl
  · exact hn y (List.mem_append_left _ hy)
  · rw [hxn, Option.or_none]
  · rw [hn y (List.mem_append_right _ hy), if_neg]
    exact fun he => hab y (List.mem_of_getLast? he) y hy rfl
  · exact hp y (List.mem_append_right _ hy)

/-- **Taking `x` out** -/
theorem Chain.remove (h : Chain next prev none (a ++ x :: b) none) (hl : (a ++ x :: b).Nodup)
    (hn : ∀ y ∈ a ++ b, next' y = if a.getLast? = some y then b.head? else next y)
    (hp : ∀ y ∈ a ++ b, prev' y = if b.head? = some y then a.getLast? else prev y) :
    Chain next' prev' none (a ++ b) none := by
  rw [chain_append] at h ⊢
  obtain ⟨ha, -, -, hb⟩ := h
  obtain ⟨hla, hlb, hab⟩ := List.nodup_append.1 hl
  obtain ⟨-, hlb⟩ := List.nodup_cons.1 hlb
  have hab : ∀ {y}, y ∈ a → y ∈ b → False :=
    fun hya hyb => hab _ hya _ (List.mem_cons_of_mem _ hyb) rfl
  simp only [Option.or_none] at hb ⊢
  refine ⟨ha.setEnd hla (fun y hy => ?_) fun y hy => ?_, hb.setStart hlb (fun y hy => ?_)
    fun y hy => ?_⟩
  · rw [hp y (List.mem_append_left _ hy), if_neg]
    exact fun he => hab hy (List.mem_of_mem_head? he)
  · exact hn y (List.mem_append_left _ hy)
  · rw [hn y (List.mem_append_right _ hy), if_neg]
    exact fun he => hab (List.mem_of_getLast? he) hy
  · exact hp y (List.mem_append_right _ hy)

end Writes

/-- The links of an entry -/
theorem Chain.links (h : Chain next prev none (a ++ x :: b) none) :
    prev x = a.getLast? ∧ next x = b.head? := by
  rw [chain_append] at h
  obtain ⟨-, h1, h2, -⟩ := h
  rw [Option.or_none] at h1 h2
  exact ⟨h1, h2⟩

theorem Chain.follows (h : Chain next prev p l none) : Follows next l := by
  induction l generalizing p with
  | nil => trivial
  | cons x l ih =>
    obtain ⟨-, h2, h3⟩ := h
    rw [Option.or_none] at h2
    exact ⟨h2, ih h3⟩

/-- The link back from the entry after `x`. -/
theorem Chain.back (h : Chain next prev none l none) (hx : x ∈ l) (hxy : next x = some y) :
    y ∈ l ∧ prev y = some x := by
  obtain ⟨a, b, rfl⟩ := h.follows.split hx hxy
  have hy : a ++ x :: y :: b = (a ++ [x]) ++ y :: b := by
    rw [List.append_assoc, List.singleton_append]
  refine ⟨?_, ?_⟩
  · rw [hy]
    exact List.mem_append_right _ List.mem_cons_self
  · rw [hy] at h
    rw [h.links.1, List.getLast?_append_of_ne_nil _ (List.cons_ne_nil _ _)]
    rfl

end Resch.Lib
