import Resch.Lib.Rings
import Resch.Spec.GdevList

/-!
# Lists of Gdev

* `links_addNext`, `links_addPrev`, `links_del`: the stores are the operations on rings.
* `Represents.change`: what becomes of one list while the others stay as they are.
* `Represents.step`: a legal change keeps the lists, and makes of the sequences what `seqStep` says.
* `forEach_eq`: the loop visits the containers of the sequence.
* `run_represents`: all of it, over any run.
-/

namespace Resch

open Lib

namespace GdevList

variable {α β : Type} [DecidableEq α] {heap : α → GdevList α β} {entry pos y : α}

/-! ## The stores -/

theorem setNext_apply (p q : α) :
    setNext heap p q y = { heap y with next := Function.update (links heap).next p q y } := by
  unfold setNext links
  by_cases hy : y = p
  · subst hy
    rw [Function.update_self, Function.update_self]
  · rw [Function.update_of_ne hy, Function.update_of_ne hy]

theorem setPrev_apply (p q : α) :
    setPrev heap p q y = { heap y with prev := Function.update (links heap).prev p q y } := by
  unfold setPrev links
  by_cases hy : y = p
  · subst hy
    rw [Function.update_self, Function.update_self]
  · rw [Function.update_of_ne hy, Function.update_of_ne hy]

theorem links_setNext (p q : α) :
    links (setNext heap p q) =
      { links heap with next := Function.update (links heap).next p q } := by
  rw [links]
  simp only [setNext_apply]
  rfl

theorem links_setPrev (p q : α) :
    links (setPrev heap p q) =
      { links heap with prev := Function.update (links heap).prev p q } := by
  rw [links]
  simp only [setPrev_apply]
  rfl

theorem links_addNext : links (addNext heap entry pos) = (links heap).addNext entry pos := by
  unfold addNext
  simp only [links_setNext, links_setPrev]
  rfl

theorem links_addPrev : links (addPrev heap entry pos) = (links heap).addPrev entry pos := by
  unfold addPrev
  simp only [links_setNext, links_setPrev]
  rfl

theorem links_del : links (del heap entry) = (links heap).del entry := by
  unfold del
  simp only [links_setNext, links_setPrev]
  rfl

theorem container_addNext : (addNext heap entry pos y).container = (heap y).container := by
  unfold addNext
  simp only [setNext_apply, setPrev_apply]

theorem container_addPrev : (addPrev heap entry pos y).container = (heap y).container := by
  unfold addPrev
  simp only [setNext_apply, setPrev_apply]

theorem container_del : (del heap entry y).container = (heap y).container := by
  unfold del
  simp only [setNext_apply, setPrev_apply]

/-- A node points to itself. -/
theorem empty_iff :
    empty heap entry = true ↔ (heap entry).next = entry ∧ (heap entry).prev = entry := by
  unfold empty
  rw [decide_eq_true_iff]
  constructor
  · rintro ⟨h₁, h₂⟩
    exact ⟨h₂, h₁ ▸ h₂⟩
  · rintro ⟨h₁, h₂⟩
    exact ⟨h₁.trans h₂.symm, h₁⟩

/-! ## The lists -/

variable {ι : Type} {head : ι → α} {entryName : ι → β → α} {heap' : α → GdevList α β}
  {seq : ι → List α} {e : α} {i j : ι}

namespace Represents

theorem unique (h : Represents head entryName heap seq) (hi : y ∈ head i :: seq i)
    (hj : y ∈ head j :: seq j) : i = j := by
  rcases List.mem_cons.1 hi with rfl | hi
  · rcases List.mem_cons.1 hj with hj | hj
    · exact h.head_inj hj
    · exact absurd rfl (h.ne_head j _ hj i)
  · rcases List.mem_cons.1 hj with rfl | hj
    · exact absurd rfl (h.ne_head i _ hi j)
    · exact h.disjoint i j y hi hj

/-- A node that points to itself is in no list. -/
theorem notMem_of_empty (h : Represents head entryName heap seq) (he : empty heap e = true) :
    e ∉ seq i := by
  intro hmem
  exact (h.ring i).next_ne hmem (empty_iff.1 he).1

/-- A node that does not is in one. -/
theorem exists_mem (h : Represents head entryName heap seq) (hhead : ∀ i, e ≠ head i)
    (he : empty heap e = false) : ∃ i, e ∈ seq i := by
  by_contra hno
  have hone := h.alone e hhead fun i hi => hno ⟨i, hi⟩
  rw [he] at hone
  cases hone

theorem empty_head_iff (h : Represents head entryName heap seq) :
    empty heap (head i) = true ↔ seq i = [] := by
  have hring := h.ring i
  cases hseq : seq i with
  | nil =>
    rw [hseq] at hring
    exact ⟨fun _ => rfl, fun _ => empty_iff.2 hring.path⟩
  | cons x l =>
    rw [hseq] at hring
    constructor
    · intro he
      have hx : x = head i := hring.path.1.1.symm.trans (empty_iff.1 he).1
      exact absurd (hx ▸ List.mem_cons_self) hring.head_notMem
    · exact nofun

variable [DecidableEq ι]

/-- **One list changes**, by the entry `e` that comes into it or leaves it. -/
theorem change {l : List α} (h : Represents head entryName heap seq)
    (hhead : ∀ j, e ≠ head j) (hone : ∀ j, e ∈ seq j → j = i)
    (hring : (links heap').IsRing (head i) l) (hmem : ∀ x ∈ l, x = e ∨ x ∈ seq i)
    (hkept : ∀ x ∈ seq i, x ≠ e → x ∈ l)
    (hin : e ∈ l → ∃ p, (heap e).container = some p ∧ entryName i p = e)
    (hout : e ∉ l → empty heap' e = true)
    (hframe : ∀ y, y ≠ e → y ∉ head i :: seq i → heap' y = heap y)
    (hcontainer : ∀ y, (heap' y).container = (heap y).container) :
    Represents head entryName heap' (Function.update seq i l) := by
  -- where the entries of the new sequences were
  have hold : ∀ j, ∀ x ∈ Function.update seq i l j, x = e ∧ j = i ∨ x ∈ seq j := by
    intro j x hx
    by_cases hj : j = i
    · subst hj
      rw [Function.update_self] at hx
      exact (hmem x hx).imp_left fun hxe => ⟨hxe, rfl⟩
    · rw [Function.update_of_ne hj] at hx
      exact .inr hx
  refine ⟨h.head_inj, fun j => ?_, fun j x hx k => ?_, fun j k x hj hk => ?_, fun x hx hno => ?_,
    fun j => (hcontainer _).trans (h.container_head j), fun j x hx => ?_⟩
  · by_cases hj : j = i
    · subst hj
      rw [Function.update_self]
      exact hring
    · rw [Function.update_of_ne hj]
      have hsame : ∀ y ∈ head j :: seq j, heap' y = heap y := by
        intro y hy
        refine hframe y ?_ fun hyi => hj (h.unique hy hyi)
        rintro rfl
        rcases List.mem_cons.1 hy with hy | hy
        · exact hhead j hy
        · exact hj (hone j hy)
      exact (h.ring j).congr (fun y hy => congrArg next (hsame y hy))
        fun y hy => congrArg prev (hsame y hy)
  · rcases hold j x hx with ⟨rfl, -⟩ | hx
    · exact hhead k
    · exact h.ne_head j x hx k
  · rcases hold j x hj with ⟨rfl, rfl⟩ | hxj
    · rcases hold k x hk with ⟨-, rfl⟩ | hxk
      · rfl
      · exact (hone k hxk).symm
    · rcases hold k x hk with ⟨rfl, rfl⟩ | hxk
      · exact hone j hxj
      · exact h.disjoint j k x hxj hxk
  · by_cases hxe : x = e
    · subst hxe
      have hno := hno i
      rw [Function.update_self] at hno
      exact hout hno
    · have hnoseq : ∀ j, x ∉ seq j := by
        intro j hxj
        have hno := hno j
        by_cases hj : j = i
        · subst hj
          rw [Function.update_self] at hno
          exact hno (hkept x hxj hxe)
        · rw [Function.update_of_ne hj] at hno
          exact hno hxj
      have hsame := hframe x hxe fun hxi => by
        rcases List.mem_cons.1 hxi with hxi | hxi
        · exact hx i hxi
        · exact hnoseq i hxi
      have halone := empty_iff.1 (h.alone x hx hnoseq)
      rw [empty_iff, hsame]
      exact halone
  · rw [hcontainer]
    rcases hold j x hx with ⟨rfl, rfl⟩ | hxj
    · rw [Function.update_self] at hx
      exact hin hx
    · exact h.container_entry j x hxj

/-- **The insertions.** The entry comes into the list at some place. -/
theorem insert {l : List α} (h : Represents head entryName heap seq) (hhead : ∀ j, e ≠ head j)
    (he : empty heap e = true) (hentry : ∃ p, (heap e).container = some p ∧ entryName i p = e)
    (hring : (links heap').IsRing (head i) l) (hperm : l.Perm (e :: seq i))
    (hframe : ∀ y, y ≠ e → y ∉ head i :: seq i → heap' y = heap y)
    (hcontainer : ∀ y, (heap' y).container = (heap y).container) :
    Represents head entryName heap' (Function.update seq i l) := by
  refine h.change hhead (fun j hj => absurd hj (h.notMem_of_empty he)) hring
    (fun x hx => List.mem_cons.1 (hperm.mem_iff.1 hx))
    (fun x hx _ => hperm.mem_iff.2 (List.mem_cons_of_mem _ hx)) (fun _ => hentry)
    (fun hno => ?_) hframe hcontainer
  exact absurd (hperm.mem_iff.2 List.mem_cons_self) hno

end Represents

/-! ## The changes -/

omit [DecidableEq α] in
/-- A node whose pointers stay -/
theorem eq_of_links (hlinks : (links heap').next y = (links heap).next y ∧
    (links heap').prev y = (links heap).prev y)
    (hcontainer : (heap' y).container = (heap y).container) : heap' y = heap y :=
  GdevList.ext hlinks.1 hlinks.2 hcontainer

theorem add_frame (h : Represents head entryName heap seq) (hye : y ≠ e)
    (hy : y ∉ head i :: seq i) : add heap e (head i) y = heap y := by
  refine eq_of_links ?_ container_addNext
  rw [add, links_addNext]
  exact (h.ring i).addNext_frame List.mem_cons_self hy hye

theorem addTail_frame (h : Represents head entryName heap seq) (hye : y ≠ e)
    (hy : y ∉ head i :: seq i) : addTail heap e (head i) y = heap y := by
  refine eq_of_links ?_ container_addPrev
  rw [addTail, links_addPrev]
  exact (h.ring i).addPrev_frame List.mem_cons_self hy hye

theorem del_frame (h : Represents head entryName heap seq) (he : e ∈ seq i)
    (hy : y ∉ head i :: seq i) : del heap e y = heap y := by
  refine eq_of_links ?_ container_del
  rw [links_del]
  exact (h.ring i).del_frame he hy

theorem empty_del : empty (del heap e) e = true := by
  rw [empty_iff]
  show (links (del heap e)).next e = e ∧ (links (del heap e)).prev e = e
  rw [links_del]
  exact ⟨Links.next_del_self, Links.prev_del_self⟩

variable [DecidableEq ι] {op : ListOp ι α}

/-- A deletion is a change of the list that holds the entry. -/
theorem seqStep_del (h : Represents head entryName heap seq) (he : e ∈ seq i) :
    ListOp.seqStep seq (.del e) = Function.update seq i ((seq i).erase e) := by
  funext j
  by_cases hj : j = i
  · subst hj
    rw [Function.update_self]
    rfl
  · rw [Function.update_of_ne hj]
    exact List.erase_of_not_mem fun hej => hj (h.disjoint j i e hej he)

omit [DecidableEq α] in
/-- A list that stays as it is is not the one of a change. -/
theorem seqStep_frame {l : List α} (hl : Function.update seq i l j = seq j) (hne : l ≠ seq i) :
    j ≠ i := by
  rintro rfl
  rw [Function.update_self] at hl
  exact hne hl

/-- **A legal change keeps the lists.** A node that is not its entry, and is on no list that
changes, is as it was. -/
theorem Represents.step (h : Represents head entryName heap seq)
    (hop : op.Legal head entryName heap) :
    Represents head entryName (op.step head heap) (op.seqStep seq) ∧
      (∀ y, y ≠ op.entry → (∀ j, y ∈ head j :: seq j → op.seqStep seq j = seq j) →
        op.step head heap y = heap y) ∧
      ∀ y, (op.step head heap y).container = (heap y).container := by
  cases op with
  | add e i =>
    obtain ⟨hhead, he, hentry⟩ := hop
    have hnotin : e ∉ head i :: seq i := by
      rw [List.mem_cons, not_or]
      exact ⟨hhead i, h.notMem_of_empty he⟩
    have hring := (h.ring i).addFront hnotin
    refine ⟨h.insert hhead he hentry ?_ (.refl _) (fun y hye hy => add_frame h hye hy)
      fun y => container_addNext, fun y hye hy => ?_, fun y => container_addNext⟩
    · show (links (addNext heap e (head i))).IsRing _ _
      rw [links_addNext]
      exact hring
    · refine add_frame h hye fun hyi => seqStep_frame (hy i hyi) ?_ rfl
      exact fun hl => absurd (congrArg List.length hl) (by rw [List.length_cons]; omega)
  | addTail e i =>
    obtain ⟨hhead, he, hentry⟩ := hop
    have hnotin : e ∉ head i :: seq i := by
      rw [List.mem_cons, not_or]
      exact ⟨hhead i, h.notMem_of_empty he⟩
    have hring := (h.ring i).addTail hnotin
    refine ⟨h.insert hhead he hentry ?_ (List.perm_append_singleton e _)
      (fun y hye hy => addTail_frame h hye hy) fun y => container_addPrev, fun y hye hy => ?_,
      fun y => container_addPrev⟩
    · show (links (addPrev heap e (head i))).IsRing _ _
      rw [links_addPrev]
      exact hring
    · refine addTail_frame h hye fun hyi => seqStep_frame (hy i hyi) ?_ rfl
      exact fun hl => absurd (congrArg List.length hl) (by rw [List.length_append]; simp)
  | del e =>
    obtain ⟨hhead, he⟩ := hop
    obtain ⟨i, hi⟩ := h.exists_mem hhead he
    have hnodup := (List.nodup_cons.1 (h.ring i).nodup).2
    -- the ring is cut at `e`
    have hring : (links (del heap e)).IsRing (head i) ((seq i).erase e) := by
      obtain ⟨l, m, heq⟩ := List.append_of_mem hi
      have hel : e ∉ l := by
        rw [heq] at hnodup
        exact fun hel => (List.nodup_append.1 hnodup).2.2 e hel e List.mem_cons_self rfl
      have hdel := h.ring i
      rw [heq] at hdel
      rw [links_del, heq, List.erase_append_right _ hel, List.erase_cons_head]
      exact hdel.del
    rw [seqStep_del h hi]
    refine ⟨h.change hhead (fun j hj => h.disjoint j i e hj hi) hring
      (fun x hx => .inr (List.mem_of_mem_erase hx))
      (fun x hx hxe => (List.mem_erase_of_ne hxe).2 hx) (fun he => ?_) (fun _ => empty_del)
      (fun y _ hy => del_frame h hi hy) fun y => container_del, fun y _ hy => ?_,
      fun y => container_del⟩
    · exact absurd he hnodup.not_mem_erase
    · refine del_frame h hi fun hyi => seqStep_frame (hy i hyi) ?_ rfl
      intro hl
      have hlen := List.length_erase_add_one hi
      rw [hl] at hlen
      omega

/-! ## The loop -/

omit [DecidableEq α] in
/-- **The loop from a node on** visits the containers up to the head, which has none. -/
theorem forEachFrom_path {f : β → α} {a h : α} {l : List α} {fuel : ℕ}
    (hpath : (links heap).Path a l h) (hhead : (heap h).container = none)
    (hl : ∀ e ∈ l, ∃ p, (heap e).container = some p ∧ f p = e) (hfuel : l.length < fuel) :
    ∃ cs, l.map (fun e => (heap e).container) = cs.map some ∧
      forEachFrom heap f fuel (containerOf heap (some (heap a).next)) = some cs := by
  induction l generalizing a fuel with
  | nil =>
    obtain ⟨fuel, rfl⟩ : ∃ n, fuel = n + 1 := ⟨fuel - 1, by omega⟩
    refine ⟨[], rfl, ?_⟩
    have hnext : (heap a).next = h := hpath.1
    rw [hnext, containerOf, Option.bind_some, hhead]
    rfl
  | cons x l ih =>
    rw [List.length_cons] at hfuel
    obtain ⟨fuel, rfl⟩ : ∃ n, fuel = n + 1 := ⟨fuel - 1, by omega⟩
    obtain ⟨⟨hnext, -⟩, hrest⟩ := hpath
    obtain ⟨p, hp, hfp⟩ := hl x List.mem_cons_self
    obtain ⟨cs, hcs, hloop⟩ :=
      ih hrest (fun e he => hl e (List.mem_cons_of_mem _ he)) (Nat.lt_of_succ_lt_succ hfuel)
    refine ⟨p :: cs, by rw [List.map_cons, hp, hcs, List.map_cons], ?_⟩
    have hax : (heap a).next = x := hnext
    rw [hax, containerOf, Option.bind_some, hp, forEachFrom, hfp, hloop]
    rfl

omit [DecidableEq ι] in
theorem forEach_eq (h : Represents head entryName heap seq) {fuel : ℕ}
    (hfuel : (seq i).length < fuel) :
    ∃ cs, (seq i).map (fun e => (heap e).container) = cs.map some ∧
      forEach heap (entryName i) fuel (head i) = some cs := by
  obtain ⟨cs, hcs, hloop⟩ := forEachFrom_path (h.ring i).path (h.container_head i)
    (h.container_entry i) hfuel
  refine ⟨cs, hcs, ?_⟩
  rw [forEach, ← hloop]
  congr 1
  -- the head of an empty list has no container, and is the node after itself
  unfold GdevList.head
  rw [Option.bind_some]
  cases he : empty heap (head i) with
  | false => rfl
  | true =>
    rw [if_pos rfl, (empty_iff.1 he).1]
    exact (h.container_head i).symm

/-! ## Runs -/

theorem Represents.run : ∀ (ops : List (ListOp ι α)) {heap : α → GdevList α β} {seq : ι → List α},
    Represents head entryName heap seq → ListOp.LegalRun head entryName heap ops →
    Represents head entryName (ListOp.run head heap ops) (ListOp.seqRun seq ops) ∧
      ∀ y, (ListOp.run head heap ops y).container = (heap y).container := by
  intro ops
  induction ops with
  | nil => exact fun h _ => ⟨h, fun _ => rfl⟩
  | cons op ops ih =>
    rintro heap seq h ⟨hop, hops⟩
    obtain ⟨hstep, -, hcontainer⟩ := h.step hop
    obtain ⟨hrun, hcontainers⟩ := ih hstep hops
    exact ⟨hrun, fun y => (hcontainers y).trans (hcontainer y)⟩

/-- **Lists of Gdev are sequences**, after any legal changes. A list is empty when its sequence is,
the loop over it visits the containers in order and stops, and the next legal change leaves the
nodes of the other lists as they are, and the node it deletes pointing to itself. -/
theorem run_represents (head : ι → α) (entryName : ι → β → α) (heap : α → GdevList α β)
    (seq : ι → List α) (ops : List (ListOp ι α)) (h : Represents head entryName heap seq)
    (hops : ListOp.LegalRun head entryName heap ops) :
    Represents head entryName (ListOp.run head heap ops) (ListOp.seqRun seq ops) ∧
      (∀ i, empty (ListOp.run head heap ops) (head i) = true ↔ ListOp.seqRun seq ops i = []) ∧
      (∀ i fuel, (ListOp.seqRun seq ops i).length < fuel →
        ∃ cs, (ListOp.seqRun seq ops i).map (fun e => (heap e).container) = cs.map some ∧
          forEach (ListOp.run head heap ops) (entryName i) fuel (head i) = some cs) ∧
      (∀ op : ListOp ι α, op.Legal head entryName (ListOp.run head heap ops) →
        ∀ y, y ≠ op.entry →
          (∀ i, y ∈ head i :: ListOp.seqRun seq ops i →
            op.seqStep (ListOp.seqRun seq ops) i = ListOp.seqRun seq ops i) →
          op.step head (ListOp.run head heap ops) y = ListOp.run head heap ops y) ∧
      ∀ e, (ListOp.del e : ListOp ι α).Legal head entryName (ListOp.run head heap ops) →
        empty (del (ListOp.run head heap ops) e) e = true := by
  obtain ⟨hrun, hcontainer⟩ := h.run ops hops
  refine ⟨hrun, fun i => hrun.empty_head_iff, fun i fuel hfuel => ?_, fun op hop => ?_,
    fun e _ => empty_del⟩
  · obtain ⟨cs, hcs, hloop⟩ := forEach_eq hrun hfuel
    refine ⟨cs, ?_, hloop⟩
    rw [← hcs]
    exact List.map_congr_left fun e _ => (hcontainer e).symm
  · exact (hrun.step hop).2.1

omit [DecidableEq ι] in
/-- Lists that have been initialised, and entries that have -/
theorem Represents.start (hinj : Function.Injective head)
    (hheap : ∀ e, empty heap e = true) (hhead : ∀ i, (heap (head i)).container = none) :
    Represents head entryName heap fun _ => [] where
  head_inj := hinj
  ring i := ⟨List.nodup_singleton _, empty_iff.1 (hheap (head i))⟩
  ne_head _ _ he := absurd he List.not_mem_nil
  disjoint _ _ _ he := absurd he List.not_mem_nil
  alone e _ _ := hheap e
  container_head := hhead
  container_entry _ _ he := absurd he List.not_mem_nil

/-- Two lists, whose heads are the nodes 0 and 1 -/
def twoHeads (i : Bool) : ℕ := if i then 1 else 0

/-- Each node as `gdev_list_init` leaves it -/
def twoLists (e : ℕ) : GdevList ℕ ℕ :=
  init (fun _ => ⟨0, 0, none⟩) e (if e < 2 then none else some e) e

def twoListsOps : List (ListOp Bool ℕ) :=
  [.add 2 false, .addTail 3 false, .add 4 true, .add 5 false, .del 2]

theorem run_represents_twoLists :
    Represents twoHeads (fun _ p => p) (ListOp.run twoHeads twoLists twoListsOps)
        (ListOp.seqRun (fun _ => []) twoListsOps) ∧
      (empty (ListOp.run twoHeads twoLists twoListsOps) 1 = true ↔
        ListOp.seqRun (fun _ => []) twoListsOps true = []) := by
  have hinj : Function.Injective twoHeads := by
    intro i j h
    cases i <;> cases j <;> simp_all [twoHeads]
  have hstart : Represents twoHeads (fun _ p => p) twoLists fun _ => [] :=
    .start hinj (fun e => empty_iff.2 (by
      unfold twoLists init
      rw [Function.update_self]
      exact ⟨rfl, rfl⟩)) (by decide)
  have hlegal : ListOp.LegalRun twoHeads (fun _ p => p) twoLists twoListsOps :=
    ⟨⟨by decide, by decide, 2, by decide, rfl⟩, ⟨by decide, by decide, 3, by decide, rfl⟩,
      ⟨by decide, by decide, 4, by decide, rfl⟩, ⟨by decide, by decide, 5, by decide, rfl⟩,
      ⟨by decide, by decide⟩, trivial⟩
  obtain ⟨hrun, hempty, -⟩ := run_represents twoHeads (fun _ p => p) twoLists (fun _ => [])
    twoListsOps hstart hlegal
  exact ⟨hrun, hempty true⟩

end GdevList

end Resch
