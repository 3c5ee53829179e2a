import Resch.Lib.Ready
import Resch.Proof.ActiveQueue

/-!
# The active queue of EDF tasks as one list

EDF tasks are queued at two levels, `RESCH_PRIO_EDF` and `RESCH_PRIO_BACKGROUND`, each in
order of deadlines. `walk s cpu` is the one after the other. `active_highest_prio_task` is
the head of it and `active_next_prio_task` the successor in it (`highest_eq`, `next_eq`);
enqueueing inserts a task before the first one that it is ahead of (`walk_enqueue`), and
dequeueing takes it out (`walk_unlink`).
-/

namespace Resch

open Lib

variable {s s' : State} {rt q cpu x : ℕ} {prio : ℤ}

/-- The tasks of a CPU, highest priority first. -/
def walk (s : State) (cpu : ℕ) : List ℕ :=
  (s.lo cpu).queue (prioIndex reschPrioEdf) ++ (s.lo cpu).queue (prioIndex reschPrioBackground)

/-- `a`, at level `prio`, goes before `b`. -/
def aheadAt (s : State) (a : ℕ) (prio : ℤ) (b : ℕ) : Bool :=
  decide ((s.task b).prio < prio ∨
    ((s.task b).prio = prio ∧ (s.task a).deadlineTime < (s.task b).deadlineTime))

/-- `a` is ahead of `b`. -/
def ahead (s : State) (a b : ℕ) : Bool := aheadAt s a (s.task a).prio b

/-- Every active task is at one of the two levels. -/
def EdfLevels (s : State) : Prop :=
  ∀ q, s.isActive q = true → (s.task q).prio = reschPrioEdf ∨ (s.task q).prio = reschPrioBackground

theorem mem_queue (hq : Queued s s.place) {i : ℤ} :
    q ∈ (s.lo cpu).queue i ↔
      s.isActive q = true ∧ (s.task q).cpuId = cpu ∧ prioIndex (s.task q).prio = i := by
  rw [hq.mem_iff]
  unfold State.place State.placeAt
  split <;> simp_all

theorem prioIndex_inj {p p' : ℤ} : prioIndex p = prioIndex p' ↔ p = p' := by
  unfold prioIndex; omega

theorem mem_walk (hq : Queued s s.place) (hl : EdfLevels s) :
    q ∈ walk s cpu ↔ s.isActive q = true ∧ (s.task q).cpuId = cpu := by
  unfold walk
  rw [List.mem_append, mem_queue hq, mem_queue hq, prioIndex_inj, prioIndex_inj]
  constructor
  · rintro (h | h) <;> exact ⟨h.1, h.2.1⟩
  · intro h
    rcases hl q h.1 with hp | hp
    · exact Or.inl ⟨h.1, h.2, hp⟩
    · exact Or.inr ⟨h.1, h.2, hp⟩

theorem walk_nodup (hq : Queued s s.place) : (walk s cpu).Nodup := by
  unfold walk
  refine List.Nodup.append (hq.placed.nodup (cpu, _)) (hq.placed.nodup (cpu, _)) ?_
  intro q h₁ h₂
  have h₁ := ((mem_queue hq).1 h₁).2.2
  rw [((mem_queue hq).1 h₂).2.2] at h₁
  exact absurd h₁ (by decide)

theorem queue_eq_nil (hq : Queued s s.place) (hl : EdfLevels s) {i : ℤ}
    (h₁ : i ≠ prioIndex reschPrioEdf) (h₂ : i ≠ prioIndex reschPrioBackground) :
    (s.lo cpu).queue i = [] := by
  rw [List.eq_nil_iff_forall_not_mem]
  intro q hm
  obtain ⟨ha, -, hi⟩ := (mem_queue hq).1 hm
  rcases hl q ha with hp | hp <;> rw [hp] at hi
  · exact h₁ hi.symm
  · exact h₂ hi.symm

/-! ## The highest and the next task -/

/-- What the searches of the bitmap find, from level `lo` on. -/
theorem firstLevel (hq : Queued s s.place) (hl : EdfLevels s) (lo : ℕ) {r : ℤ}
    (h : IsLeastBit (fun j => testBit (j : ℤ) (s.lo cpu).bitmap && decide (lo ≤ j))
      (reschPrioLong * 64) r) :
    (if r < 0 then none else ((s.lo cpu).queue r).head?) =
      if lo ≤ 95 then (walk s cpu).head?
      else if lo ≤ 96 then ((s.lo cpu).queue (prioIndex reschPrioBackground)).head? else none := by
  have hbit : ∀ j : ℕ, testBit (j : ℤ) (s.lo cpu).bitmap = true ↔ (s.lo cpu).queue j ≠ [] :=
    fun j => hq.bits cpu j (Int.natCast_nonneg j)
  have h95 : (prioIndex reschPrioEdf) = ((95 : ℕ) : ℤ) := rfl
  have h96 : (prioIndex reschPrioBackground) = ((96 : ℕ) : ℤ) := rfl
  have hlen : reschPrioLong * 64 = 128 := rfl
  rw [hlen] at h
  unfold walk
  rw [h95, h96]
  rcases h with ⟨rfl, hnone⟩ | ⟨m, rfl, -, hm, hleast⟩
  · -- no bit from `lo` on
    have hempty : ∀ j : ℕ, lo ≤ j → j < 128 → (s.lo cpu).queue j = [] := by
      intro j hj hlt
      by_contra hne
      have := hnone j hlt
      simp only [(hbit j).2 hne, hj, decide_true, Bool.and_true, Bool.true_eq_false] at this
    rw [if_pos (by decide)]
    by_cases h₁ : lo ≤ 95
    · rw [if_pos h₁, hempty 95 h₁ (by decide), hempty 96 (by omega) (by decide)]; rfl
    · rw [if_neg h₁]
      by_cases h₂ : lo ≤ 96
      · rw [if_pos h₂, hempty 96 h₂ (by decide)]; rfl
      · rw [if_neg h₂]
  · rw [Bool.and_eq_true, hbit, decide_eq_true_eq] at hm
    have hcase : m = 95 ∨ m = 96 := by
      by_contra hc
      rw [not_or] at hc
      refine hm.1 (queue_eq_nil hq hl ?_ ?_)
      · rw [h95]; exact fun he => hc.1 (by exact_mod_cast he)
      · rw [h96]; exact fun he => hc.2 (by exact_mod_cast he)
    rw [if_neg (by omega)]
    rcases hcase with rfl | rfl
    · rw [if_pos hm.2, List.head?_append]
      cases hq95 : (s.lo cpu).queue ((95 : ℕ) : ℤ) with
      | nil => exact absurd hq95 hm.1
      | cons y l => rfl
    · by_cases h₁ : lo ≤ 95
      · have : (s.lo cpu).queue ((95 : ℕ) : ℤ) = [] := by
          by_contra hne
          have := hleast 95 (by omega)
          simp only [(hbit 95).2 hne, h₁, decide_true, Bool.and_true, Bool.true_eq_false] at this
        rw [if_pos h₁, this]; rfl
      · rw [if_neg h₁, if_pos hm.2]

/-- **The highest task** is the head of the walk. -/
theorem highest_eq (hq : Queued s s.place) (hl : EdfLevels s) :
    activeHighestPrioTask s cpu = (walk s cpu).head? := by
  have h := reschFfs_spec (s.lo cpu).bitmap reschPrioLong
  exact firstLevel hq hl 0 (by simpa using h)

/-- The successor in two lists, one after the other. -/
theorem nextIn_append_left {A B : List ℕ} (hx : x ∈ A) :
    nextIn (A ++ B) x = (nextIn A x).or B.head? := by
  have hlt := List.idxOf_lt_length_of_mem hx
  unfold nextIn
  rw [List.idxOf_append_of_mem hx]
  by_cases h : A.idxOf x + 1 < A.length
  · rw [List.getElem?_append_left h, List.getElem?_eq_getElem h]; rfl
  · have heq : A.idxOf x + 1 = A.length := by omega
    have hnone : A[A.idxOf x + 1]? = none := List.getElem?_eq_none (by omega)
    rw [hnone, Option.none_or, heq, List.getElem?_append_right (by omega), Nat.sub_self,
      List.head?_eq_getElem?]

theorem nextIn_append_right {A B : List ℕ} (hx : x ∉ A) : nextIn (A ++ B) x = nextIn B x := by
  unfold nextIn
  rw [List.idxOf_append_of_notMem hx, List.getElem?_append_right (by omega)]
  congr 1; omega

/-- **The next task** is the successor in the walk. -/
theorem next_eq (hq : Queued s s.place) (hl : EdfLevels s) (ha : s.isActive rt = true) :
    activeNextPrioTask s rt = nextIn (walk s (s.task rt).cpuId) rt := by
  have hsearch : ∀ lo : ℕ, lo % 64 ≠ 0 → lo < reschPrioLong * 64 →
      (if reschFns (s.lo (s.task rt).cpuId).bitmap (lo : ℤ) reschPrioLong < 0 then none
        else ((s.lo (s.task rt).cpuId).queue
          (reschFns (s.lo (s.task rt).cpuId).bitmap (lo : ℤ) reschPrioLong)).head?) =
      if lo ≤ 95 then (walk s (s.task rt).cpuId).head?
      else if lo ≤ 96 then ((s.lo (s.task rt).cpuId).queue (prioIndex reschPrioBackground)).head?
      else none :=
    fun lo h₁ h₂ => firstLevel hq hl lo (reschFns_spec h₁ h₂)
  unfold activeNextPrioTask walk
  dsimp only
  rcases hl rt ha with hp | hp
  · have hm : rt ∈ (s.lo (s.task rt).cpuId).queue (prioIndex reschPrioEdf) :=
      (mem_queue hq).2 ⟨ha, rfl, by rw [hp]⟩
    rw [hp, nextIn_append_left hm]
    cases hn : nextIn ((s.lo (s.task rt).cpuId).queue (prioIndex reschPrioEdf)) rt with
    | some p => rfl
    | none => exact hsearch 96 (by decide) (by decide)
  · have hm : rt ∉ (s.lo (s.task rt).cpuId).queue (prioIndex reschPrioEdf) := by
      intro hm
      have := ((mem_queue hq).1 hm).2.2
      rw [hp] at this
      exact absurd this (by decide)
    rw [hp, nextIn_append_right hm]
    cases hn : nextIn ((s.lo (s.task rt).cpuId).queue (prioIndex reschPrioBackground)) rt with
    | some p => rfl
    | none => exact hsearch 97 (by decide) (by decide)

/-! ## Enqueueing and dequeueing -/

theorem walk_unlink {idx : ℤ} : walk (s.unlink rt cpu idx) x = (walk s x).filter (· ≠ rt) := by
  unfold walk
  rw [queue_unlink, queue_unlink, List.filter_append]

theorem walk_of_lo (h : s'.lo = s.lo) : walk s' x = walk s x := by
  unfold walk
  rw [h]

/-- **Enqueueing at one of the two levels** inserts into the walk. -/
theorem walk_enqueue (hq : Queued s s.place) (hp : prio = reschPrioEdf ∨ prio = reschPrioBackground) :
    walk (Edf.edfEnqueueTask s rt prio cpu) x =
      if x = cpu then insertBefore (aheadAt s rt prio) rt (walk s cpu) else walk s x := by
  have hqueue : ∀ i, ((Edf.edfEnqueueTask s rt prio cpu).lo x).queue i =
      if x = cpu ∧ i = prioIndex prio then deadlineInsert s rt ((s.lo cpu).queue (prioIndex prio))
      else (s.lo x).queue i := by
    intro i
    unfold Edf.edfEnqueueTask enqueueTaskAt
    rw [lo_setPrio, queue_link]
  unfold walk
  rw [hqueue, hqueue]
  by_cases hx : x = cpu
  swap
  · simp [hx]
  subst hx
  -- within the level, the order of deadlines decides
  have hlevel : deadlineInsert s rt ((s.lo x).queue (prioIndex prio)) =
      insertBefore (aheadAt s rt prio) rt ((s.lo x).queue (prioIndex prio)) := by
    refine insertBefore_congr fun y hy => ?_
    have hpy : (s.task y).prio = prio := prioIndex_inj.1 ((mem_queue hq).1 hy).2.2
    simp [aheadAt, hpy]
  rcases hp with rfl | rfl
  · rw [if_pos ⟨rfl, rfl⟩, if_neg fun h => absurd h.2 (by decide), if_pos rfl, hlevel,
      insertBefore_append_left]
    intro y hy
    have hpy : (s.task y).prio = reschPrioBackground := prioIndex_inj.1 ((mem_queue hq).1 hy).2.2
    simp [aheadAt, hpy, reschPrioEdf]
  · rw [if_neg fun h => absurd h.2 (by decide), if_pos ⟨rfl, rfl⟩, if_pos rfl, hlevel,
      insertBefore_append_right]
    intro y hy
    have hpy : (s.task y).prio = reschPrioEdf := prioIndex_inj.1 ((mem_queue hq).1 hy).2.2
    simp [aheadAt, hpy, reschPrioEdf]

end Resch
