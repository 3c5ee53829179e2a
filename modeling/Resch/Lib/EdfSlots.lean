import Resch.Lib.EdfDemand

/-!
# A schedule in slots

Where releases and execution times are whole numbers, a scheduler by deadlines need not look between
them. In each slot of length one it takes a pending job with the earliest deadline, and the processor
works for this job until the end of the slot.

* `slotRun_schedule`: this is a schedule by deadlines.
* `edf_iff`: in all schedules by deadlines of all sporadic releases the deadlines are met iff the demand
  fits in every interval.
-/

namespace Resch.Lib

open Classical MeasureTheory

variable {ι : Type*} {T : Finset ι} {P C D : ι → ℕ} {x y : ι × ℕ} {n : ℕ} {t : ℝ}

/-- The jobs that are released at the start of slot `n` and have not got what they execute -/
noncomputable def slotReady (T : Finset ι) (P C : ι → ℕ) (got : ι × ℕ → ℕ) (n : ℕ) : Finset (ι × ℕ) :=
  (T ×ˢ Finset.range (n + 1)).filter fun x => x.2 * P x.1 ≤ n ∧ got x < C x.1

/-- One with the earliest deadline -/
noncomputable def earliest (P D : ι → ℕ) (s : Finset (ι × ℕ)) : Option (ι × ℕ) :=
  if h : s.Nonempty then some (s.exists_min_image (fun x => x.2 * P x.1 + D x.1) h).choose else none

/-- The slots before `n` in which a job runs -/
noncomputable def slotGot (T : Finset ι) (P C D : ι → ℕ) : ℕ → ι × ℕ → ℕ
  | 0, _ => 0
  | n + 1, x => slotGot T P C D n x +
      if earliest P D (slotReady T P C (slotGot T P C D n) n) = some x then 1 else 0

/-- The job of slot `n` -/
noncomputable def slotJob (T : Finset ι) (P C D : ι → ℕ) (n : ℕ) : Option (ι × ℕ) :=
  earliest P D (slotReady T P C (slotGot T P C D n) n)

/-- The schedule in real time -/
noncomputable def slotRun (T : Finset ι) (P C D : ι → ℕ) (t : ℝ) : Option (ι × ℕ) :=
  if 0 ≤ t then slotJob T P C D ⌊t⌋₊ else none

theorem earliest_spec {s : Finset (ι × ℕ)} (h : earliest P D s = some x) :
    x ∈ s ∧ ∀ y ∈ s, x.2 * P x.1 + D x.1 ≤ y.2 * P y.1 + D y.1 := by
  unfold earliest at h
  split at h
  · rename_i hs
    obtain ⟨hmem, hle⟩ := (s.exists_min_image (fun x => x.2 * P x.1 + D x.1) hs).choose_spec
    rw [Option.some.inj h] at hmem hle
    exact ⟨hmem, hle⟩
  · cases h

theorem earliest_ne_none {s : Finset (ι × ℕ)} (hx : x ∈ s) : earliest P D s ≠ none := by
  unfold earliest
  rw [dif_pos ⟨x, hx⟩]
  exact Option.some_ne_none _

theorem mem_slotReady (hP : ∀ k ∈ T, 0 < P k) {got : ι × ℕ → ℕ} :
    x ∈ slotReady T P C got n ↔ x.1 ∈ T ∧ x.2 * P x.1 ≤ n ∧ got x < C x.1 := by
  unfold slotReady
  rw [Finset.mem_filter, Finset.mem_product, Finset.mem_range]
  constructor
  · rintro ⟨⟨hT, -⟩, hrel, hgot⟩
    exact ⟨hT, hrel, hgot⟩
  · rintro ⟨hT, hrel, hgot⟩
    have hle : x.2 ≤ x.2 * P x.1 := Nat.le_mul_of_pos_right _ (hP _ hT)
    exact ⟨⟨hT, by omega⟩, hrel, hgot⟩

/-! ## Slots in real time -/

theorem slotRun_eq_some : slotRun T P C D t = some x ↔ 0 ≤ t ∧ slotJob T P C D ⌊t⌋₊ = some x := by
  unfold slotRun
  split
  · rename_i ht
    exact ⟨fun h => ⟨ht, h⟩, fun h => h.2⟩
  · rename_i ht
    exact ⟨fun h => absurd h (Option.some_ne_none x).symm, fun h => absurd h.1 ht⟩

theorem slotRun_of_mem (hn : (n : ℝ) ≤ t) (ht : t < n + 1) :
    slotRun T P C D t = slotJob T P C D n := by
  have h0 : (0 : ℝ) ≤ t := (Nat.cast_nonneg n).trans hn
  unfold slotRun
  rw [if_pos h0, (Nat.floor_eq_iff h0).2 ⟨hn, ht⟩]

theorem slotRun_measurable (x : ι × ℕ) : MeasurableSet {t | slotRun T P C D t = some x} := by
  have hunion : {t | slotRun T P C D t = some x} =
      ⋃ n : {n : ℕ | slotJob T P C D n = some x}, Set.Ico (n : ℝ) (n + 1) := by
    ext t
    rw [Set.mem_ofPred_eq, slotRun_eq_some, Set.mem_iUnion]
    constructor
    · rintro ⟨ht, hjob⟩
      exact ⟨⟨⌊t⌋₊, hjob⟩, Nat.floor_le ht, Nat.lt_floor_add_one t⟩
    · rintro ⟨⟨n, hn⟩, hnt, htn⟩
      have h0 : (0 : ℝ) ≤ t := (Nat.cast_nonneg n).trans hnt
      rw [(Nat.floor_eq_iff h0).2 ⟨hnt, htn⟩]
      exact ⟨h0, hn⟩
  rw [hunion]
  exact MeasurableSet.iUnion fun n => measurableSet_Ico

theorem service_slot (x : ι × ℕ) (hn : (n : ℝ) ≤ t) (ht : t ≤ n + 1) :
    service (slotRun T P C D) x n t = if slotJob T P C D n = some x then t - n else 0 := by
  split
  · rename_i h
    refine service_full slotRun_measurable hn fun u hu hut => ?_
    rw [slotRun_of_mem hu.le (hut.trans_le ht), h]
  · rename_i h
    refine service_eq_zero fun u hu hut hrun => h ?_
    rwa [slotRun_of_mem hu.le (hut.trans_le ht)] at hrun

theorem service_slotGot (x : ι × ℕ) (n : ℕ) :
    service (slotRun T P C D) x 0 n = slotGot T P C D n x := by
  induction n with
  | zero =>
    rw [Nat.cast_zero, slotGot]
    exact (service_eq_zero fun u hu hu' => absurd (hu.trans hu') (lt_irrefl _)).trans
      Nat.cast_zero.symm
  | succ n ih =>
    have hle : (n : ℝ) ≤ (n + 1 : ℕ) := by exact_mod_cast n.le_succ
    rw [← service_add (slotRun_measurable x) (Nat.cast_nonneg n) hle, ih,
      service_slot x hle (Nat.cast_succ n).le, slotGot]
    push_cast
    rw [add_sub_cancel_left]
    rfl

/-- What a job has got at an instant is what it has got before the slot and in the slot. -/
theorem service_slotRun (x : ι × ℕ) (ht : 0 ≤ t) :
    service (slotRun T P C D) x 0 t = slotGot T P C D ⌊t⌋₊ x +
      if slotJob T P C D ⌊t⌋₊ = some x then t - ⌊t⌋₊ else 0 := by
  have hle := Nat.floor_le ht
  rw [← service_add (slotRun_measurable x) (Nat.cast_nonneg _) hle, service_slotGot,
    service_slot x hle (Nat.lt_floor_add_one t).le]

theorem pending_slot (ht : 0 ≤ t) (hrel : x.2 * P x.1 ≤ ⌊t⌋₊) (hgot : slotGot T P C D ⌊t⌋₊ x < C x.1) :
    (periodic P C).Pending (slotRun T P C D) x t := by
  refine ⟨periodic_has x, ?_, ?_⟩
  · have hrel' : ((x.2 * P x.1 : ℕ) : ℝ) ≤ (⌊t⌋₊ : ℕ) := by exact_mod_cast hrel
    exact hrel'.trans (Nat.floor_le ht)
  · show service (slotRun T P C D) x 0 t < (C x.1 : ℝ)
    have hgot' : (slotGot T P C D ⌊t⌋₊ x : ℝ) + 1 ≤ C x.1 := by exact_mod_cast hgot
    have hlt := Nat.lt_floor_add_one t
    rw [service_slotRun x ht]
    split <;> linarith

theorem slot_of_pending (hx : (periodic P C).Pending (slotRun T P C D) x t) :
    0 ≤ t ∧ x.2 * P x.1 ≤ ⌊t⌋₊ ∧ slotGot T P C D ⌊t⌋₊ x < C x.1 := by
  obtain ⟨-, hrel, hleft⟩ := hx
  have hrel : ((x.2 * P x.1 : ℕ) : ℝ) ≤ t := hrel
  have hleft : service (slotRun T P C D) x 0 t < (C x.1 : ℝ) := hleft
  have ht : 0 ≤ t := (Nat.cast_nonneg _).trans hrel
  refine ⟨ht, Nat.le_floor hrel, ?_⟩
  have hm : MeasurableSet {t | slotRun T P C D t = some x} := slotRun_measurable x
  have hmono := service_mono hm (Nat.cast_nonneg ⌊t⌋₊) (Nat.floor_le ht)
  rw [service_slotGot] at hmono
  exact_mod_cast hmono.trans_lt hleft

/-- **The slots are a schedule by deadlines.** -/
theorem slotRun_schedule (hP : ∀ k ∈ T, 0 < P k) :
    EdfSchedule (periodic P C) T D (slotRun T P C D) := by
  have hdue : ∀ x : ι × ℕ, (periodic P C).due D x = ((x.2 * P x.1 + D x.1 : ℕ) : ℝ) := by
    intro x
    rw [Nat.cast_add]
    rfl
  refine ⟨slotRun_measurable, ?_, ?_, ?_⟩
  · intro t x hrun
    obtain ⟨ht, hjob⟩ := slotRun_eq_some.1 hrun
    obtain ⟨hT, hrel, hgot⟩ := (mem_slotReady hP).1 (earliest_spec hjob).1
    exact ⟨hT, pending_slot ht hrel hgot⟩
  · intro t x hT hx hnone
    obtain ⟨ht, hrel, hgot⟩ := slot_of_pending hx
    unfold slotRun at hnone
    rw [if_pos ht] at hnone
    exact earliest_ne_none ((mem_slotReady hP).2 ⟨hT, hrel, hgot⟩) hnone
  · intro t x y hrun hT hy
    obtain ⟨-, hjob⟩ := slotRun_eq_some.1 hrun
    obtain ⟨-, hrel, hgot⟩ := slot_of_pending hy
    rw [hdue, hdue]
    exact_mod_cast (earliest_spec hjob).2 y ((mem_slotReady hP).2 ⟨hT, hrel, hgot⟩)

/-- **The demand decides.** All deadlines are met, whenever the jobs are released and however ties are
broken, iff the demand fits in every interval. -/
theorem edf_iff (hP : ∀ k ∈ T, 0 < P k) :
    (∀ (J : Jobs ι) (run : ℝ → Option (ι × ℕ)), J.Sporadic T P C → EdfSchedule J T D run →
      ∀ x : ι × ℕ, x.1 ∈ T → J.Has x → J.DoneBy run x (J.due D x)) ↔
      ∀ L, intervalDemand T P C D L ≤ L := by
  constructor
  · intro h
    have hm : ∀ x, MeasurableSet {t | slotRun T P C D t = some x} := slotRun_measurable
    refine demand_le_of_done hm hP fun x hx => ?_
    exact h _ _ (periodic_sporadic T P C) (slotRun_schedule hP) x hx (periodic_has x)
  · exact fun hfit J run hJ hrun x hx hhas => hrun.done_by_due hJ hP hfit hx hhas

end Resch.Lib
