import Resch.Proof.GpuTime

/-!
# Comparing signed times

The comparisons go by the sign flag, then by the seconds and then by the microseconds, while a time
may have a second or more in its microseconds (`gdev_time_us` does not carry, a difference does not
borrow) and zero may be flagged.

* `Compares`: the ten predicates follow the values.
* `Comparable`: what the fields of two times must be like for that (`compares_iff`).
-/

namespace Resch

variable {m : TimeMem} {x y : ℕ} {a b : GdevTime}

open GdevTime

/-- The five comparisons of `x` and `y` and the five of `x` with zero follow the values. -/
structure Compares (m : TimeMem) (x y : ℕ) : Prop where
  lt : gdevTimeLt m x y = decide ((m x).val < (m y).val)
  le : gdevTimeLe m x y = decide ((m x).val ≤ (m y).val)
  gt : gdevTimeGt m x y = decide ((m y).val < (m x).val)
  ge : gdevTimeGe m x y = decide ((m y).val ≤ (m x).val)
  eq : gdevTimeEq m x y = decide ((m x).val = (m y).val)
  ltz : gdevTimeLtz m x = decide ((m x).val < 0)
  lez : gdevTimeLez m x = decide ((m x).val ≤ 0)
  gtz : gdevTimeGtz m x = decide (0 < (m x).val)
  gez : gdevTimeGez m x = decide (0 ≤ (m x).val)
  eqz : gdevTimeEqz m x = decide ((m x).val = 0)

/-- `a` has fewer seconds than `b`, and microseconds that make up for them. -/
def GdevTime.MakesUp (a b : GdevTime) : Prop :=
  a.sec < b.sec ∧ b.usec + (b.sec - a.sec) * 1000000 ≤ a.usec

/-- Of times with the same flag neither makes up for its seconds, and times with different flags
differ in their fields. -/
structure GdevTime.Comparable (a b : GdevTime) : Prop where
  same : a.neg = b.neg → ¬ a.MakesUp b ∧ ¬ b.MakesUp a
  opposite : a.neg ≠ b.neg → ¬ (a.sec = b.sec ∧ a.usec = b.usec)

/-- Zero with the flag -/
def GdevTime.FlaggedZero (a : GdevTime) : Prop := a.neg = true ∧ a.sec = 0 ∧ a.usec = 0

/-! ## One comparison for each direction -/

/-- The two strict comparisons are one, with the operands exchanged. -/
theorem gdevTimeGt_eq (m : TimeMem) (x y : ℕ) : gdevTimeGt m x y = gdevTimeLt m y x := by
  unfold gdevTimeGt gdevTimeLt
  cases (m x).neg <;> cases (m y).neg <;> simp [eq_comm]

theorem gdevTimeEq_iff : gdevTimeEq m x y = true ↔ (m x).sec = (m y).sec ∧ (m x).usec = (m y).usec := by
  unfold gdevTimeEq
  rw [Bool.and_eq_true, decide_eq_true_iff, decide_eq_true_iff]

/-- The order that the code uses on magnitudes -/
def GdevTime.FieldsLt (a b : GdevTime) : Prop :=
  a.sec < b.sec ∨ a.sec = b.sec ∧ a.usec < b.usec

theorem gdevTimeLt_same (h : (m x).neg = (m y).neg) : gdevTimeLt m x y = true ↔
    if (m x).neg = true then (m y).FieldsLt (m x) else (m x).FieldsLt (m y) := by
  unfold gdevTimeLt FieldsLt
  rw [← h]
  cases (m x).neg
  · simp only [Bool.false_eq_true, and_false, and_true, and_self, if_false]
    split <;> rw [decide_eq_true_iff] <;> omega
  · simp only [Bool.true_eq_false, and_false, false_and, and_self, if_true, if_false]
    split <;> rw [decide_eq_true_iff] <;> omega

theorem gdevTimeLt_opposite (h : (m x).neg ≠ (m y).neg) : gdevTimeLt m x y = (m x).neg := by
  unfold gdevTimeLt
  revert h
  cases (m x).neg <;> cases (m y).neg <;> simp

/-- The order on fields is the order of magnitudes where neither time makes up for its seconds. -/
theorem fieldsLt_iff (h : ¬ a.MakesUp b ∧ ¬ b.MakesUp a) : a.FieldsLt b ↔ a.mag < b.mag := by
  obtain ⟨hab, hba⟩ := h
  unfold MakesUp at hab hba
  unfold FieldsLt mag
  omega

theorem fields_eq_iff (h : ¬ a.MakesUp b ∧ ¬ b.MakesUp a) :
    a.sec = b.sec ∧ a.usec = b.usec ↔ a.mag = b.mag := by
  obtain ⟨hab, hba⟩ := h
  unfold MakesUp at hab hba
  unfold mag
  omega

theorem mag_eq_zero : a.mag = 0 ↔ a.sec = 0 ∧ a.usec = 0 := by
  unfold mag
  omega

theorem GdevTime.Comparable.symm (h : a.Comparable b) : b.Comparable a :=
  ⟨fun hn => (h.same hn.symm).symm, fun hn hf => h.opposite hn.symm ⟨hf.1.symm, hf.2.symm⟩⟩

/-- Times with different flags that differ in their fields are not both zero. -/
theorem GdevTime.Comparable.not_zeros (h : a.Comparable b) (hn : a.neg ≠ b.neg) :
    a.mag ≠ 0 ∨ b.mag ≠ 0 := by
  by_contra hc
  push Not at hc
  rw [mag_eq_zero, mag_eq_zero] at hc
  exact h.opposite hn ⟨by omega, by omega⟩

/-! ## The comparisons of comparable times -/

theorem GdevTime.Comparable.lt (h : (m x).Comparable (m y)) :
    gdevTimeLt m x y = true ↔ (m x).val < (m y).val := by
  rw [val_eq, val_eq]
  by_cases hn : (m x).neg = (m y).neg
  · rw [gdevTimeLt_same hn, ← hn]
    have hxy := fieldsLt_iff (h.same hn)
    have hyx := fieldsLt_iff (h.same hn).symm
    split
    · rw [hyx]
      omega
    · rw [hxy]
      omega
  · have hz := h.not_zeros hn
    rw [gdevTimeLt_opposite hn]
    revert hn
    cases (m x).neg <;> cases (m y).neg <;> simp
    all_goals omega

theorem GdevTime.Comparable.eq (h : (m x).Comparable (m y)) :
    gdevTimeEq m x y = true ↔ (m x).val = (m y).val := by
  rw [val_eq, val_eq, gdevTimeEq_iff]
  by_cases hn : (m x).neg = (m y).neg
  · rw [fields_eq_iff (h.same hn), ← hn]
    split <;> omega
  · have hz := h.not_zeros hn
    -- neither side holds
    refine ⟨fun hf => absurd hf (h.opposite hn), fun hv => ?_⟩
    revert hn hv
    cases (m x).neg <;> cases (m y).neg <;> simp
    all_goals omega

theorem GdevTime.Comparable.le (h : (m x).Comparable (m y)) :
    gdevTimeLe m x y = true ↔ (m x).val ≤ (m y).val := by
  unfold gdevTimeLe
  rw [le_iff_eq_or_lt, ← h.eq, ← h.lt]
  split <;> simp_all

theorem GdevTime.Comparable.gt (h : (m x).Comparable (m y)) :
    gdevTimeGt m x y = true ↔ (m y).val < (m x).val := by
  rw [gdevTimeGt_eq]
  exact h.symm.lt

theorem GdevTime.Comparable.ge (h : (m x).Comparable (m y)) :
    gdevTimeGe m x y = true ↔ (m y).val ≤ (m x).val := by
  unfold gdevTimeGe
  rw [le_iff_eq_or_lt, eq_comm (a := (m y).val), ← h.eq, ← h.gt]
  split <;> simp_all

/-! ## Comparisons with zero -/

theorem gdevTimeEqz_iff : gdevTimeEqz m x = true ↔ (m x).val = 0 := by
  unfold gdevTimeEqz
  rw [Bool.and_eq_true, decide_eq_true_iff, decide_eq_true_iff, ← mag_eq_zero, val_eq]
  split <;> omega

theorem gdevTimeGtz_iff : gdevTimeGtz m x = true ↔ 0 < (m x).val := by
  unfold gdevTimeGtz
  have hz := mag_eq_zero (a := m x)
  rw [val_eq]
  cases (m x).neg <;> simp
  all_goals omega

theorem gdevTimeGez_iff : gdevTimeGez m x = true ↔ 0 ≤ (m x).val := by
  unfold gdevTimeGez
  rw [Bool.or_eq_true, gdevTimeGtz_iff, gdevTimeEqz_iff]
  omega

theorem gdevTimeLez_iff : gdevTimeLez m x = true ↔ (m x).val ≤ 0 := by
  unfold gdevTimeLez gdevTimeLtz
  rw [Bool.or_eq_true, gdevTimeEqz_iff, val_eq]
  cases (m x).neg <;> simp

theorem gdevTimeLtz_iff : (gdevTimeLtz m x = true ↔ (m x).val < 0) ↔ ¬ (m x).FlaggedZero := by
  unfold gdevTimeLtz FlaggedZero
  rw [val_eq, ← mag_eq_zero]
  cases (m x).neg <;> simp
  omega

/-! ## What goes wrong -/

/-- A time that makes up for its seconds is first by its fields and not by its magnitude. -/
theorem GdevTime.MakesUp.wrong (h : a.MakesUp b) : a.FieldsLt b ∧ ¬ a.mag < b.mag := by
  unfold MakesUp at h
  unfold FieldsLt mag
  omega

theorem makesUp_lt (hn : (m x).neg = (m y).neg) (h : (m x).MakesUp (m y)) :
    ¬ ((gdevTimeLt m x y = true ↔ (m x).val < (m y).val) ∧
      (gdevTimeLt m y x = true ↔ (m y).val < (m x).val)) := by
  obtain ⟨hf, hm⟩ := h.wrong
  rw [gdevTimeLt_same hn, gdevTimeLt_same hn.symm, val_eq, val_eq, ← hn]
  split
  · rintro ⟨-, h'⟩
    have := h'.1 hf
    omega
  · rintro ⟨h', -⟩
    have := h'.1 hf
    omega

/-- Times with different flags and the same fields: they are equal to `gdev_time_eq`, and one is
below the other to `gdev_time_lt`. -/
theorem opposite_wrong (hn : (m x).neg ≠ (m y).neg)
    (hf : (m x).sec = (m y).sec ∧ (m x).usec = (m y).usec)
    (hlt : gdevTimeLt m x y = true ↔ (m x).val < (m y).val)
    (hgt : gdevTimeLt m y x = true ↔ (m y).val < (m x).val)
    (heq : gdevTimeEq m x y = true ↔ (m x).val = (m y).val) : False := by
  have hv := heq.1 (gdevTimeEq_iff.2 hf)
  rw [gdevTimeLt_opposite hn] at hlt
  rw [gdevTimeLt_opposite hn.symm] at hgt
  revert hn hlt hgt
  cases (m x).neg <;> cases (m y).neg <;> simp
  all_goals omega

/-- **The ten comparisons follow the values** of `x` and `y` iff times of the same sign have no
microseconds that make up for fewer seconds, times of different signs differ in their fields, and
`x` is not a flagged zero. -/
theorem compares_iff (m : TimeMem) (x y : ℕ) :
    Compares m x y ↔ (m x).Comparable (m y) ∧ ¬ (m x).FlaggedZero := by
  constructor
  · intro h
    have hlt : gdevTimeLt m x y = true ↔ (m x).val < (m y).val := by rw [h.lt, decide_eq_true_iff]
    have hgt : gdevTimeLt m y x = true ↔ (m y).val < (m x).val := by
      rw [← gdevTimeGt_eq, h.gt, decide_eq_true_iff]
    have heq : gdevTimeEq m x y = true ↔ (m x).val = (m y).val := by rw [h.eq, decide_eq_true_iff]
    refine ⟨⟨fun hn => ⟨fun hm => ?_, fun hm => ?_⟩, fun hn hf => ?_⟩, ?_⟩
    · exact makesUp_lt hn hm ⟨hlt, hgt⟩
    · exact makesUp_lt hn.symm hm ⟨hgt, hlt⟩
    · exact opposite_wrong hn hf hlt hgt heq
    · rw [← gdevTimeLtz_iff, h.ltz, decide_eq_true_iff]
  · rintro ⟨h, hz⟩
    have hltz := gdevTimeLtz_iff.2 hz
    constructor <;> rw [Bool.eq_iff_iff, decide_eq_true_iff]
    · exact h.lt
    · exact h.le
    · exact h.gt
    · exact h.ge
    · exact h.eq
    · exact hltz
    · exact gdevTimeLez_iff
    · exact gdevTimeGtz_iff
    · exact gdevTimeGez_iff
    · exact gdevTimeEqz_iff

/-- Two seconds in microseconds, and one and a half seconds in milliseconds. -/
def uncarried : List TimeOp := [.us 0 2000000, .ms 1 1500]

/-- Minus two seconds, to which two seconds are added in place: zero keeps the flag. -/
def flaggedZero : List TimeOp := [.ms 1 2000, .sub 0 2 1, .add 0 0 1]

theorem compares_not :
    gdevTimeLt (uncarried.foldl timeStep timeInit) 0 1 = true ∧
      gdevTimeLtz (flaggedZero.foldl timeStep timeInit) 0 = true ∧
      ¬ ∀ (ops : List TimeOp) (x y : ℕ), Compares (ops.foldl timeStep timeInit) x y := by
  refine ⟨by decide +kernel, by decide +kernel, fun h => ?_⟩
  have := (h uncarried 0 1).lt
  revert this
  decide +kernel

end Resch
