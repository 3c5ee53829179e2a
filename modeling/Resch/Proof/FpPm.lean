import Resch.Spec.FpPm
import Mathlib.Data.List.DropRight
import Mathlib.Tactic.Linarith
import Mathlib.Tactic.Ring

/-!
# The shares of FP-PM

What a task can bear of a split task is decided by `Bears`: with the share executed in each
period of the split task, its response time stays within its deadline.

* `closedBound`: the closed form of `split` in exact arithmetic, apart from the wrap-around
  that is left. `closedBound_bears_iff` says when a task bears its own bound.
* `rightBound`: the closed form that is meant. `bears_iff` says that a task bears no more.
* `splitRuntime_eq`: the share is the least bound of the tasks after the last bound of zero.
* `splitRuntime_fits_iff`: when the share is right for every task on the CPU.
-/

namespace Resch

variable {R D P : ℕ}

/-! ## The closed form -/

/-- A task with response time `R` and deadline `D` bears a share of a task with period `P`. -/
def Bears (R D P share : ℕ) : Prop := R + D / P * share + min share (D - D / P * P) ≤ D

instance (R D P share : ℕ) : Decidable (Bears R D P share) := inferInstanceAs (Decidable (_ ≤ _))

theorem Bears.mono {share share' : ℕ} (h : Bears R D P share') (hle : share ≤ share') :
    Bears R D P share := by
  unfold Bears at h ⊢
  have hF : D / P * share ≤ D / P * share' := Nat.mul_le_mul_left _ hle
  have hm : min share (D - D / P * P) ≤ min share' (D - D / P * P) := by omega
  omega

theorem bears_zero (hR : R ≤ D) : Bears R D P 0 := by
  unfold Bears
  omega

/-- The share has no second, partial part: the first of the two bounds is the right one. -/
def NoPartial (R D P : ℕ) : Prop := D / P = 0 ∨ (R ≤ D / P * P ∧ D / P * (D / P + 1) * P ≤ D / P * D + R)

instance : Decidable (NoPartial R D P) := inferInstanceAs (Decidable (_ ∨ (_ ∧ _)))

/-- The closed form, with the quotient `R / F` rounded down and what is left of `P - R / F`
modulo `2 ^ 64`. -/
def closedBound (R D P : ℕ) : ℕ :=
  if NoPartial R D P then (D - R) / (D / P + 1)
  else if R / (D / P) ≤ P then P - R / (D / P)
  else 2 ^ 64 - (R / (D / P) - P)

theorem splitBound_eq (hR : R ≤ D) (hD : D < 2 ^ 32) (hP : 1 < P) (hP' : P < 2 ^ 32) :
    splitBound R D P = closedBound R D P := by
  have hFD : D / P ≤ D / 2 := Nat.div_le_div_left hP (by omega)
  have hFP : D / P * P ≤ D := Nat.div_mul_le_self D P
  have hnp : NoPartial R D P ↔ D / P = 0 ∨ (R ≤ D / P * P ∧
    D / P * (D / P + 1) * P ≤ D / P * D + R) := Iff.rfl
  unfold splitBound closedBound
  generalize D / P = F at hFD hFP hnp ⊢
  have hF : cint F = F := cint_of_lt (by omega)
  have hslack : ulong ((D : ℤ) - R) = D - R := by rw [ulong_of_lt (by omega) (by omega)]; omega
  have hF1 : ulong ((F : ℤ) + 1) = F + 1 := by rw [ulong_of_lt (by omega) (by omega)]; omega
  simp only [hF, hslack, hF1, Nat.cast_eq_zero]
  by_cases h0 : F = 0
  · rw [if_pos h0, if_pos (hnp.2 (Or.inl h0))]
  -- the products fit in 63 bits
  have hl : (F : ℤ) * (D - R) < 2 ^ 63 := by
    have : (F : ℤ) * (D - R) ≤ 2 ^ 31 * (D - R) := by
      apply mul_le_mul_of_nonneg_right <;> omega
    omega
  have hr (x : ℤ) (h0 : 0 ≤ x) (hx : x ≤ D) : x * (F + 1) < 2 ^ 63 := by
    have : x * (F + 1) ≤ x * 2 ^ 31 := by
      apply mul_le_mul_of_nonneg_left <;> omega
    omega
  have hlu : ulong ((F : ℤ) * (D - R)) = ((F : ℤ) * (D - R)).toNat :=
    ulong_of_lt (mul_nonneg (by omega) (by omega)) (by omega)
  have hFPi : (F : ℤ) * P ≤ D := by exact_mod_cast hFP
  have hcmp : ulong (((F : ℤ) * P - R) * (F + 1)) ≤ ulong ((F : ℤ) * (D - R)) ↔
      R ≤ F * P ∧ F * (F + 1) * P ≤ F * D + R := by
    rw [hlu]
    by_cases hRF : R ≤ F * P
    · have hRFi : (R : ℤ) ≤ F * P := by exact_mod_cast hRF
      have hb := hr (F * P - R) (by omega) (by omega)
      have hn : 0 ≤ ((F : ℤ) * P - R) * (F + 1) := mul_nonneg (by omega) (by omega)
      have hcross : ((F : ℤ) * P - R) * (F + 1) ≤ F * (D - R) ↔
          (F : ℤ) * (F + 1) * P ≤ F * D + R := by
        constructor <;> intro h <;> linarith
      have hnl : 0 ≤ (F : ℤ) * (D - R) := mul_nonneg (by omega) (by omega)
      rw [ulong_of_lt hn (by omega), Int.toNat_le, Int.toNat_of_nonneg hnl, hcross]
      constructor
      · intro h
        exact ⟨hRF, by exact_mod_cast h⟩
      · rintro ⟨-, h⟩
        exact_mod_cast h
    · -- the left side wraps to a huge number
      have hRFi : (F : ℤ) * P < R := by
        have : F * P < R := by omega
        exact_mod_cast this
      have hb := hr (R - F * P) (by omega) (by
        have : (0 : ℤ) ≤ F * P := by positivity
        omega)
      have hneg : ((F : ℤ) * P - R) * (F + 1) = -((R - F * P) * (F + 1)) := by ring
      have hpos : 0 < ((R : ℤ) - F * P) * (F + 1) := mul_pos (by omega) (by omega)
      rw [hneg, ulong_of_neg (by omega) (by omega)]
      constructor
      · intro h
        omega
      · rintro ⟨h, -⟩
        exact absurd h hRF
  have hFu : ulong (F : ℤ) = F := ulong_natCast (by omega)
  rw [if_neg h0, hFu]
  by_cases hc : R ≤ F * P ∧ F * (F + 1) * P ≤ F * D + R
  · rw [if_pos (hcmp.2 hc), if_pos (hnp.2 (Or.inr hc))]
  · rw [if_neg (fun h => hc (hcmp.1 h)), if_neg (fun h => (hnp.1 h).elim h0 hc)]
    have hRF : R / F ≤ R := Nat.div_le_self R F
    generalize R / F = q at hRF ⊢
    split
    · rw [ulong_of_lt (by omega) (by omega)]
      omega
    · rw [ulong_of_neg (by omega) (by omega)]
      omega

/-- The closed form that is meant: the difference `F * P - R` does not wrap, and what is taken off for
`R / F` is rounded up. -/
def rightBound (R D P : ℕ) : ℕ :=
  if D / P = 0 ∨ (D / P * P - R) * (D / P + 1) ≤ D / P * (D - R) then (D - R) / (D / P + 1)
  else (D / P * P - R) / (D / P)

/-- A task without work and with a deadline before the end of the first period bears any share. -/
theorem bears_iff (hR : R ≤ D) (share : ℕ) :
    Bears R D P share ↔ share ≤ rightBound R D P ∨ D / P = 0 ∧ R = 0 := by
  have hFP : D / P * P ≤ D := Nat.div_mul_le_self D P
  unfold Bears rightBound
  generalize D / P = F at hFP ⊢
  by_cases hF : F = 0
  · subst hF
    rw [if_pos (Or.inl rfl), Nat.zero_mul, Nat.zero_mul, Nat.zero_add, Nat.div_one]
    omega
  have hpos : 0 < F := Nat.pos_of_ne_zero hF
  have hout : ¬ (F = 0 ∧ R = 0) := fun h => hF h.1
  rw [or_iff_left hout]
  -- which of the two bounds is the smaller one
  by_cases hc : (F * P - R) * (F + 1) ≤ F * (D - R)
  · rw [if_pos (Or.inr hc), Nat.le_div_iff_mul_le (Nat.succ_pos F), Nat.mul_succ,
      Nat.mul_comm share]
    refine ⟨fun h => ?_, fun h => by omega⟩
    by_cases hpart : share ≤ D - F * P
    · omega
    · -- past the partial part the second bound is the smaller one
      have hsecond : F * share ≤ F * P - R := by omega
      have hmul : F * (share * (F + 1)) ≤ F * (D - R) := by
        rw [← Nat.mul_assoc]
        exact (Nat.mul_le_mul_right _ hsecond).trans hc
      have hfirst := Nat.le_of_mul_le_mul_left hmul hpos
      rw [Nat.mul_add, Nat.mul_one, Nat.mul_comm share] at hfirst
      exact hfirst
  · rw [if_neg (fun h => h.elim hF hc), Nat.le_div_iff_mul_le hpos, Nat.mul_comm share]
    -- the subtraction has not stopped at 0
    have hlt : R < F * P := by
      by_contra hle
      rw [Nat.sub_eq_zero_of_le (not_lt.1 hle), Nat.zero_mul] at hc
      exact hc (Nat.zero_le _)
    refine ⟨fun h => ?_, fun h => by omega⟩
    by_cases hpart : D - F * P ≤ share
    · omega
    · have hfirst : share * (F + 1) ≤ D - R := by
        rw [Nat.mul_add, Nat.mul_one, Nat.mul_comm share]
        omega
      have hmul : F * share * (F + 1) ≤ (F * P - R) * (F + 1) := by
        rw [Nat.mul_assoc]
        exact (Nat.mul_le_mul_left F hfirst).trans (not_le.1 hc).le
      exact Nat.le_of_mul_le_mul_right hmul (Nat.succ_pos F)

/-- Past the first of the two bounds, `R / F` is not rounded down, or is all of the period and leaves a
bound of zero. -/
def BoundRight (R D P : ℕ) : Prop :=
  NoPartial R D P ∨ (R ≤ D / P * P ∧ D / P ∣ R) ∨ R / (D / P) = P

instance (R D P : ℕ) : Decidable (BoundRight R D P) := inferInstanceAs (Decidable (_ ∨ _ ∨ _))

/-- **A task's own bound.** -/
theorem closedBound_bears_iff (hR : R ≤ D) (hD : D < 2 ^ 32) (hP : 0 < P) :
    Bears R D P (closedBound R D P) ↔ BoundRight R D P := by
  unfold closedBound BoundRight
  -- without a partial part, the first bound is right
  by_cases hnp : NoPartial R D P
  · rw [if_pos hnp]
    refine ⟨fun _ => Or.inl hnp, fun _ => ?_⟩
    have hb : (D - R) / (D / P + 1) * (D / P + 1) ≤ D - R := Nat.div_mul_le_self ..
    unfold Bears
    generalize (D - R) / (D / P + 1) = b at hb ⊢
    rw [Nat.mul_add, Nat.mul_one, Nat.mul_comm b] at hb
    omega
  rw [if_neg hnp]
  have hFP : D / P * P ≤ D := Nat.div_mul_le_self D P
  have hno : ¬ NoPartial R D P := hnp
  unfold NoPartial at hnp
  unfold Bears
  generalize D / P = F at hnp hFP ⊢
  have hF : 0 < F := by omega
  have hdm : F * (R / F) + R % F = R := Nat.div_add_mod R F
  have hmod : R % F < F := Nat.mod_lt R hF
  split
  · rename_i hq
    have hFq : F * (P - R / F) + F * (R / F) = F * P := by
      rw [← Nat.mul_add, Nat.sub_add_cancel hq]
    by_cases he : R / F = P
    · rw [he, Nat.sub_self]
      exact ⟨fun _ => Or.inr (Or.inr rfl), fun _ => by omega⟩
    · -- the bound passes the point from which the partial part counts in full
      have hRF : R < F * P := by
        have : F * (R / F + 1) ≤ F * P := Nat.mul_le_mul_left F (by omega)
        rw [Nat.mul_add, Nat.mul_one] at this
        omega
      have hPF : P * F = F * P := Nat.mul_comm P F
      have hpart : D - F * P ≤ P - R / F := by
        by_contra hlt
        have hx : F * (P + F * P) ≤ F * (D + R / F) := Nat.mul_le_mul_left F (by omega)
        have h1 : F * (P + F * P) = F * (F + 1) * P := by ring
        have h2 : F * (D + R / F) = F * D + F * (R / F) := Nat.mul_add ..
        omega
      rw [Nat.min_eq_right hpart, Nat.dvd_iff_mod_eq_zero]
      constructor
      · intro h
        exact Or.inr (Or.inl ⟨by omega, by omega⟩)
      · rintro (h | ⟨-, h⟩ | h)
        · exact absurd h hno
        · omega
        · exact absurd h he
  · -- the subtraction wraps
    rename_i hq
    have hRF : R / F ≤ R := Nat.div_le_self R F
    have hbig : 2 ^ 64 - (R / F - P) ≤ F * (2 ^ 64 - (R / F - P)) := Nat.le_mul_of_pos_left _ hF
    constructor
    · intro h
      omega
    · rintro (h | ⟨h, -⟩ | h)
      · exact absurd h hno
      · have : R / F ≤ P := Nat.div_le_of_le_mul h
        omega
      · omega

/-! ## The least bound -/

/-- The least bound as `split` finds it, where 0 also says that none has been seen. -/
def leastBound (bounds : List ℕ) : ℕ :=
  bounds.foldl (fun least tmp => if tmp < least ∨ least = 0 then tmp else least) 0

/-- The bounds after the last 0 are those that count. -/
theorem leastBound_spec (bounds : List ℕ) :
    (bounds.rtakeWhile (· ≠ 0) = [] → leastBound bounds = 0) ∧
      (bounds.rtakeWhile (· ≠ 0) ≠ [] → leastBound bounds ∈ bounds.rtakeWhile (· ≠ 0) ∧
        ∀ b ∈ bounds.rtakeWhile (· ≠ 0), leastBound bounds ≤ b) := by
  induction bounds using List.reverseRecOn with
  | nil => exact ⟨fun _ => rfl, fun h => absurd rfl h⟩
  | append_singleton bounds b ih =>
    have hstep : leastBound (bounds ++ [b]) =
        if b < leastBound bounds ∨ leastBound bounds = 0 then b else leastBound bounds := by
      unfold leastBound
      rw [List.foldl_append]
      rfl
    -- a bound of 0 forgets those before it
    by_cases hb : b = 0
    · have htail : (bounds ++ [b]).rtakeWhile (· ≠ 0) = [] := by
        rw [List.rtakeWhile_concat, if_neg (by simp [hb])]
      refine ⟨fun _ => ?_, fun h => absurd htail h⟩
      rw [hstep]
      split <;> omega
    · have htail : (bounds ++ [b]).rtakeWhile (· ≠ 0) = bounds.rtakeWhile (· ≠ 0) ++ [b] := by
        rw [List.rtakeWhile_concat, if_pos (by simp [hb])]
      rw [htail, hstep]
      refine ⟨fun h => by simp at h, fun _ => ?_⟩
      by_cases hnil : bounds.rtakeWhile (· ≠ 0) = []
      · rw [hnil, if_pos (Or.inr (ih.1 hnil))]
        simp
      · obtain ⟨hmem, hle⟩ := ih.2 hnil
        split
        · refine ⟨by simp, fun x hx => ?_⟩
          rcases List.mem_append.1 hx with hx | hx
          · have := hle x hx
            have hne : leastBound bounds ≠ 0 := by
              simpa using List.mem_rtakeWhile_imp hmem
            omega
          · rw [List.mem_singleton.1 hx]
        · refine ⟨List.mem_append_left _ hmem, fun x hx => ?_⟩
          rcases List.mem_append.1 hx with hx | hx
          · exact hle x hx
          · rw [List.mem_singleton.1 hx]
            omega

/-! ## The share -/

namespace Fppm

variable (c : Config) (s : Fppm) (rt cpu : ℕ)

/-- The tasks on a CPU, split tasks included. -/
def residents : List ℕ := s.list.filter (s.fppmTaskIsOnCpu · cpu)

/-- A task misses its deadline before it gets a share of another. -/
def Misses (lp : ℕ) : Prop := c.usecs (s.task lp).deadline < s.fppmResponseTimeAnalysis c lp cpu

instance (lp : ℕ) : Decidable (s.Misses c cpu lp) := inferInstanceAs (Decidable (_ < _))

/-- `lp` bears the share of `rt`. -/
def LpBears (lp share : ℕ) : Prop :=
  Bears (s.fppmResponseTimeAnalysis c lp cpu) (c.usecs (s.task lp).deadline)
    (c.usecs (s.task rt).period) share

instance (lp share : ℕ) : Decidable (s.LpBears c rt cpu lp share) :=
  inferInstanceAs (Decidable (Bears ..))

/-- What the share is to be: the tasks that meet their deadlines bear it, and it is 0 if one
does not. -/
def ShareFits (share : ℕ) : Prop :=
  (∀ lp ∈ s.residents cpu, ¬ s.Misses c cpu lp → s.LpBears c rt cpu lp share) ∧
    ((∃ lp ∈ s.residents cpu, s.Misses c cpu lp) → share = 0)

instance (share : ℕ) : Decidable (s.ShareFits c rt cpu share) :=
  inferInstanceAs (Decidable ((∀ _ ∈ _, _) ∧ ((∃ _ ∈ _, _) → _)))

/-- The bound of one task -/
def lpBound (lp : ℕ) : ℕ :=
  closedBound (s.fppmResponseTimeAnalysis c lp cpu) (c.usecs (s.task lp).deadline)
    (c.usecs (s.task rt).period)

/-- The bound of one task as the source computes it -/
def lpSplitBound (lp : ℕ) : ℕ :=
  splitBound (s.fppmResponseTimeAnalysis c lp cpu) (c.usecs (s.task lp).deadline)
    (c.usecs (s.task rt).period)

/-- The bound that would be right for one task -/
def lpRightBound (lp : ℕ) : ℕ :=
  rightBound (s.fppmResponseTimeAnalysis c lp cpu) (c.usecs (s.task lp).deadline)
    (c.usecs (s.task rt).period)

/-- The bound of one task is right for it. -/
def LpBoundRight (lp : ℕ) : Prop :=
  BoundRight (s.fppmResponseTimeAnalysis c lp cpu) (c.usecs (s.task lp).deadline)
    (c.usecs (s.task rt).period)

instance (lp : ℕ) : Decidable (s.LpBoundRight c rt cpu lp) :=
  inferInstanceAs (Decidable (BoundRight ..))

/-- One task has no work, and its deadline is before the end of the first period. -/
def Idle (lp : ℕ) : Prop :=
  c.usecs (s.task lp).deadline / c.usecs (s.task rt).period = 0 ∧
    s.fppmResponseTimeAnalysis c lp cpu = 0

instance (lp : ℕ) : Decidable (s.Idle c rt cpu lp) := inferInstanceAs (Decidable (_ ∧ _))

/-- The tasks after the last one whose bound is 0. -/
def countedLps : List ℕ := (s.residents cpu).rtakeWhile fun lp => s.lpBound c rt cpu lp ≠ 0

variable {c s rt cpu}

theorem splitRuntimeLoop_of_misses : ∀ (lps : List ℕ) (share : ℕ),
    (∃ lp ∈ lps, s.fppmTaskIsOnCpu lp cpu = true ∧ s.Misses c cpu lp) →
      s.splitRuntimeLoop c rt cpu lps share = 0 := by
  intro lps
  induction lps with
  | nil =>
    rintro share ⟨lp, hlp, -⟩
    cases hlp
  | cons lp lps ih =>
    intro share h
    rw [splitRuntimeLoop]
    rw [List.exists_mem_cons_iff] at h
    split
    · dsimp only
      split
      · rfl
      · rename_i hm
        exact ih _ (h.resolve_left fun h => hm h.2)
    · rename_i ho
      exact ih _ (h.resolve_left fun h => ho h.1)

theorem splitRuntimeLoop_eq : ∀ (lps : List ℕ) (share : ℕ),
    (∀ lp ∈ lps, s.fppmTaskIsOnCpu lp cpu = true → ¬ s.Misses c cpu lp) →
      s.splitRuntimeLoop c rt cpu lps share =
        ((lps.filter (s.fppmTaskIsOnCpu · cpu)).map (s.lpSplitBound c rt cpu)).foldl
          (fun least tmp => if tmp < least ∨ least = 0 then tmp else least) share := by
  intro lps
  induction lps with
  | nil => intro share _; rfl
  | cons lp lps ih =>
    intro share h
    rw [List.forall_mem_cons] at h
    rw [splitRuntimeLoop]
    by_cases ho : s.fppmTaskIsOnCpu lp cpu = true
    · have hm : ¬ s.Misses c cpu lp := h.1 ho
      have hm' : ¬ c.usecs (s.task lp).deadline < s.fppmResponseTimeAnalysis c lp cpu := hm
      have hf : (lp :: lps).filter (s.fppmTaskIsOnCpu · cpu) =
          lp :: lps.filter (s.fppmTaskIsOnCpu · cpu) := List.filter_cons_of_pos ho
      rw [if_pos ho, hf, List.map_cons, List.foldl_cons]
      dsimp only
      rw [if_neg hm']
      exact ih _ h.2
    · have hf : (lp :: lps).filter (s.fppmTaskIsOnCpu · cpu) =
          lps.filter (s.fppmTaskIsOnCpu · cpu) := List.filter_cons_of_neg ho
      rw [if_neg ho, hf]
      exact ih _ h.2

/-- A task that meets its deadline -/
theorem lpSplitBound_eq (hP : 1 < c.usecs (s.task rt).period) {lp : ℕ}
    (hm : ¬ s.Misses c cpu lp) : s.lpSplitBound c rt cpu lp = s.lpBound c rt cpu lp := by
  have hm' : ¬ c.usecs (s.task lp).deadline < s.fppmResponseTimeAnalysis c lp cpu := hm
  exact splitBound_eq (by omega) (Nat.mod_lt _ (by decide)) hP (Nat.mod_lt _ (by decide))

/-- If no task misses its deadline, the share is the least of the bounds that count. -/
theorem splitRuntime_eq (hP : 1 < c.usecs (s.task rt).period)
    (h : ∀ lp ∈ s.residents cpu, ¬ s.Misses c cpu lp) :
    (s.countedLps c rt cpu = [] → s.splitRuntime c rt cpu = 0) ∧
      (s.countedLps c rt cpu ≠ [] →
        (∃ k ∈ s.countedLps c rt cpu, s.splitRuntime c rt cpu = s.lpBound c rt cpu k) ∧
          ∀ k ∈ s.countedLps c rt cpu, s.splitRuntime c rt cpu ≤ s.lpBound c rt cpu k) := by
  have hmap : (s.residents cpu).map (s.lpSplitBound c rt cpu) =
      (s.residents cpu).map (s.lpBound c rt cpu) :=
    List.map_congr_left fun lp hlp => lpSplitBound_eq hP (h lp hlp)
  have heq : s.splitRuntime c rt cpu = leastBound ((s.residents cpu).map (s.lpBound c rt cpu)) := by
    rw [← hmap]
    exact splitRuntimeLoop_eq s.list 0 fun lp hlp ho => h lp (List.mem_filter.2 ⟨hlp, ho⟩)
  have htail : ((s.residents cpu).map (s.lpBound c rt cpu)).rtakeWhile (· ≠ 0) =
      (s.countedLps c rt cpu).map (s.lpBound c rt cpu) := by
    unfold countedLps List.rtakeWhile
    rw [← List.map_reverse, List.takeWhile_map, List.map_reverse]
    rfl
  obtain ⟨hnil, hmem⟩ := leastBound_spec ((s.residents cpu).map (s.lpBound c rt cpu))
  rw [← heq, htail] at hnil hmem
  refine ⟨fun he => hnil (by rw [he]; rfl), fun hne => ?_⟩
  obtain ⟨hm, hle⟩ := hmem fun he => hne (List.map_eq_nil_iff.1 he)
  obtain ⟨k, hk, he⟩ := List.mem_map.1 hm
  exact ⟨⟨k, hk, he.symm⟩, fun k hk => hle _ (List.mem_map_of_mem hk)⟩

/-- **The share of a CPU** is right for the tasks there iff one of them misses its deadline
anyway, the bound of the last task is 0, or each task has a right bound that counts, or no work, or
some bound that counts is at most the right one. -/
theorem splitRuntime_fits_iff (hP : 1 < c.usecs (s.task rt).period) :
    s.ShareFits c rt cpu (s.splitRuntime c rt cpu) ↔
      (∃ lp ∈ s.residents cpu, s.Misses c cpu lp) ∨ s.countedLps c rt cpu = [] ∨
        ∀ lp ∈ s.residents cpu, (lp ∈ s.countedLps c rt cpu ∧ s.LpBoundRight c rt cpu lp) ∨
          s.Idle c rt cpu lp ∨
            ∃ k ∈ s.countedLps c rt cpu, s.lpBound c rt cpu k ≤ s.lpRightBound c rt cpu lp := by
  -- a task that misses its deadline leaves no share
  by_cases hmiss : ∃ lp ∈ s.residents cpu, s.Misses c cpu lp
  · have h0 : s.splitRuntime c rt cpu = 0 := by
      obtain ⟨lp, hlp, hm⟩ := hmiss
      obtain ⟨hlist, ho⟩ := List.mem_filter.1 hlp
      exact splitRuntimeLoop_of_misses s.list 0 ⟨lp, hlist, ho, hm⟩
    refine ⟨fun _ => Or.inl hmiss, fun _ => ⟨fun lp _ hm => ?_, fun _ => h0⟩⟩
    rw [h0]
    exact bears_zero (Nat.le_of_not_lt hm)
  · have hno : ∀ lp ∈ s.residents cpu, ¬ s.Misses c cpu lp := fun lp hlp hm => hmiss ⟨lp, hlp, hm⟩
    -- otherwise the share is the least bound after the last one of 0
    obtain ⟨hnil, hcons⟩ := splitRuntime_eq hP hno
    constructor
    · rintro ⟨hfit, -⟩
      by_cases he : s.countedLps c rt cpu = []
      · exact Or.inr (Or.inl he)
      · obtain ⟨⟨k, hk, hsk⟩, -⟩ := hcons he
        refine Or.inr (Or.inr fun lp hlp => Or.inr ?_)
        rcases (bears_iff (Nat.le_of_not_lt (hno lp hlp)) _).1 (hfit lp hlp (hno lp hlp)) with
          hle | hidle
        · exact Or.inr ⟨k, hk, hsk ▸ hle⟩
        · exact Or.inl hidle
    · rintro (h | he | h)
      · exact absurd h hmiss
      · refine ⟨fun lp _ hm => ?_, fun h => absurd h hmiss⟩
        rw [hnil he]
        exact bears_zero (Nat.le_of_not_lt hm)
      · refine ⟨fun lp hlp hm => ?_, fun h => absurd h hmiss⟩
        have hR := Nat.le_of_not_lt hm
        rcases h lp hlp with ⟨hk, hright⟩ | hidle | ⟨k, hk, hle⟩
        · have hb := (closedBound_bears_iff hR (Nat.mod_lt _ (by decide))
            (Nat.zero_lt_of_lt hP)).2 hright
          exact hb.mono ((hcons (List.ne_nil_of_mem hk)).2 lp hk)
        · exact (bears_iff hR _).2 (Or.inr hidle)
        · refine (bears_iff hR _).2 (Or.inl ?_)
          exact ((hcons (List.ne_nil_of_mem hk)).2 k hk).trans hle

/-- Task 1 on CPU 0, and task 0 of half its period to be split. -/
def oneLp (wcet : ℕ) : Fppm where
  list := [1]
  task i := if i = 0 then ⟨10, 10, 9000, 9000, 1, 1, false⟩ else ⟨20, 20, wcet, wcet, 2, 0, false⟩
  switchCost := 20
  releaseCost := 5
  migrationCost := 20
  fppmTask _ := FppmTask.clear (Config.small false)
  cpuAvailable _ := true

/-- With a response time of 5000 microseconds nothing is rounded. -/
theorem splitRuntime_fits_iff_even :
    (oneLp 4750).ShareFits (Config.small false) 0 0
      ((oneLp 4750).splitRuntime (Config.small false) 0 0) :=
  (splitRuntime_fits_iff (by decide)).2 (by decide +kernel)

/-- With a response time of 5001 microseconds, of a deadline of 20000 and two periods of 10000,
the share is 7500, which is one half too much. -/
theorem splitRuntime_not_fits :
    ¬ ∀ (c : Config) (s : Fppm) (rt cpu : ℕ), 0 < c.usecs (s.task rt).period →
      s.cpuAvailable cpu = true → s.ShareFits c rt cpu (s.splitRuntime c rt cpu) := by
  intro h
  have hfit := h (Config.small false) (oneLp 4751) 0 0 (by decide) rfl
  revert hfit
  decide +kernel

end Fppm

end Resch
