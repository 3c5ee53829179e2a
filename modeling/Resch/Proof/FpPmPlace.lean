import Resch.Proof.Overhead
import Resch.Spec.FpPmChecked

/-!
# FP-PM with and without checked divisions

The functions of `fp-pm.c` with the divisions as the processor makes them, against those of
`Fppm`, where a division by zero is zero.

* `fppmResponseTimeAnalysis_eq`: an analysis that ends has found the response time.
* `place_eq`: a submission that stops nowhere ends with the placement.
-/

namespace Resch.Checked.FpPm

open Lib

variable {c : Config} {s : Fppm} {rt cpu hp L : ℕ} {mask : ℕ → Bool}

/-! ## The analysis -/

/-- What a task adds to a response time does not depend on the check. -/
theorem interference_ok {P C v : ℕ} (h : FpFf.interference L P C = .ok v) :
    v = let F := cint (L / P)
      if ulong (P * F + C) ≤ L then ulong (C * (F + 1)) else ulong (L - F * (P - C)) := by
  obtain ⟨q, hq, h⟩ := bind_eq_ok.1 h
  rw [← Except.ok.inj h, (div_eq_ok.1 hq).2]

theorem interference_eq {v : ℕ} (h : interference c s rt cpu hp L = .ok v) :
    v = s.interference c rt cpu hp L := by
  unfold interference at h
  unfold Fppm.interference
  dsimp only at h ⊢
  generalize (if s.splitIsOnCpu hp cpu then (s.fppmTask hp).runtime cpu
    else if (s.task hp).cpuId = cpu ∧ hp ≠ rt then (s.task hp).C c else 0) = Ck at h ⊢
  by_cases hC : Ck ≠ 0
  · rw [if_pos hC] at h ⊢
    exact interference_ok h
  · rw [if_neg hC] at h ⊢
    exact (Except.ok.inj h).symm

theorem fppmResponseTimeAnalysis_eq {v : ℕ} (h : fppmResponseTimeAnalysis c s rt cpu = .ok v) :
    v = s.fppmResponseTimeAnalysis c rt cpu := by
  obtain ⟨ret, hret, h⟩ := bind_eq_ok.1 h
  obtain ⟨oc, hoc, h⟩ := bind_eq_ok.1 h
  obtain ⟨ot, hot, h⟩ := bind_eq_ok.1 h
  have hsum := foldlM_ok_eq (fun hp _ ret ret' hturn => by
    obtain ⟨i, hi, hturn⟩ := bind_eq_ok.1 hturn
    rw [← Except.ok.inj hturn, interference_eq hi]) hret
  rw [← Except.ok.inj h, hsum, schedOverheadCpu_value hoc, schedOverheadTask_value hot]
  rfl

/-! ## Whole placements -/

/-- `ulong` of a sum whose second part has been converted before -/
theorem ulong_add_ulong (n : ℕ) (x : ℤ) : ulong (n + ulong x) = ulong (n + x) := by
  unfold ulong
  omega

theorem addResponse_eq {R D P C i : ℕ} (h : FpFf.interference D P C = .ok i) :
    ulong ((R : ℤ) + i) = Fppm.addResponse R D P C := by
  rw [interference_ok h]
  unfold Fppm.addResponse
  dsimp only
  split
  · exact ulong_add_ulong R _
  · rw [ulong_add_ulong, add_sub_assoc]

theorem partitionTasks_eq : ∀ (lps : List ℕ) (s : Fppm) {r : Bool × Fppm},
    partitionTasks c rt cpu lps s = .ok r → r = Fppm.partitionTasks c rt cpu lps s := by
  intro lps
  induction lps with
  | nil => exact fun s r h => (Except.ok.inj h).symm
  | cons lp lps ih =>
    intro s r h
    unfold partitionTasks at h
    unfold Fppm.partitionTasks
    split at h
    · rename_i hon
      obtain ⟨R, hR, h⟩ := bind_eq_ok.1 h
      obtain ⟨i, hi, h⟩ := bind_eq_ok.1 h
      dsimp only at h ⊢
      rw [addResponse_eq hi, fppmResponseTimeAnalysis_eq hR] at h
      rw [if_pos hon]
      split at h
      · rename_i hmiss
        rw [if_pos hmiss]
        exact (Except.ok.inj h).symm
      · rename_i hmeets
        rw [if_neg hmeets]
        exact ih _ h
    · rename_i hoff
      rw [if_neg hoff]
      exact ih s h

theorem partitionLoop_eq : ∀ (cpus : List ℕ) (s : Fppm) {r : ℕ × Fppm},
    partitionLoop c rt mask cpus s = .ok r → r = Fppm.partitionLoop c rt mask cpus s := by
  intro cpus
  induction cpus with
  | nil => exact fun s r h => (Except.ok.inj h).symm
  | cons cpu cpus ih =>
    intro s r h
    unfold partitionLoop at h
    unfold Fppm.partitionLoop
    split at h
    · rename_i hmask
      obtain ⟨R, hR, h⟩ := bind_eq_ok.1 h
      dsimp only at h ⊢
      rw [if_pos hmask, ← fppmResponseTimeAnalysis_eq hR]
      split at h
      · rename_i hmiss
        rw [if_pos hmiss]
        exact ih _ h
      · rename_i hmeets
        obtain ⟨p, hp, h⟩ := bind_eq_ok.1 h
        rw [if_neg hmeets, ← partitionTasks_eq _ _ hp]
        rcases p with ⟨fits, s'⟩
        cases fits with
        | true => exact (Except.ok.inj h).symm
        | false => exact ih s' h
    · rename_i hmask
      rw [if_neg hmask]
      exact ih s h

/-! ## Shares -/

theorem splitBound_eq {Rk Dk Pi v : ℕ} (h : splitBound Rk Dk Pi = .ok v) :
    v = Resch.splitBound Rk Dk Pi := by
  obtain ⟨q, hq, h⟩ := bind_eq_ok.1 h
  rw [(div_eq_ok.1 hq).2] at h
  unfold Resch.splitBound
  dsimp only at h ⊢
  split at h
  · rename_i hzero
    rw [if_pos hzero]
    exact (div_eq_ok.1 h).2
  · rename_i hzero
    rw [if_neg hzero]
    split at h
    · rename_i hcarry
      rw [if_pos hcarry]
      exact (div_eq_ok.1 h).2
    · rename_i hcarry
      rw [if_neg hcarry]
      obtain ⟨t, ht, h⟩ := bind_eq_ok.1 h
      rw [← Except.ok.inj h, (div_eq_ok.1 ht).2]

theorem splitRuntimeLoop_eq : ∀ (lps : List ℕ) {m v : ℕ},
    splitRuntimeLoop c s rt cpu lps m = .ok v → v = s.splitRuntimeLoop c rt cpu lps m := by
  intro lps
  induction lps with
  | nil => exact fun h => (Except.ok.inj h).symm
  | cons lp lps ih =>
    intro m v h
    unfold splitRuntimeLoop at h
    unfold Fppm.splitRuntimeLoop
    split at h
    · rename_i hon
      obtain ⟨R, hR, h⟩ := bind_eq_ok.1 h
      dsimp only at h ⊢
      rw [if_pos hon, ← fppmResponseTimeAnalysis_eq hR]
      split at h
      · rename_i hmiss
        rw [if_pos hmiss]
        exact (Except.ok.inj h).symm
      · rename_i hmeets
        obtain ⟨t, ht, h⟩ := bind_eq_ok.1 h
        rw [if_neg hmeets, ← splitBound_eq ht]
        exact ih h
    · rename_i hoff
      rw [if_neg hoff]
      exact ih h

theorem splitLoop_eq : ∀ (cpus : List ℕ) {ft ft' : FppmTask} {sum : ℕ},
    splitLoop c s rt cpus ft sum = .ok ft' → ft' = s.splitLoop c rt cpus ft sum := by
  intro cpus
  induction cpus with
  | nil => exact fun h => (Except.ok.inj h).symm
  | cons cpu cpus ih =>
    intro ft ft' sum h
    unfold splitLoop at h
    unfold Fppm.splitLoop
    split at h
    · rename_i havail
      obtain ⟨share, hshare, h⟩ := bind_eq_ok.1 h
      dsimp only at h ⊢
      rw [if_pos havail, Fppm.splitRuntime, ← splitRuntimeLoop_eq _ hshare]
      split at h
      · rename_i hfull
        rw [if_pos hfull]
        exact (Except.ok.inj h).symm
      · rename_i hmore
        rw [if_neg hmore]
        exact ih h
    · rename_i havail
      rw [if_neg havail]
      exact ih h

theorem split_eq {r : FppmTask × ℕ} (h : split c s rt = .ok r) : r = s.split c rt := by
  obtain ⟨ft, hft, h⟩ := bind_eq_ok.1 h
  rw [← Except.ok.inj h, splitLoop_eq _ hft]
  rfl

/-- **A submission to FP-PM that divides by no zero is placed where `Fppm.place` says.** -/
theorem place_eq {r : ℕ × FppmTask} (h : place c s rt mask = .ok r) : r = s.place c rt mask := by
  obtain ⟨⟨cpuDst, s'⟩, hpart, h⟩ := bind_eq_ok.1 h
  have hwhole : (s.reset c rt).partition c rt mask = (cpuDst, s') := (partitionLoop_eq _ _ hpart).symm
  unfold Fppm.place
  rw [hwhole]
  dsimp only at h ⊢
  split at h
  · rename_i hdst
    rw [if_pos hdst]
    exact (Except.ok.inj h).symm
  · rename_i hdst
    obtain ⟨⟨ft, cpuFirst⟩, hsplit, h⟩ := bind_eq_ok.1 h
    rw [if_neg hdst, ← split_eq hsplit]
    exact (Except.ok.inj h).symm

end Resch.Checked.FpPm
