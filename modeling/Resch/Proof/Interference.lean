import Resch.Lib.Workload
import Resch.Spec.FpFf

/-!
# What a task adds to a response time (`fp-ff.c`)

FP-FF and FP-PM both compute it in `response_time_analysis` and once more in `partition`, by the
same two branches.

* `interference_eq_nat`: the machine arithmetic is exact where no value exceeds its type.
* `interference_workload`: the formula is the most work that the jobs of the task do in the window.
-/

namespace Resch.Checked.FpFf

open Lib

variable {L P C : ℕ}

theorem interferenceNat_eq (hP : 0 < P) (hC : C ≤ P) : interferenceNat L P C = workload L P C := by
  have hdiv := Nat.div_add_mod L P
  have hmod := Nat.mod_lt L hP
  have hmul : L / P * (P - C) = L / P * P - L / P * C := Nat.mul_sub ..
  have hle : L / P * C ≤ L / P * P := Nat.mul_le_mul_left _ hC
  rw [workload_eq hP hC]
  unfold interferenceNat
  dsimp only
  rw [Nat.mul_comm] at hdiv
  rw [Nat.mul_comm P, hmul, Nat.mul_succ, Nat.mul_comm C]
  split
  · omega
  · -- the last job is cut off by the end of the window
    omega

theorem interference_eq_nat (hP : 0 < P) (hC : C ≤ P) (hF : L / P < 2 ^ 31) (hL : L + C < 2 ^ 64) :
    interference L P C = .ok (interferenceNat L P C) := by
  have hdiv := Nat.div_mul_le_self L P
  have hle : L / P * C ≤ L / P * P := Nat.mul_le_mul_left _ hC
  have hsum : (P : ℤ) * (L / P : ℕ) + C = ((P * (L / P) + C : ℕ) : ℤ) := by
    push_cast
    rfl
  have hjobs : (C : ℤ) * ((L / P : ℕ) + 1) = ((C * (L / P + 1) : ℕ) : ℤ) := by
    push_cast
    rfl
  have hcut : (L : ℤ) - (L / P : ℕ) * ((P : ℤ) - C) = ((L - L / P * (P - C) : ℕ) : ℤ) := by
    have hmul : L / P * (P - C) = L / P * P - L / P * C := Nat.mul_sub ..
    have hint : ((L / P : ℕ) : ℤ) * ((P : ℤ) - C) = ((L / P * P : ℕ) : ℤ) - ((L / P * C : ℕ) : ℤ) := by
      push_cast
      exact mul_sub ..
    rw [hint, hmul]
    omega
  have hP' : P * (L / P) = L / P * P := Nat.mul_comm ..
  have hC' : C * (L / P + 1) = L / P * C + C := by
    rw [Nat.mul_succ, Nat.mul_comm]
  unfold interference interferenceNat
  dsimp only
  rw [div_of_ne (by omega)]
  show Except.ok _ = _
  rw [cint_of_lt hF, hsum, hjobs, hcut, ulong_natCast (by omega), ulong_natCast (by omega),
    ulong_natCast (by omega)]

/-- **What is added for a task is the most work that its jobs do in the window**, if each runs as
soon as it is released. It grows with the window and with the execution time and shrinks with the period,
and is at most the window. -/
theorem interference_workload (L P C : ℕ) (hP : 0 < P) (hC : C ≤ P) :
    interferenceNat L P C = workload L P C ∧
      IsGreatest {n | ∃ run, LegalRun P C run ∧ executed run L = n} (interferenceNat L P C) ∧
      (∀ L', L ≤ L' → interferenceNat L P C ≤ interferenceNat L' P C) ∧
      (∀ C', C ≤ C' → C' ≤ P → interferenceNat L P C ≤ interferenceNat L P C') ∧
      (∀ P', P ≤ P' → interferenceNat L P' C ≤ interferenceNat L P C) ∧
      interferenceNat L P C ≤ L ∧
      (L / P < 2 ^ 31 → L + C < 2 ^ 64 → interference L P C = .ok (interferenceNat L P C)) := by
  have heq := interferenceNat_eq (L := L) hP hC
  refine ⟨heq, ?_, fun L' h => ?_, fun C' h hC' => ?_, fun P' h => ?_, ?_, interference_eq_nat hP hC⟩
  · rw [heq]
    exact isGreatest_workload hP hC
  · rw [heq, interferenceNat_eq hP hC]
    exact workload_mono_window h
  · rw [heq, interferenceNat_eq hP hC']
    exact workload_mono_cost h
  · rw [heq, interferenceNat_eq (hP.trans_le h) (hC.trans h)]
    exact workload_anti_period h
  · rw [heq]
    exact workload_le hP hC

/-- The third job of the window is cut off. -/
theorem interference_workload_cut : interferenceNat 23 10 4 = workload 23 10 4 ∧
    interferenceNat 23 10 4 = 11 :=
  ⟨(interference_workload 23 10 4 (by decide) (by decide)).1, by decide⟩

end Resch.Checked.FpFf
