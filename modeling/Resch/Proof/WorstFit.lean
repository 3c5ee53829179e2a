import Resch.Lib.LeastCost
import Resch.Spec.EdfFf

/-!
# Worst-fit placement under EDF-FF and EDF-WM

* `WorstFits`: the result of `cpu_worst_fit` is the CPU of the mask with the least utilisation among
  those that pass the test, the first of them on ties, or undefined if none passes.
* `worst_fit_iff`: it is iff no CPU passes or one passes that is used by less than 100 percent. The
  loop begins with 100 percent as the utilisation to get below, so that it takes no notice of a CPU
  that passes and is full, as every CPU does for a task whose execution time is 0.
-/

namespace Resch.Checked

open Lib

variable {c : Config} {rt cpu fuel : ℕ} {mask : ℕ → Bool}

/-- `dbf_test` of the CPUs of a mask; no other CPU passes. -/
def masked (mask : ℕ → Bool) (test : ℕ → Except Fault Bool) (cpu : ℕ) : Except Fault Bool :=
  if mask cpu then test cpu else .ok false

/-- What the CPU chosen is to be. -/
def WorstFits (c : Config) (mask : ℕ → Bool) (test : ℕ → Except Fault Bool)
    (util : ℕ → Except Fault ℕ) (result : Except Fault ℕ) : Prop :=
  ∃ dst, result = .ok dst ∧ IsLeast c.nrRtCpus (masked mask test) util dst

/-- The tests and the utilisations that are needed have results. -/
def AllTested (c : Config) (mask : ℕ → Bool) (test : ℕ → Except Fault Bool)
    (util : ℕ → Except Fault ℕ) : Prop :=
  ∀ cpu < c.nrRtCpus, Tested (masked mask test) util cpu

/-- No CPU of the mask passes. -/
def NonePasses (c : Config) (mask : ℕ → Bool) (test : ℕ → Except Fault Bool) : Prop :=
  ∀ cpu < c.nrRtCpus, mask cpu = true → test cpu ≠ .ok true

/-- A CPU of the mask passes that is not full. -/
def SomeIsBelow (c : Config) (mask : ℕ → Bool) (test : ℕ → Except Fault Bool)
    (util : ℕ → Except Fault ℕ) : Prop :=
  ∃ cpu < c.nrRtCpus, mask cpu = true ∧ test cpu = .ok true ∧ ∃ u, util cpu = .ok u ∧ u < 100

theorem masked_eq_true {test : ℕ → Except Fault Bool} :
    masked mask test cpu = .ok true ↔ mask cpu = true ∧ test cpu = .ok true := by
  unfold masked
  cases mask cpu with
  | false => simp
  | true => simp

/-- The loop of both plugins -/
def worstFit (c : Config) (mask : ℕ → Bool) (test : ℕ → Except Fault Bool)
    (util : ℕ → Except Fault ℕ) : Except Fault ℕ := do
  let r ← search (masked mask test) util (List.range c.nrRtCpus) (c.cpuUndefined, 100)
  return r.1

theorem worstFit_iff (test : ℕ → Except Fault Bool) (util : ℕ → Except Fault ℕ) :
    WorstFits c mask test util (worstFit c mask test util) ↔
      AllTested c mask test util ∧ (NonePasses c mask test ∨ SomeIsBelow c mask test util) := by
  have hnone : (∀ cpu < c.nrRtCpus, masked mask test cpu ≠ .ok true) ↔ NonePasses c mask test := by
    refine forall₂_congr fun cpu _ => ?_
    rw [Ne, masked_eq_true, not_and]
  have hsome : (∃ cpu < c.nrRtCpus, masked mask test cpu = .ok true ∧ ∃ u, util cpu = .ok u ∧
      u < 100) ↔ SomeIsBelow c mask test util := by
    refine exists_congr fun cpu => and_congr_right fun _ => ?_
    rw [masked_eq_true, and_assoc]
  rw [AllTested, ← hnone, ← hsome, ← search_isLeast_iff]
  unfold WorstFits worstFit
  constructor
  · rintro ⟨dst, hdst, hleast⟩
    obtain ⟨r, hr, hpure⟩ := bind_eq_ok.1 hdst
    cases hpure
    exact ⟨r, hr, hleast⟩
  · rintro ⟨r, hr, hleast⟩
    exact ⟨r.1, bind_eq_ok.2 ⟨r, hr, rfl⟩, hleast⟩

/-- The test of the mask stands around that of the demand in the source. -/
theorem worstFit_eq (test : ℕ → Except Fault Bool) (util : ℕ → Except Fault ℕ) :
    (do
      let (cpuDst, _) ← (List.range c.nrRtCpus).foldlM (fun (cpuDst, uDst) cpu => do
        if mask cpu then
          if ← test cpu then
            let u ← util cpu
            return if u < uDst then (cpu, u) else (cpuDst, uDst)
          else return (cpuDst, uDst)
        else return (cpuDst, uDst)) (c.cpuUndefined, 100)
      return cpuDst) = worstFit c mask test util := by
  unfold worstFit search
  congr 2
  funext best cpu
  unfold masked
  cases mask cpu with
  | false => rfl
  | true => rfl

theorem allTested_of_worstFit {test : ℕ → Except Fault Bool} {util : ℕ → Except Fault ℕ}
    (h : worstFit c mask test util = .ok cpu) : AllTested c mask test util := by
  obtain ⟨r, hr, -⟩ := bind_eq_ok.1 h
  exact fun k hk => tested_of_search hr k (List.mem_range.2 hk)

/-- No CPU is found iff the tests have results and no CPU of the mask passes that is used by less than
100 percent. -/
theorem worstFit_undefined_iff (test : ℕ → Except Fault Bool) (util : ℕ → Except Fault ℕ) :
    worstFit c mask test util = .ok c.cpuUndefined ↔
      AllTested c mask test util ∧ ¬ SomeIsBelow c mask test util := by
  have hbelow : (∀ i < c.nrRtCpus, masked mask test i = .ok true → ∀ u, util i = .ok u → 100 ≤ u) ↔
      ¬ SomeIsBelow c mask test util := by
    unfold SomeIsBelow
    push Not
    refine forall₂_congr fun i _ => ?_
    rw [masked_eq_true, and_imp]
  rw [AllTested, ← hbelow, ← search_none_iff]
  unfold worstFit
  constructor
  · intro h
    obtain ⟨r, hr, hpure⟩ := bind_eq_ok.1 h
    exact ⟨r, hr, Except.ok.inj hpure⟩
  · rintro ⟨r, hr, hn⟩
    exact bind_eq_ok.2 ⟨r, hr, congrArg _ hn⟩

/-- **Worst-fit placement.** With EDF-FF and with EDF-WM, the CPU that `cpu_worst_fit` returns is the
right one iff the tests have results, and no CPU of the mask passes or one passes that is used by
less than 100 percent. -/
theorem worst_fit_iff (c : Config) (rt fuel : ℕ) (mask : ℕ → Bool) :
    (∀ s : TaskSet, WorstFits c mask (EdfFf.dbfTest c s rt · fuel) (EdfFf.utilCpu c s)
        (EdfFf.cpuWorstFit c s rt fuel mask) ↔
      AllTested c mask (EdfFf.dbfTest c s rt · fuel) (EdfFf.utilCpu c s) ∧
        (NonePasses c mask (EdfFf.dbfTest c s rt · fuel) ∨
          SomeIsBelow c mask (EdfFf.dbfTest c s rt · fuel) (EdfFf.utilCpu c s))) ∧
    ∀ s : EdfWm, WorstFits c mask (EdfWm.dbfTest c s rt · fuel) (EdfWm.utilCpu c s)
        (EdfWm.cpuWorstFit c s rt fuel mask) ↔
      AllTested c mask (EdfWm.dbfTest c s rt · fuel) (EdfWm.utilCpu c s) ∧
        (NonePasses c mask (EdfWm.dbfTest c s rt · fuel) ∨
          SomeIsBelow c mask (EdfWm.dbfTest c s rt · fuel) (EdfWm.utilCpu c s)) := by
  refine ⟨fun s => ?_, fun s => ?_⟩
  · have heq : EdfFf.cpuWorstFit c s rt fuel mask =
        worstFit c mask (EdfFf.dbfTest c s rt · fuel) (EdfFf.utilCpu c s) := worstFit_eq ..
    rw [heq]
    exact worstFit_iff ..
  · have heq : EdfWm.cpuWorstFit c s rt fuel mask =
        worstFit c mask (EdfWm.dbfTest c s rt · fuel) (EdfWm.utilCpu c s) := worstFit_eq ..
    rw [heq]
    exact worstFit_iff ..

/-- Task 1 fills CPU 0, and task 0 has no execution time. -/
def fullCpu : TaskSet where
  list := [1]
  task i := if i = 0 then ⟨10, 10, 0, 0, 1, 1, false⟩ else ⟨10, 10, 10000, 10000, 2, 0, false⟩
  switchCost := 0
  releaseCost := 0
  migrationCost := 0

/-- Task 0 passes the test on CPU 0, and no CPU is found for it. -/
theorem worst_fit_ignores_full :
    ¬ WorstFits (Config.small false) (fun _ => true)
        (EdfFf.dbfTest (Config.small false) fullCpu 0 · 1)
        (EdfFf.utilCpu (Config.small false) fullCpu)
        (EdfFf.cpuWorstFit (Config.small false) fullCpu 0 1 fun _ => true) ∧
      ¬ WorstFits (Config.small false) (fun _ => true)
        (EdfWm.dbfTest (Config.small false)
          ⟨fullCpu, fun _ => EdfWmTask.clear (Config.small false)⟩ 0 · 1)
        (EdfWm.utilCpu (Config.small false)
          ⟨fullCpu, fun _ => EdfWmTask.clear (Config.small false)⟩)
        (EdfWm.cpuWorstFit (Config.small false)
          ⟨fullCpu, fun _ => EdfWmTask.clear (Config.small false)⟩ 0 1 fun _ => true) := by
  constructor
  · rintro ⟨dst, hdst, hleast⟩
    have hcpu : EdfFf.cpuWorstFit (Config.small false) fullCpu 0 1 (fun _ => true) = .ok 1 := by
      decide +kernel
    rw [hcpu, Except.ok.injEq] at hdst
    exact hleast.none_iff.1 hdst.symm 0 Nat.one_pos (by decide +kernel)
  · rintro ⟨dst, hdst, hleast⟩
    have hcpu : EdfWm.cpuWorstFit (Config.small false)
        ⟨fullCpu, fun _ => EdfWmTask.clear (Config.small false)⟩ 0 1 (fun _ => true) = .ok 1 := by
      decide +kernel
    rw [hcpu, Except.ok.injEq] at hdst
    exact hleast.none_iff.1 hdst.symm 0 Nat.one_pos (by decide +kernel)

end Resch.Checked
