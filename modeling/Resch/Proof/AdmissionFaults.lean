import Resch.Proof.EdfWmSplit
import Resch.Proof.EdfWmShare
import Resch.Proof.Faults
import Resch.Proof.FpPmRun
import Resch.Spec.FpPmChecked

/-!
# Divisions by zero that admission avoids

* `EdfFf.cpuWorstFit_avoids`, `FpFf.partition_avoids`: no division is by zero if no task on the CPUs
  has a period of zero microseconds.
* `FpPm.place_avoids`: the same for tasks with shares. The number of jobs in a deadline, to which one
  is added, is a divisor, too (`FpPm.BoundsDivide`).
-/

namespace Resch.Checked

open Lib

variable {c : Config} {s : TaskSet} {rt cpu p L fuel : ℕ} {mask : ℕ → Bool}

/-! ## EDF-FF -/

namespace EdfFf

theorem utilCpu_avoids (h : Periods c s cpu) : Avoids .divideByZero (utilCpu c s cpu) := by
  unfold utilCpu
  refine Avoids.foldlM (fun p hp u => ?_) 0
  refine .ite (fun hcpu => ?_) fun _ => .pure _
  exact (util_avoids fun _ => h p hp (of_decide_eq_true hcpu)).bind fun v _ => .pure _

theorem dbfLen_avoids (h : Periods c s cpu) (hrt : c.usecs (s.task rt).period ≠ 0) :
    Avoids .divideByZero (dbfLen c s rt cpu) := by
  unfold dbfLen
  have hadd : ∀ p sums, c.usecs (s.task p).period ≠ 0 →
      Avoids .divideByZero (dbfLenTask c s p sums) := by
    intro p sums hp
    unfold dbfLenTask
    exact (util_avoids fun _ => hp).bind fun v _ => .pure _
  refine (Avoids.foldlM (fun p hp sums => ?_) _).bind fun sums _ => ?_
  · exact .ite (fun hcpu => hadd p sums (h p hp (of_decide_eq_true hcpu))) fun _ => .pure _
  · refine (hadd rt sums hrt).bind fun r _ => ?_
    obtain ⟨x, u, d⟩ := r
    refine .ite (fun _ => .pure _) fun hu => ?_
    exact (Avoids.div fun _ => by omega).bind fun q _ => .pure _

theorem testDeadlines_avoids (h : Periods c s cpu) (hrt : c.usecs (s.task rt).period ≠ 0)
    {Lmax period : ℕ} (fuel L : ℕ) :
    Avoids .divideByZero (testDeadlines c s rt cpu Lmax period fuel L) :=
  .loop (show Fault.outOfFuel ≠ .divideByZero from nofun) (fun _ => rfl) (fun _ _ => rfl)
    (fun _ => fits_avoids (fun _ => h) fun _ => hrt) fuel L

theorem testTasks_avoids (h : Periods c s cpu) (hrt : c.usecs (s.task rt).period ≠ 0) {Lmax : ℕ} :
    ∀ ps, Avoids .divideByZero (testTasks c s rt cpu fuel Lmax ps) := by
  intro ps
  induction ps with
  | nil => exact .pure _
  | cons p ps ih => exact .ite (fun _ => (testDeadlines_avoids h hrt _ _).andThen ih) fun _ => ih

theorem dbfTest_avoids (h : Periods c s cpu) (hrt : c.usecs (s.task rt).period ≠ 0) :
    Avoids .divideByZero (dbfTest c s rt cpu fuel) := by
  unfold dbfTest
  refine .ite (fun _ => .pure _) fun _ => ?_
  refine (dbfLen_avoids h hrt).bind fun Lmax _ => ?_
  exact (testTasks_avoids h hrt _).andThen (testDeadlines_avoids h hrt _ _)

theorem cpuWorstFit_avoids (h : ∀ cpu < c.nrRtCpus, Periods c s cpu)
    (hrt : c.usecs (s.task rt).period ≠ 0) :
    Avoids .divideByZero (cpuWorstFit c s rt fuel mask) := by
  unfold cpuWorstFit
  refine (Avoids.foldlM (fun cpu hcpu r => ?_) _).bind fun r _ => .pure _
  have hp := h cpu (List.mem_range.1 hcpu)
  refine .ite (fun _ => ?_) fun _ => .pure _
  refine (dbfTest_avoids hp hrt).bind fun b _ => ?_
  refine .ite (fun _ => ?_) fun _ => .pure _
  exact (utilCpu_avoids hp).bind fun u _ => .pure _

end EdfFf

/-! ## FP-FF -/

namespace FpFf

theorem interference_avoids {P C : ℕ} (h : P ≠ 0) : Avoids .divideByZero (interference L P C) := by
  unfold interference
  exact (Avoids.div fun _ => h).bind fun F _ => .pure _

theorem responseTimeAnalysis_avoids (h : Periods c s cpu) (hrt : c.usecs (s.task rt).period ≠ 0) :
    Avoids .divideByZero (responseTimeAnalysis c s rt cpu) := by
  unfold responseTimeAnalysis
  refine (Avoids.foldlM (fun hp hhp ret => ?_) 0).bind fun ret _ => ?_
  · refine .ite (fun hcpu => ?_) fun _ => .pure _
    have hmem := (List.takeWhile_sublist _).subset hhp
    refine (interference_avoids (h hp hmem (of_decide_eq_true hcpu.1))).bind fun i _ => .pure _
  · refine (schedOverheadCpu_avoids fun _ => h).bind fun o _ => ?_
    exact (schedOverheadTask_avoids fun _ => hrt).bind fun o' _ => .pure _

theorem partitionTasks_avoids (h : Periods c s cpu) (hrt : c.usecs (s.task rt).period ≠ 0) :
    ∀ lps ⊆ s.list, Avoids .divideByZero (partitionTasks c s rt cpu lps) := by
  intro lps
  induction lps with
  | nil => exact fun _ => .pure _
  | cons lp lps ih =>
    intro hsub
    have hrest := ih fun p hp => hsub (List.mem_cons_of_mem _ hp)
    rw [partitionTasks]
    refine .ite (fun hcpu => ?_) fun _ => hrest
    have hlp := h lp (hsub List.mem_cons_self) (of_decide_eq_true hcpu)
    refine (responseTimeAnalysis_avoids h hlp).bind fun Rk _ => ?_
    refine (interference_avoids hrt).bind fun Ii _ => ?_
    exact .ite (fun _ => .pure _) fun _ => hrest

theorem partition_avoids (h : ∀ cpu < c.nrRtCpus, Periods c s cpu)
    (hrt : c.usecs (s.task rt).period ≠ 0) : Avoids .divideByZero (partition c s rt mask) := by
  have hloop : ∀ cpus ⊆ List.range c.nrRtCpus,
      Avoids .divideByZero (partitionLoop c s rt mask cpus) := by
    intro cpus
    induction cpus with
    | nil => exact fun _ => .pure _
    | cons cpu cpus ih =>
      intro hsub
      have hp := h cpu (List.mem_range.1 (hsub List.mem_cons_self))
      have hrest := ih fun k hk => hsub (List.mem_cons_of_mem _ hk)
      rw [partitionLoop]
      refine .ite (fun _ => ?_) fun _ => hrest
      refine (responseTimeAnalysis_avoids hp hrt).bind fun Ri _ => ?_
      refine .ite (fun _ => hrest) fun _ => ?_
      refine (partitionTasks_avoids hp hrt _ (List.dropWhile_sublist _).subset).bind fun b _ => ?_
      exact .ite (fun _ => .pure _) fun _ => hrest
  exact hloop _ (List.Subset.refl _)

end FpFf

/-! ## FP-PM -/

namespace FpPm

variable {s s' : Fppm}

/-- The tasks on a CPU, whole or with a share, have periods. -/
def PartPeriods (c : Config) (s : Fppm) (cpu : ℕ) : Prop :=
  ∀ p ∈ s.list, s.fppmTaskIsOnCpu p cpu = true → c.usecs (s.task p).period ≠ 0

/-- No quotient of a deadline by the period of `rt` is the `int` `-1`, to which `split` adds one. -/
def BoundsDivide (c : Config) (s : Fppm) (rt : ℕ) : Prop :=
  ∀ p ∈ s.list, cint (c.usecs (s.task p).deadline / c.usecs (s.task rt).period) ≠ -1

theorem PartPeriods.whole (h : PartPeriods c s cpu) : Periods c s.toTaskSet cpu := by
  intro p hp hcpu
  refine h p hp ?_
  unfold Fppm.fppmTaskIsOnCpu
  rw [hcpu]
  simp

theorem isOnCpu_congr (hc : (s'.task p).cpuId = (s.task p).cpuId)
    (he : (s'.fppmTask p).runtime = (s.fppmTask p).runtime) :
    s'.fppmTaskIsOnCpu p cpu = s.fppmTaskIsOnCpu p cpu := by
  unfold Fppm.fppmTaskIsOnCpu Fppm.splitIsOnCpu
  simp only [hc, he]

theorem PartPeriods.marks (h : PartPeriods c s cpu) (hm : Fppm.Marks s s') :
    PartPeriods c s' cpu := by
  intro p hp hon
  have hsame : s'.fppmTaskIsOnCpu p cpu = s.fppmTaskIsOnCpu p cpu :=
    isOnCpu_congr (by rw [hm.toTaskSet]) (by rw [hm.fppmTask])
  rw [hsame] at hon
  rw [hm.toTaskSet] at hp ⊢
  exact h p hp hon

theorem interference_avoids (h : PartPeriods c s cpu) {hp : ℕ} (hmem : hp ∈ s.list) :
    Avoids .divideByZero (interference c s rt cpu hp L) := by
  unfold interference
  dsimp only
  refine .ite (fun hCk => ?_) fun _ => .pure _
  -- a task that adds something is on the CPU
  refine FpFf.interference_avoids (h hp hmem ?_)
  unfold Fppm.fppmTaskIsOnCpu
  by_cases hs : s.splitIsOnCpu hp cpu = true
  · rw [hs, Bool.or_true]
  · rw [if_neg hs] at hCk
    by_cases hcpu : (s.task hp).cpuId = cpu ∧ hp ≠ rt
    · rw [hcpu.1]
      simp
    · rw [if_neg hcpu] at hCk
      exact absurd rfl hCk

theorem fppmResponseTimeAnalysis_avoids (h : PartPeriods c s cpu)
    (hrt : c.usecs (s.task rt).period ≠ 0) :
    Avoids .divideByZero (fppmResponseTimeAnalysis c s rt cpu) := by
  unfold fppmResponseTimeAnalysis
  refine (Avoids.foldlM (fun hp hhp ret => ?_) 0).bind fun ret _ => ?_
  · have hmem := (List.takeWhile_sublist _).subset hhp
    exact (interference_avoids h hmem).bind fun i _ => .pure _
  · refine (schedOverheadCpu_avoids fun _ => h.whole).bind fun o _ => ?_
    exact (schedOverheadTask_avoids fun _ => hrt).bind fun o' _ => .pure _

theorem partitionTasks_avoids : ∀ (lps : List ℕ) (s : Fppm), lps ⊆ s.list → PartPeriods c s cpu →
    c.usecs (s.task rt).period ≠ 0 → Avoids .divideByZero (partitionTasks c rt cpu lps s) := by
  intro lps
  induction lps with
  | nil => exact fun s _ _ _ => .pure _
  | cons lp lps ih =>
    intro s hsub h hrt
    have hrest : lps ⊆ s.list := fun p hp => hsub (List.mem_cons_of_mem _ hp)
    rw [partitionTasks]
    refine .ite (fun hon => ?_) fun _ => ih s hrest h hrt
    have hlp := h lp (hsub List.mem_cons_self) hon
    refine (fppmResponseTimeAnalysis_avoids h hlp).bind fun Rk _ => ?_
    refine (FpFf.interference_avoids hrt).bind fun Ii _ => ?_
    refine .ite (fun _ => .pure _) fun _ => ?_
    exact ih _ hrest (h.marks (Fppm.markCpu_marks s lp cpu)) hrt

/-- The analyses mark CPUs, and do nothing else to the state. -/
theorem partitionTasks_ok : ∀ (lps : List ℕ) (s : Fppm) {b : Bool},
    partitionTasks c rt cpu lps s = .ok (b, s') → Fppm.Marks s s' := by
  intro lps
  induction lps with
  | nil =>
    intro s b h
    cases h
    exact .refl _
  | cons lp lps ih =>
    intro s b h
    rw [partitionTasks] at h
    split at h
    · obtain ⟨Rk, -, h⟩ := bind_eq_ok.1 h
      obtain ⟨Ii, -, h⟩ := bind_eq_ok.1 h
      split at h
      · cases h
        exact Fppm.markCpu_marks s lp cpu
      · exact (Fppm.markCpu_marks s lp cpu).trans (ih _ h)
    · exact ih s h

theorem partitionLoop_avoids : ∀ (cpus : List ℕ) (s : Fppm), (∀ cpu ∈ cpus, PartPeriods c s cpu) →
    c.usecs (s.task rt).period ≠ 0 → Avoids .divideByZero (partitionLoop c rt mask cpus s) := by
  intro cpus
  induction cpus with
  | nil => exact fun s _ _ => .pure _
  | cons cpu cpus ih =>
    intro s h hrt
    have hrest : ∀ s', Fppm.Marks s s' → Avoids .divideByZero (partitionLoop c rt mask cpus s') := by
      intro s' hm
      refine ih s' (fun k hk => (h k (List.mem_cons_of_mem _ hk)).marks hm) ?_
      rw [hm.toTaskSet]
      exact hrt
    have hcpu := h cpu List.mem_cons_self
    have hmark := Fppm.markCpu_marks s rt cpu
    rw [partitionLoop]
    refine .ite (fun _ => ?_) fun _ => hrest s (.refl s)
    refine (fppmResponseTimeAnalysis_avoids hcpu hrt).bind fun Ri _ => ?_
    refine .ite (fun _ => hrest _ hmark) fun _ => ?_
    refine (partitionTasks_avoids _ _ (List.dropWhile_sublist _).subset (hcpu.marks hmark) hrt).bind
      fun r hr => ?_
    obtain ⟨b, s'⟩ := r
    have hm := hmark.trans (partitionTasks_ok _ _ hr)
    cases b
    · exact hrest s' hm
    · exact .pure _

theorem partitionLoop_ok : ∀ (cpus : List ℕ) (s : Fppm) {k : ℕ},
    partitionLoop c rt mask cpus s = .ok (k, s') → Fppm.Marks s s' := by
  intro cpus
  induction cpus with
  | nil =>
    intro s k h
    cases h
    exact .refl _
  | cons cpu cpus ih =>
    intro s k h
    have hmark := Fppm.markCpu_marks s rt cpu
    rw [partitionLoop] at h
    split at h
    swap
    · exact ih s h
    obtain ⟨Ri, -, h⟩ := bind_eq_ok.1 h
    dsimp only at h
    split at h
    · exact hmark.trans (ih _ h)
    obtain ⟨⟨b, s₁⟩, hr, h⟩ := bind_eq_ok.1 h
    have hm := hmark.trans (partitionTasks_ok _ _ hr)
    cases b
    · exact hm.trans (ih _ h)
    · cases h
      exact hm

/-- The closed form divides by the period, by `F + 1` and by `F`. -/
theorem splitBound_avoids {Rk Dk Pi : ℕ} (hPi : Pi ≠ 0) (hF : cint (Dk / Pi) ≠ -1) :
    Avoids .divideByZero (splitBound Rk Dk Pi) := by
  unfold splitBound
  rw [div_of_ne hPi]
  have hlo : -2 ^ 31 ≤ cint (Dk / Pi) := by
    have := @Int.le_bmod ((Dk / Pi : ℕ) : ℤ) (2 ^ 32) (by decide)
    unfold cint
    omega
  have hhi : cint (Dk / Pi) < 2 ^ 31 := by
    have := @Int.bmod_lt ((Dk / Pi : ℕ) : ℤ) (2 ^ 32) (by decide)
    unfold cint
    omega
  have hne : ∀ F : ℤ, -2 ^ 31 ≤ F → F ≤ 2 ^ 31 → F ≠ 0 → ulong F ≠ 0 := by
    intro F h1 h2 h0
    unfold ulong
    omega
  have hsucc : ulong (cint (Dk / Pi) + 1) ≠ 0 := hne _ (by omega) (by omega) (by omega)
  refine Avoids.bind (.ok _) fun q hq => ?_
  cases hq
  dsimp only
  refine .ite (fun _ => Avoids.div fun _ => hsucc) fun h0 => ?_
  refine .ite (fun _ => Avoids.div fun _ => hsucc) fun _ => ?_
  exact (Avoids.div fun _ => hne _ hlo hhi.le h0).bind fun _ _ => .pure _

theorem splitRuntimeLoop_avoids (h : PartPeriods c s cpu) (hrt : c.usecs (s.task rt).period ≠ 0)
    (hb : BoundsDivide c s rt) : ∀ lps ⊆ s.list, ∀ r,
      Avoids .divideByZero (splitRuntimeLoop c s rt cpu lps r) := by
  intro lps
  induction lps with
  | nil => exact fun _ _ => .pure _
  | cons lp lps ih =>
    intro hsub r
    have hrest := ih fun p hp => hsub (List.mem_cons_of_mem _ hp)
    have hlp := hsub List.mem_cons_self
    rw [splitRuntimeLoop]
    refine .ite (fun hon => ?_) fun _ => hrest r
    refine (fppmResponseTimeAnalysis_avoids h (h lp hlp hon)).bind fun Rk _ => ?_
    refine .ite (fun _ => .pure _) fun _ => ?_
    exact (splitBound_avoids hrt (hb lp hlp)).bind fun tmp _ => hrest _

theorem splitLoop_avoids (hrt : c.usecs (s.task rt).period ≠ 0) (hb : BoundsDivide c s rt) :
    ∀ cpus, (∀ cpu ∈ cpus, PartPeriods c s cpu) → ∀ ft sum,
      Avoids .divideByZero (splitLoop c s rt cpus ft sum) := by
  intro cpus
  induction cpus with
  | nil => exact fun _ _ _ => .pure _
  | cons cpu cpus ih =>
    intro h ft sum
    have hrest := ih fun k hk => h k (List.mem_cons_of_mem _ hk)
    rw [splitLoop]
    refine .ite (fun _ => ?_) fun _ => hrest _ _
    refine (splitRuntimeLoop_avoids (h cpu List.mem_cons_self) hrt hb _ (List.Subset.refl _) 0).bind
      fun share _ => ?_
    exact .ite (fun _ => .pure _) fun _ => hrest _ _

theorem split_avoids (h : ∀ cpu < c.nrRtCpus, PartPeriods c s cpu)
    (hrt : c.usecs (s.task rt).period ≠ 0) (hb : BoundsDivide c s rt) :
    Avoids .divideByZero (split c s rt) := by
  unfold split
  refine (splitLoop_avoids hrt hb _ (fun k hk => h k (List.mem_range.1 hk)) _ _).bind fun ft _ => ?_
  exact .pure _

/-- **`partition` and `split` divide by no zero** if the tasks on the CPUs have periods, and no
quotient wraps. -/
theorem place_avoids (h : ∀ cpu < c.nrRtCpus, PartPeriods c s cpu)
    (hrt : c.usecs (s.task rt).period ≠ 0) (hb : BoundsDivide c s rt) :
    Avoids .divideByZero (place c s rt mask) := by
  have hreset : ∀ cpu < c.nrRtCpus, PartPeriods c (s.reset c rt) cpu := by
    intro cpu hcpu p hp hon
    by_cases hprt : p = rt
    · subst hprt
      exact hrt
    · have he : (s.reset c rt).fppmTask p = s.fppmTask p := Function.update_of_ne hprt ..
      have hsame : (s.reset c rt).fppmTaskIsOnCpu p cpu = s.fppmTaskIsOnCpu p cpu :=
        isOnCpu_congr rfl (congrArg FppmTask.runtime he)
      exact h cpu hcpu p hp (hsame ▸ hon)
  unfold place partition
  refine (partitionLoop_avoids _ _ (fun k hk => hreset k (List.mem_range.1 hk)) hrt).bind
    fun r hr => ?_
  obtain ⟨cpuDst, s'⟩ := r
  have hm := partitionLoop_ok _ _ hr
  refine .ite (fun _ => .pure _) fun _ => ?_
  refine (split_avoids (fun k hk => (hreset k hk).marks hm) ?_ ?_).bind fun r _ => .pure _
  · rw [hm.toTaskSet]
    exact hrt
  · intro p hp
    rw [hm.toTaskSet] at hp ⊢
    exact hb p hp

end FpPm

end Resch.Checked
