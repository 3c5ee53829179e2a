import Mathlib.Data.List.Perm.Subperm
import Resch.Proof.EdfWm
import Resch.Proof.SplitJob
import Resch.Spec.EdfWmJob

/-!
# The windows of a job under EDF-WM

* `Route.length_le`: a job is on no more CPUs than the split has windows.
* `edfWm_windows`: so the deadline of a job, which goes on by one window with each move, never
  exceeds the release time plus the relative deadline that the task was submitted with.
-/

namespace Resch

open Lib Checked.EdfWm

variable {c : Config} {s t : EdfWm} {rt D num : ℕ}

/-- How often a job has been moved to another CPU -/
def SplitJob.migrations (j : SplitJob WindowTimes) : ℕ := j.visits.length - 1

/-- What is to hold of the job of a task with relative deadline `D` that is split into `num`
windows. -/
structure EdfWmJobOk (D num rt : ℕ) (s : SplitState WindowTimes) : Prop where
  deadline : (s.job rt).active = true → (s.job rt).data.deadlineTime =
    (s.job rt).data.releaseTime + ((s.job rt).migrations + 1) * (D / num)
  migrations : (s.job rt).active = true → (s.job rt).migrations ≤ num - 1
  within : (s.job rt).active = true →
    (s.job rt).data.deadlineTime ≤ (s.job rt).data.releaseTime + D

/-- One window for each CPU visited -/
def WindowsUsed (rt window q : ℕ) (l : List ℕ) (times : WindowTimes) : Prop :=
  q = rt → times.deadlineTime = times.releaseTime + l.length * window

theorem edfWmPlugin_keeps (hdl : (s.task rt).deadline = (s.edfWmTask rt).deadline) :
    (edfWmPlugin c s).Keeps (WindowsUsed rt (s.edfWmTask rt).deadline) := by
  have hmig : ∀ q l cpu times, WindowsUsed rt (s.edfWmTask rt).deadline q l times →
      WindowsUsed rt (s.edfWmTask rt).deadline q (l ++ [cpu])
        ((edfWmPlugin c s).migrate q cpu times) := by
    intro q l cpu times h hq
    have htime := h hq
    subst hq
    unfold edfWmPlugin
    dsimp only
    rw [List.length_append, List.length_singleton, Nat.add_mul, htime]
    omega
  refine ⟨fun q releaseTime times _ hq => ?_, fun q l cpu times _ h _ => hmig q l cpu times h,
    fun q l cpu times _ h _ => hmig q l cpu times h⟩
  subst hq
  unfold edfWmPlugin
  dsimp only
  rw [hdl, List.length_singleton]
  omega

/-- A job visits CPUs with a share only, apart from the first one. -/
theorem Route.length_le {l cpus : List ℕ} {cpu : ℕ} (h : Route (edfWmPlugin c s) rt l cpu)
    (hw : Windows c (s.edfWmTask rt) D num cpus) : l.length ≤ num := by
  have hnodup : l.Nodup := h.increasing.imp fun hlt => Nat.ne_of_lt hlt
  have hsub : l ⊆ cpus := by
    obtain ⟨tl, hl⟩ := List.head?_eq_some_iff.1 h.first
    intro k hk
    rw [hl] at hk
    rcases List.mem_cons.1 hk with rfl | hk
    · exact hw.first
    · obtain ⟨hpos, hlt⟩ := h.share k (by rw [hl]; exact hk)
      exact hw.share k hlt hpos
  have hle := (hnodup.subperm hsub).length_le
  rw [hw.length] at hle
  exact hle

theorem edfWmJobOk_of_inv {jobs : SplitState WindowTimes} {cpus : List ℕ}
    (h : SplitInv (edfWmPlugin c s) (WindowsUsed rt (s.edfWmTask rt).deadline) jobs)
    (hs : 0 < (s.edfWmTask rt).deadline) (hw : Windows c (s.edfWmTask rt) D num cpus) :
    EdfWmJobOk D num rt jobs := by
  have hboth : (jobs.job rt).active = true →
      (jobs.job rt).migrations + 1 ≤ num ∧ (jobs.job rt).data.deadlineTime =
        (jobs.job rt).data.releaseTime + ((jobs.job rt).migrations + 1) * (D / num) := by
    intro ha
    obtain ⟨hroute, hused⟩ := (h rt).route (decide_eq_true hs) ha
    have hlen := hroute.length_le hw
    have hmig : (jobs.job rt).migrations + 1 = (jobs.job rt).visits.length :=
      Nat.sub_add_cancel (List.length_pos_of_ne_nil hroute.ne_nil)
    rw [hused rfl, hw.deadline, hmig]
    exact ⟨hlen, rfl⟩
  refine ⟨fun ha => (hboth ha).2, fun ha => ?_, fun ha => ?_⟩
  · have := (hboth ha).1
    omega
  · obtain ⟨hle, htime⟩ := hboth ha
    have hD : ((jobs.job rt).migrations + 1) * (D / num) ≤ D :=
      calc ((jobs.job rt).migrations + 1) * (D / num) ≤ num * (D / num) :=
            Nat.mul_le_mul_right _ hle
        _ ≤ D := Nat.mul_div_le D num
    omega

theorem edfWmStep_inv {R : ℕ → List ℕ → WindowTimes → Prop} {jobs jobs' : SplitState WindowTimes}
    (hk : (edfWmPlugin c s).Keeps R) (op : SplitOp) (h : SplitInv (edfWmPlugin c s) R jobs)
    (hs : edfWmStep c s jobs op = some jobs') : SplitInv (edfWmPlugin c s) R jobs' := by
  unfold edfWmStep at hs
  cases op with
  | jobStart rt t =>
    dsimp only at hs
    split at hs
    · cases hs
    · exact splitStep_inv hk _ h hs
  | timer rt => exact splitStep_inv hk _ h hs
  | thread cpu => exact splitStep_inv hk _ h hs
  | jobComplete rt => exact splitStep_inv hk _ h hs

/-- **Windows stay inside the deadline.** If `task_run` has split a task into `num` windows and its
parameters have not changed since, then in every run of the jobs of all tasks, after the k-th
migration of a job of that task its deadline is that of window k + 1, and it migrates at most
`num - 1` times, so its deadline never exceeds the release time plus the relative deadline at
submission. -/
theorem edfWm_windows (c : Config) (s₀ s t : EdfWm) (rt fuel : ℕ) (mask : ℕ → Bool)
    (hrun : taskRun c s₀ rt fuel mask = .ok s) (hperiod : (s₀.task rt).period ≠ 0)
    (hsplit : 0 < (s.edfWmTask rt).deadline) (hcpu : (s.task rt).cpuId ≠ c.cpuUndefined)
    (htask : t.task rt = s.task rt) (het : t.edfWmTask rt = s.edfWmTask rt) :
    ∃ s₁ num, split c (setEdfWmTask s₀ rt (EdfWmTask.clear c)) rt fuel = .ok (s₁, num) ∧ 2 ≤ num ∧
      ∀ (cpus : ℕ → ℕ) (times : ℕ → WindowTimes) (ops : List SplitOp),
        Always (edfWmStep c t) (EdfWmJobOk (s₀.task rt).deadline num rt)
          (splitInit (edfWmPlugin c t) cpus times) ops := by
  obtain ⟨s₁, num, hs₁, het₁, hdl, hdone⟩ := taskRun_split hrun hperiod hsplit hcpu
  obtain ⟨hnum, l, hw⟩ := split_windows hs₁ (congrArg EdfWmTask.firstCpu setEdfWmTask_self) hdone
  refine ⟨s₁, num, hs₁, hnum, fun cpus times ops => ?_⟩
  rw [← het₁, ← het] at hw
  have hkeeps : (edfWmPlugin c t).Keeps (WindowsUsed rt (t.edfWmTask rt).deadline) := by
    apply edfWmPlugin_keeps
    rw [htask, het, hdl, het₁]
  have hinv := Always.of_inv (fun _ op _ h hs => edfWmStep_inv hkeeps op h hs) ops _
    (splitInit_inv (edfWmPlugin c t) (WindowsUsed rt (t.edfWmTask rt).deadline) cpus times)
  refine Always.mono (fun jobs h => edfWmJobOk_of_inv h ?_ hw) ops _ hinv
  rw [het]
  exact hsplit

/-- Two CPUs, in a build that EDF-WM can be loaded into. -/
def windowCpus : Config := { Config.small true with nrRtCpus := 2 }

/-- Tasks 0 and 1 use 6 milliseconds in every 10 on their CPUs, and task 2 needs as much. -/
def twoResidents : EdfWm where
  list := [0, 1, 2]
  task rt := ⟨10, 10, 6000, 6000, 3, if rt < 2 then rt else windowCpus.cpuUndefined, false⟩
  switchCost := 0
  releaseCost := 0
  migrationCost := 0
  edfWmTask _ := EdfWmTask.clear windowCpus

/-- Task 2 is split into two windows. -/
def twoWindows : EdfWm := (taskRun windowCpus twoResidents 2 100 fun _ => true).toOption.getD twoResidents

theorem edfWm_windows_two : ∃ s₁ num,
    split windowCpus (setEdfWmTask twoResidents 2 (EdfWmTask.clear windowCpus)) 2 100 = .ok (s₁, num) ∧
      2 ≤ num ∧ ∀ (cpus : ℕ → ℕ) (times : ℕ → WindowTimes) (ops : List SplitOp),
        Always (edfWmStep windowCpus twoWindows) (EdfWmJobOk (twoResidents.task 2).deadline num 2)
          (splitInit (edfWmPlugin windowCpus twoWindows) cpus times) ops :=
  edfWm_windows windowCpus twoResidents twoWindows twoWindows 2 100 (fun _ => true)
    (eq_ok_getD _ (by decide +kernel)) (by decide) (by decide +kernel) (by decide +kernel) rfl rfl

end Resch
