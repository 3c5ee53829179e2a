import Resch.Proof.FpFfFits
import Resch.Proof.Roster

/-!
# FP-FF admission along runs

Tasks attach, set their parameters and are submitted, each at most once. They keep their parameters
from then on until they exit, and stay where FP-FF has placed them.

* `exec_inv`: a step keeps the tests that the tasks on the CPUs have passed.
* `admission_sound`: in every state of such a run, every job of a task on a CPU finishes within its
  deadline, whenever the jobs are released and in whatever way a scheduler by priorities breaks ties.
-/

namespace Resch.Checked

open Lib FpFf

variable {c : Config} {s s' : Admission} {rt k cpu : ℕ} {mask : ℕ → Bool} {accepts : Bool}
  {policy prio : ℤ}

/-- The condition on a step: a task is submitted once, with a deadline of at most its period, and keeps
its parameters, its policy and its CPU. -/
def AdmissionOp.Submits (c : Config) (s : Admission) : AdmissionOp → Prop
  | init _ | exit _ _ | setCosts _ _ _ => True
  | run rt _ mask _ => rt ∉ s.list ∧ 0 < (s.task rt).deadline ∧
      (s.task rt).deadline ≤ (s.task rt).period ∧
      NoOverflow c (s.core fun t => t.globalListInsert rt).toTaskSet rt mask
  | setPeriod rt _ | setDeadline rt _ | setWcet rt _ | setRuntime rt _ | setPriority rt _ _
  | renewWcet rt _ | writePrio rt _ => rt ∉ s.list
  | setScheduler _ policy _ => policy = reschSchedFp
  | follow rt cpu => cpu = (s.task rt).cpuId

instance (op : AdmissionOp) : Decidable (op.Submits c s) :=
  match op with
  | .init _ | .exit _ _ | .setCosts _ _ _ => .isTrue trivial
  | .run _ _ _ _ => inferInstanceAs (Decidable (_ ∧ _ ∧ _ ∧ _))
  | .setPeriod _ _ | .setDeadline _ _ | .setWcet _ _ | .setRuntime _ _ | .setPriority _ _ _
  | .renewWcet _ _ | .writePrio _ _ => inferInstanceAs (Decidable (_ ∉ s.list))
  | .setScheduler _ _ _ | .follow _ _ => inferInstanceAs (Decidable (_ = _))

/-- The tasks in the list are those that have been submitted, and only they are on CPUs. -/
structure FpFfInv (c : Config) (s : Admission) : Prop where
  roster : Roster c s
  admits : Admits c s.toTaskSet

/-! ## What a step keeps -/

/-- What is admitted depends on the list and on the tasks. -/
theorem admits_congr {s s' : TaskSet} (h : Admits c s) (hl : s'.list = s.list)
    (ht : s'.task = s.task) : Admits c s' := by
  refine h.of_placed ?_ ?_ ?_ fun k _ => congrFun ht k
  · rw [hl, ht]
    exact h.sorted
  · rw [hl]
    exact h.nodup
  · unfold placed
    rw [hl, ht]

theorem FpFfInv.same (h : FpFfInv c s) (hs : SameRoster s s') : FpFfInv c s' :=
  ⟨h.roster.same hs, admits_congr h.admits hs.list hs.task⟩

theorem FpFfInv.out (h : FpFfInv c s) (ho : Out c rt s s') : FpFfInv c s' := by
  have hsub : s'.list.Sublist s.list := by
    rw [ho.list]
    exact List.filter_sublist
  refine ⟨h.roster.out ho, h.admits.of_placed ?_ (h.admits.nodup.sublist hsub) ?_ fun k hk => ?_⟩
  · refine List.Pairwise.imp_of_mem (fun {a b} hain hbin hab => ?_) (h.admits.sorted.sublist hsub)
    rw [ho.same hain, ho.same hbin]
    exact hab
  · have hsame : placed c s'.toTaskSet =
        s'.list.filter fun k => decide ((s.task k).cpuId < c.nrRtCpus) := by
      refine List.filter_congr fun k hk => ?_
      rw [ho.same hk]
    rw [hsame]
    exact hsub.filter _
  · exact ho.same (mem_placed.1 hk).1

/-- The task is inserted, and on no CPU yet. -/
theorem FpFfInv.insert (h : FpFfInv c s) (ha : s.attached rt = true) (hrt : rt ∉ s.list) :
    Admits c (s.core fun t => t.globalListInsert rt).toTaskSet := by
  have htask : (s.core fun t => t.globalListInsert rt).task = s.task :=
    (FppmState.globalListInsert_same s.toFppmState rt).1
  have hlist : (s.core fun t => t.globalListInsert rt).list = insertBefore
      (fun p => decide ((s.task p).prio < (s.task rt).prio)) rt s.list := by
    show (FppmState.globalListInsert _ rt).list = _
    unfold FppmState.globalListInsert
    rw [if_neg hrt]
  have hsorted : s.toFppmState.Sorted := h.admits.sorted
  have hoff : (fun k => decide ((s.task k).cpuId < c.nrRtCpus)) rt = false := by
    dsimp only
    rw [h.roster.unplaced rt ha hrt]
    exact decide_eq_false (lt_irrefl c.nrRtCpus)
  have hplaced : placed c (s.core fun t => t.globalListInsert rt).toTaskSet =
      placed c s.toTaskSet := by
    unfold placed
    rw [htask, hlist]
    exact filter_insertBefore (q := fun k => decide ((s.task k).cpuId < c.nrRtCpus)) hoff s.list
  refine h.admits.of_placed (hsorted.insert rt) (h.roster.insert ha).nodup ?_ fun k _ =>
    congrFun htask k
  rw [hplaced]

/-- **A submission.** -/
theorem run_inv {fuel : ℕ} (h : FpFfInv c s) (ha : s.attached rt = true)
    (hm : (AdmissionOp.run rt fuel mask accepts).Submits c s)
    (hs : (AdmissionOp.run rt fuel mask accepts).exec c .fpFf s = .ok s') : FpFfInv c s' := by
  obtain ⟨hrt, hpos, hle, hov⟩ := hm
  obtain ⟨t, hrun, hs⟩ := bind_eq_ok.1 hs
  have htask : (s.core fun t => t.globalListInsert rt).task = s.task :=
    (FppmState.globalListInsert_same s.toFppmState rt).1
  have hadm := h.insert ha hrt
  have hcases := taskRun_cases h.roster ha hrt (Or.inl rfl) rfl hrun (Except.ok.inj hs).symm
  rcases hcases with hout | ⟨hperiod, -⟩ | ⟨cpu, hpart, -, hdef, hroster, hlist, hset⟩
  · exact h.out hout
  · omega
  · have hcpu : ((s.core fun t => t.globalListInsert rt).task rt).cpuId = c.cpuUndefined := by
      rw [htask]
      exact h.roster.unplaced rt ha hrt
    have hnew : New c (s.core fun t => t.globalListInsert rt).toTaskSet rt cpu := by
      refine ⟨hadm.sorted, hadm.nodup, FppmState.mem_globalListInsert.2 (Or.inl rfl), ?_, hdef⟩
      rw [hcpu]
      exact Ne.symm hdef
    have hassign : s'.task = (assign c (s.core fun t => t.globalListInsert rt).toTaskSet rt cpu).task := by
      refine hset.trans ?_
      unfold assign
      dsimp only
      rw [if_pos hdef, htask]
    exact ⟨hroster, admits_congr (hadm.assign hnew hcpu (by rw [htask]; exact hpos)
      (by rw [htask]; exact hle) hov hpart) hlist hassign⟩

/-! ## The steps and the runs -/

/-- **One step.** -/
theorem exec_inv (op : AdmissionOp) (h : FpFfInv c s) (he : op.enabled s = true)
    (hm : op.Submits c s) (hs : op.exec c .fpFf s = .ok s') : FpFfInv c s' := by
  have hquiet : op.Quiet s → FpFfInv c s' := fun hq => by
    rcases exec_quiet op h.roster he hq hs with ⟨rt, hout⟩ | hsame
    · exact h.out hout
    · exact h.same hsame
  cases op with
  | run rt fuel mask accepts => exact run_inv h he hm hs
  | init | exit | setScheduler | setCosts => exact hquiet trivial
  | setPeriod | setDeadline | setWcet | setRuntime | setPriority | renewWcet | writePrio | follow =>
    exact hquiet hm

/-- **FP-FF admission is sound.** After any run of submissions, every job of a task on a CPU finishes
within its deadline, if the jobs of each task are at least its period apart and execute for at most `C`,
and the processor is never idle, nor busy with a job of lower priority, while a job is pending. -/
theorem admission_sound (c : Config) (switchCost releaseCost migrationCost : ℕ)
    (ops : List AdmissionOp) (s : Admission)
    (h : EachStep (AdmissionOp.step c .fpFf) (fun s op => op.enabled s = true → op.Submits c s)
      (Admission.start switchCost releaseCost migrationCost) ops)
    (hs : ops.foldlM (AdmissionOp.step c .fpFf)
      (Admission.start switchCost releaseCost migrationCost) = .ok s)
    (cpu : ℕ) (hcpu : cpu < c.nrRtCpus) (J : Jobs ℕ) (run : ℝ → Option (ℕ × ℕ))
    (hJ : J.Sporadic (tasksOn s.toTaskSet cpu) (fun k => c.jiffiesToUsecs (s.task k).period)
      fun k => (s.task k).C c)
    (hrun : Schedule J (tasksOn s.toTaskSet cpu) (fun k => (s.task k).prio) run)
    (k j : ℕ) (hk : k ∈ tasksOn s.toTaskSet cpu) (hj : J.Has (k, j)) :
    J.DoneBy run (k, j) (J.release k j + c.jiffiesToUsecs (s.task k).deadline) := by
  have hstart : FpFfInv c (Admission.start switchCost releaseCost migrationCost) :=
    ⟨⟨List.nodup_nil, nofun, nofun⟩, List.Pairwise.nil, List.nodup_nil, nofun⟩
  have hinv := EachStep.inv (I := FpFfInv c) (fun s op s' hi hm hs =>
    step_keeps hi (fun he => exec_inv op hi he (hm he)) hs) ops _ s hstart h hs
  exact hinv.admits.done_by_deadline hcpu hJ hrun hk hj

/-- Two tasks submit themselves to the only CPU, the second one with the lower priority. -/
def twoSubmissions : List AdmissionOp :=
  [.init 0, .setPeriod 0 10, .setWcet 0 3000, .setPriority 0 5 true,
    .init 1, .setPeriod 1 20, .setWcet 1 4000, .setPriority 1 3 true,
    .run 0 0 (fun _ => true) true, .run 1 0 (fun _ => true) true]

/-- The state after them -/
def twoSubmitted : Admission :=
  ((twoSubmissions.foldlM (AdmissionOp.step (Config.small false) .fpFf)
    (Admission.start 10 10 10)).toOption.getD (Admission.start 10 10 10))

/-- Each of them releases one job at once. -/
noncomputable def twoReleases : Jobs ℕ where
  count _ := 1
  release _ _ := 0
  cost i _ := if i = 0 then 3000 else 4000

/-- The job of task 0 runs first. -/
noncomputable def twoReleasesRun (t : ℝ) : Option (ℕ × ℕ) :=
  if 0 ≤ t ∧ t < 3000 then some (0, 0) else if 3000 ≤ t ∧ t < 7000 then some (1, 0) else none

theorem twoReleasesRun_eq {t : ℝ} {x : ℕ × ℕ} : twoReleasesRun t = some x ↔
    (x = (0, 0) ∧ 0 ≤ t ∧ t < 3000) ∨ (x = (1, 0) ∧ 3000 ≤ t ∧ t < 7000) := by
  unfold twoReleasesRun
  split
  · rename_i h
    rw [Option.some.injEq]
    constructor
    · rintro rfl
      exact Or.inl ⟨rfl, h⟩
    · rintro (⟨rfl, -⟩ | ⟨-, h', -⟩)
      · rfl
      · linarith [h.2]
  · rename_i h
    split
    · rename_i h'
      rw [Option.some.injEq]
      constructor
      · rintro rfl
        exact Or.inr ⟨rfl, h'⟩
      · rintro (⟨-, h0⟩ | ⟨rfl, -⟩)
        · exact absurd h0 h
        · rfl
    · rename_i h'
      constructor
      · nofun
      · rintro (⟨-, h0⟩ | ⟨-, h0⟩)
        · exact absurd h0 h
        · exact absurd h0 h'

theorem twoReleasesRun_measurable (x : ℕ × ℕ) : MeasurableSet {t | twoReleasesRun t = some x} := by
  have hset : {t | twoReleasesRun t = some x} = (if x = (0, 0) then Set.Ico 0 3000 else ∅) ∪
      if x = (1, 0) then Set.Ico 3000 7000 else ∅ := by
    ext t
    rw [Set.mem_ofPred_eq, twoReleasesRun_eq, Set.mem_union]
    split <;> split <;> simp_all
  rw [hset]
  refine MeasurableSet.union ?_ ?_
  · split
    · exact measurableSet_Ico
    · exact MeasurableSet.empty
  · split
    · exact measurableSet_Ico
    · exact MeasurableSet.empty

/-- Each job has run for its time when the other one starts, or at the end. -/
theorem twoReleasesRun_done {t : ℝ} : (3000 ≤ t → 3000 ≤ service twoReleasesRun (0, 0) 0 t) ∧
    (7000 ≤ t → 4000 ≤ service twoReleasesRun (1, 0) 0 t) := by
  have hm := twoReleasesRun_measurable
  constructor
  · intro ht
    have hfull : service twoReleasesRun (0, 0) 0 3000 = 3000 - 0 :=
      service_full hm (by norm_num) fun u h0 h1 => twoReleasesRun_eq.2 (Or.inl ⟨rfl, h0.le, h1⟩)
    have hmono := service_mono (hm (0, 0)) (by norm_num : (0 : ℝ) ≤ 3000) ht
    linarith
  · intro ht
    have hfull : service twoReleasesRun (1, 0) 3000 7000 = 7000 - 3000 :=
      service_full hm (by norm_num) fun u h0 h1 => twoReleasesRun_eq.2 (Or.inr ⟨rfl, h0.le, h1⟩)
    have hadd := service_add (hm (1, 0)) (by norm_num : (0 : ℝ) ≤ 3000) (by norm_num : (3000 : ℝ) ≤ 7000)
    have hpos : 0 ≤ service twoReleasesRun (1, 0) 0 3000 := service_nonneg
    have hmono := service_mono (hm (1, 0)) (by norm_num : (0 : ℝ) ≤ 7000) ht
    linarith

/-- What is pending at each time -/
theorem twoReleases_pending {t : ℝ} {x : ℕ × ℕ} (hx : x.1 = 0 ∨ x.1 = 1)
    (h : twoReleases.Pending twoReleasesRun x t) :
    (x = (0, 0) ∧ 0 ≤ t ∧ t < 3000) ∨ (x = (1, 0) ∧ 0 ≤ t ∧ t < 7000) := by
  obtain ⟨i, j⟩ := x
  obtain ⟨hhas, hrel, hleft⟩ := h
  have hj : j = 0 := by
    have hlt : (j : ℕ∞) < 1 := hhas
    exact_mod_cast Order.lt_one_iff.1 hlt
  subst hj
  rcases hx with rfl | rfl
  · refine Or.inl ⟨rfl, hrel, not_le.1 fun ht => ?_⟩
    have hcost : service twoReleasesRun (0, 0) 0 t < 3000 := hleft
    linarith [twoReleasesRun_done.1 ht]
  · refine Or.inr ⟨rfl, hrel, not_le.1 fun ht => ?_⟩
    have hcost : service twoReleasesRun (1, 0) 0 t < 4000 := hleft
    linarith [twoReleasesRun_done.2 ht]

theorem twoReleasesRun_schedule {prio : ℕ → ℤ} (hprio : prio 1 ≤ prio 0) :
    Schedule twoReleases {0, 1} prio twoReleasesRun where
  measurable := twoReleasesRun_measurable
  pending t x h := by
    rcases twoReleasesRun_eq.1 h with ⟨rfl, h0, h1⟩ | ⟨rfl, h0, h1⟩
    · have hle : service twoReleasesRun (0, 0) 0 t ≤ t - 0 := service_le h0
      exact ⟨by decide, zero_lt_one, h0, show _ < (3000 : ℝ) by linarith⟩
    · -- it has waited until 3000
      have hwait : service twoReleasesRun (1, 0) 0 3000 = 0 := by
        refine service_eq_zero fun u _ hu hrun => ?_
        rcases twoReleasesRun_eq.1 hrun with ⟨he, -⟩ | ⟨-, hu', -⟩
        · cases he
        · linarith
      have hadd := service_add (twoReleasesRun_measurable (1, 0)) (by norm_num : (0 : ℝ) ≤ 3000) h0
      have hle : service twoReleasesRun (1, 0) 3000 t ≤ t - 3000 := service_le h0
      exact ⟨by decide, zero_lt_one, show (0 : ℝ) ≤ t by linarith, show _ < (4000 : ℝ) by linarith⟩
  inOrder t x j h hj := by
    rcases twoReleasesRun_eq.1 h with ⟨rfl, -⟩ | ⟨rfl, -⟩
    · exact absurd hj (Nat.not_lt_zero j)
    · exact absurd hj (Nat.not_lt_zero j)
  busy t x hx hp := by
    have hsome : ∃ y, twoReleasesRun t = some y := by
      by_cases ht : t < 3000
      · refine ⟨(0, 0), twoReleasesRun_eq.2 (Or.inl ⟨rfl, hp.2.1, ht⟩)⟩
      · refine ⟨(1, 0), twoReleasesRun_eq.2 (Or.inr ⟨rfl, not_lt.1 ht, ?_⟩)⟩
        rcases twoReleases_pending (by simpa using hx) hp with ⟨-, -, h⟩ | ⟨-, -, h⟩
        · linarith
        · exact h
    obtain ⟨y, hy⟩ := hsome
    rw [hy]
    nofun
  urgent t x y h hy hp := by
    rcases twoReleases_pending (by simpa using hy) hp with ⟨rfl, -, hlt⟩ | ⟨rfl, -, -⟩
    · rcases twoReleasesRun_eq.1 h with ⟨rfl, -⟩ | ⟨-, hge, -⟩
      · exact le_rfl
      · linarith
    · rcases twoReleasesRun_eq.1 h with ⟨rfl, -⟩ | ⟨rfl, -⟩
      · exact hprio
      · exact le_rfl

theorem twoReleases_sporadic {P C : ℕ → ℕ} (h0 : C 0 = 3000) (h1 : C 1 = 4000) :
    twoReleases.Sporadic {0, 1} P C where
  release_nonneg _ _ := le_rfl
  apart i _ j hj := by
    have hlt : ((j + 1 : ℕ) : ℕ∞) < 1 := hj
    exact absurd (Order.lt_one_iff.1 hlt) (by exact_mod_cast Nat.succ_ne_zero j)
  cost_nonneg i _ j _ := by
    show (0 : ℝ) ≤ if i = 0 then 3000 else 4000
    split <;> norm_num
  cost_le i hi j _ := by
    show (if i = 0 then 3000 else 4000 : ℝ) ≤ C i
    rcases Finset.mem_insert.1 hi with rfl | hi
    · rw [if_pos rfl, h0]
      norm_num
    · rw [Finset.mem_singleton.1 hi, if_neg Nat.one_ne_zero, h1]
      norm_num

theorem admission_sound_two : twoReleases.DoneBy twoReleasesRun (1, 0) 20000 := by
  have hset : tasksOn twoSubmitted.toTaskSet 0 = {0, 1} := by decide +kernel
  have hcheck : checkSteps (AdmissionOp.step (Config.small false) .fpFf)
      (fun s op => decide (op.enabled s = true → op.Submits (Config.small false) s))
      (Admission.start 10 10 10) twoSubmissions = true := by decide +kernel
  have h := admission_sound (Config.small false) 10 10 10 twoSubmissions twoSubmitted
    (EachStep.of_check (fun s op h => of_decide_eq_true h) _ _ hcheck)
    (eq_ok_getD _ (by decide +kernel)) 0 Nat.zero_lt_one twoReleases twoReleasesRun
    (by
      rw [hset]
      exact twoReleases_sporadic (by decide +kernel) (by decide +kernel))
    (by
      rw [hset]
      exact twoReleasesRun_schedule (by decide +kernel))
    1 0 (by rw [hset]; decide) zero_lt_one
  have hdl : (Config.small false).jiffiesToUsecs (twoSubmitted.task 1).deadline = 20000 := by
    decide +kernel
  have hrel : twoReleases.release 1 0 = 0 := rfl
  rw [hdl, hrel, zero_add] at h
  exact_mod_cast h

end Resch.Checked
