import Resch.Proof.EdfFfFits
import Resch.Proof.FpFfFits
import Resch.Proof.Roster
import Resch.Proof.WorstFit

/-!
# EDF-FF admission along runs

Tasks attach, set their parameters and are submitted to EDF-FF, each at most once. They keep their
parameters from then on until they exit, and stay where EDF-FF has placed them. The plugin accepts some
tasks for which there is no room, and so each submission is asked to leave no more open than the
deadlines that the test has not looked at (`AdmissionOp.Provisions`).

* `EdfFfInv`: the demand of the tasks on each CPU fits in every interval.
* `run_edfFfInv`: a submission keeps it.
* `edf_ff_meets_deadlines`: in every state of such a run, every job of a task on a CPU meets its
  deadline, whenever the jobs are released and in whatever way a scheduler by deadlines breaks ties.
-/

namespace Resch.Checked

open Lib FpFf

variable {c : Config} {s s' : Admission} {rt k cpu fuel : ℕ} {mask : ℕ → Bool} {accepts : Bool}
  {policy prio : ℤ}

/-- What a submission leaves open is provided for: the CPU that is chosen has no utilisation above one,
and the demand fits there at the deadlines that the test has left out. -/
def Provisioned (c : Config) (s : TaskSet) (rt fuel : ℕ) (mask : ℕ → Bool) : Prop :=
  ∀ cpu < c.nrRtCpus, ∀ Lmax, EdfFf.cpuWorstFit c s rt fuel mask = .ok cpu →
    EdfFf.dbfLen c s rt cpu = .ok Lmax →
      EdfFf.InRange s rt cpu Lmax ∧ EdfFf.UntestedFit c s rt cpu Lmax

/-- The condition on a step: a task is submitted once, with room for it, and keeps its parameters, its
policy and its CPU. The hooks of the class may write its priority. -/
def AdmissionOp.Provisions (c : Config) (s : Admission) : AdmissionOp → Prop
  | init _ | exit _ _ | setCosts _ _ _ | writePrio _ _ => True
  | run rt fuel mask _ => rt ∉ s.list ∧
      ((s.task rt).wcet ≠ 0 →
        Provisioned c (s.core fun t => t.globalListInsert rt).toTaskSet rt fuel mask)
  | setPeriod rt _ | setDeadline rt _ | setWcet rt _ | setRuntime rt _ | renewWcet rt _ => rt ∉ s.list
  | setPriority rt _ _ => rt ∉ s.list ∨ s.policy rt = reschSchedEdf
  | setScheduler rt policy _ => rt ∉ s.list ∨ policy = reschSchedEdf
  | follow rt cpu => cpu = (s.task rt).cpuId

instance (s : TaskSet) : Decidable (Provisioned c s rt fuel mask) :=
  decidable_of_iff (∀ cpu < c.nrRtCpus, EdfFf.cpuWorstFit c s rt fuel mask = .ok cpu →
      ∀ Lmax ∈ (EdfFf.dbfLen c s rt cpu).toOption,
        EdfFf.InRange s rt cpu Lmax ∧ EdfFf.UntestedFit c s rt cpu Lmax) <| by
    refine forall₂_congr fun cpu _ => ?_
    constructor
    · intro h Lmax hfit hlen
      refine h hfit Lmax ?_
      rw [hlen]
      rfl
    · intro h hfit Lmax hlen
      refine h Lmax hfit ?_
      cases hx : EdfFf.dbfLen c s rt cpu with
      | error e =>
        rw [hx] at hlen
        cases hlen
      | ok L =>
        rw [hx] at hlen
        cases hlen
        rfl

instance (op : AdmissionOp) : Decidable (op.Provisions c s) :=
  match op with
  | .init _ | .exit _ _ | .setCosts _ _ _ | .writePrio _ _ => .isTrue trivial
  | .run _ _ _ _ => inferInstanceAs (Decidable (_ ∧ (_ → _)))
  | .setPeriod _ _ | .setDeadline _ _ | .setWcet _ _ | .setRuntime _ _ | .renewWcet _ _ =>
    inferInstanceAs (Decidable (_ ∉ s.list))
  | .setPriority _ _ _ | .setScheduler _ _ _ => inferInstanceAs (Decidable (_ ∨ _))
  | .follow _ _ => inferInstanceAs (Decidable (_ = _))

/-- The parameters of a task that the test of EDF-FF reads -/
def testView (t : RtTask) : ℕ × ℕ × ℕ := (t.period, t.deadline, t.wcet)

/-- The demand of the tasks fits in every interval. -/
def Schedulable (c : Config) (s : TaskSet) (T : Finset ℕ) : Prop :=
  (∀ k ∈ T, (s.task k).period ≠ 0) ∧ ∀ L, EdfFf.usecDemand c s T L ≤ L

/-- The tasks on each CPU are schedulable. -/
structure EdfFfInv (c : Config) (s : Admission) : Prop where
  roster : Roster c s
  fits : ∀ cpu < c.nrRtCpus, Schedulable c s.toTaskSet (tasksOn s.toTaskSet cpu)

theorem Schedulable.mono {s s' : TaskSet} {T T' : Finset ℕ} (h : Schedulable c s T) (hT : T' ⊆ T)
    (hv : ∀ k ∈ T', testView (s'.task k) = testView (s.task k)) : Schedulable c s' T' := by
  have hfields : ∀ k ∈ T', (s'.task k).period = (s.task k).period ∧
      (s'.task k).deadline = (s.task k).deadline ∧ (s'.task k).wcet = (s.task k).wcet := by
    intro k hk
    obtain ⟨hperiod, hrest⟩ := Prod.mk.inj (hv k hk)
    exact ⟨hperiod, Prod.mk.inj hrest⟩
  refine ⟨fun k hk => ?_, fun L => le_trans ?_ (h.2 L)⟩
  · rw [(hfields k hk).1]
    exact h.1 k (hT hk)
  · unfold EdfFf.usecDemand intervalDemand
    refine le_trans (Finset.sum_le_sum fun k hk => le_of_eq ?_) (Finset.sum_le_sum_of_subset hT)
    obtain ⟨hperiod, hdeadline, hwcet⟩ := hfields k hk
    dsimp only
    rw [hperiod, hdeadline, hwcet]

/-! ## Changes beside the tasks on the CPUs -/

/-- No task comes to a CPU, and those that stay are as before. -/
theorem EdfFfInv.of_alike (h : EdfFfInv c s) (hr : Roster c s')
    (ht : ∀ k ∈ s'.list, (s'.task k).cpuId < c.nrRtCpus → k ∈ s.list ∧
      (s'.task k).cpuId = (s.task k).cpuId ∧ testView (s'.task k) = testView (s.task k)) :
    EdfFfInv c s' := by
  refine ⟨hr, fun cpu hcpu => (h.fits cpu hcpu).mono (fun k hk => ?_) fun k hk => ?_⟩
  · obtain ⟨hklist, hkcpu⟩ := mem_tasksOn.1 hk
    obtain ⟨hin, hsame, -⟩ := ht k hklist (hkcpu ▸ hcpu)
    exact mem_tasksOn.2 ⟨hin, hsame.symm.trans hkcpu⟩
  · obtain ⟨hklist, hkcpu⟩ := mem_tasksOn.1 hk
    exact (ht k hklist (hkcpu ▸ hcpu)).2.2

theorem EdfFfInv.same (h : EdfFfInv c s) (hs : SameRoster s s') : EdfFfInv c s' := by
  refine h.of_alike (h.roster.same hs) fun k hk _ => ?_
  rw [hs.list] at hk
  rw [hs.task]
  exact ⟨hk, rfl, rfl⟩

theorem EdfFfInv.out (h : EdfFfInv c s) (ho : Out c rt s s') : EdfFfInv c s' := by
  refine h.of_alike (h.roster.out ho) fun k hk _ => ?_
  rw [ho.same hk]
  exact ⟨(ho.mem_iff.1 hk).1, rfl, rfl⟩

/-- A hook writes the priority of a task, which the test does not read. -/
theorem EdfFfInv.writePrio (h : EdfFfInv c s) :
    EdfFfInv c (s.setTask rt fun t => { t with prio := prio }) := by
  have htask : ∀ k, ((s.setTask rt fun t => { t with prio := prio }).task k).cpuId =
      (s.task k).cpuId ∧ testView ((s.setTask rt fun t => { t with prio := prio }).task k) =
        testView (s.task k) := by
    intro k
    by_cases hk : k = rt
    · rw [hk, setTask_self]
      exact ⟨rfl, rfl⟩
    · rw [show (s.setTask rt fun t => { t with prio := prio }).task k = s.task k from
        Function.update_of_ne hk ..]
      exact ⟨rfl, rfl⟩
  refine h.of_alike ⟨h.roster.nodup, h.roster.attached, fun k hka hk => ?_⟩ fun k hk _ =>
    ⟨hk, htask k⟩
  rw [(htask k).1]
  exact h.roster.unplaced k hka hk

/-! ## A task is submitted -/

/-- The task is inserted, and on no CPU yet. -/
theorem EdfFfInv.inserted (h : EdfFfInv c s) (ha : s.attached rt = true) (hrt : rt ∉ s.list) :
    EdfFfInv c (s.core fun t => t.globalListInsert rt) := by
  have htask : (s.core fun t => t.globalListInsert rt).task = s.task :=
    (FppmState.globalListInsert_same s.toFppmState rt).1
  refine h.of_alike (h.roster.insert ha) fun k hk hcpu => ?_
  rw [htask] at hcpu ⊢
  rcases FppmState.mem_globalListInsert.1 hk with rfl | hk
  · rw [h.roster.unplaced k ha hrt] at hcpu
    exact absurd hcpu (lt_irrefl c.nrRtCpus)
  · exact ⟨hk, rfl, rfl⟩

/-- The CPU that is chosen has passed the test. -/
theorem passes_of_cpuWorstFit {s : TaskSet} (h : EdfFf.cpuWorstFit c s rt fuel mask = .ok cpu)
    (hcpu : cpu ≠ c.cpuUndefined) :
    cpu < c.nrRtCpus ∧ EdfFf.dbfTest c s rt cpu fuel = .ok true := by
  have heq : EdfFf.cpuWorstFit c s rt fuel mask =
      worstFit c mask (EdfFf.dbfTest c s rt · fuel) (EdfFf.utilCpu c s) := worstFit_eq ..
  rw [heq] at h
  obtain ⟨r, hr, h⟩ := bind_eq_ok.1 h
  have hcpu' : r.1 = cpu := Except.ok.inj h
  rcases search_passes hr with rfl | ⟨hmem, htest⟩
  · exact absurd hcpu'.symm hcpu
  · rw [hcpu'] at hmem htest
    exact ⟨List.mem_range.1 hmem, (masked_eq_true.1 htest).2⟩

/-- The tasks on the CPU and the new one are schedulable, if the new one is provided for. -/
theorem EdfFfInv.schedulable_insert (h : EdfFfInv c s) (hcpu : (s.task rt).cpuId = c.cpuUndefined)
    (hperiod : (s.task rt).period ≠ 0)
    (hprov : (s.task rt).wcet ≠ 0 → Provisioned c s.toTaskSet rt fuel mask)
    (hfit : EdfFf.cpuWorstFit c s.toTaskSet rt fuel mask = .ok cpu) (hdef : cpu ≠ c.cpuUndefined) :
    Schedulable c s.toTaskSet (insert rt (tasksOn s.toTaskSet cpu)) := by
  obtain ⟨hlt, htest⟩ := passes_of_cpuWorstFit hfit hdef
  have hoff : s.taskIsOnCpu rt cpu = false := by
    unfold TaskSet.taskIsOnCpu
    rw [hcpu]
    exact decide_eq_false hdef.symm
  obtain ⟨hperiods, hdemand⟩ := h.fits cpu hlt
  refine ⟨fun k hk => ?_, ?_⟩
  · rcases Finset.mem_insert.1 hk with rfl | hk
    · exact hperiod
    · exact hperiods k hk
  · by_cases hwcet : (s.task rt).wcet = 0
    · -- a task without execution time asks for nothing
      have hnot : rt ∉ tasksOn s.toTaskSet cpu := by
        intro hmem
        exact hdef (((mem_tasksOn.1 hmem).2).symm.trans hcpu)
      intro L
      unfold EdfFf.usecDemand intervalDemand
      rw [Finset.sum_insert hnot]
      dsimp only
      rw [hwcet, Nat.mul_zero, Nat.zero_add]
      exact hdemand L
    · have hlen : ∃ Lmax, EdfFf.dbfLen c s.toTaskSet rt cpu = .ok Lmax := by
        unfold EdfFf.dbfTest at htest
        rw [if_neg hwcet] at htest
        obtain ⟨Lmax, hlen, -⟩ := bind_eq_ok.1 htest
        exact ⟨Lmax, hlen⟩
      obtain ⟨Lmax, hlen⟩ := hlen
      obtain ⟨hrange, huntested⟩ := hprov hwcet cpu hlt Lmax hfit hlen
      exact (EdfFf.usecDemand_le_iff h.roster.nodup hoff hwcet hlen hrange htest).2 huntested

/-- **A submission.** -/
theorem run_edfFfInv (h : EdfFfInv c s) (ha : s.attached rt = true)
    (hm : (AdmissionOp.run rt fuel mask accepts).Provisions c s)
    (hs : (AdmissionOp.run rt fuel mask accepts).exec c .edfFf s = .ok s') : EdfFfInv c s' := by
  obtain ⟨hrt, hprov⟩ := hm
  obtain ⟨t, hrun, hs⟩ := bind_eq_ok.1 hs
  have htask : (s.core fun t => t.globalListInsert rt).task = s.task :=
    (FppmState.globalListInsert_same s.toFppmState rt).1
  have hins := h.inserted ha hrt
  have hcases := taskRun_cases h.roster ha hrt (Or.inr rfl) rfl hrun (Except.ok.inj hs).symm
  rcases hcases with hout | ⟨-, rfl⟩ | ⟨cpu, hfit, hperiod, hdef, hroster, hlist, hset⟩
  · exact h.out hout
  · exact hins
  · have hfits := hins.schedulable_insert (by rw [htask]; exact h.roster.unplaced rt ha hrt)
      (by rw [htask]; exact hperiod) (by rw [htask]; exact hprov) hfit hdef
    have hother : ∀ k, k ≠ rt → s'.task k = (s.core fun t => t.globalListInsert rt).task k := by
      intro k hk
      rw [hset, Function.update_of_ne hk, htask]
    have hview : ∀ k, testView (s'.task k) =
        testView ((s.core fun t => t.globalListInsert rt).task k) := by
      intro k
      by_cases hkr : k = rt
      · rw [hkr, hset, Function.update_self, htask]
        rfl
      · rw [hother k hkr]
    refine ⟨hroster, fun cpu' hcpu' => ?_⟩
    by_cases hc : cpu' = cpu
    · -- on the CPU that was chosen there is one task more
      refine hfits.mono (fun k hk => ?_) fun k _ => hview k
      obtain ⟨hkin, hkcpu⟩ := mem_tasksOn.1 hk
      rw [hlist] at hkin
      by_cases hkr : k = rt
      · rw [hkr]
        exact Finset.mem_insert_self ..
      · rw [hother k hkr, hc] at hkcpu
        exact Finset.mem_insert_of_mem (mem_tasksOn.2 ⟨hkin, hkcpu⟩)
    · refine (hins.fits cpu' hcpu').mono (fun k hk => ?_) fun k _ => hview k
      obtain ⟨hkin, hkcpu⟩ := mem_tasksOn.1 hk
      rw [hlist] at hkin
      have hkr : k ≠ rt := by
        rintro rfl
        rw [hset, Function.update_self] at hkcpu
        exact hc hkcpu.symm
      rw [hother k hkr] at hkcpu
      exact mem_tasksOn.2 ⟨hkin, hkcpu⟩

/-! ## The steps and the runs -/

/-- **One step.** -/
theorem exec_edfFfInv (op : AdmissionOp) (h : EdfFfInv c s) (he : op.enabled s = true)
    (hm : op.Provisions c s) (hs : op.exec c .edfFf s = .ok s') : EdfFfInv c s' := by
  have hquiet : op.Quiet s → EdfFfInv c s' := fun hq => by
    rcases exec_quiet op h.roster he hq hs with ⟨rt, hout⟩ | hsame
    · exact h.out hout
    · exact h.same hsame
  cases op with
  | run rt fuel mask accepts => exact run_edfFfInv h he hm hs
  | init | exit | setScheduler | setCosts => exact hquiet trivial
  | setPeriod | setDeadline | setWcet | setRuntime | renewWcet | follow => exact hquiet hm
  | writePrio rt prio =>
    cases hs
    exact h.writePrio
  | setPriority rt prio accepts =>
    rcases hm with hrt | hedf
    · exact hquiet hrt
    · -- the call does nothing
      have hs' := Except.ok.inj hs
      rw [if_pos (Or.inl hedf)] at hs'
      exact hs' ▸ h

theorem start_edfFfInv (c : Config) (switchCost releaseCost migrationCost : ℕ) :
    EdfFfInv c (Admission.start switchCost releaseCost migrationCost) := by
  refine ⟨⟨List.nodup_nil, nofun, nofun⟩, fun cpu _ => ⟨fun k hk => ?_, fun L => Nat.zero_le L⟩⟩
  exact absurd (mem_tasksOn.1 hk).1 List.not_mem_nil

/-- **EDF-FF admission with room to spare is sound.** After any run of submissions that are provided for,
every job of a task on a CPU meets its deadline, if the jobs of each task are at least its period apart
and execute for at most `wcet`, and the processor is never idle, nor busy with a job of a later deadline,
while a job is pending. -/
theorem edf_ff_meets_deadlines (c : Config) (switchCost releaseCost migrationCost : ℕ)
    (ops : List AdmissionOp) (s : Admission)
    (h : EachStep (AdmissionOp.step c .edfFf) (fun s op => op.enabled s = true → op.Provisions c s)
      (Admission.start switchCost releaseCost migrationCost) ops)
    (hs : ops.foldlM (AdmissionOp.step c .edfFf)
      (Admission.start switchCost releaseCost migrationCost) = .ok s)
    (cpu : ℕ) (hcpu : cpu < c.nrRtCpus) :
    EdfFf.DeadlinesMet c s.toTaskSet (tasksOn s.toTaskSet cpu) := by
  have hinv := EachStep.inv (I := EdfFfInv c) (fun s op s' hi hm hs =>
    step_keeps hi (fun he => exec_edfFfInv op hi he (hm he)) hs) ops _ s
    (start_edfFfInv c switchCost releaseCost migrationCost) h hs
  obtain ⟨hperiods, hdemand⟩ := hinv.fits cpu hcpu
  exact (EdfFf.deadlinesMet_iff hperiods).2 hdemand

/-- Two tasks submit themselves to the only CPU; after the first one has exited, a third one does. -/
def edfSubmissions : List AdmissionOp :=
  [.init 0, .setPeriod 0 10, .setWcet 0 3000, .init 1, .setPeriod 1 20, .setDeadline 1 15,
    .setWcet 1 4000, .run 0 30 (fun _ => true) true, .run 1 30 (fun _ => true) true, .exit 0 true,
    .init 2, .setPeriod 2 5, .setWcet 2 2000, .run 2 30 (fun _ => true) true]

/-- The state after them -/
def edfSubmitted : Admission :=
  ((edfSubmissions.foldlM (AdmissionOp.step (Config.small false) .edfFf)
    (Admission.start 10 10 10)).toOption.getD (Admission.start 10 10 10))

theorem edf_ff_meets_deadlines_three :
    EdfFf.DeadlinesMet (Config.small false) edfSubmitted.toTaskSet {1, 2} := by
  have hset : tasksOn edfSubmitted.toTaskSet 0 = {1, 2} := by decide +kernel
  have hcheck : checkSteps (AdmissionOp.step (Config.small false) .edfFf)
      (fun s op => decide (op.enabled s = true → op.Provisions (Config.small false) s))
      (Admission.start 10 10 10) edfSubmissions = true := by decide +kernel
  rw [← hset]
  exact edf_ff_meets_deadlines (Config.small false) 10 10 10 edfSubmissions edfSubmitted
    (EachStep.of_check (fun s op h => of_decide_eq_true h) _ _ hcheck)
    (eq_ok_getD _ (by decide +kernel)) 0 Nat.zero_lt_one

end Resch.Checked
