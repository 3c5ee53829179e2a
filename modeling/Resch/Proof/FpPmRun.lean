import Resch.Lib.Runs
import Resch.Lib.Sorted
import Resch.Spec.FpPmRun

/-!
# One split task goes on from each CPU

An analysis makes a CPU unavailable for the tasks it has met there, which are those of at least
the priority of the analysed task, and it is made for the CPUs in the mask of the new task only.
`split` looks at all CPUs.

* `partition_unavailable`: when `partition` fails, the CPUs of the mask with a share that it
  could meet are unavailable.
* `split_available`: `split` places shares on available CPUs only.
* `fppm_placed`: so one split task goes on from each CPU, if the mask of every task that has to
  be split has all CPUs from which one goes on, and no such task has a lower priority
  (`FppmOp.Meets`).
-/

namespace Resch

open Lib

variable {c : Config} {rt cpu k x : ℕ} {mask : ℕ → Bool}

/-! ## What `partition` marks -/

namespace Fppm

variable {s : Fppm}

/-- Only the flags of CPUs change, and only to unavailable. -/
structure Marks (s s' : Fppm) : Prop where
  toTaskSet : s'.toTaskSet = s.toTaskSet
  fppmTask : s'.fppmTask = s.fppmTask
  down : ∀ k, s'.cpuAvailable k = true → s.cpuAvailable k = true

theorem Marks.refl (s : Fppm) : Marks s s := ⟨rfl, rfl, fun _ h => h⟩

theorem Marks.trans {s' s'' : Fppm} (h : Marks s s') (h' : Marks s' s'') : Marks s s'' :=
  ⟨h'.toTaskSet.trans h.toTaskSet, h'.fppmTask.trans h.fppmTask, fun k hk => h.down k (h'.down k hk)⟩

theorem markCpu_marks (s : Fppm) (rt cpu : ℕ) : Marks s (s.markCpu rt cpu) := by
  refine ⟨rfl, rfl, fun k hk => ?_⟩
  unfold markCpu at hk
  dsimp only at hk
  split at hk
  · rw [Function.update_apply] at hk
    split at hk
    · cases hk
    · exact hk
  · exact hk

theorem partitionTasks_cons (c : Config) (rt cpu lp : ℕ) (lps : List ℕ) (s : Fppm) :
    partitionTasks c rt cpu (lp :: lps) s =
      if s.fppmTaskIsOnCpu lp cpu then
        if c.usecs (s.task lp).deadline < addResponse (s.fppmResponseTimeAnalysis c lp cpu)
            (c.usecs (s.task lp).deadline) (c.usecs (s.task rt).period) ((s.task rt).C c)
        then (false, s.markCpu lp cpu)
        else partitionTasks c rt cpu lps (s.markCpu lp cpu)
      else partitionTasks c rt cpu lps s := by
  rw [partitionTasks]

theorem partitionTasks_marks (c : Config) (rt cpu : ℕ) :
    ∀ (lps : List ℕ) (s : Fppm), Marks s (partitionTasks c rt cpu lps s).2 := by
  intro lps
  induction lps with
  | nil => exact Marks.refl
  | cons lp lps ih =>
    intro s
    rw [partitionTasks_cons]
    by_cases hon : s.fppmTaskIsOnCpu lp cpu = true
    · rw [if_pos hon]
      by_cases hmiss : c.usecs (s.task lp).deadline < addResponse
          (s.fppmResponseTimeAnalysis c lp cpu) (c.usecs (s.task lp).deadline)
          (c.usecs (s.task rt).period) ((s.task rt).C c)
      · rw [if_pos hmiss]
        exact markCpu_marks s lp cpu
      · rw [if_neg hmiss]
        exact (markCpu_marks s lp cpu).trans (ih _)
    · rw [if_neg hon]
      exact ih s

theorem partitionLoop_marks (c : Config) (rt : ℕ) (mask : ℕ → Bool) :
    ∀ (cpus : List ℕ) (s : Fppm), Marks s (partitionLoop c rt mask cpus s).2 := by
  intro cpus
  induction cpus with
  | nil => exact Marks.refl
  | cons cpu cpus ih =>
    intro s
    unfold partitionLoop
    split
    swap
    · exact ih s
    dsimp only
    have hmark := markCpu_marks s rt cpu
    split
    · exact hmark.trans (ih _)
    · have htasks := partitionTasks_marks c rt cpu
        ((s.markCpu rt cpu).list.dropWhile fun lp =>
          decide (((s.markCpu rt cpu).task rt).prio < ((s.markCpu rt cpu).task lp).prio))
        (s.markCpu rt cpu)
      split
      · rename_i h
        rw [h] at htasks
        exact hmark.trans htasks
      · rename_i h
        rw [h] at htasks
        exact (hmark.trans htasks).trans (ih _)

/-- A task that the analysis of `rt` meets on a CPU, from which it goes on. -/
def Meets (s : Fppm) (rt cpu : ℕ) : Prop :=
  ∃ hp ∈ s.list.takeWhile fun hp => decide ((s.task rt).prio ≤ (s.task hp).prio),
    s.splitGoesOn cpu hp = true

theorem Marks.meets {s' : Fppm} (h : Marks s s') : s'.Meets rt cpu ↔ s.Meets rt cpu := by
  unfold Meets splitGoesOn splitIsOnCpu
  rw [h.toTaskSet, h.fppmTask]

theorem markCpu_unavailable (h : s.Meets rt cpu) : (s.markCpu rt cpu).cpuAvailable cpu = false := by
  unfold markCpu
  dsimp only
  rw [if_pos (List.any_eq_true.2 h), Function.update_self]

/-- **A failed partition.** The CPUs of the mask on which it has met a share that is not the last
one are unavailable. -/
theorem partition_unavailable (hk : mask k = true) :
    ∀ (cpus : List ℕ) (s : Fppm), k ∈ cpus → (∀ x ∈ cpus, x ≠ c.cpuUndefined) →
      (partitionLoop c rt mask cpus s).1 = c.cpuUndefined → s.Meets rt k →
      (partitionLoop c rt mask cpus s).2.cpuAvailable k = false := by
  have hdown : ∀ {s s' : Fppm}, Marks s s' → s.cpuAvailable k = false → s'.cpuAvailable k = false := by
    intro s s' h hs
    by_contra hne
    have := h.down k (by simpa using hne)
    rw [hs] at this
    cases this
  intro cpus
  induction cpus with
  | nil => exact fun s hmem => absurd hmem List.not_mem_nil
  | cons cpu cpus ih =>
    intro s hmem hdef hfail hmeets
    have hdef' : ∀ x ∈ cpus, x ≠ c.cpuUndefined := fun x hx => hdef x (List.mem_cons_of_mem _ hx)
    unfold partitionLoop at hfail ⊢
    by_cases hcpu : mask cpu = true
    swap
    · rw [if_neg hcpu] at hfail ⊢
      have hne : k ≠ cpu := fun e => hcpu (e ▸ hk)
      exact ih s ((List.mem_cons.1 hmem).resolve_left hne) hdef' hfail hmeets
    rw [if_pos hcpu] at hfail ⊢
    dsimp only at hfail ⊢
    have hmark := markCpu_marks s rt cpu
    -- the rest of the loop, from a state in which the analysis of `rt` has been made
    have hrest : ∀ s' : Fppm, Marks (s.markCpu rt cpu) s' →
        (partitionLoop c rt mask cpus s').1 = c.cpuUndefined →
        (partitionLoop c rt mask cpus s').2.cpuAvailable k = false := by
      intro s' hs' hfail'
      rcases List.mem_cons.1 hmem with rfl | hmem
      · exact hdown (hs'.trans (partitionLoop_marks c rt mask cpus s')) (markCpu_unavailable hmeets)
      · exact ih s' hmem hdef' hfail' ((hmark.trans hs').meets.2 hmeets)
    split at hfail
    · rename_i hmiss
      rw [if_pos hmiss]
      exact hrest _ (Marks.refl _) hfail
    · rename_i hmiss
      rw [if_neg hmiss]
      have htasks := partitionTasks_marks c rt cpu
        ((s.markCpu rt cpu).list.dropWhile fun lp =>
          decide (((s.markCpu rt cpu).task rt).prio < ((s.markCpu rt cpu).task lp).prio))
        (s.markCpu rt cpu)
      split at hfail
      · exact absurd hfail (hdef cpu List.mem_cons_self)
      · rename_i h
        rw [h] at htasks
        exact hrest _ htasks hfail

/-! ## Where `split` places shares -/

/-- Shares are placed on available CPUs. -/
theorem split_available : ∀ (cpus : List ℕ) (ft : FppmTask) (sum : ℕ),
    0 < (s.splitLoop c rt cpus ft sum).runtime k →
      0 < ft.runtime k ∨ k ∈ cpus ∧ s.cpuAvailable k = true := by
  intro cpus
  induction cpus with
  | nil => exact fun ft sum h => Or.inl h
  | cons cpu cpus ih =>
    intro ft sum h
    rw [splitLoop] at h
    by_cases hav : s.cpuAvailable cpu = true
    swap
    · rw [if_neg hav] at h
      exact (ih ft sum h).imp id fun ⟨hm, ha⟩ => ⟨List.mem_cons_of_mem _ hm, ha⟩
    rw [if_pos hav] at h
    dsimp only at h
    by_cases hk : k = cpu
    · exact Or.inr ⟨hk ▸ List.mem_cons_self, hk ▸ hav⟩
    have hsame : (ft.addShare c cpu (s.splitRuntime c rt cpu)).runtime k = ft.runtime k :=
      Function.update_of_ne hk ..
    split at h
    · have h : 0 < Function.update (ft.addShare c cpu (s.splitRuntime c rt cpu)).runtime cpu _ k := h
      rw [Function.update_of_ne hk, hsame] at h
      exact Or.inl h
    · rcases ih _ _ h with h | ⟨hm, ha⟩
      · rw [hsame] at h
        exact Or.inl h
      · exact Or.inr ⟨List.mem_cons_of_mem _ hm, ha⟩

/-- A task with a share on a CPU other than its last has a first CPU. -/
theorem split_first : ∀ (cpus : List ℕ) (ft : FppmTask) (sum : ℕ),
    (∀ x ∈ cpus, x ≠ c.cpuUndefined) → (0 < ft.runtime k → ft.firstCpu ≠ c.cpuUndefined) →
      (s.splitLoop c rt cpus ft sum).lastCpu ≠ k →
        0 < (s.splitLoop c rt cpus ft sum).runtime k →
          (s.splitLoop c rt cpus ft sum).firstCpu ≠ c.cpuUndefined := by
  intro cpus
  induction cpus with
  | nil => exact fun ft sum _ hft _ h => hft h
  | cons cpu cpus ih =>
    intro ft sum hdef hft hlast h
    have hdef' : ∀ x ∈ cpus, x ≠ c.cpuUndefined := fun x hx => hdef x (List.mem_cons_of_mem _ hx)
    rw [splitLoop] at hlast h ⊢
    by_cases hav : s.cpuAvailable cpu = true
    swap
    · rw [if_neg hav] at hlast h ⊢
      exact ih ft sum hdef' hft hlast h
    rw [if_pos hav] at hlast h ⊢
    dsimp only at hlast h ⊢
    -- the first CPU is set with the first share
    have hft' : 0 < (ft.addShare c cpu (s.splitRuntime c rt cpu)).runtime k →
        (ft.addShare c cpu (s.splitRuntime c rt cpu)).firstCpu ≠ c.cpuUndefined := by
      intro hpos
      have hpos : 0 < Function.update ft.runtime cpu (s.splitRuntime c rt cpu) k := hpos
      unfold FppmTask.addShare
      dsimp only
      split
      · exact hdef cpu List.mem_cons_self
      · rename_i hno
        by_cases hk : k = cpu
        · rw [hk, Function.update_self] at hpos
          exact fun e => hno ⟨e, hpos⟩
        · rw [Function.update_of_ne hk] at hpos
          exact hft hpos
    by_cases hC : (s.task rt).C c ≤ ulong ((sum : ℤ) + s.splitRuntime c rt cpu)
    · rw [if_pos hC] at hlast h ⊢
      have h : 0 < Function.update (ft.addShare c cpu (s.splitRuntime c rt cpu)).runtime cpu _ k := h
      rw [Function.update_of_ne fun e => hlast e.symm] at h
      exact hft' h
    · rw [if_neg hC] at hlast h ⊢
      exact ih _ _ hdef' hft' hlast h

theorem mem_range_defined : ∀ x ∈ List.range c.nrRtCpus, x ≠ c.cpuUndefined := by
  intro x hx
  exact (List.mem_range.1 hx).ne

/-- **Where a task goes on.** It has been split, and the CPU is not one of the mask where the
analysis of the task meets another share that is not the last one. -/
theorem place_goesOn (rt : ℕ) (mask : ℕ → Bool) (k : ℕ) (hk : 0 < (s.place c rt mask).2.runtime k)
    (hl : (s.place c rt mask).2.lastCpu ≠ k) :
    (s.place c rt mask).1 ≠ c.cpuUndefined ∧
      ((s.reset c rt).partition c rt mask).1 = c.cpuUndefined ∧
      (mask k = true → ¬ (s.reset c rt).Meets rt k) := by
  have hmarks : Marks (s.reset c rt) ((s.reset c rt).partition c rt mask).2 :=
    partitionLoop_marks c rt mask _ _
  have hclear : ((s.reset c rt).partition c rt mask).2.fppmTask rt = FppmTask.clear c := by
    rw [hmarks.fppmTask]
    exact Function.update_self ..
  unfold place at hk hl ⊢
  dsimp only at hk hl ⊢
  by_cases hwhole : ((s.reset c rt).partition c rt mask).1 = c.cpuUndefined
  swap
  · rw [if_pos hwhole, hclear] at hk
    exact absurd hk (lt_irrefl 0)
  rw [if_neg (not_not.2 hwhole)] at hk hl ⊢
  unfold split at hk hl ⊢
  dsimp only at hk hl ⊢
  by_cases hlast : (((s.reset c rt).partition c rt mask).2.splitLoop c rt (List.range c.nrRtCpus)
      (FppmTask.clear c) 0).lastCpu = c.cpuUndefined
  · rw [if_neg (not_not.2 hlast)] at hk
    exact absurd hk (lt_irrefl 0)
  rw [if_pos hlast] at hk hl ⊢
  refine ⟨split_first _ _ _ mem_range_defined (fun h => absurd h (lt_irrefl 0)) hl hk, hwhole,
    fun hmask hmeets => ?_⟩
  rcases split_available _ _ _ hk with h | ⟨hmem, hav⟩
  · exact absurd h (lt_irrefl 0)
  · have := partition_unavailable hmask _ _ hmem mem_range_defined hwhole hmeets
    unfold partition at hav
    rw [this] at hav
    cases hav

end Fppm

/-! ## The global list -/

namespace FppmState

variable {s : FppmState}

/-- The global list is in order of priority. -/
def Sorted (s : FppmState) : Prop := s.list.Pairwise fun a b => (s.task b).prio ≤ (s.task a).prio

theorem mem_globalListInsert : x ∈ (s.globalListInsert rt).list ↔ x = rt ∨ x ∈ s.list := by
  unfold globalListInsert
  split
  · rename_i h
    exact ⟨Or.inr, fun hx => hx.elim (fun e => e ▸ h) id⟩
  · exact mem_insertBefore

theorem mem_globalListRemove : x ∈ (s.globalListRemove rt).list ↔ x ∈ s.list ∧ x ≠ rt := by
  unfold globalListRemove
  dsimp only
  rw [List.mem_filter, decide_eq_true_iff]

theorem globalListInsert_same (s : FppmState) (rt : ℕ) :
    (s.globalListInsert rt).task = s.task ∧ (s.globalListInsert rt).fppmTask = s.fppmTask ∧
      (s.globalListInsert rt).policy = s.policy := by
  unfold globalListInsert
  split <;> exact ⟨rfl, rfl, rfl⟩

theorem Sorted.insert (h : s.Sorted) (rt : ℕ) : (s.globalListInsert rt).Sorted := by
  unfold globalListInsert
  split
  · exact h
  · refine insertBefore_sorted (fun a b c hab hbc => hbc.trans hab) (fun y _ hy => ?_)
      (fun y _ hy => ?_) h
    · exact (of_decide_eq_true hy).le
    · exact not_lt.1 (of_decide_eq_false hy)

theorem Sorted.remove (h : s.Sorted) (rt : ℕ) : (s.globalListRemove rt).Sorted := h.filter _

/-- A task that is not in the list may change. -/
theorem Sorted.setTask (h : s.Sorted) (hrt : rt ∉ s.list) (t : RtTask) : (s.setTask rt t).Sorted := by
  have hne : ∀ x ∈ s.list, x ≠ rt := by
    rintro x hx rfl
    exact hrt hx
  refine List.Pairwise.imp_of_mem (fun {a b} ha hb hab => ?_) h
  show (Function.update s.task rt t b).prio ≤ (Function.update s.task rt t a).prio
  rw [Function.update_of_ne (hne b hb), Function.update_of_ne (hne a ha)]
  exact hab

/-- A task may change other fields than the priority. -/
theorem Sorted.setTask_prio (h : s.Sorted) {t : RtTask} (ht : t.prio = (s.task rt).prio) :
    (s.setTask rt t).Sorted := by
  have hprio : ∀ x, (Function.update s.task rt t x).prio = (s.task x).prio := by
    intro x
    rw [Function.update_apply]
    split
    · rename_i e
      rw [e, ht]
    · rfl
  refine List.Pairwise.imp (fun {a b} hab => ?_) h
  show (Function.update s.task rt t b).prio ≤ (Function.update s.task rt t a).prio
  rw [hprio, hprio]
  exact hab

/-- What `set_scheduler` does. -/
theorem setScheduler_spec (s : FppmState) (rt : ℕ) (policy prio : ℤ) :
    (s.setScheduler rt policy prio).fppmTask = s.fppmTask ∧
      (s.setScheduler rt policy prio).policy = Function.update s.policy rt policy ∧
      (∀ x, x ∈ (s.setScheduler rt policy prio).list ↔ x ∈ s.list) ∧
      (s.Sorted → (s.setScheduler rt policy prio).Sorted) := by
  unfold setScheduler
  dsimp only
  by_cases hprio : prio = (s.task rt).prio
  · rw [if_pos hprio]
    exact ⟨rfl, rfl, fun _ => Iff.rfl, id⟩
  rw [if_neg hprio]
  by_cases hrt : rt ∈ s.list
  · rw [if_pos hrt]
    obtain ⟨-, hft, hpol⟩ := globalListInsert_same ((setTask { s with
      policy := Function.update s.policy rt policy } rt { s.task rt with prio := prio }).globalListRemove
        rt) rt
    refine ⟨hft, hpol, fun x => ?_, fun hs => ?_⟩
    · rw [mem_globalListInsert, mem_globalListRemove]
      constructor
      · rintro (rfl | ⟨hx, -⟩)
        · exact hrt
        · exact hx
      · intro hx
        by_cases hxr : x = rt
        · exact Or.inl hxr
        · exact Or.inr ⟨hx, hxr⟩
    · -- the task is in no list while its priority changes
      have hout : (s.globalListRemove rt).Sorted := hs.remove rt
      have hset : ((setTask { s with policy := Function.update s.policy rt policy } rt
          { s.task rt with prio := prio }).globalListRemove rt).Sorted :=
        hout.setTask (fun hmem => (mem_globalListRemove.1 hmem).2 rfl) { s.task rt with prio := prio }
      exact hset.insert rt
  · rw [if_neg hrt]
    exact ⟨rfl, rfl, fun _ => Iff.rfl, fun hs => Sorted.setTask hs hrt _⟩

/-- What `task_run` does to a periodic task. -/
theorem taskRun_spec (c : Config) (mask : ℕ → Bool) (hp : (s.task rt).period ≠ 0) :
    (s.taskRun c rt mask).fppmTask = Function.update s.fppmTask rt (s.place c rt mask).2 ∧
      (s.taskRun c rt mask).policy rt =
        (if (s.place c rt mask).1 ≠ c.cpuUndefined then reschSchedFp else reschSchedFair) ∧
      (∀ x, x ≠ rt → (s.taskRun c rt mask).policy x = s.policy x) ∧
      (∀ x, x ∈ (s.taskRun c rt mask).list ↔ x ∈ s.list) ∧
      (s.Sorted → (s.taskRun c rt mask).Sorted) := by
  unfold taskRun
  rw [if_neg hp]
  generalize s.place c rt mask = r
  obtain ⟨cpuDst, ft⟩ := r
  dsimp only
  -- the task with its CPU and shares
  obtain ⟨t, ht, htft, htpol, htlist, hts⟩ : ∃ t : FppmState,
      (FppmState.setTask { s with fppmTask := Function.update s.fppmTask rt ft } rt
        { s.task rt with cpuId := cpuDst }) = t ∧
      t.fppmTask = Function.update s.fppmTask rt ft ∧ t.policy = s.policy ∧ t.list = s.list ∧
      (s.Sorted → t.Sorted) :=
    ⟨_, rfl, rfl, rfl, rfl, fun hs => Sorted.setTask_prio hs rfl⟩
  rw [ht]
  have hother : ∀ (pol : ℤ) x, x ≠ rt → Function.update t.policy rt pol x = s.policy x := by
    intro pol x hx
    rw [Function.update_of_ne hx, htpol]
  by_cases hdst : cpuDst = c.cpuUndefined
  · rw [if_neg (not_not.2 hdst), if_neg (not_not.2 hdst)]
    obtain ⟨hft, hpol, hlist, hsort⟩ := setScheduler_spec t rt reschSchedFair 0
    refine ⟨hft.trans htft, ?_, fun x hx => ?_, fun x => ?_, fun hs => hsort (hts hs)⟩
    · rw [hpol, Function.update_self]
    · rw [hpol]
      exact hother _ x hx
    · rw [hlist, htlist]
  rw [if_pos hdst, if_pos hdst]
  -- every branch leaves the FP policy
  have hbranch : ∀ u : FppmState, u.fppmTask = t.fppmTask → u.policy rt = reschSchedFp →
      (∀ x, x ≠ rt → u.policy x = t.policy x) → (∀ x, x ∈ u.list ↔ x ∈ t.list) →
      (t.Sorted → u.Sorted) →
      (u.setTask rt { u.task rt with migratory := false }).fppmTask =
          Function.update s.fppmTask rt ft ∧
        (u.setTask rt { u.task rt with migratory := false }).policy rt = reschSchedFp ∧
        (∀ x, x ≠ rt →
          (u.setTask rt { u.task rt with migratory := false }).policy x = s.policy x) ∧
        (∀ x, x ∈ (u.setTask rt { u.task rt with migratory := false }).list ↔ x ∈ s.list) ∧
        (s.Sorted → (u.setTask rt { u.task rt with migratory := false }).Sorted) := by
    intro u hft hpol hpolx hlist hsort
    refine ⟨hft.trans htft, hpol, fun x hx => (hpolx x hx).trans (congrFun htpol x), fun x => ?_,
      fun hs => Sorted.setTask_prio (hsort (hts hs)) rfl⟩
    exact (hlist x).trans (by rw [htlist])
  by_cases hsplit : ft.firstCpu = ft.lastCpu
  · rw [if_neg (not_not.2 hsplit)]
    by_cases hfp : t.policy rt = reschSchedFp
    · rw [if_neg (not_not.2 hfp)]
      exact hbranch t rfl hfp (fun _ _ => rfl) (fun _ => Iff.rfl) id
    · rw [if_pos hfp]
      obtain ⟨hft, hpol, hlist, hsort⟩ := setScheduler_spec t rt reschSchedFp (t.task rt).prio
      refine hbranch _ hft ?_ (fun x hx => ?_) hlist hsort
      · rw [hpol, Function.update_self]
      · rw [hpol, Function.update_of_ne hx]
  · rw [if_pos hsplit]
    obtain ⟨hft, hpol, hlist, hsort⟩ := setScheduler_spec t rt reschSchedFp fppmPrioMigratory
    refine hbranch _ hft ?_ (fun x hx => ?_) hlist hsort
    · rw [hpol, Function.update_self]
    · rw [hpol, Function.update_of_ne hx]

/-! ## Runs -/

/-- A share of the split task `h` is on the CPU, which is not the last one of `h`. -/
def Hosts (s : FppmState) (cpu h : ℕ) : Prop :=
  (s.fppmTask h).firstCpu ≠ (s.fppmTask h).lastCpu ∧ s.splitGoesOn cpu h = true

instance (s : FppmState) (cpu h : ℕ) : Decidable (s.Hosts cpu h) := inferInstanceAs (Decidable (_ ∧ _))

/-- `partition` finds no CPU for the periodic task, which is in the global list by then. -/
def MustSplit (c : Config) (s : FppmState) (rt : ℕ) (mask : ℕ → Bool) : Prop :=
  (s.task rt).period ≠ 0 ∧
    (((s.globalListInsert rt).reset c rt).partition c rt mask).1 = c.cpuUndefined

end FppmState

/-- Each CPU hosts at most one split task that it is not the last CPU of. -/
def FppmPlaced (s : FppmState) : Prop := ∀ cpu h h', s.Hosts cpu h → s.Hosts cpu h' → h = h'

/-- A task that has to be split may run on all CPUs that host another split task but are not its
last one, and it does not have a higher priority than these tasks. -/
def FppmOp.Meets (c : Config) (s : FppmState) : FppmOp → Prop
  | taskRun rt mask => s.MustSplit c rt mask → ∀ cpu h, h ≠ rt → s.Hosts cpu h →
      mask cpu = true ∧ (s.task rt).prio ≤ (s.task h).prio
  | attach _ _ _ | taskExit _ => True

/-- The analyses reach the tasks with shares: they are in the list, which is in order. -/
structure FppmInv (s : FppmState) : Prop where
  sorted : s.Sorted
  listed : ∀ cpu h, s.splitGoesOn cpu h = true → h ∈ s.list ∧ s.policy h = reschSchedFp
  placed : FppmPlaced s

variable {s s' : FppmState}

theorem goesOn_congr {cpu h : ℕ} (he : s'.fppmTask h = s.fppmTask h) :
    s'.splitGoesOn cpu h = s.splitGoesOn cpu h := by
  unfold Fppm.splitGoesOn Fppm.splitIsOnCpu
  rw [he]

theorem hosts_congr {cpu h : ℕ} (he : s'.fppmTask h = s.fppmTask h) :
    s'.Hosts cpu h ↔ s.Hosts cpu h := by
  unfold FppmState.Hosts
  rw [goesOn_congr he, he]

/-- A task without shares goes on from no CPU. -/
theorem clear_not_goesOn {cpu h : ℕ} (he : s.fppmTask h = FppmTask.clear c) :
    s.splitGoesOn cpu h = false := by
  unfold Fppm.splitGoesOn Fppm.splitIsOnCpu
  rw [he]
  rfl

/-- A step that leaves the shares of all tasks, or takes those of `rt` away. -/
theorem FppmInv.fewer (h : FppmInv s) (c : Config) (rt : ℕ) (hs : s'.Sorted)
    (hft : ∀ x, x ≠ rt → s'.fppmTask x = s.fppmTask x)
    (hrt : s'.fppmTask rt = s.fppmTask rt ∨ s'.fppmTask rt = FppmTask.clear c)
    (hl : ∀ cpu x, s'.splitGoesOn cpu x = true → s.splitGoesOn cpu x = true →
      x ∈ s'.list ∧ s'.policy x = reschSchedFp) : FppmInv s' := by
  have hgo : ∀ cpu x, s'.splitGoesOn cpu x = true →
      s'.fppmTask x = s.fppmTask x := by
    intro cpu x hx
    by_cases hxr : x = rt
    · rw [hxr] at hx ⊢
      refine hrt.resolve_right fun hc => ?_
      rw [clear_not_goesOn hc] at hx
      cases hx
    · exact hft x hxr
  refine ⟨hs, fun cpu x hx => ?_, fun cpu x y hx hy => ?_⟩
  · refine hl cpu x hx ?_
    rwa [goesOn_congr (hgo cpu x hx)] at hx
  · refine h.placed cpu x y ?_ ?_
    · exact (hosts_congr (hgo cpu x hx.2)).1 hx
    · exact (hosts_congr (hgo cpu y hy.2)).1 hy

theorem FppmInv.attach (c : Config) (h : FppmInv s) (hrt : rt ∉ s.list) (t : RtTask) (policy : ℤ) :
    FppmInv { s.setTask rt t with policy := Function.update s.policy rt policy } := by
  refine h.fewer c rt (h.sorted.setTask hrt t) (fun _ _ => rfl) (Or.inl rfl)
    fun cpu x _ hx => ?_
  obtain ⟨hmem, hpol⟩ := h.listed cpu x hx
  have hxr : x ≠ rt := by
    rintro rfl
    exact hrt hmem
  refine ⟨hmem, ?_⟩
  show Function.update s.policy rt policy x = reschSchedFp
  rw [Function.update_of_ne hxr]
  exact hpol

theorem FppmInv.apiExit (h : FppmInv s) (c : Config) (rt : ℕ) : FppmInv (s.apiExit c rt) := by
  -- the state before the policy is put back
  obtain ⟨t, ht, hft, hpol, hlist, hsort⟩ : ∃ t : FppmState,
      s.apiExit c rt =
        (if t.policy rt ≠ reschSchedFair then t.setScheduler rt reschSchedFair 0 else t) ∧
      t.fppmTask = Function.update s.fppmTask rt (FppmTask.clear c) ∧ t.policy = s.policy ∧
      (∀ x, x ∈ t.list ↔ x ∈ s.list ∧ x ≠ rt) ∧ t.Sorted :=
    ⟨{ s.globalListRemove rt with
        fppmTask := Function.update s.fppmTask rt (FppmTask.clear c) },
      rfl, rfl, rfl, fun _ => FppmState.mem_globalListRemove, h.sorted.remove rt⟩
  have hall : ∀ u : FppmState, u.fppmTask = t.fppmTask → (∀ x, x ≠ rt → u.policy x = t.policy x) →
      (∀ x, x ∈ u.list ↔ x ∈ t.list) → (t.Sorted → u.Sorted) → FppmInv u := by
    intro u hu hup hul hus
    have hut := hu.trans hft
    have hclear : u.fppmTask rt = FppmTask.clear c := by rw [hut, Function.update_self]
    refine h.fewer c rt (hus hsort) (fun x hx => ?_) (Or.inr hclear) fun cpu x hx hxs => ?_
    · rw [hut, Function.update_of_ne hx]
    · have hxr : x ≠ rt := by
        rintro rfl
        rw [clear_not_goesOn hclear] at hx
        cases hx
      obtain ⟨hmem, hp⟩ := h.listed cpu x hxs
      refine ⟨(hul x).2 ((hlist x).2 ⟨hmem, hxr⟩), ?_⟩
      rw [hup x hxr, hpol]
      exact hp
  rw [ht]
  split
  · obtain ⟨hu, hup, hul, hus⟩ := FppmState.setScheduler_spec t rt reschSchedFair 0
    refine hall _ hu (fun x hx => ?_) hul hus
    rw [hup, Function.update_of_ne hx]
  · exact hall t rfl (fun _ _ => rfl) (fun _ => Iff.rfl) id

/-- **A submission.** -/
theorem FppmInv.apiRun (h : FppmInv s) (hm : (FppmOp.taskRun rt mask).Meets c s) :
    FppmInv (s.apiRun c rt mask) := by
  obtain ⟨htask, hft, hpol⟩ := FppmState.globalListInsert_same s rt
  have hsort := h.sorted.insert rt
  have hmem : ∀ x, x ∈ s.list → x ∈ (s.globalListInsert rt).list :=
    fun x hx => FppmState.mem_globalListInsert.2 (Or.inr hx)
  unfold FppmState.apiRun
  dsimp only
  by_cases hp : (s.task rt).period = 0
  · -- an aperiodic task keeps its shares, and its place in the list unless it has the fair policy
    have hskip : (s.globalListInsert rt).taskRun c rt mask = s.globalListInsert rt := by
      unfold FppmState.taskRun
      rw [if_pos (by rw [htask]; exact hp)]
    rw [hskip]
    split
    · rename_i hfair
      refine h.fewer c rt (hsort.remove rt) (fun x _ => congrFun hft x)
        (Or.inl (congrFun hft rt)) fun cpu x _ hx => ?_
      obtain ⟨hxm, hxp⟩ := h.listed cpu x hx
      have hxr : x ≠ rt := by
        rintro rfl
        rw [hpol, hxp] at hfair
        cases hfair
      refine ⟨FppmState.mem_globalListRemove.2 ⟨hmem x hxm, hxr⟩, ?_⟩
      exact (congrFun hpol x).trans hxp
    · refine h.fewer c rt hsort (fun x _ => congrFun hft x)
        (Or.inl (congrFun hft rt)) fun cpu x _ hx => ?_
      obtain ⟨hxm, hxp⟩ := h.listed cpu x hx
      exact ⟨hmem x hxm, (congrFun hpol x).trans hxp⟩
  have hp' : ((s.globalListInsert rt).task rt).period ≠ 0 := by
    rw [htask]
    exact hp
  obtain ⟨hft', hpolrt, hpolx, hlist, hs'⟩ := FppmState.taskRun_spec c mask hp'
  have hplace := Fppm.place_goesOn (c := c) (s := (s.globalListInsert rt).toFppm) rt mask
  generalize hu : (s.globalListInsert rt).taskRun c rt mask = u at hft' hpolrt hpolx hlist hs' ⊢
  -- where `rt` goes on, it has been split
  have hrtgo : ∀ cpu, u.splitGoesOn cpu rt = true → u.policy rt = reschSchedFp ∧
      s.MustSplit c rt mask ∧
      (mask cpu = true → ¬ ((s.globalListInsert rt).reset c rt).Meets rt cpu) := by
    intro cpu hgo
    have hpos : 0 < (u.fppmTask rt).runtime cpu ∧ (u.fppmTask rt).lastCpu ≠ cpu := by
      unfold Fppm.splitGoesOn Fppm.splitIsOnCpu at hgo
      rw [Bool.and_eq_true, decide_eq_true_iff, decide_eq_true_iff] at hgo
      exact hgo
    rw [hft', Function.update_self] at hpos
    obtain ⟨hdst, hwhole, hno⟩ := hplace cpu hpos.1 hpos.2
    rw [if_pos hdst] at hpolrt
    exact ⟨hpolrt, ⟨hp, hwhole⟩, hno⟩
  have hother : ∀ x, x ≠ rt → u.fppmTask x = s.fppmTask x := by
    intro x hx
    rw [hft', Function.update_of_ne hx, hft]
  -- a task that the CPU hosts already is not met by `rt`
  have hexcl : ∀ cpu x, x ≠ rt → u.Hosts cpu rt → u.Hosts cpu x → False := by
    intro cpu x hx hrt hxh
    have hxs : s.Hosts cpu x := (hosts_congr (hother x hx)).1 hxh
    obtain ⟨-, hsplit, hno⟩ := hrtgo cpu hrt.2
    obtain ⟨hmask, hprio⟩ := hm hsplit cpu x hx hxs
    refine hno hmask ⟨x, ?_, ?_⟩
    · have hxm := hmem x (h.listed cpu x hxs.2).1
      refine mem_takeWhile_sorted hsort hxm ?_
      show ((s.globalListInsert rt).task rt).prio ≤ ((s.globalListInsert rt).task x).prio
      rw [htask]
      exact hprio
    · have hsame : ((s.globalListInsert rt).reset c rt).fppmTask x = s.fppmTask x := by
        show Function.update (s.globalListInsert rt).fppmTask rt (FppmTask.clear c) x = _
        rw [Function.update_of_ne hx, hft]
      have hgo := hxs.2
      unfold Fppm.splitGoesOn Fppm.splitIsOnCpu at hgo ⊢
      rw [hsame]
      exact hgo
  have hplaced : FppmPlaced u := by
    intro cpu x y hx hy
    by_cases hxr : x = rt
    · by_cases hyr : y = rt
      · rw [hxr, hyr]
      · exact (hexcl cpu y hyr (hxr ▸ hx) hy).elim
    · by_cases hyr : y = rt
      · exact (hexcl cpu x hxr (hyr ▸ hy) hx).elim
      · exact h.placed cpu x y ((hosts_congr (hother x hxr)).1 hx) ((hosts_congr (hother y hyr)).1 hy)
  have hlisted : ∀ cpu x, u.splitGoesOn cpu x = true → x ∈ u.list ∧ u.policy x = reschSchedFp := by
    intro cpu x hx
    rw [hlist]
    by_cases hxr : x = rt
    · rw [hxr] at hx ⊢
      exact ⟨FppmState.mem_globalListInsert.2 (Or.inl rfl), (hrtgo cpu hx).1⟩
    · rw [goesOn_congr (hother x hxr)] at hx
      obtain ⟨hxm, hxp⟩ := h.listed cpu x hx
      refine ⟨hmem x hxm, ?_⟩
      rw [hpolx x hxr, hpol]
      exact hxp
  split
  · rename_i hfair
    refine ⟨(hs' hsort).remove rt, fun cpu x hx => ?_, hplaced⟩
    obtain ⟨hxm, hxp⟩ := hlisted cpu x hx
    refine ⟨FppmState.mem_globalListRemove.2 ⟨hxm, ?_⟩, hxp⟩
    rintro rfl
    rw [hxp] at hfair
    cases hfair
  · exact ⟨hs' hsort, hlisted, hplaced⟩

theorem fppmStep_inv (op : FppmOp) (h : FppmInv s) (hm : op.Meets c s)
    (hs : fppmStep c s op = some s') : FppmInv s' := by
  cases op with
  | attach rt t policy =>
    unfold fppmStep at hs
    dsimp only at hs
    split at hs
    · cases hs
    · rename_i hrt
      rw [Option.some.injEq] at hs
      subst hs
      exact h.attach c hrt t policy
  | taskRun rt mask =>
    rw [fppmStep, Option.some.injEq] at hs
    subst hs
    exact h.apiRun hm
  | taskExit rt =>
    rw [fppmStep, Option.some.injEq] at hs
    subst hs
    exact h.apiExit c rt

theorem fppmInit_inv (switchCost releaseCost migrationCost : ℕ) (task : ℕ → RtTask) :
    FppmInv (fppmInit switchCost releaseCost migrationCost task) := by
  have hno : ∀ cpu h, (fppmInit switchCost releaseCost migrationCost task).splitGoesOn cpu h ≠ true := by
    intro cpu h hgo
    cases hgo
  refine ⟨List.Pairwise.nil, fun cpu h hgo => absurd hgo (hno cpu h), fun cpu h h' hh _ => ?_⟩
  exact absurd hh.2 (hno cpu h)

/-- **Placement in runs.** Whatever tasks are submitted and exit, if the mask of every task that
has to be split has all CPUs that host another split task but are not its last one, and no such
task has a lower priority (`Meets`), each CPU hosts at most one split task that it is not the
last CPU of. -/
theorem fppm_placed (c : Config) (switchCost releaseCost migrationCost : ℕ) (task : ℕ → RtTask)
    (ops : List FppmOp)
    (he : Each (fppmStep c) (fun s op => op.Meets c s)
      (fppmInit switchCost releaseCost migrationCost task) ops) :
    Always (fppmStep c) FppmPlaced (fppmInit switchCost releaseCost migrationCost task) ops := by
  have hall := Always.of_each (fun s op s' hi hm hs => fppmStep_inv op hi hm hs) ops _
    (fppmInit_inv switchCost releaseCost migrationCost task) he
  exact hall.mono (fun _ hi => hi.placed) ops _

/-- Three CPUs, with a tick of a millisecond. -/
def threeCpus : Config := { Config.small false with nrRtCpus := 3 }

def RtTask.periodic (period wcet : ℕ) (prio : ℤ) (cpu : ℕ) : RtTask :=
  ⟨period, period, wcet, wcet, prio, cpu, false⟩

/-- Tasks 0, 1 and 2 are placed on the CPUs with their numbers, and task 3 is split across the
first two of them. -/
def splitOnce : List FppmOp :=
  [.attach 0 (.periodic 10 5001 10 2) 1, .taskRun 0 (· = 0),
    .attach 1 (.periodic 10 5001 10 2) 1, .taskRun 1 (· = 1),
    .attach 2 (.periodic 10 10000 10 0) 1, .taskRun 2 (· = 2),
    .attach 3 (.periodic 6 3000 5 2) 1, .taskRun 3 fun _ => true]

/-- A test that is enough for `Meets`: no other task of the list is split. -/
def meetsTest (s : FppmState) : FppmOp → Bool
  | .taskRun rt _ => s.list.all fun h =>
      decide (h = rt) || decide ((s.fppmTask h).firstCpu = (s.fppmTask h).lastCpu)
  | .attach _ _ _ | .taskExit _ => true

theorem FppmInv.meets (h : FppmInv s) (op : FppmOp) (ht : meetsTest s op = true) :
    op.Meets c s := by
  cases op with
  | attach rt t policy | taskExit rt => trivial
  | taskRun rt mask =>
    intro _ cpu x hx hh
    have := List.all_eq_true.1 ht x (h.listed cpu x hh.2).1
    rw [Bool.or_eq_true, decide_eq_true_iff, decide_eq_true_iff] at this
    rcases this with hxr | hsame
    · exact absurd hxr hx
    · exact absurd hsame hh.1

theorem meets_of_check (task : ℕ → RtTask) (ops : List FppmOp)
    (h : checkEach (fppmStep c) meetsTest (fppmInit 0 0 0 task) ops = true) :
    Each (fppmStep c) (fun s op => op.Meets c s) (fppmInit 0 0 0 task) ops := by
  have htest : Each (fppmStep c) (fun s op => meetsTest s op = true) (fppmInit 0 0 0 task) ops :=
    Each.of_check (fun _ _ h => h) h
  exact Each.of_inv (fun s op s' hi ht hs => ⟨fppmStep_inv op hi (hi.meets op ht) hs, hi.meets op ht⟩)
    ops _ (fppmInit_inv 0 0 0 task) htest

theorem fppm_placed_splitOnce :
    Always (fppmStep threeCpus) FppmPlaced (fppmInit 0 0 0 fun _ => .periodic 0 0 0 0) splitOnce :=
  fppm_placed threeCpus 0 0 0 (fun _ => .periodic 0 0 0 0) splitOnce
    (meets_of_check _ _ (by decide +kernel))

/-- Task 4 may run on CPU 2 only, and is split across the first two CPUs as well. -/
def splitTwice : List FppmOp :=
  splitOnce ++ [.attach 4 (.periodic 20 2000 5 2) 1, .taskRun 4 (· = 2)]

theorem fppm_not_placed : ¬ ∀ (c : Config) (switchCost releaseCost migrationCost : ℕ)
    (task : ℕ → RtTask) (ops : List FppmOp),
    Always (fppmStep c) FppmPlaced (fppmInit switchCost releaseCost migrationCost task) ops := by
  intro hall
  have hrun := hall threeCpus 0 0 0 (fun _ => .periodic 0 0 0 0) splitTwice
  obtain ⟨s, hplaced, ht⟩ := hrun.final_test
    (fun s => decide (s.Hosts 0 3 ∧ s.Hosts 0 4)) (by decide +kernel)
  have hhosts := of_decide_eq_true ht
  have := hplaced 0 3 4 hhosts.1 hhosts.2
  omega

end Resch
