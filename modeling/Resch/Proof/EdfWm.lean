import Mathlib.Data.List.Nodup
import Resch.Lib.Bubble
import Resch.Spec.EdfWm

/-!
# What a split leaves under EDF-WM

* `SameBut`: the functions that compute the shares of a task change nothing but these shares.
* `sortRuntime_eq`: `sort_runtime` is a bubble sort, so it leaves every CPU number once.
* `split_windows`: after a successful split into `num` windows, at most `num` CPUs have a share,
  and the first CPU is one of those that may.
-/

namespace Resch.Checked.EdfWm

open Lib

variable {c : Config} {s s' s'' : EdfWm} {rt cpu k num sum fuel : ℕ} {et : EdfWmTask}
  {runtime : ℕ → ℕ} {l : List ℕ}

/-! ## Frames -/

/-- At most the shares of `rt` differ. -/
structure SameBut (rt : ℕ) (s s' : EdfWm) : Prop where
  toTaskSet : s'.toTaskSet = s.toTaskSet
  firstCpu : (s'.edfWmTask rt).firstCpu = (s.edfWmTask rt).firstCpu
  lastCpu : (s'.edfWmTask rt).lastCpu = (s.edfWmTask rt).lastCpu
  deadline : (s'.edfWmTask rt).deadline = (s.edfWmTask rt).deadline
  other : ∀ q, q ≠ rt → s'.edfWmTask q = s.edfWmTask q

theorem SameBut.refl (rt : ℕ) (s : EdfWm) : SameBut rt s s := ⟨rfl, rfl, rfl, rfl, fun _ _ => rfl⟩

theorem SameBut.trans (h : SameBut rt s s') (h' : SameBut rt s' s'') : SameBut rt s s'' :=
  ⟨h'.toTaskSet.trans h.toTaskSet, h'.firstCpu.trans h.firstCpu, h'.lastCpu.trans h.lastCpu,
    h'.deadline.trans h.deadline, fun q hq => (h'.other q hq).trans (h.other q hq)⟩

theorem setEdfWmTask_self : (setEdfWmTask s rt et).edfWmTask rt = et := Function.update_self ..

theorem setRuntime_same (s : EdfWm) (rt cpu k : ℕ) : SameBut rt s (setRuntime s rt cpu k) := by
  refine ⟨rfl, ?_, ?_, ?_, fun q hq => Function.update_of_ne hq ..⟩ <;>
  · unfold setRuntime
    rw [setEdfWmTask_self]

theorem shareDeadlines_same {period : ℕ} : ∀ (fuel L : ℕ) (r : Share) (b : Bool) (r' : Share),
    shareDeadlines c rt cpu period fuel L r = .ok (b, r') → SameBut rt r.s r'.s := by
  intro fuel
  induction fuel with
  | zero => exact fun _ _ _ _ h => nomatch h
  | succ fuel ih =>
    intro L r b r' h
    rw [shareDeadlines] at h
    split at h
    · obtain ⟨runtime, -, h⟩ := bind_eq_ok.1 h
      split at h
      · split at h
        · cases h
          exact .refl rt r.s
        · obtain ⟨Lmax, -, h⟩ := bind_eq_ok.1 h
          exact (setRuntime_same r.s rt cpu 0).trans (ih _ _ _ _ h)
      · exact ih _ _ _ _ h
    · cases h
      exact .refl rt r.s

theorem shareTasks_same : ∀ (l : List ℕ) (r : Share) (b : Bool) (r' : Share),
    shareTasks c rt cpu fuel l r = .ok (b, r') → SameBut rt r.s r'.s := by
  intro l
  induction l with
  | nil =>
    intro r b r' h
    cases h
    exact .refl rt r.s
  | cons p l ih =>
    intro r b r' h
    -- both kinds of tasks have a loop over deadlines, after which the rest follows or not
    have hgo : ∀ {L r₁}, shareDeadlines c rt cpu (r.s.task p).period fuel L r = .ok (true, r₁) →
        shareTasks c rt cpu fuel l r₁ = .ok (b, r') → SameBut rt r.s r'.s := by
      intro L r₁ h₁ h
      exact (shareDeadlines_same fuel L r true r₁ h₁).trans (ih r₁ b r' h)
    rw [shareTasks] at h
    split at h
    · obtain ⟨⟨b₁, r₁⟩, h₁, h⟩ := bind_eq_ok.1 h
      cases b₁ with
      | true => exact hgo h₁ h
      | false =>
        cases h
        exact shareDeadlines_same fuel _ r false _ h₁
    · split at h
      · obtain ⟨⟨b₁, r₁⟩, h₁, h⟩ := bind_eq_ok.1 h
        cases b₁ with
        | true => exact hgo h₁ h
        | false =>
          cases h
          exact shareDeadlines_same fuel _ r false _ h₁
      · exact ih r b r' h

theorem setSplitRuntime_same (h : setSplitRuntime c s rt cpu fuel = .ok s') : SameBut rt s s' := by
  unfold setSplitRuntime at h
  obtain ⟨u, -, h⟩ := bind_eq_ok.1 h
  obtain ⟨⟨b, r⟩, htasks, h⟩ := bind_eq_ok.1 h
  have hsame := shareTasks_same s.list _ b r htasks
  dsimp only at h
  split at h
  · obtain ⟨⟨b', r'⟩, hown, h⟩ := bind_eq_ok.1 h
    cases h
    exact (hsame.trans (shareDeadlines_same fuel _ r b' r' hown)).trans (setRuntime_same ..)
  · cases h
    exact hsame.trans (setRuntime_same ..)

theorem foldlM_same : ∀ (l : List ℕ) (s s' : EdfWm),
    l.foldlM (fun s cpu => setSplitRuntime c s rt cpu fuel) s = .ok s' → SameBut rt s s' := by
  intro l
  induction l with
  | nil =>
    intro s s' h
    cases h
    exact .refl rt s
  | cons cpu l ih =>
    intro s s' h
    rw [List.foldlM_cons] at h
    obtain ⟨s₁, h₁, h⟩ := bind_eq_ok.1 h
    exact (setSplitRuntime_same h₁).trans (ih s₁ s' h)

/-! ## Sorting -/

/-- The key by which the CPUs are sorted: the one with the largest share comes first. -/
def descending (runtime : ℕ → ℕ) (cpu : ℕ) : ℕᵒᵈ := OrderDual.toDual (runtime cpu)

theorem sortPass_eq (runtime : ℕ → ℕ) (l : List ℕ) :
    sortPass runtime l = bubble (descending runtime) l := by
  induction l with
  | nil => rfl
  | cons cpu l ih =>
    rw [sortPass, bubble, ih]
    cases bubble (descending runtime) l with
    | nil => rfl
    | cons k ks => exact if_congr Iff.rfl rfl rfl

theorem sortLoop_eq (runtime : ℕ → ℕ) (n : ℕ) (l : List ℕ) :
    sortLoop runtime n l = bubbleSort (descending runtime) n l := by
  induction n generalizing l with
  | zero => rfl
  | succ n ih =>
    rw [sortLoop, bubbleSort, sortPass_eq]
    cases bubble (descending runtime) l with
    | nil => rfl
    | cons cpu cpus => exact congrArg (cpu :: ·) (ih cpus)

/-- `sort_runtime` is a bubble sort of the CPU numbers. -/
theorem sortRuntime_eq (c : Config) (runtime : ℕ → ℕ) :
    sortRuntime c runtime = bubbleArray (descending runtime) (List.range c.nrRtCpus) := by
  rw [bubbleArray_eq, List.length_range]
  exact sortLoop_eq ..

theorem sortRuntime_perm (c : Config) (runtime : ℕ → ℕ) :
    (sortRuntime c runtime).Perm (List.range c.nrRtCpus) := by
  rw [sortRuntime_eq]
  exact bubbleArray_perm _ _

/-! ## The largest shares -/

theorem takeCpu_firstCpu (et : EdfWmTask) (cpu : ℕ) :
    (takeCpu c cpu et).firstCpu = et.firstCpu ∨ (takeCpu c cpu et).firstCpu = cpu := by
  have hfirst : ∀ et : EdfWmTask, (if et.firstCpu = c.cpuUndefined ∨ cpu < et.firstCpu then cpu
      else et.firstCpu) = et.firstCpu ∨
      (if et.firstCpu = c.cpuUndefined ∨ cpu < et.firstCpu then cpu else et.firstCpu) = cpu := by
    intro et
    split
    · exact Or.inr rfl
    · exact Or.inl rfl
  unfold takeCpu
  dsimp only
  by_cases hle : et.deadline < et.runtime cpu
  · rw [if_pos hle]
    split
    · exact hfirst et
    · exact Or.inl rfl
  · rw [if_neg hle]
    split
    · exact hfirst et
    · exact Or.inl rfl

theorem takeCpu_deadline (et : EdfWmTask) (cpu : ℕ) :
    (takeCpu c cpu et).deadline = et.deadline := by
  unfold takeCpu
  dsimp only
  split <;> split <;> rfl

theorem takeCpus_firstCpu : ∀ (l : List ℕ) (et : EdfWmTask) (sum : ℕ),
    (takeCpus c l et sum).1.firstCpu = et.firstCpu ∨ (takeCpus c l et sum).1.firstCpu ∈ l := by
  intro l
  induction l with
  | nil => exact fun _ _ => Or.inl rfl
  | cons cpu l ih =>
    intro et sum
    rw [takeCpus]
    rcases ih (takeCpu c cpu et) (ulong (sum + (takeCpu c cpu et).runtime cpu)) with h | h
    · rw [h]
      rcases takeCpu_firstCpu (c := c) et cpu with h | h
      · exact Or.inl h
      · rw [h]
        exact Or.inr List.mem_cons_self
    · exact Or.inr (List.mem_cons_of_mem _ h)

theorem takeCpus_deadline : ∀ (l : List ℕ) (et : EdfWmTask) (sum : ℕ),
    (takeCpus c l et sum).1.deadline = et.deadline := by
  intro l
  induction l with
  | nil => exact fun _ _ => rfl
  | cons cpu l ih =>
    intro et sum
    rw [takeCpus, ih, takeCpu_deadline]

/-! ## Windows -/

/-- The shares of a task whose relative deadline is `D` are on CPUs of `cpus`, one window each. -/
structure Windows (c : Config) (et : EdfWmTask) (D num : ℕ) (cpus : List ℕ) : Prop where
  length : cpus.length = num
  first : et.firstCpu ∈ cpus
  share : ∀ k < c.nrRtCpus, 0 < et.runtime k → k ∈ cpus
  deadline : et.deadline = D / num

theorem trySplit_windows (h : trySplit c s rt fuel num = .ok (s', true))
    (hfirst : (s.edfWmTask rt).firstCpu = c.cpuUndefined)
    (hdone : (s'.edfWmTask rt).firstCpu ≠ c.cpuUndefined) :
    ∃ cpus, Windows c (s'.edfWmTask rt) (s.task rt).deadline num cpus := by
  unfold trySplit at h
  dsimp only at h
  obtain ⟨s₁, hshares, h⟩ := bind_eq_ok.1 h
  have hsame := foldlM_same _ _ _ hshares
  have hperm := sortRuntime_perm c (s₁.edfWmTask rt).runtime
  generalize sortRuntime c (s₁.edfWmTask rt).runtime = cpuId at h hperm
  split at h
  · cases h
  rename_i hlen
  have hmem := takeCpus_firstCpu (c := c) (cpuId.take num) (s₁.edfWmTask rt) 0
  have hdl := takeCpus_deadline (c := c) (cpuId.take num) (s₁.edfWmTask rt) 0
  generalize takeCpus c (cpuId.take num) (s₁.edfWmTask rt) 0 = r at h hmem hdl
  obtain ⟨et, sum⟩ := r
  dsimp only at h hmem hdl
  split at h
  swap
  · cases h
  cases h
  rw [setEdfWmTask_self] at hdone ⊢
  have hfirst₁ : (s₁.edfWmTask rt).firstCpu = c.cpuUndefined := by
    rw [hsame.firstCpu, setEdfWmTask_self]
    exact hfirst
  refine ⟨cpuId.take num, ?_, ?_, fun k hk hpos => ?_, ?_⟩
  · rw [List.length_take]
    omega
  · rcases hmem with he | hin
    · exact absurd (he.trans hfirst₁) hdone
    · exact hin
  · -- the other CPUs have got nothing
    have hin : k ∈ cpuId.take num ++ cpuId.drop num := by
      rw [List.take_append_drop, hperm.mem_iff]
      exact List.mem_range.2 hk
    rcases List.mem_append.1 hin with hin | hout
    · exact hin
    · unfold finishSplit at hpos
      dsimp only at hpos
      rw [if_pos hout] at hpos
      cases hpos
  · unfold finishSplit
    dsimp only
    rw [hdl, hsame.deadline, setEdfWmTask_self]

theorem trySplit_task {b : Bool} (h : trySplit c s rt fuel num = .ok (s', b)) :
    s'.toTaskSet = s.toTaskSet := by
  unfold trySplit at h
  dsimp only at h
  obtain ⟨s₁, hshares, h⟩ := bind_eq_ok.1 h
  have hsame := foldlM_same _ _ _ hshares
  split at h
  · cases h
  split at h
  · cases h
    exact hsame.toTaskSet
  · cases h
    exact hsame.toTaskSet

theorem splitLoop_windows : ∀ (nums : List ℕ) (s : EdfWm),
    splitLoop c rt fuel nums s = .ok (s', num) → (s.edfWmTask rt).firstCpu = c.cpuUndefined →
      (s'.edfWmTask rt).firstCpu ≠ c.cpuUndefined →
        num ∈ nums ∧ ∃ cpus, Windows c (s'.edfWmTask rt) (s.task rt).deadline num cpus := by
  intro nums
  induction nums with
  | nil =>
    intro s h hfirst hdone
    cases h
    exact absurd hfirst hdone
  | cons n nums ih =>
    intro s h hfirst hdone
    rw [splitLoop] at h
    obtain ⟨⟨s₁, b⟩, htry, h⟩ := bind_eq_ok.1 h
    cases b with
    | true =>
      cases h
      exact ⟨List.mem_cons_self, trySplit_windows htry hfirst hdone⟩
    | false =>
      obtain ⟨hnum, cpus, hw⟩ := ih _ h (congrArg EdfWmTask.firstCpu setEdfWmTask_self) hdone
      refine ⟨List.mem_cons_of_mem _ hnum, cpus, ?_⟩
      have htask : (setEdfWmTask s₁ rt (EdfWmTask.clear c)).task rt = s.task rt :=
        congrArg (·.task rt) (trySplit_task htry)
      rw [htask] at hw
      exact hw

/-- **A successful split.** -/
theorem split_windows (h : split c s rt fuel = .ok (s', num))
    (hfirst : (s.edfWmTask rt).firstCpu = c.cpuUndefined)
    (hdone : (s'.edfWmTask rt).firstCpu ≠ c.cpuUndefined) :
    2 ≤ num ∧ ∃ cpus, Windows c (s'.edfWmTask rt) (s.task rt).deadline num cpus := by
  obtain ⟨hnum, hw⟩ := splitLoop_windows _ s h hfirst hdone
  refine ⟨?_, hw⟩
  rcases List.mem_cons.1 hnum with rfl | hin
  · exact le_rfl
  · rw [List.mem_range'_1] at hin
    omega

/-- A task that `task_run` has split. -/
theorem taskRun_split {mask : ℕ → Bool} (h : taskRun c s rt fuel mask = .ok s')
    (hperiod : (s.task rt).period ≠ 0) (hsplit : 0 < (s'.edfWmTask rt).deadline)
    (hcpu : (s'.task rt).cpuId ≠ c.cpuUndefined) :
    ∃ s₁ num, split c (setEdfWmTask s rt (EdfWmTask.clear c)) rt fuel = .ok (s₁, num) ∧
      s'.edfWmTask rt = s₁.edfWmTask rt ∧ (s'.task rt).deadline = (s₁.edfWmTask rt).deadline ∧
      (s₁.edfWmTask rt).firstCpu ≠ c.cpuUndefined := by
  unfold taskRun at h
  rw [if_neg hperiod] at h
  obtain ⟨⟨s₁, cpu⟩, hplace, h⟩ := bind_eq_ok.1 h
  cases h
  -- the CPU is the one that `place` has found
  have htask : ((assign c s₁ rt cpu).task rt).cpuId = cpu ∧
      (cpu ≠ c.cpuUndefined → 0 < (s₁.edfWmTask rt).deadline →
        ((assign c s₁ rt cpu).task rt).deadline = (s₁.edfWmTask rt).deadline) := by
    unfold assign
    dsimp only
    rw [Function.update_self]
    by_cases hu : cpu = c.cpuUndefined
    · rw [if_neg (not_not.2 hu)]
      exact ⟨rfl, fun hn => absurd hu hn⟩
    · rw [if_pos hu]
      exact ⟨rfl, fun _ hpos => if_pos hpos⟩
  rw [htask.1] at hcpu
  unfold place at hplace
  obtain ⟨cpuDst, -, hplace⟩ := bind_eq_ok.1 hplace
  split at hplace
  · cases hplace
    -- a task that has been placed whole has no window
    have hclear : ((assign c (setEdfWmTask s rt (EdfWmTask.clear c)) rt cpu).edfWmTask rt).deadline =
        0 := congrArg EdfWmTask.deadline setEdfWmTask_self
    omega
  · obtain ⟨⟨s₂, num⟩, hs, hplace⟩ := bind_eq_ok.1 hplace
    cases hplace
    exact ⟨s₁, num, hs, rfl, htask.2 hcpu hsplit, hcpu⟩

end Resch.Checked.EdfWm
