import Resch.Proof.EdfInv

/-!
# Starting, completing, expiring and replenishing

Each of the four hooks moves one task in the walk of its CPU and writes at most two states:
the task that becomes the first of the walk runs, and the one it was before sleeps.
-/

namespace Resch

open Lib

variable {c : Config} {k : Kernel} {s s' : State} {rt q cpu x : ℕ} {prio : ℤ}

/-! ## Starting and completing -/

theorem nextIn_cons_self (x : ℕ) (l : List ℕ) : nextIn (x :: l) x = l.head? := by
  unfold nextIn
  rw [List.idxOf_cons_self, List.getElem?_cons_succ, List.head?_eq_getElem?]

theorem EdfOk.jobStart (h : EdfOk s) (ha : s.Attached rt) (hi : s.isActive rt = false) :
    EdfOk (Edf.edfJobStart s rt) := by
  have h₁ := h.enqueue ha hi (Or.inl rfl)
  unfold Edf.edfJobStart
  dsimp only
  split
  · exact h₁.ifSome fun q => h₁.setProc _ _
  · exact h₁.setProc _ _

/-- **Starting a job** of a task that runs. -/
theorem EdfOk.jobStart_runs (h : EdfOk s) (ha : s.Attached rt) (hi : s.isActive rt = false)
    (hrun : stateOf s rt = .running) (hr : WalksRun s) : WalksRun (Edf.edfJobStart s rt) := by
  have m := h.moved_start ha hi (Or.inl rfl)
  have hcpu : s.isActive rt = true → (s.task rt).cpuId = (s.task rt).cpuId := fun _ => rfl
  have hold := hr (s.task rt).cpuId
  have hf : (walk s (s.task rt).cpuId).filter (· ≠ rt) = walk s (s.task rt).cpuId :=
    h.filter_walk fun hc => by rw [hi] at hc; cases hc.1
  have hne : ∀ {y x}, y ∈ walk s x → y ≠ rt := by
    rintro y x hy rfl
    rw [(h.mem_walk.1 hy).1] at hi; cases hi
  unfold Edf.edfJobStart
  dsimp only
  generalize Edf.edfEnqueueTask s rt reschPrioEdf (s.task rt).cpuId = s₁ at m ⊢
  have ha₁ : ∀ {q}, s.Attached q → s₁.Attached q := fun hq => by
    unfold State.Attached; rw [m.point]; exact hq
  have hw := m.walks (s.task rt).cpuId
  rw [if_pos rfl, hf] at hw
  rw [highest_eq m.inv.queued m.inv.levels, next_eq m.inv.queued m.inv.levels m.active, m.cpu]
  rcases insertBefore_cases (aheadAt s rt reschPrioEdf) rt (walk s (s.task rt).cpuId) with
    ⟨hi₁, -⟩ | ⟨y, t, hl, -, hi₁⟩
  · -- the highest task now: the one before it goes to sleep
    rw [hi₁] at hw
    rw [hw, List.head?_cons, if_pos rfl, nextIn_cons_self]
    cases hl : walk s (s.task rt).cpuId with
    | nil =>
      refine m.inv.runs_of hr (m.other h hcpu) (fun _ => rfl) (fun q _ => m.states q) ?_
      rw [hw, hl]
      exact ⟨(m.states rt).trans hrun, by simp⟩
    | cons y t =>
      have hya : s.isActive y = true := (h.mem_walk.1 (by rw [hl]; simp : y ∈ walk s _)).1
      have hst := stateOf_setRunState m.inv (ha₁ (h.attached hya)) .interruptible
      refine m.inv.runs_of hr (m.other h hcpu) (fun _ => rfl) (fun q hq => ?_) ?_
      · refine (hst q).trans ?_
        rw [if_neg, m.states q]
        rintro rfl
        exact hq (by rw [hw, hl]; simp)
      · rw [hw, hl]
        refine ⟨?_, fun q hq => ?_⟩
        · refine (hst rt).trans ?_
          rw [if_neg, m.states, hrun]
          exact (hne (by rw [hl]; simp)).symm
        · refine (hst q).trans ?_
          split
          · rfl
          · rename_i hqy
            rw [hl] at hold
            rw [m.states]
            exact hold.2 q ((List.mem_cons.1 hq).resolve_left hqy)
  · -- another task is ahead
    rw [hi₁] at hw
    have hy : y ≠ rt := hne (x := (s.task rt).cpuId) (by rw [hl]; simp)
    rw [hw, List.head?_cons, if_neg (by simpa using hy)]
    have hst := stateOf_setRunState m.inv (ha₁ ha) .interruptible
    refine m.inv.runs_of hr (m.other h hcpu) (fun _ => rfl) (fun q hq => ?_) ?_
    · refine (hst q).trans ?_
      rw [if_neg, m.states q]
      rintro rfl
      exact hq (by rw [hw]; simp)
    · rw [hw]
      rw [hl] at hold
      refine ⟨?_, fun q hq => ?_⟩
      · rw [hst, if_neg hy, m.states]; exact hold.1
      · rw [hst]
        split
        · rfl
        · rename_i hqr
          rw [m.states]
          exact hold.2 q ((mem_insertBefore.1 hq).resolve_left hqr)

theorem EdfOk.dequeue_prio (h : EdfOk s) (ha : s.isActive rt = true) :
    EdfOk ((Edf.edfDequeueTask s rt (s.task rt).prio (s.task rt).cpuId).setPrio rt reschPrioEdf) := by
  have h₁ := h.dequeue ha
  have hatt : (s.unlink rt (s.task rt).cpuId (prioIndex (s.task rt).prio)).Attached rt := h.attached ha
  have hok := h₁.ok rt hatt
  have hi : (s.unlink rt (s.task rt).cpuId (prioIndex (s.task rt).prio)).isActive rt = false :=
    isActive_dequeueTaskAt _ _ _ _
  exact h₁.setTask hatt rfl ⟨edf_range, hok.save, hok.cls⟩ (Or.inr ⟨hi, hi⟩)

theorem EdfOk.jobComplete (h : EdfOk s) (ha : s.isActive rt = true) :
    EdfOk (Edf.edfJobComplete s rt) :=
  (h.dequeue_prio ha).ifSome fun _ => (h.dequeue_prio ha).setProc _ _

/-- **Completing a job** of a task that runs: the next task wakes up. -/
theorem EdfOk.jobComplete_runs (h : EdfOk s) (ha : s.isActive rt = true)
    (hrun : stateOf s rt = .running) (hr : WalksRun s) : WalksRun (Edf.edfJobComplete s rt) := by
  have h₁ := h.dequeue_prio ha
  unfold Edf.edfJobComplete
  dsimp only
  have hwalk : ∀ x, walk ((Edf.edfDequeueTask s rt (s.task rt).prio (s.task rt).cpuId).setPrio rt
      reschPrioEdf) x = (walk s x).filter (· ≠ rt) := fun x => walk_unlink
  have hstates : ∀ q, stateOf ((Edf.edfDequeueTask s rt (s.task rt).prio (s.task rt).cpuId).setPrio rt
      reschPrioEdf) q = stateOf s q := by
    intro q
    refine (stateOf_of_proc (s.unlink rt _ _) ((s.unlink rt _ _).setPrio rt reschPrioEdf) rfl
      (fun q => ?_) q).trans (stateOf_unlink s rt (s.task rt).cpuId (prioIndex (s.task rt).prio) q)
    exact setTask_field (·.task) (by rfl) q
  have hpoint : ((Edf.edfDequeueTask s rt (s.task rt).prio (s.task rt).cpuId).setPrio rt
      reschPrioEdf).point = s.point := rfl
  generalize (Edf.edfDequeueTask s rt (s.task rt).prio (s.task rt).cpuId).setPrio rt reschPrioEdf = s₁
    at h₁ hwalk hstates hpoint ⊢
  obtain ⟨t, hl⟩ := (hr (s.task rt).cpuId).head_of_runs (by decide) (h.mem_walk.2 ⟨ha, rfl⟩) hrun
  have hold := hr (s.task rt).cpuId
  have hw := hwalk (s.task rt).cpuId
  have hother : ∀ x, x ≠ (s.task rt).cpuId → walk s₁ x = walk s x := fun x hx =>
    (hwalk x).trans (h.filter_walk fun hc => hx hc.2.symm)
  rcases h.walk_cases ha with ⟨t', hl', hf⟩ | ⟨y, t', hl', hy, -⟩
  swap
  · rw [hl'] at hl
    exact absurd (List.cons.inj hl).1 hy
  rw [hf] at hw
  rw [hl'] at hold
  rw [highest_eq h₁.queued h₁.levels, hw]
  cases t' with
  | nil =>
    refine h₁.runs_of hr hother (fun _ => rfl) (fun q _ => hstates q) ?_
    rw [hw]; trivial
  | cons y t' =>
    have hya : s.isActive y = true := (h.mem_walk.1 (by rw [hl']; simp : y ∈ walk s _)).1
    have hys : stateOf s₁ y = .interruptible := (hstates y).trans (hold.2 y (by simp))
    have hatt : s₁.Attached y := by unfold State.Attached; rw [hpoint]; exact h.attached hya
    have hst := stateOf_wakeUp h₁ hatt (Or.inl hys)
    refine h₁.runs_of hr hother (fun _ => rfl) (fun q hq => ?_) ?_
    · refine (hst q).trans ?_
      rw [if_neg, hstates]
      rintro rfl
      exact hq (by rw [hw]; simp)
    · rw [hw]
      have hn : (y :: t').Nodup := by rw [← hw]; exact walk_nodup h₁.queued
      refine ⟨(hst y).trans (if_pos rfl), fun q hq => ?_⟩
      refine (hst q).trans ?_
      rw [if_neg, hstates]
      · exact hold.2 q (by simp [hq])
      · rintro rfl
        exact (List.nodup_cons.1 hn).1 hq

/-! ## Expiring and replenishing -/

theorem EdfOk.reserveExpire (h : EdfOk s) : EdfOk (Edf.edfReserveExpire s rt) := by
  unfold Edf.edfReserveExpire
  by_cases ha : s.isActive rt = true
  swap
  · simpa [ha] using h
  simp only [ha, Bool.not_true, Bool.false_eq_true, if_false]
  have h₁ := (h.moved_level ha (Or.inr rfl)).inv
  refine h₁.ifSome fun q => ?_
  split
  · exact h₁
  · exact (h₁.setProc _ _).setProc _ _

/-- Nothing is ahead of a task that comes before it. -/
theorem EdfOk.not_ahead (h : EdfOk s) {a b : ℕ} {l : List ℕ} (hl : walk s cpu = a :: l) (hb : b ∈ l) :
    ahead s b a = false := by
  have := h.sorted cpu
  rw [hl] at this
  exact List.rel_of_pairwise_cons this hb

/-- **Expiring a reserve**: if another task becomes the highest one, it takes the CPU over. -/
theorem EdfOk.reserveExpire_runs (h : EdfOk s) (hr : WalksRun s) :
    WalksRun (Edf.edfReserveExpire s rt) := by
  unfold Edf.edfReserveExpire
  by_cases ha : s.isActive rt = true
  swap
  · simpa [ha] using hr
  simp only [ha, Bool.not_true, Bool.false_eq_true, if_false]
  have m := h.moved_level ha (Or.inr rfl)
  have hcpu : s.isActive rt = true → (s.task rt).cpuId = (s.task rt).cpuId := fun _ => rfl
  have hold := hr (s.task rt).cpuId
  generalize Edf.edfEnqueueTask (Edf.edfDequeueTask s rt (s.task rt).prio (s.task rt).cpuId) rt
    reschPrioBackground (s.task rt).cpuId = s₁ at m ⊢
  have hw := m.walks (s.task rt).cpuId
  rw [if_pos rfl] at hw
  rw [highest_eq m.inv.queued m.inv.levels]
  rcases insertBefore_cases (aheadAt s rt reschPrioBackground) rt
    ((walk s (s.task rt).cpuId).filter (· ≠ rt)) with ⟨hi, hfirst⟩ | ⟨y, t', hf', -, hi⟩
  · -- still the highest task
    rw [hi] at hw
    rw [hw, List.head?_cons]
    show WalksRun (if rt = rt then s₁ else _)
    rw [if_pos rfl]
    refine m.inv.runs_of hr (m.other h hcpu) (fun _ => rfl) (fun q _ => m.states q) ?_
    rcases h.walk_cases ha with ⟨t, hl, hf⟩ | ⟨y, t, hl, -, hrt, hf⟩
    · rw [hl] at hold
      rw [hw, hf]
      exact hold.congr fun q _ => m.states q
    · -- it was behind another task, which it cannot have overtaken
      exfalso
      have hah := hfirst y (by rw [hf]; rfl)
      have hno := h.not_ahead hl hrt
      rw [not_ahead_iff] at hno
      unfold aheadAt at hah
      rw [decide_eq_true_eq] at hah
      rcases h.levels rt ha with hp | hp <;>
        simp only [reschPrioEdf, reschPrioBackground, reschPrioMin] at hp hah <;> omega
  · rw [hi] at hw
    have hymem : y ∈ (walk s (s.task rt).cpuId).filter (· ≠ rt) := by rw [hf']; simp
    have hy : y ≠ rt := by simpa using (List.mem_filter.1 hymem).2
    have hywalk := h.mem_walk.1 (List.mem_filter.1 hymem).1
    rw [hw, List.head?_cons]
    show WalksRun (if rt = y then s₁ else setRunState (wakeUpProcess s₁ y) rt .interruptible)
    rw [if_neg hy.symm]
    -- the highest task runs already, or sleeps behind `rt`
    obtain ⟨hys, hwait⟩ : (stateOf s y = .interruptible ∨ stateOf s y = .running) ∧
        ∀ q ∈ t', stateOf s q = .interruptible := by
      rcases h.walk_cases ha with ⟨t, hl, hf⟩ | ⟨z, t, hl, -, -, hf⟩
      · rw [hf] at hf'
        rw [hl, hf'] at hold
        exact ⟨Or.inl (hold.2 y (by simp)), fun q hq => hold.2 q (by simp [hq])⟩
      · rw [hf] at hf'
        obtain ⟨rfl, rfl⟩ := List.cons.inj hf'
        rw [hl] at hold
        exact ⟨Or.inr hold.1, fun q hq => hold.2 q (List.mem_filter.1 hq).1⟩
    have hatt : ∀ {q}, s.isActive q = true → s₁.Attached q := fun hq => by
      unfold State.Attached; rw [m.point]; exact h.attached hq
    have hst₁ := stateOf_wakeUp m.inv (hatt hywalk.1) (by rw [m.states]; exact hys)
    have hst := stateOf_setRunState (m.inv.wakeUp y) (hatt ha) .interruptible
    refine m.inv.runs_of hr (m.other h hcpu) (fun _ => rfl) (fun q hq => ?_) ?_
    · refine (hst q).trans ?_
      rw [if_neg, hst₁, if_neg, m.states]
      · rintro rfl; exact hq (by rw [hw]; simp)
      · rintro rfl; exact hq (by rw [hw]; simp)
    · have hn : (walk s₁ (s.task rt).cpuId).Nodup := walk_nodup m.inv.queued
      rw [hw] at hn ⊢
      refine ⟨?_, fun q hq => ?_⟩
      · rw [hst, if_neg hy, hst₁, if_pos rfl]
      · rw [hst]
        split
        · rfl
        · rename_i hqr
          have hqy : q ≠ y := by rintro rfl; exact (List.nodup_cons.1 hn).1 hq
          rw [hst₁, if_neg hqy, m.states]
          exact hwait q ((mem_insertBefore.1 hq).resolve_left hqr)

theorem EdfOk.budget (h : EdfOk s) (ha : s.Attached rt) (cputime : ℕ) :
    EdfOk (s.setTask rt fun t => { t with budget := t.budget + cputime }) := by
  have hok := h.ok rt ha
  exact h.setTask ha rfl ⟨hok.prio, hok.save, hok.cls⟩ (Or.inl ⟨⟨rfl, rfl, rfl⟩, rfl⟩)

theorem EdfOk.reserveReplenish (h : EdfOk s) (ha : s.Attached rt) (cputime : ℕ) :
    EdfOk (Edf.edfReserveReplenish s rt cputime) := by
  have h₁ := h.budget ha cputime
  have hcpu : (s.task rt).cpuId =
      ((s.setTask rt fun t => { t with budget := t.budget + cputime }).task rt).cpuId := by simp
  unfold Edf.edfReserveReplenish
  rw [hcpu]
  dsimp only
  generalize s.setTask rt (fun t => { t with budget := t.budget + cputime }) = s₁ at h₁ ⊢
  split
  · rename_i hb
    have h₂ := (h₁.moved_level hb.2 (Or.inl rfl)).inv
    rw [hb.1] at h₂
    split
    · exact (h₂.ifSome fun q => h₂.setProc _ _).setProc _ _
    · exact h₂
  · exact h₁

/-- **Replenishing a reserve**: a sleeping task that becomes the highest one takes the CPU
over. -/
theorem EdfOk.reserveReplenish_runs (h : EdfOk s) (hatt : s.Attached rt) (cputime : ℕ)
    (hr : WalksRun s) : WalksRun (Edf.edfReserveReplenish s rt cputime) := by
  have h₁ := h.budget hatt cputime
  have hcpu : (s.task rt).cpuId =
      ((s.setTask rt fun t => { t with budget := t.budget + cputime }).task rt).cpuId := by simp
  have hatt₁ : (s.setTask rt fun t => { t with budget := t.budget + cputime }).Attached rt := hatt
  have hr₁ : WalksRun (s.setTask rt fun t => { t with budget := t.budget + cputime }) := by
    intro x
    refine HeadRuns.congr (hr x) fun q _ => ?_
    refine stateOf_of_proc s (s.setTask rt fun t => { t with budget := t.budget + cputime }) rfl
      (fun q => ?_) q
    exact setTask_field (·.task) (by rfl) q
  unfold Edf.edfReserveReplenish
  rw [hcpu]
  dsimp only
  -- from here on, the state with the new budget
  generalize s.setTask rt (fun t => { t with budget := t.budget + cputime }) = s at h₁ hatt₁ hr₁ ⊢
  by_cases hb : (s.task rt).prio = reschPrioBackground ∧ s.isActive rt = true
  swap
  · rw [if_neg hb]; exact hr₁
  rw [if_pos hb]
  obtain ⟨hbg, ha⟩ := hb
  have m := h₁.moved_level ha (Or.inl rfl)
  rw [hbg] at m
  have hold := hr₁ (s.task rt).cpuId
  have hself : s.isActive rt = true → (s.task rt).cpuId = (s.task rt).cpuId := fun _ => rfl
  generalize Edf.edfEnqueueTask (Edf.edfDequeueTask s rt reschPrioBackground (s.task rt).cpuId) rt
    reschPrioEdf (s.task rt).cpuId = s₁ at m ⊢
  have hw := m.walks (s.task rt).cpuId
  rw [if_pos rfl] at hw
  have hrt₁ : (s₁.procOf rt).state = stateOf s rt := m.states rt
  rw [highest_eq m.inv.queued m.inv.levels, next_eq m.inv.queued m.inv.levels m.active, m.cpu, hrt₁]
  rcases insertBefore_cases (aheadAt s rt reschPrioEdf) rt
    ((walk s (s.task rt).cpuId).filter (· ≠ rt)) with ⟨hi, -⟩ | ⟨y, t', hf', hpy, hi⟩
  · rw [hi] at hw
    rcases h₁.walk_cases ha with ⟨t, hl, hf⟩ | ⟨y, t, hl, hy, hrt, hf⟩
    · -- it was the highest task before, and runs
      rw [hl] at hold
      have hrun : stateOf s rt = .running := hold.1
      -- nothing is preempted
      rw [if_neg fun hc => by rw [hrun] at hc; cases hc.2]
      refine m.inv.runs_of hr₁ (m.other h₁ hself) (fun _ => rfl) (fun q _ => m.states q) ?_
      rw [hw, hf]
      exact hold.congr fun q _ => m.states q
    · -- it slept behind another task, which goes to sleep
      rw [hl] at hold
      have hsleep : stateOf s rt = .interruptible := hold.2 rt hrt
      rw [hw, hf, List.head?_cons, if_pos ⟨rfl, hsleep⟩, nextIn_cons_self, List.head?_cons]
      show WalksRun (wakeUpProcess (setRunState s₁ y .interruptible) rt)
      have hya : s.isActive y = true := (h₁.mem_walk.1 (by rw [hl]; simp : y ∈ walk s _)).1
      have hatt₂ : ∀ {q}, s.isActive q = true → s₁.Attached q := fun hq => by
        unfold State.Attached; rw [m.point]; exact h₁.attached hq
      have hst₁ := stateOf_setRunState m.inv (hatt₂ hya) .interruptible
      have hst := stateOf_wakeUp (m.inv.runState y .interruptible) (hatt₂ ha)
        (Or.inl (by rw [hst₁, if_neg hy.symm, m.states]; exact hsleep))
      refine m.inv.runs_of hr₁ (m.other h₁ hself) (fun _ => rfl) (fun q hq => ?_) ?_
      · refine (hst q).trans ?_
        rw [if_neg, hst₁, if_neg, m.states]
        · rintro rfl; exact hq (by rw [hw, hf]; simp)
        · rintro rfl; exact hq (by rw [hw]; simp)
      · have hn : (walk s₁ (s.task rt).cpuId).Nodup := walk_nodup m.inv.queued
        rw [hw, hf] at hn ⊢
        refine ⟨(hst rt).trans (if_pos rfl), fun q hq => ?_⟩
        have hqr : q ≠ rt := by rintro rfl; exact (List.nodup_cons.1 hn).1 hq
        rw [hst, if_neg hqr, hst₁]
        split
        · rfl
        · rename_i hqy
          rw [m.states]
          refine hold.2 q ?_
          exact (List.mem_filter.1 ((List.mem_cons.1 hq).resolve_left hqy)).1
  · -- another task is ahead on the walk, and goes on running
    rw [hi] at hw
    have hymem : y ∈ (walk s (s.task rt).cpuId).filter (· ≠ rt) := by rw [hf']; simp
    have hy : y ≠ rt := by simpa using (List.mem_filter.1 hymem).2
    rw [hw, List.head?_cons, if_neg fun hc => hy (Option.some.inj hc.1)]
    refine m.inv.runs_of hr₁ (m.other h₁ hself) (fun _ => rfl) (fun q _ => m.states q) ?_
    rw [hw]
    rcases h₁.walk_cases ha with ⟨t, hl, hf⟩ | ⟨z, t, hl, -, hrt, hf⟩
    · -- it was the highest task, at the background level: the level above it is empty
      exfalso
      rw [hf] at hf'
      have hno := h₁.not_ahead hl (b := y) (by rw [hf']; simp)
      rw [not_ahead_iff] at hno
      have hlev := h₁.levels y (h₁.mem_walk.1 (List.mem_filter.1 hymem).1).1
      unfold aheadAt at hpy
      rw [decide_eq_false_iff_not] at hpy
      simp only [reschPrioEdf, reschPrioBackground, reschPrioMin] at hbg hlev hpy
      omega
    · rw [hf] at hf'
      obtain ⟨rfl, rfl⟩ := List.cons.inj hf'
      rw [hl] at hold
      refine ⟨(m.states z).trans hold.1, fun q hq => ?_⟩
      rw [m.states]
      -- the tasks after it sleep, `rt` among them
      rcases mem_insertBefore.1 hq with rfl | hq
      · exact hold.2 q hrt
      · exact hold.2 q (List.mem_filter.1 hq).1

end Resch
