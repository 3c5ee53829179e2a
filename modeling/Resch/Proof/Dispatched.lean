import Resch.Proof.PluginCalls
import Mathlib.Data.List.Perm.Subperm

/-!
# Each running job has a CPU of its own

The calls of a global plugin keep `JobsDispatched` as long as only running jobs complete
(`pluginStep_dispatched`), whatever the lists are ordered by. `put_on` is the one argument
behind the calls that put a job on a CPU.
-/

namespace Resch

open Lib

variable {g : GlobalPlugin} {m : ℕ} {s s' : PluginState} {gt x y : ℕ}

/-- `x` is put on CPU `c`, which none of the jobs `L` that go on running has. -/
theorem put_on {L : List ℕ} {c : ℕ} (h : ∀ z ∈ L, ∀ w ∈ L, s.cpu z = s.cpu w → z = w)
    (hc : ∀ z ∈ L, s.cpu z ≠ c)
    (hb : ∀ d, d ≠ c → (s.cpuRun d = true ↔ ∃ z ∈ L, s.cpu z = d))
    (hrun : ∀ z, z ∈ s'.runList ↔ z = x ∨ z ∈ L) (hx : s'.cpu x = c)
    (hL : ∀ z ∈ L, s'.cpu z = s.cpu z) (hcr : s'.cpuRun = Function.update s.cpuRun c true) :
    (∀ z ∈ s'.runList, ∀ w ∈ s'.runList, s'.cpu z = s'.cpu w → z = w) ∧
      ∀ d, s'.cpuRun d = true ↔ ∃ z ∈ s'.runList, s'.cpu z = d := by
  constructor
  · intro z hz w hw he
    rcases (hrun z).1 hz with rfl | hz <;> rcases (hrun w).1 hw with rfl | hw
    · rfl
    · rw [hx, hL w hw] at he
      exact absurd he.symm (hc w hw)
    · rw [hx, hL z hz] at he
      exact absurd he (hc z hz)
    · rw [hL z hz, hL w hw] at he
      exact h z hz w hw he
  · intro d
    rw [hcr]
    by_cases hd : d = c
    · subst hd
      rw [Function.update_self]
      exact ⟨fun _ => ⟨x, (hrun x).2 (Or.inl rfl), hx⟩, fun _ => rfl⟩
    · rw [Function.update_of_ne hd, hb d hd]
      constructor
      · rintro ⟨z, hz, hzd⟩
        exact ⟨z, (hrun z).2 (Or.inr hz), (hL z hz).trans hzd⟩
      · rintro ⟨z, hz, hzd⟩
        rcases (hrun z).1 hz with rfl | hz
        · exact absurd (hzd.symm.trans hx) hd
        · exact ⟨z, hz, (hL z hz).symm.trans hzd⟩

/-- The CPUs are the same where only the task of `x` is written, and its CPU is not. -/
theorem cpu_of_task {t : PluginTask} {z : ℕ} (ht : s'.task z = if z = x then t else s.task z)
    (hc : t.cpuId = s.cpu x) : s'.cpu z = s.cpu z := by
  unfold PluginState.cpu at hc ⊢
  rw [ht]
  split
  · rename_i e
    rw [e]
    exact hc
  · rfl

/-- The running jobs but one. -/
theorem JobsDispatched.others (h : JobsDispatched m s) (hx : x ∈ s.runList) :
    (∀ z ∈ s.runList.filter (· ≠ x), z ≠ x ∧ z ∈ s.runList ∧ s.cpu z ≠ s.cpu x) ∧
      ∀ d, d ≠ s.cpu x → (s.cpuRun d = true ↔ ∃ z ∈ s.runList.filter (· ≠ x), s.cpu z = d) := by
  have hmem : ∀ z, z ∈ s.runList.filter (· ≠ x) ↔ z ∈ s.runList ∧ z ≠ x := by
    intro z
    rw [List.mem_filter, decide_eq_true_iff]
  constructor
  · intro z hz
    obtain ⟨hzr, hzx⟩ := (hmem z).1 hz
    exact ⟨hzx, hzr, fun e => hzx (h.distinct z hzr x hx e)⟩
  · intro d hd
    rw [h.busy]
    constructor
    · rintro ⟨z, hz, rfl⟩
      exact ⟨z, (hmem z).2 ⟨hz, fun e => hd (by rw [e])⟩, rfl⟩
    · rintro ⟨z, hz, hzd⟩
      exact ⟨z, ((hmem z).1 hz).1, hzd⟩

theorem mem_insert_filter {p : ℕ → Bool} {L : List ℕ} (h : s'.runList = insertBefore p x L) (z : ℕ) :
    z ∈ s'.runList ↔ z = x ∨ z ∈ L := by
  rw [h, mem_insertBefore]

theorem nodup_insertBefore {p : ℕ → Bool} {L : List ℕ} (hx : x ∉ L) (hL : L.Nodup) :
    (insertBefore p x L).Nodup :=
  (insertBefore_perm p x L).nodup_iff.2 (List.nodup_cons.2 ⟨hx, hL⟩)

/-- The tasks after a call that moves at most to CPUs there are and lists submitted tasks. -/
theorem JobsDispatched.tasks (h : JobsDispatched m s)
    (hs : ∀ z, (s'.task z).submitted = (s.task z).submitted)
    (hc : ∀ z, s'.cpu z = s.cpu z ∨ s'.cpu z < m)
    (hl : ∀ z, s'.Listed z → (s.task z).submitted = true) :
    (∀ z, s'.Listed z → (s'.task z).submitted = true) ∧
      ∀ z, (s'.task z).submitted = true → s'.cpu z < m := by
  refine ⟨fun z hz => (hs z).trans (hl z hz), fun z hz => ?_⟩
  rcases hc z with hcz | hcz
  · rw [hcz]
    exact h.room z ((hs z).symm.trans hz)
  · exact hcz

theorem JobsDispatched.cpu_lt (h : JobsDispatched m s) (hx : s.Listed x) : s.cpu x < m :=
  h.room x (h.submitted x hx)

/-- No job waits while a CPU is free. -/
theorem RunsFree.empty {c : ℕ} (ho : RunsFree g x c s s') (h : JobsDispatched m s) (hc : c < m) :
    s.waitList = [] := by
  by_contra hw
  have := h.full hw c hc
  rw [ho.free] at this
  cases this

theorem RunsFree.dispatched {c : ℕ} (ho : RunsFree g x c s s') (h : JobsDispatched m s) (hc : c < m)
    (hs : (s.task x).submitted = true) (hx : ¬ s.Listed x) : JobsDispatched m s' := by
  have hxr : x ∉ s.runList := fun hr => hx (Or.inl hr)
  have hself : s'.cpu x = c := by
    unfold PluginState.cpu
    rw [ho.task, if_pos rfl]
    rfl
  have hother : ∀ z, z ≠ x → s'.task z = s.task z := fun z hz => by rw [ho.task, if_neg hz]
  have hcpu : ∀ z, z ≠ x → s'.cpu z = s.cpu z := fun z hz => by
    unfold PluginState.cpu
    rw [hother z hz]
  have hempty := ho.empty h hc
  -- nobody runs on a CPU that is free
  have hfree : ∀ z ∈ s.runList, s.cpu z ≠ c := by
    intro z hz e
    have := (h.busy c).2 ⟨z, hz, e⟩
    rw [ho.free] at this
    cases this
  have hmem := mem_insert_filter ho.runList
  obtain ⟨hdist, hbusy⟩ := put_on h.distinct hfree (fun d _ => h.busy d) hmem hself
    (fun z hz => hcpu z fun e => hxr (e ▸ hz)) ho.cpuRun
  obtain ⟨hsub, hroom⟩ := h.tasks
    (ho.fixed submitted_fixed)
    (fun z => by
      by_cases hz : z = x
      · exact Or.inr (by rw [hz, hself]; exact hc)
      · exact Or.inl (hcpu z hz))
    (fun z hz => by
      rcases hz with hz | hz
      · rcases (hmem z).1 hz with rfl | hz
        · exact hs
        · exact h.submitted z (Or.inl hz)
      · exact h.submitted z (Or.inr (ho.waitList ▸ hz)))
  refine ⟨?_, ?_, ?_, hsub, hroom, hdist, hbusy, fun hw => ?_⟩
  · rw [ho.runList]
    exact nodup_insertBefore hxr h.nodupRun
  · rw [ho.waitList]
    exact h.nodupWait
  · rw [ho.waitList, hempty]
    exact fun _ _ => List.not_mem_nil
  · rw [ho.waitList] at hw
    exact absurd hempty hw

theorem Preempts.dispatched {p : ℕ} (ho : Preempts g x p s s') (h : JobsDispatched m s)
    (hall : ∀ c < m, s.cpuRun c = true) (hs : (s.task x).submitted = true) (hx : ¬ s.Listed x) :
    JobsDispatched m s' := by
  have hp : p ∈ s.runList := List.mem_of_getLast? ho.last
  have hxp : x ≠ p := fun e => hx (Or.inl (e ▸ hp))
  obtain ⟨hothers, hb⟩ := h.others hp
  have hxL : x ∉ s.runList.filter (· ≠ p) := fun hmem => hx (Or.inl (List.mem_filter.1 hmem).1)
  -- `x` takes the CPU of `p`, which waits in its place
  have hself : s'.cpu x = s.cpu p := by
    unfold PluginState.cpu
    rw [ho.task, if_pos rfl]
    rfl
  have hcpu : ∀ z, z ≠ x → s'.cpu z = s.cpu z := fun z hz => by
    unfold PluginState.cpu
    rw [ho.task, if_neg hz]
  have hmem := mem_insert_filter ho.runList
  have hmemw : ∀ z, z ∈ s'.waitList ↔ z = p ∨ z ∈ s.waitList := by
    intro z
    rw [ho.waitList, mem_insertBefore]
  obtain ⟨hdist, hbusy⟩ := put_on
    (fun z hz w hw => h.distinct z (hothers z hz).2.1 w (hothers w hw).2.1)
    (fun z hz => (hothers z hz).2.2) hb hmem hself
    (fun z hz => hcpu z fun e => hxL (e ▸ hz)) ho.cpuRun
  obtain ⟨hsub, hroom⟩ := h.tasks
    (ho.fixed submitted_fixed)
    (fun z => by
      by_cases hz : z = x
      · exact Or.inr (by rw [hz, hself]; exact h.cpu_lt (Or.inl hp))
      · exact Or.inl (hcpu z hz))
    (fun z hz => by
      rcases hz with hz | hz
      · rcases (hmem z).1 hz with rfl | hz
        · exact hs
        · exact h.submitted z (Or.inl (hothers z hz).2.1)
      · rcases (hmemw z).1 hz with rfl | hz
        · exact h.submitted z (Or.inl hp)
        · exact h.submitted z (Or.inr hz))
  refine ⟨?_, ?_, ?_, hsub, hroom, hdist, hbusy, fun _ c hc => ?_⟩
  · rw [ho.runList]
    exact nodup_insertBefore hxL (h.nodupRun.filter _)
  · rw [ho.waitList]
    exact nodup_insertBefore (h.disjoint p hp) h.nodupWait
  · intro z hz hzw
    -- neither of the two is in both lists
    rcases (hmem z).1 hz with rfl | hz <;> rcases (hmemw z).1 hzw with rfl | hzw
    · exact hxp rfl
    · exact hx (Or.inr hzw)
    · exact (hothers z hz).1 rfl
    · exact h.disjoint z (hothers z hz).2.1 hzw
  · rw [ho.cpuRun, Function.update_apply]
    split
    · rfl
    · exact hall c hc

/-- The running jobs and the CPUs stay as they are. -/
theorem same_running (h : JobsDispatched m s) (hr : s'.runList = s.runList) (hb : s'.cpuRun = s.cpuRun)
    (hc : ∀ z ∈ s.runList, s'.cpu z = s.cpu z) :
    (∀ z ∈ s'.runList, ∀ w ∈ s'.runList, s'.cpu z = s'.cpu w → z = w) ∧
      ∀ d, s'.cpuRun d = true ↔ ∃ z ∈ s'.runList, s'.cpu z = d := by
  rw [hr, hb]
  refine ⟨fun z hz w hw he => ?_, fun d => ?_⟩
  · rw [hc z hz, hc w hw] at he
    exact h.distinct z hz w hw he
  · rw [h.busy]
    refine exists_congr fun z => and_congr_right fun hz => ?_
    rw [hc z hz]

theorem Waits.dispatched {p : ℕ} (ho : Waits g x p s s') (h : JobsDispatched m s)
    (hall : ∀ c < m, s.cpuRun c = true) (hs : (s.task x).submitted = true) (hx : ¬ s.Listed x) :
    JobsDispatched m s' := by
  have hxw : x ∉ s.waitList := fun hw => hx (Or.inr hw)
  have hcpu : ∀ z, s'.cpu z = s.cpu z := fun z => cpu_of_task (ho.task z) rfl
  have hmemw : ∀ z, z ∈ s'.waitList ↔ z = x ∨ z ∈ s.waitList := by
    intro z
    rw [ho.waitList, mem_insertBefore]
  obtain ⟨hdist, hbusy⟩ := same_running h ho.runList ho.cpuRun fun z _ => hcpu z
  obtain ⟨hsub, hroom⟩ := h.tasks
    (ho.fixed submitted_fixed)
    (fun z => Or.inl (hcpu z))
    (fun z hz => by
      rcases hz with hz | hz
      · exact h.submitted z (Or.inl (ho.runList ▸ hz))
      · rcases (hmemw z).1 hz with rfl | hz
        · exact hs
        · exact h.submitted z (Or.inr hz))
  refine ⟨?_, ?_, ?_, hsub, hroom, hdist, hbusy, fun _ c hc => ?_⟩
  · rw [ho.runList]
    exact h.nodupRun
  · rw [ho.waitList]
    exact nodup_insertBefore hxw h.nodupWait
  · rw [ho.runList]
    intro z hz hzw
    rcases (hmemw z).1 hzw with rfl | hzw
    · exact hx (Or.inl hz)
    · exact h.disjoint z hz hzw
  · -- it waits, and no CPU is free
    rw [ho.cpuRun]
    exact hall c hc

theorem Leaves.dispatched (ho : Leaves x s s') (h : JobsDispatched m s) (hx : x ∈ s.runList) :
    JobsDispatched m s' := by
  have hcpu : ∀ z, s'.cpu z = s.cpu z := fun z => cpu_of_task (ho.task z) rfl
  obtain ⟨hothers, hb⟩ := h.others hx
  obtain ⟨hsub, hroom⟩ := h.tasks
    (ho.fixed submitted_fixed)
    (fun z => Or.inl (hcpu z))
    (fun z hz => by
      rcases hz with hz | hz
      · exact h.submitted z (Or.inl (hothers z (ho.runList ▸ hz)).2.1)
      · rw [ho.waitList] at hz
        exact absurd hz List.not_mem_nil)
  refine ⟨?_, ?_, ?_, hsub, hroom, ?_, fun d => ?_, fun hw => absurd ho.waitList hw⟩
  · rw [ho.runList]
    exact h.nodupRun.filter _
  · rw [ho.waitList]
    exact List.nodup_nil
  · rw [ho.waitList]
    exact fun _ _ => List.not_mem_nil
  · rw [ho.runList]
    intro z hz w hw he
    rw [hcpu, hcpu] at he
    exact h.distinct z (hothers z hz).2.1 w (hothers w hw).2.1 he
  · rw [ho.runList, ho.cpuRun]
    -- the CPU of `x` is free now, since `x` was alone on it
    by_cases hd : d = s.cpu x
    · subst hd
      rw [Function.update_self]
      constructor
      · intro e
        cases e
      · rintro ⟨z, hz, hzx⟩
        rw [hcpu] at hzx
        exact absurd hzx (hothers z hz).2.2
    · rw [Function.update_of_ne hd, hb d hd]
      refine exists_congr fun z => and_congr_right fun _ => ?_
      rw [hcpu]

theorem HandsOver.dispatched {n : ℕ} (ho : HandsOver g x n s s') (h : JobsDispatched m s)
    (hx : x ∈ s.runList) : JobsDispatched m s' := by
  obtain ⟨rest, hw, hw'⟩ := ho.first
  have hnw : n ∈ s.waitList := by simp [hw]
  have hrest : ∀ z ∈ rest, z ∈ s.waitList := fun z hz => by simp [hw, hz]
  have hnodup := h.nodupWait
  rw [hw] at hnodup
  obtain ⟨hn, hnodup⟩ := List.nodup_cons.1 hnodup
  obtain ⟨hothers, hb⟩ := h.others hx
  have hnL : n ∉ s.runList.filter (· ≠ x) := fun hmem => h.disjoint n (hothers n hmem).2.1 hnw
  -- the CPU of `x` goes to `n`
  have hself : s'.cpu n = s.cpu x := by
    unfold PluginState.cpu
    rw [ho.task, if_pos rfl]
    rfl
  have hcpu : ∀ z, z ≠ n → s'.cpu z = s.cpu z := fun z hz =>
    cpu_of_task ((ho.task z).trans (if_neg hz)) rfl
  have hmem := mem_insert_filter ho.runList
  have hbx : s.cpuRun (s.cpu x) = true := (h.busy _).2 ⟨x, hx, rfl⟩
  have hcr : s'.cpuRun = Function.update s.cpuRun (s.cpu x) true := by
    rw [ho.cpuRun, ← hbx, Function.update_eq_self]
  obtain ⟨hdist, hbusy⟩ := put_on
    (fun z hz w hw => h.distinct z (hothers z hz).2.1 w (hothers w hw).2.1)
    (fun z hz => (hothers z hz).2.2) hb hmem hself
    (fun z hz => hcpu z fun e => hnL (e ▸ hz)) hcr
  obtain ⟨hsub, hroom⟩ := h.tasks
    (ho.fixed submitted_fixed)
    (fun z => by
      by_cases hz : z = n
      · exact Or.inr (by rw [hz, hself]; exact h.cpu_lt (Or.inl hx))
      · exact Or.inl (hcpu z hz))
    (fun z hz => by
      rcases hz with hz | hz
      · rcases (hmem z).1 hz with rfl | hz
        · exact h.submitted z (Or.inr hnw)
        · exact h.submitted z (Or.inl (hothers z hz).2.1)
      · exact h.submitted z (Or.inr (hrest z (hw' ▸ hz))))
  refine ⟨?_, ?_, ?_, hsub, hroom, hdist, hbusy, fun _ c hc => ?_⟩
  · rw [ho.runList]
    exact nodup_insertBefore hnL (h.nodupRun.filter _)
  · rw [hw']
    exact hnodup
  · intro z hz hzw
    rw [hw'] at hzw
    rcases (hmem z).1 hz with rfl | hz
    · exact hn hzw
    · exact h.disjoint z (hothers z hz).2.1 (hrest z hzw)
  · -- `n` waited, so that every CPU was busy, and still is
    rw [ho.cpuRun]
    exact h.full (List.ne_nil_of_mem hnw) c hc

/-! ## Which tasks are in the lists -/

theorem RunsFree.listed {c : ℕ} (ho : RunsFree g x c s s') (z : ℕ) :
    s'.Listed z ↔ z = x ∨ s.Listed z := by
  unfold PluginState.Listed
  rw [ho.runList, ho.waitList, mem_insertBefore, or_assoc]

theorem Waits.listed {p : ℕ} (ho : Waits g x p s s') (z : ℕ) :
    s'.Listed z ↔ z = x ∨ s.Listed z := by
  unfold PluginState.Listed
  rw [ho.runList, ho.waitList, mem_insertBefore, or_left_comm]

theorem Preempts.listed {p : ℕ} (ho : Preempts g x p s s') (z : ℕ) :
    s'.Listed z ↔ z = x ∨ s.Listed z := by
  have hp : p ∈ s.runList := List.mem_of_getLast? ho.last
  unfold PluginState.Listed
  rw [ho.runList, ho.waitList, mem_insertBefore, mem_insertBefore, List.mem_filter,
    decide_eq_true_iff, or_assoc]
  refine or_congr_right ⟨fun hz => ?_, fun hz => ?_⟩
  · rcases hz with ⟨hz, -⟩ | rfl | hz
    · exact Or.inl hz
    · exact Or.inl hp
    · exact Or.inr hz
  · by_cases hzp : z = p
    · exact Or.inr (Or.inl hzp)
    · rcases hz with hz | hz
      · exact Or.inl ⟨hz, hzp⟩
      · exact Or.inr (Or.inr hz)

theorem Leaves.listed (ho : Leaves x s s') (z : ℕ) : s'.Listed z ↔ z ≠ x ∧ s.Listed z := by
  unfold PluginState.Listed
  rw [ho.runList, ho.waitList, ho.empty, List.mem_filter, decide_eq_true_iff]
  simp only [List.not_mem_nil, or_false]
  exact and_comm

theorem HandsOver.listed {n : ℕ} (ho : HandsOver g x n s s') (h : JobsDispatched m s)
    (hx : x ∈ s.runList) (z : ℕ) : s'.Listed z ↔ z ≠ x ∧ s.Listed z := by
  obtain ⟨rest, hw, hw'⟩ := ho.first
  unfold PluginState.Listed
  rw [ho.runList, hw', mem_insertBefore, List.mem_filter, decide_eq_true_iff, hw, List.mem_cons]
  have hne : z = n ∨ z ∈ rest → z ≠ x := by
    intro hz e
    subst e
    exact h.disjoint z hx (hw ▸ List.mem_cons.2 hz)
  constructor
  · rintro ((rfl | ⟨hz, hzx⟩) | hz)
    · exact ⟨hne (Or.inl rfl), Or.inr (Or.inl rfl)⟩
    · exact ⟨hzx, Or.inl hz⟩
    · exact ⟨hne (Or.inr hz), Or.inr (Or.inr hz)⟩
  · rintro ⟨hzx, hz | rfl | hz⟩
    · exact Or.inl (Or.inr ⟨hz, hzx⟩)
    · exact Or.inl (Or.inl rfl)
    · exact Or.inr hz

/-! ## Steps -/

theorem Elsewhere.dispatched {rt : ℕ} (he : Elsewhere rt s s') (h : JobsDispatched m s)
    (hrt : ¬ s.Listed rt) (hroom : (s'.task rt).submitted = true → s'.cpu rt < m) :
    JobsDispatched m s' := by
  have hne : ∀ z, s.Listed z → s'.task z = s.task z :=
    fun z hz => he.task z fun e => hrt (e ▸ hz)
  have hcpu : ∀ z ∈ s.runList, s'.cpu z = s.cpu z := fun z hz => by
    unfold PluginState.cpu
    rw [hne z (Or.inl hz)]
  obtain ⟨hdist, hbusy⟩ := same_running h he.runList he.cpuRun hcpu
  refine ⟨?_, ?_, ?_, fun z hz => ?_, fun z hz => ?_, hdist, hbusy, ?_⟩
  · rw [he.runList]
    exact h.nodupRun
  · rw [he.waitList]
    exact h.nodupWait
  · rw [he.runList, he.waitList]
    exact h.disjoint
  · rw [hne z ((he.listed z).1 hz)]
    exact h.submitted z ((he.listed z).1 hz)
  · by_cases hzr : z = rt
    · subst hzr
      exact hroom hz
    · have hz' := h.room z (by rw [← he.task z hzr]; exact hz)
      unfold PluginState.cpu at hz' ⊢
      rw [he.task z hzr]
      exact hz'
  · rw [he.waitList, he.cpuRun]
    exact h.full

/-- The step does not complete a waiting job. -/
def PluginOp.CompletesRunning (s : PluginState) : PluginOp → Prop
  | .jobComplete rt => rt ∈ s.runList
  | .taskRun _ | .release _ _ | .jobStart _ => True

/-- **Each running job keeps a CPU of its own** as long as only running jobs complete. -/
theorem pluginStep_dispatched (hm : 0 < m) (h : JobsDispatched m s) {op : PluginOp}
    (hop : op.CompletesRunning s) (hs : pluginStep g m s op = some s') : JobsDispatched m s' := by
  unfold pluginStep at hs
  split at hs
  swap
  · cases hs
  rename_i he
  cases op with
  | taskRun rt =>
    obtain ⟨hel, hcpu, -⟩ := taskRun_elsewhere hs
    refine hel.dispatched h (of_decide_eq_true he) fun _ => ?_
    rw [hcpu]
    exact hm
  | release rt d =>
    rw [PluginOp.exec, Option.some.injEq] at hs
    subst hs
    refine (release_elsewhere s rt d).dispatched h (of_decide_eq_true he) fun hsub => ?_
    unfold PluginState.cpu PluginState.setTask at *
    dsimp only at hsub ⊢
    rw [Function.update_self] at hsub ⊢
    exact h.room rt hsub
  | jobStart rt =>
    rw [PluginOp.exec, Option.some.injEq] at hs
    subst hs
    simp only [PluginOp.enabled, Bool.and_eq_true, decide_eq_true_iff] at he
    rcases jobStart_cases (g := g) hm h he.1 he.2 with ⟨c, hc, ho⟩ | ⟨hall, p, ho | ho⟩
    · exact ho.dispatched h hc he.1 he.2
    · exact ho.dispatched h hall he.1 he.2
    · exact ho.dispatched h hall he.1 he.2
  | jobComplete rt =>
    rw [PluginOp.exec, Option.some.injEq] at hs
    subst hs
    rcases jobComplete_running g h hop with ho | ⟨n, ho⟩
    · exact ho.dispatched h hop
    · exact ho.dispatched h hop

theorem JobsDispatched.length (h : JobsDispatched m s) : s.runList.length ≤ m := by
  have hnodup : (s.runList.map s.cpu).Nodup :=
    h.nodupRun.map_on fun x hx y hy he => h.distinct x hx y hy he
  have hsub : s.runList.map s.cpu ⊆ List.range m := by
    intro c hc
    obtain ⟨x, hx, rfl⟩ := List.mem_map.1 hc
    exact List.mem_range.2 (h.cpu_lt (Or.inl hx))
  have := (hnodup.subperm hsub).length_le
  rwa [List.length_map, List.length_range] at this

/-- With all CPUs running there are as many running jobs. -/
theorem JobsDispatched.length_full (h : JobsDispatched m s) (hall : ∀ c < m, s.cpuRun c = true) :
    m ≤ s.runList.length := by
  have hsub : List.range m ⊆ s.runList.map s.cpu := by
    intro c hc
    obtain ⟨x, hx, hxc⟩ := (h.busy c).1 (hall c (List.mem_range.1 hc))
    exact List.mem_map.2 ⟨x, hx, hxc⟩
  have := (List.nodup_range.subperm hsub).length_le
  rwa [List.length_map, List.length_range] at this

theorem pluginInit_dispatched (m : ℕ) (task : ℕ → PluginTask) : JobsDispatched m (pluginInit task) := by
  have hno : ∀ z, ¬ (pluginInit task).Listed z := by
    intro z hz
    rcases hz with hz | hz <;> exact absurd hz List.not_mem_nil
  refine ⟨List.nodup_nil, List.nodup_nil, fun z hz => absurd (Or.inl hz) (hno z),
    fun z hz => absurd hz (hno z), fun z hz => ?_, fun z hz => absurd (Or.inl hz) (hno z),
    fun c => ?_, fun hw => absurd rfl hw⟩
  · cases hz
  · constructor
    · intro e
      cases e
    · rintro ⟨z, hz, -⟩
      exact absurd (Or.inl hz) (hno z)

end Resch
