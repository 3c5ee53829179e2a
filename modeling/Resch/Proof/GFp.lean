import Resch.Lib.Runs
import Resch.Proof.JobsOrdered

/-!
# G-FP and FP-US

`GFpOk` says that the running jobs are those of the highest base priorities. The lists are
in order of `rt->prio`, which is the base priority of a job in a list (`GFpInv.listed`) but
`GFP_PRIO_HIGH` when a job starts (`GFpInv.high`): `__job_start` compares it before the
base priority is put back. `runningStep_ok_iff` says for which priorities that is harmless.
-/

namespace Resch

open Lib

variable {g : GlobalPlugin} {m : ℕ} {s s' : PluginState}

/-- Both lists are sorted by base priority, and no waiting job has a higher one than a running
job. -/
structure GFpOk (s : PluginState) : Prop where
  runSorted : s.runList.Pairwise fun a b => (s.task b).base ≤ (s.task a).base
  waitSorted : s.waitList.Pairwise fun a b => (s.task b).base ≤ (s.task a).base
  order : ∀ w ∈ s.waitList, ∀ r ∈ s.runList, (s.task w).base ≤ (s.task r).base

/-- A starting job has at least the base priority of the listed jobs below `GFP_PRIO_HIGH`, and
at most that of the others. -/
def PluginOp.BaseFits (s : PluginState) : PluginOp → Prop
  | .jobStart rt => ∀ q, s.Listed q →
      ((s.task q).base < pluginPrioHigh → (s.task q).base ≤ (s.task rt).base) ∧
        (pluginPrioHigh ≤ (s.task q).base → (s.task rt).base ≤ (s.task q).base)
  | .taskRun _ | .release _ _ | .jobComplete _ => True

/-- The plugins that compare priorities and put the base priority back. -/
structure ByPrio (g : GlobalPlugin) : Prop where
  before : g.before = gFp.before
  own : g.own = gFp.own

theorem byPrio_gFp : ByPrio gFp := ⟨rfl, rfl⟩

theorem byPrio_fpUs (c : Config) : ByPrio (fpUs c) := ⟨rfl, rfl⟩

/-- Jobs in the lists have their base priorities, and submitted tasks between jobs the high one. -/
structure GFpInv (m : ℕ) (s : PluginState) : Prop where
  dispatched : JobsDispatched m s
  listed : ∀ x, s.Listed x → (s.task x).prio = (s.task x).base
  high : ∀ x, (s.task x).submitted = true → ¬ s.Listed x → (s.task x).prio = pluginPrioHigh

def baseKey (t : PluginTask) : ℤ := -t.base

theorem base_fixed : Fixed PluginTask.base where
  scheduler _ _ _ := rfl
  cpuId _ _ := rfl

theorem baseKey_fixed : Fixed baseKey where
  scheduler _ _ _ := rfl
  cpuId _ _ := rfl

theorem GFpOk.iff_ordered : GFpOk s ↔ JobsOrdered baseKey s := by
  constructor
  · rintro ⟨hr, hw, ho⟩
    exact ⟨hr.imp neg_le_neg, hw.imp neg_le_neg, fun w hw r hr => neg_le_neg (ho w hw r hr)⟩
  · rintro ⟨hr, hw, ho⟩
    exact ⟨hr.imp neg_le_neg_iff.1, hw.imp neg_le_neg_iff.1,
      fun w hw r hr => neg_le_neg_iff.1 (ho w hw r hr)⟩

theorem ByPrio.before_iff (hg : ByPrio g) (t u : PluginTask) : g.before t u = true ↔ u.prio < t.prio := by
  rw [hg.before]
  exact decide_eq_true_iff

/-- Listed jobs are compared by their base priorities. -/
theorem ByPrio.orderedBy (hg : ByPrio g) (hi : GFpInv m s) : OrderedBy g baseKey s := by
  refine ⟨fun y z hy hz => ?_, fun x y z hy hz hyz hb => ?_⟩
  · rw [hg.before_iff, hi.listed y hy, hi.listed z hz]
    unfold baseKey
    omega
  · rw [hg.before_iff, hi.listed y hy] at hb
    rw [hg.before_iff, hi.listed z hz]
    unfold baseKey at hyz
    omega

/-- The condition on a start, in terms of the comparisons it makes. -/
theorem ByPrio.baseFits_iff (hg : ByPrio g) (hi : GFpInv m s) {rt : ℕ}
    (hs : (s.task rt).submitted = true) (hrt : ¬ s.Listed rt) :
    (∀ y, s.Listed y → AgreesOn g baseKey s rt y) ↔ (PluginOp.jobStart rt).BaseFits s := by
  refine forall_congr' fun y => imp_congr_right fun hy => ?_
  unfold AgreesOn
  rw [← Bool.not_eq_true, hg.before_iff, hi.high rt hs hrt, hi.listed y hy, not_lt]
  unfold baseKey
  exact and_congr (imp_congr_right fun _ => neg_le_neg_iff) (imp_congr_right fun _ => neg_le_neg_iff)

/-! ## The priorities in runs -/

/-- The start of a job puts its base priority back. -/
theorem GFpInv.start {x : ℕ} (h : GFpInv m s) (hd : JobsDispatched m s')
    (htask : ∀ z, z ≠ x → s'.task z = s.task z) (hx : (s'.task x).prio = (s'.task x).base)
    (hl : ∀ z, s'.Listed z ↔ z = x ∨ s.Listed z) : GFpInv m s' := by
  refine ⟨hd, fun z hz => ?_, fun z hs hz => ?_⟩
  · by_cases hzx : z = x
    · rw [hzx]
      exact hx
    · rw [htask z hzx]
      exact h.listed z (((hl z).1 hz).resolve_left hzx)
  · have hzx : z ≠ x := fun e => hz ((hl z).2 (Or.inl e))
    rw [htask z hzx] at hs ⊢
    exact h.high z hs fun hz' => hz ((hl z).2 (Or.inr hz'))

/-- The completion of a job raises the priority of its task. -/
theorem GFpInv.complete {x : ℕ} (h : GFpInv m s) (hd : JobsDispatched m s')
    (hprio : ∀ z, z ≠ x → (s'.task z).prio = (s.task z).prio)
    (hbase : ∀ z, (s'.task z).base = (s.task z).base)
    (hsub : ∀ z, (s'.task z).submitted = (s.task z).submitted)
    (hx : (s'.task x).prio = pluginPrioHigh)
    (hl : ∀ z, s'.Listed z ↔ z ≠ x ∧ s.Listed z) : GFpInv m s' := by
  refine ⟨hd, fun z hz => ?_, fun z hs hz => ?_⟩
  · obtain ⟨hzx, hz⟩ := (hl z).1 hz
    rw [hprio z hzx, hbase z]
    exact h.listed z hz
  · by_cases hzx : z = x
    · rw [hzx]
      exact hx
    · rw [hprio z hzx]
      rw [hsub] at hs
      exact h.high z hs fun hz' => hz ((hl z).2 ⟨hzx, hz'⟩)

theorem GFpInv.elsewhere {rt : ℕ} (h : GFpInv m s) (he : Elsewhere rt s s') (hd : JobsDispatched m s')
    (hrt : ¬ s.Listed rt) (hp : (s'.task rt).submitted = true → (s'.task rt).prio = pluginPrioHigh) :
    GFpInv m s' := by
  refine ⟨hd, fun z hz => ?_, fun z hs hz => ?_⟩
  · have hz' := (he.listed z).1 hz
    rw [he.task z fun e => hrt (e ▸ hz')]
    exact h.listed z hz'
  · by_cases hzr : z = rt
    · rw [hzr] at hs ⊢
      exact hp hs
    · rw [he.task z hzr] at hs ⊢
      exact h.high z hs fun hz' => hz ((he.listed z).2 hz')

theorem runningStep_cases {op : PluginOp} (hs : runningStep g m s op = some s') :
    op.CompletesRunning s ∧ pluginStep g m s op = some s' := by
  cases op with
  | taskRun rt | release rt d | jobStart rt => exact ⟨trivial, hs⟩
  | jobComplete rt =>
    rw [runningStep] at hs
    split at hs
    · exact ⟨‹_›, hs⟩
    · cases hs

/-- **The priorities in a step.** -/
theorem ByPrio.step (hg : ByPrio g) (hm : 0 < m) (h : GFpInv m s) {op : PluginOp}
    (hs : runningStep g m s op = some s') : GFpInv m s' := by
  obtain ⟨hop, hs⟩ := runningStep_cases hs
  have hd := pluginStep_dispatched hm h.dispatched hop hs
  unfold pluginStep at hs
  split at hs
  swap
  · cases hs
  rename_i he
  have hback : ∀ t, (g.back t).prio = (g.back t).base := by
    intro t
    unfold GlobalPlugin.back
    rw [hg.own]
    rfl
  cases op with
  | taskRun rt =>
    obtain ⟨hel, -, hprio⟩ := taskRun_elsewhere hs
    exact h.elsewhere hel hd (of_decide_eq_true he) fun _ => hprio
  | release rt d =>
    rw [PluginOp.exec, Option.some.injEq] at hs
    subst hs
    have hrt : ¬ s.Listed rt := of_decide_eq_true he
    refine h.elsewhere (release_elsewhere s rt d) hd hrt fun hsub => ?_
    unfold PluginState.setTask at hsub ⊢
    dsimp only at hsub ⊢
    rw [Function.update_self] at hsub ⊢
    exact h.high rt hsub hrt
  | jobStart rt =>
    rw [PluginOp.exec, Option.some.injEq] at hs
    subst hs
    simp only [PluginOp.enabled, Bool.and_eq_true, decide_eq_true_iff] at he
    -- on a free CPU, in place of the last running task, or waiting
    rcases jobStart_cases (g := g) hm h.dispatched he.1 he.2 with ⟨c, hc, hr⟩ | ⟨-, p, hp | hw⟩
    · refine h.start hd (fun z hz => by rw [hr.task, if_neg hz]) ?_ hr.listed
      rw [hr.task, if_pos rfl]
      exact hback _
    · refine h.start hd (fun z hz => by rw [hp.task, if_neg hz]) ?_ hp.listed
      rw [hp.task, if_pos rfl]
      exact hback _
    · refine h.start hd (fun z hz => by rw [hw.task, if_neg hz]) ?_ hw.listed
      rw [hw.task, if_pos rfl]
      exact hback _
  | jobComplete rt =>
    rw [PluginOp.exec, Option.some.injEq] at hs
    subst hs
    -- nobody waits, or the first that waits takes over
    rcases jobComplete_running g h.dispatched hop with hl | ⟨n, hn⟩
    · refine h.complete hd (fun z hz => ?_) (hl.fixed base_fixed) (hl.fixed submitted_fixed) ?_ hl.listed
      · rw [hl.task, if_neg hz]
      · rw [hl.task, if_pos rfl]
        rfl
    · have hlisted := hn.listed h.dispatched hop
      have hnrt : rt ≠ n := by
        rintro rfl
        have hmem := (mem_insert_filter hn.runList rt).2 (Or.inl rfl)
        exact ((hlisted rt).1 (Or.inl hmem)).1 rfl
      refine h.complete hd (fun z hz => ?_) (hn.fixed base_fixed) (hn.fixed submitted_fixed) ?_ hlisted
      · rw [hn.task]
        split
        · rename_i e
          rw [e]
        · rfl
      · rw [hn.task, if_neg hnrt, if_pos rfl]
        rfl

/-- **The step lemma.** -/
theorem runningStep_ok_iff (hg : ByPrio g) (hm : 0 < m) (hi : GFpInv m s) (h : GFpOk s)
    {op : PluginOp} (hs : runningStep g m s op = some s') : GFpOk s' ↔ op.BaseFits s := by
  obtain ⟨hop, hs⟩ := runningStep_cases hs
  have hiff := pluginStep_ordered_iff baseKey_fixed hm hi.dispatched (GFpOk.iff_ordered.1 h)
    (hg.orderedBy hi) hop hs
  rw [GFpOk.iff_ordered, hiff]
  cases op with
  | taskRun rt | release rt d | jobComplete rt => exact ⟨fun _ => trivial, fun _ rt' e => by cases e⟩
  | jobStart rt =>
    unfold pluginStep at hs
    split at hs
    swap
    · cases hs
    rename_i he
    simp only [PluginOp.enabled, Bool.and_eq_true, decide_eq_true_iff] at he
    rw [← hg.baseFits_iff hi he.1 he.2]
    constructor
    · exact fun hag => hag rt rfl
    · intro hag rt' e
      cases e
      exact hag

theorem pluginInit_prioInv (m : ℕ) (task : ℕ → PluginTask) : GFpInv m (pluginInit task) := by
  have hd := pluginInit_dispatched m task
  refine ⟨hd, fun x hx => ?_, fun x hx => ?_⟩
  · rcases hx with hx | hx <;> exact absurd hx List.not_mem_nil
  · cases hx

theorem ByPrio.ok_iff (hg : ByPrio g) (hm : 0 < m) (task : ℕ → PluginTask) (ops : List PluginOp) :
    Always (runningStep g m) GFpOk (pluginInit task) ops ↔
      Each (runningStep g m) (fun s op => op.BaseFits s) (pluginInit task) ops := by
  refine always_iff_each (fun s op s' hi h hs _ => ?_) (fun s op s' hi h hs => ?_) ops _
    (pluginInit_prioInv m task) (GFpOk.iff_ordered.2 (pluginInit_ordered _ task))
  · exact hg.step hm hi hs
  · exact runningStep_ok_iff hg hm hi h hs

/-- **G-FP and FP-US in runs.** On any number of CPUs, the running jobs have the highest base
priorities in every state of a run iff each starting job has at least the base priority of the
listed jobs below `GFP_PRIO_HIGH`, and at most that of the others. -/
theorem gFp_ok_iff (c : Config) (hm : 0 < c.nrRtCpus) (task : ℕ → PluginTask) (ops : List PluginOp) :
    (Always (runningStep gFp c.nrRtCpus) GFpOk (pluginInit task) ops ↔
      Each (runningStep gFp c.nrRtCpus) (fun s op => op.BaseFits s) (pluginInit task) ops) ∧
    (Always (runningStep (fpUs c) c.nrRtCpus) GFpOk (pluginInit task) ops ↔
      Each (runningStep (fpUs c) c.nrRtCpus) (fun s op => op.BaseFits s) (pluginInit task) ops) :=
  ⟨byPrio_gFp.ok_iff hm task ops, (byPrio_fpUs c).ok_iff hm task ops⟩

/-- Two tasks, of priorities 50 and 10. -/
def fiftyTen (i : ℕ) : PluginTask := ⟨if i = 0 then 50 else 10, reschSchedFp, 0, 0, 1, 10, 0, false⟩

/-- Both start a job, the one of the higher priority first. -/
def highFirst : List PluginOp := [.taskRun 0, .taskRun 1, .jobStart 0, .jobStart 1]

theorem gFp_ok_iff_highFirst :
    (Always (runningStep gFp 1) GFpOk (pluginInit fiftyTen) highFirst ↔
      Each (runningStep gFp 1) (fun s op => op.BaseFits s) (pluginInit fiftyTen) highFirst) ∧
    (Always (runningStep (fpUs (Config.small false)) 1) GFpOk (pluginInit fiftyTen) highFirst ↔
      Each (runningStep (fpUs (Config.small false)) 1) (fun s op => op.BaseFits s)
        (pluginInit fiftyTen) highFirst) :=
  gFp_ok_iff (Config.small false) (by decide) fiftyTen highFirst

/-- The job of priority 10 preempts the one of priority 50, with either plugin. -/
theorem gFp_not_ok :
    (¬ ∀ (c : Config) (task : ℕ → PluginTask) (ops : List PluginOp), 0 < c.nrRtCpus →
      Always (runningStep gFp c.nrRtCpus) GFpOk (pluginInit task) ops) ∧
    ¬ ∀ (c : Config) (task : ℕ → PluginTask) (ops : List PluginOp), 0 < c.nrRtCpus →
      Always (runningStep (fpUs c) c.nrRtCpus) GFpOk (pluginInit task) ops := by
  have inverted : ∀ s : PluginState, s.runList = [1] ∧ s.waitList = [0] ∧ (s.task 0).base = 50 ∧
      (s.task 1).base = 10 → ¬ GFpOk s := by
    rintro s ⟨hr, hw, h0, h1⟩ hok
    have := hok.order 0 (by simp [hw]) 1 (by simp [hr])
    omega
  constructor <;> intro hall
  · obtain ⟨s, hok, ht⟩ := (hall (Config.small false) fiftyTen highFirst (by decide)).final_test
      (fun s => decide (s.runList = [1] ∧ s.waitList = [0] ∧ (s.task 0).base = 50 ∧
        (s.task 1).base = 10)) (by decide +kernel)
    exact inverted s (of_decide_eq_true ht) hok
  · obtain ⟨s, hok, ht⟩ := (hall (Config.small false) fiftyTen highFirst (by decide)).final_test
      (fun s => decide (s.runList = [1] ∧ s.waitList = [0] ∧ (s.task 0).base = 50 ∧
        (s.task 1).base = 10)) (by decide +kernel)
    exact inverted s (of_decide_eq_true ht) hok

end Resch
