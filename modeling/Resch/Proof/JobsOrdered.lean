import Resch.Proof.Dispatched
import Mathlib.Algebra.Order.Ring.Int

/-!
# The order of running and waiting jobs

`JobsOrdered key` says that both lists are in order of a key of the tasks, and that no waiting
job comes before a running one. Completions keep it; the start of a job keeps it iff no
comparison of the job with a listed one contradicts the keys (`AgreesOn`). Both need that
the listed jobs are compared by their keys.
-/

namespace Resch

open Lib

variable {g : GlobalPlugin} {m : ℕ} {s s' : PluginState} {gt x y : ℕ}

/-- Both lists are in order of the key, and no waiting job comes before a running one. -/
structure JobsOrdered (key : PluginTask → ℤ) (s : PluginState) : Prop where
  run : s.runList.Pairwise fun a b => key (s.task a) ≤ key (s.task b)
  wait : s.waitList.Pairwise fun a b => key (s.task a) ≤ key (s.task b)
  cross : ∀ w ∈ s.waitList, ∀ r ∈ s.runList, key (s.task r) ≤ key (s.task w)

/-- The comparison of `x` with `y` does not contradict the key. -/
def AgreesOn (g : GlobalPlugin) (key : PluginTask → ℤ) (s : PluginState) (x y : ℕ) : Prop :=
  (g.before (s.task x) (s.task y) = true → key (s.task x) ≤ key (s.task y)) ∧
    (g.before (s.task x) (s.task y) = false → key (s.task y) ≤ key (s.task x))

section Order

variable {key : PluginTask → ℤ} {L : List ℕ}

/-- A list after the insertion of `x`, whose key is the one before the call. -/
theorem insert_ordered_iff (hk : ∀ z, key (s'.task z) = key (s.task z))
    (hL : L.Pairwise fun a b => key (s.task a) ≤ key (s.task b))
    (hmono : ∀ y ∈ L, ∀ z ∈ L, key (s.task y) ≤ key (s.task z) →
      g.before (s.task x) (s.task y) = true → g.before (s.task x) (s.task z) = true) :
    (insertBefore (fun p => g.before (s.task x) (s.task p)) x L).Pairwise
        (fun a b => key (s'.task a) ≤ key (s'.task b)) ↔ ∀ y ∈ L, AgreesOn g key s x y := by
  simp only [hk]
  exact insertBefore_sorted_iff (fun _ _ _ => le_trans) hL hmono

variable (hk : ∀ z, key (s'.task z) = key (s.task z))
  (hl : ∀ y z, s.Listed y → s.Listed z →
    (g.before (s.task y) (s.task z) = true ↔ key (s.task y) < key (s.task z)))

include hl in
/-- Listed jobs are compared by their keys. -/
theorem agreesOn_listed (hx : s.Listed x) (hy : s.Listed y) : AgreesOn g key s x y := by
  refine ⟨fun h => ((hl x y hx hy).1 h).le, fun h => ?_⟩
  by_contra hlt
  rw [(hl x y hx hy).2 (not_le.1 hlt)] at h
  cases h

include hl in
theorem mono_listed (hx : s.Listed x) {z : ℕ} (hy : s.Listed y) (hz : s.Listed z)
    (hyz : key (s.task y) ≤ key (s.task z)) (h : g.before (s.task x) (s.task y) = true) :
    g.before (s.task x) (s.task z) = true :=
  (hl x z hx hz).2 (((hl x y hx hy).1 h).trans_le hyz)

/-- The last job of an ordered run list has the largest key. -/
theorem le_last {p : ℕ} (ho : JobsOrdered key s) (hp : s.runList.getLast? = some p) :
    ∀ r ∈ s.runList, key (s.task r) ≤ key (s.task p) := by
  obtain ⟨L, hL⟩ := List.getLast?_eq_some_iff.1 hp
  intro r hr
  have hrun := ho.run
  rw [hL] at hr hrun
  rcases List.mem_append.1 hr with hr | hr
  · exact (List.pairwise_append.1 hrun).2.2 r hr p (by simp)
  · rw [List.mem_singleton.1 hr]

include hk in
theorem RunsFree.ordered_iff {c : ℕ} (h : RunsFree g x c s s') (ho : JobsOrdered key s)
    (hempty : s.waitList = [])
    (hmono : ∀ y z, s.Listed y → s.Listed z → key (s.task y) ≤ key (s.task z) →
      g.before (s.task x) (s.task y) = true → g.before (s.task x) (s.task z) = true) :
    JobsOrdered key s' ↔ ∀ y, s.Listed y → AgreesOn g key s x y := by
  have hiff := insert_ordered_iff (g := g) hk ho.run
    fun y hy z hz => hmono y z (Or.inl hy) (Or.inl hz)
  rw [← h.runList] at hiff
  have hwait : s'.waitList = [] := h.waitList.trans hempty
  constructor
  · intro ho' y hy
    rcases hy with hy | hy
    · exact hiff.1 ho'.run y hy
    · rw [hempty] at hy
      exact absurd hy List.not_mem_nil
  · intro hag
    refine ⟨hiff.2 fun y hy => hag y (Or.inl hy), ?_, ?_⟩
    · rw [hwait]
      exact List.Pairwise.nil
    · rw [hwait]
      exact fun w hw => absurd hw List.not_mem_nil

include hk hl in
theorem Preempts.ordered_iff {p : ℕ} (h : Preempts g x p s s') (ho : JobsOrdered key s)
    (hmono : ∀ y z, s.Listed y → s.Listed z → key (s.task y) ≤ key (s.task z) →
      g.before (s.task x) (s.task y) = true → g.before (s.task x) (s.task z) = true) :
    JobsOrdered key s' ↔ ∀ y, s.Listed y → AgreesOn g key s x y := by
  have hp : p ∈ s.runList := List.mem_of_getLast? h.last
  have hlast := le_last ho h.last
  have hmemf : ∀ z ∈ s.runList.filter (· ≠ p), z ∈ s.runList := fun z hz => (List.mem_filter.1 hz).1
  have hrun := insert_ordered_iff (g := g) (x := x) hk (ho.run.filter (· ≠ p))
    fun y hy z hz => hmono y z (Or.inl (hmemf y hy)) (Or.inl (hmemf z hz))
  have hwait := insert_ordered_iff (g := g) (x := p) hk ho.wait
    fun y hy z hz => mono_listed hl (Or.inl hp) (Or.inr hy) (Or.inr hz)
  rw [← h.runList] at hrun
  rw [← h.waitList] at hwait
  have hmem := mem_insert_filter h.runList
  have hmemw : ∀ z, z ∈ s'.waitList ↔ z = p ∨ z ∈ s.waitList := by
    intro z
    rw [h.waitList, mem_insertBefore]
  constructor
  · intro ho' y hy
    -- `p` waits now, so what runs comes before it
    have hxp : key (s.task x) ≤ key (s.task p) := by
      have := ho'.cross p ((hmemw p).2 (Or.inl rfl)) x ((hmem x).2 (Or.inl rfl))
      rwa [hk, hk] at this
    by_cases hyf : y ∈ s.runList.filter (· ≠ p)
    · exact hrun.1 ho'.run y hyf
    · -- `p` itself and the jobs that wait already come after `x`
      have hpy : key (s.task p) ≤ key (s.task y) := by
        rcases hy with hy | hy
        · have hyp : y = p := by
            by_contra hne
            exact hyf (List.mem_filter.2 ⟨hy, by simpa using hne⟩)
          rw [hyp]
        · exact ho.cross y hy p hp
      refine ⟨fun _ => hxp.trans hpy, fun hb => ?_⟩
      rw [hmono p y (Or.inl hp) hy hpy h.before] at hb
      cases hb
  · intro hag
    have hxp : key (s.task x) ≤ key (s.task p) := (hag p (Or.inl hp)).1 h.before
    refine ⟨hrun.2 fun y hy => hag y (Or.inl (hmemf y hy)),
      hwait.2 fun y hy => agreesOn_listed hl (Or.inl hp) (Or.inr hy), fun w hw r hr => ?_⟩
    rw [hk, hk]
    have hrp : key (s.task r) ≤ key (s.task p) := by
      rcases (hmem r).1 hr with rfl | hr
      · exact hxp
      · exact hlast r (hmemf r hr)
    rcases (hmemw w).1 hw with rfl | hw
    · exact hrp
    · exact hrp.trans (ho.cross w hw p hp)

include hk in
theorem Waits.ordered_iff {p : ℕ} (h : Waits g x p s s') (ho : JobsOrdered key s)
    (hmono : ∀ y z, s.Listed y → s.Listed z → key (s.task y) ≤ key (s.task z) →
      g.before (s.task x) (s.task y) = true → g.before (s.task x) (s.task z) = true) :
    JobsOrdered key s' ↔ ∀ y, s.Listed y → AgreesOn g key s x y := by
  have hp : p ∈ s.runList := List.mem_of_getLast? h.last
  have hlast := le_last ho h.last
  have hwait := insert_ordered_iff (g := g) (x := x) hk ho.wait
    fun y hy z hz => hmono y z (Or.inr hy) (Or.inr hz)
  rw [← h.waitList] at hwait
  have hmemw : ∀ z, z ∈ s'.waitList ↔ z = x ∨ z ∈ s.waitList := by
    intro z
    rw [h.waitList, mem_insertBefore]
  -- `x` comes before no running job, since it does not come before the last one
  have hnot : ∀ r ∈ s.runList, g.before (s.task x) (s.task r) = false := by
    intro r hr
    by_contra hb
    have := hmono r p (Or.inl hr) (Or.inl hp) (hlast r hr) (by simpa using hb)
    rw [h.before] at this
    cases this
  constructor
  · intro ho' y hy
    rcases hy with hy | hy
    · refine ⟨fun hb => ?_, fun _ => ?_⟩
      · rw [hnot y hy] at hb
        cases hb
      · have := ho'.cross x ((hmemw x).2 (Or.inl rfl)) y (h.runList ▸ hy)
        rwa [hk, hk] at this
    · exact hwait.1 ho'.wait y hy
  · intro hag
    refine ⟨?_, hwait.2 fun y hy => hag y (Or.inr hy), fun w hw r hr => ?_⟩
    · rw [h.runList]
      simp only [hk]
      exact ho.run
    · rw [hk, hk]
      rw [h.runList] at hr
      rcases (hmemw w).1 hw with rfl | hw
      · exact (hag r (Or.inl hr)).2 (hnot r hr)
      · exact ho.cross w hw r hr

include hk in
theorem Leaves.ordered (h : Leaves x s s') (ho : JobsOrdered key s) : JobsOrdered key s' := by
  refine ⟨?_, ?_, ?_⟩
  · rw [h.runList]
    simp only [hk]
    exact ho.run.filter _
  · rw [h.waitList]
    exact List.Pairwise.nil
  · rw [h.waitList]
    exact fun w hw => absurd hw List.not_mem_nil

include hk hl in
theorem HandsOver.ordered {n : ℕ} (h : HandsOver g x n s s') (ho : JobsOrdered key s) :
    JobsOrdered key s' := by
  obtain ⟨rest, hw, hw'⟩ := h.first
  have hn : n ∈ s.waitList := by simp [hw]
  have hwait := ho.wait
  rw [hw, List.pairwise_cons] at hwait
  have hmemf : ∀ z ∈ s.runList.filter (· ≠ x), z ∈ s.runList := fun z hz => (List.mem_filter.1 hz).1
  have hrun := insert_ordered_iff (g := g) (x := n) hk (ho.run.filter (· ≠ x))
    fun y hy z hz => mono_listed hl (Or.inr hn) (Or.inl (hmemf y hy)) (Or.inl (hmemf z hz))
  rw [← h.runList] at hrun
  refine ⟨hrun.2 fun y hy => agreesOn_listed hl (Or.inr hn) (Or.inl (hmemf y hy)), ?_, ?_⟩
  · rw [hw']
    simp only [hk]
    exact hwait.2
  · intro w hwm r hr
    rw [hw'] at hwm
    rw [hk, hk]
    rcases (mem_insert_filter h.runList r).1 hr with rfl | hr
    · exact hwait.1 w hwm
    · exact ho.cross w (by simp [hw, hwm]) r (hmemf r hr)

end Order

/-! ## Calls between jobs -/

theorem Elsewhere.ordered {rt : ℕ} {key : PluginTask → ℤ} (he : Elsewhere rt s s')
    (hrt : ¬ s.Listed rt) (ho : JobsOrdered key s) : JobsOrdered key s' := by
  have hne : ∀ z, s.Listed z → s'.task z = s.task z :=
    fun z hz => he.task z fun e => hrt (e ▸ hz)
  refine ⟨?_, ?_, ?_⟩
  · rw [he.runList]
    refine ho.run.imp_of_mem fun {a b} ha hb hab => ?_
    rw [hne a (Or.inl ha), hne b (Or.inl hb)]
    exact hab
  · rw [he.waitList]
    refine ho.wait.imp_of_mem fun {a b} ha hb hab => ?_
    rw [hne a (Or.inr ha), hne b (Or.inr hb)]
    exact hab
  · rw [he.runList, he.waitList]
    intro w hw r hr
    rw [hne w (Or.inr hw), hne r (Or.inl hr)]
    exact ho.cross w hw r hr

theorem pluginInit_ordered (key : PluginTask → ℤ) (task : ℕ → PluginTask) :
    JobsOrdered key (pluginInit task) :=
  ⟨List.Pairwise.nil, List.Pairwise.nil, fun _ hw => absurd hw List.not_mem_nil⟩

/-! ## Steps -/

/-- The comparisons with listed jobs are those of a plugin whose lists are ordered by the key. -/
structure OrderedBy (g : GlobalPlugin) (key : PluginTask → ℤ) (s : PluginState) : Prop where
  listed : ∀ y z, s.Listed y → s.Listed z →
    (g.before (s.task y) (s.task z) = true ↔ key (s.task y) < key (s.task z))
  mono : ∀ x y z, s.Listed y → s.Listed z → key (s.task y) ≤ key (s.task z) →
    g.before (s.task x) (s.task y) = true → g.before (s.task x) (s.task z) = true

/-- **The order after a step**, when only running jobs complete. -/
theorem pluginStep_ordered_iff {key : PluginTask → ℤ} (hf : Fixed key) (hm : 0 < m)
    (h : JobsDispatched m s) (ho : JobsOrdered key s)
    (hg : OrderedBy g key s) {op : PluginOp} (hop : op.CompletesRunning s)
    (hs : pluginStep g m s op = some s') :
    JobsOrdered key s' ↔ ∀ rt, op = .jobStart rt → ∀ y, s.Listed y → AgreesOn g key s rt y := by
  unfold pluginStep at hs
  split at hs
  swap
  · cases hs
  rename_i he
  cases op with
  | taskRun rt =>
    have ho' := (taskRun_elsewhere hs).1.ordered (of_decide_eq_true he) ho
    exact ⟨fun _ rt' e => (by cases e), fun _ => ho'⟩
  | release rt d =>
    rw [PluginOp.exec, Option.some.injEq] at hs
    subst hs
    have ho' := (release_elsewhere s rt d).ordered (of_decide_eq_true he) ho
    exact ⟨fun _ rt' e => (by cases e), fun _ => ho'⟩
  | jobStart rt =>
    rw [PluginOp.exec, Option.some.injEq] at hs
    subst hs
    simp only [PluginOp.enabled, Bool.and_eq_true, decide_eq_true_iff] at he
    -- only a start puts a new job into the order
    have hiff : JobsOrdered key (g.jobStart m s rt) ↔ ∀ y, s.Listed y → AgreesOn g key s rt y := by
      rcases jobStart_cases (g := g) hm h he.1 he.2 with ⟨c, hc, hr⟩ | ⟨-, p, hp | hw⟩
      · exact hr.ordered_iff (hr.fixed hf) ho (hr.empty h hc) (hg.mono rt)
      · exact hp.ordered_iff (hp.fixed hf) hg.listed ho (hg.mono rt)
      · exact hw.ordered_iff (hw.fixed hf) ho (hg.mono rt)
    rw [hiff]
    constructor
    · intro hag rt' e
      cases e
      exact hag
    · exact fun hag => hag rt rfl
  | jobComplete rt =>
    rw [PluginOp.exec, Option.some.injEq] at hs
    subst hs
    refine ⟨fun _ rt' e => (by cases e), fun _ => ?_⟩
    rcases jobComplete_running g h hop with hl | ⟨n, hn⟩
    · exact hl.ordered (hl.fixed hf) ho
    · exact hn.ordered (hn.fixed hf) hg.listed ho

end Resch
