import Resch.Lib.Runs
import Resch.Proof.Dispatched
import Mathlib.Tactic.Ring

/-!
# Utilisation separation: EDF-US and FP-US

The plugins compare the utilisation in percents, rounded down, with the threshold in percents,
rounded down. A heavy job keeps the high priority only where `__job_start` puts it back, which
`edf-us.c` never does.

* `UsPlugin.test_iff`: the comparison in terms of the execution time alone.
* `FpUsInv`: with FP-US, heavy jobs come before light ones in both lists, and no light job runs
  while a heavy one waits.
* `us_separated`: the separation in runs in which no execution time falls between the two bounds,
  light tasks of FP-US have lower priorities than heavy ones, and EDF-US starts no heavy job.
-/

namespace Resch

open Lib

/-- The plugins with utilisation separation. -/
inductive UsPlugin
  | edfUs
  | fpUs
  deriving DecidableEq

namespace UsPlugin

variable (c : Config)

def plugin : UsPlugin → GlobalPlugin
  | edfUs => Resch.edfUs c
  | fpUs => Resch.fpUs c

/-- The threshold on `m` CPUs is `m / den m`. -/
def den (m : ℕ) : UsPlugin → ℕ
  | edfUs => 2 * m - 1
  | fpUs => 3 * m - 2

variable (p : UsPlugin) (t : PluginTask)

/-- The utilisation exceeds the threshold. -/
def Heavy : Prop := c.nrRtCpus * (c.usecPerTick * t.period) < p.den c.nrRtCpus * t.wcet

instance : Decidable (p.Heavy c t) := inferInstanceAs (Decidable (_ < _))

/-- The comparison that `task_run` makes -/
def test : Bool :=
  decide (c.nrRtCpus * 100 / p.den c.nrRtCpus < c.usecsToJiffies (t.wcet * 100) / t.period)

/-- A hundred times the longest execution time that `task_run` takes for light -/
def testBound : ℕ := c.usecPerTick * ((c.nrRtCpus * 100 / p.den c.nrRtCpus + 1) * t.period - 1)

/-- The execution time is at most both the threshold and the bound of `task_run`, or above both. -/
def SameSide : Prop :=
  ¬ p.Heavy c t ∧ 100 * t.wcet ≤ p.testBound c t ∨ p.Heavy c t ∧ p.testBound c t < 100 * t.wcet

end UsPlugin

/-- Tasks are taken for heavy iff they are, heavy jobs have the high priority, and no heavy job
waits while a light one runs. -/
structure UsSeparated (p : UsPlugin) (c : Config) (s : PluginState) : Prop where
  classified : ∀ rt, (s.task rt).submitted = true → (p.test c (s.task rt) = true ↔ p.Heavy c (s.task rt))
  high : ∀ rt, s.Listed rt → p.Heavy c (s.task rt) →
    (s.task rt).policy = reschSchedFp ∧ (s.task rt).prio = pluginPrioHigh
  order : ∀ w ∈ s.waitList, ∀ r ∈ s.runList, p.Heavy c (s.task w) → p.Heavy c (s.task r)

/-- A submitted task has an execution time that the multiplication by 100 does not wrap and that
is not between the bounds; with FP-US, a light one has a lower priority than the high one. With
EDF-US, no heavy job starts. -/
def PluginOp.Separates (p : UsPlugin) (c : Config) (s : PluginState) : PluginOp → Prop
  | taskRun rt =>
    (s.task rt).wcet * 100 < 2 ^ 32 ∧ p.SameSide c (s.task rt) ∧
      (p = .fpUs → ¬ p.Heavy c (s.task rt) → (s.task rt).prio < pluginPrioHigh)
  | jobStart rt => p = .edfUs → ¬ p.Heavy c (s.task rt)
  | release _ _ | jobComplete _ => True

variable {c : Config} {p : UsPlugin} {g : GlobalPlugin} {m : ℕ} {s s' : PluginState} {x y : ℕ}

/-! ## The classification -/

theorem UsPlugin.test_iff {t : PluginTask} (ht : 0 < t.period) :
    p.test c t = true ↔ p.testBound c t < 100 * t.wcet := by
  have hpos := c.tick_pos
  unfold UsPlugin.test UsPlugin.testBound Config.usecsToJiffies
  rw [decide_eq_true_iff]
  generalize c.nrRtCpus * 100 / p.den c.nrRtCpus = T
  generalize c.usecPerTick = k at hpos
  -- the product is at least one, so the subtraction does not stop at zero
  obtain ⟨n, hn⟩ : ∃ n, (T + 1) * t.period = n + 1 := by
    refine ⟨(T + 1) * t.period - 1, ?_⟩
    have : 0 < (T + 1) * t.period := Nat.mul_pos (Nat.succ_pos T) ht
    omega
  calc T < (t.wcet * 100 + k - 1) / k / t.period
      ↔ (T + 1) * t.period ≤ (t.wcet * 100 + k - 1) / k := by
        rw [Nat.lt_iff_add_one_le, Nat.le_div_iff_mul_le ht]
    _ ↔ (n + 1) * k ≤ t.wcet * 100 + k - 1 := by rw [hn, Nat.le_div_iff_mul_le hpos]
    _ ↔ k * ((T + 1) * t.period - 1) < 100 * t.wcet := by
        rw [hn, Nat.add_sub_cancel, Nat.add_mul, Nat.one_mul, Nat.mul_comm n k]
        omega

theorem UsPlugin.test_iff_heavy {t : PluginTask} (ht : 0 < t.period) (hs : p.SameSide c t) :
    p.test c t = true ↔ p.Heavy c t := by
  rw [UsPlugin.test_iff ht]
  rcases hs with ⟨hh, hb⟩ | ⟨hh, hb⟩
  · exact iff_of_false (Nat.not_lt.2 hb) hh
  · exact iff_of_true hb hh

theorem heavy_fixed (p : UsPlugin) (c : Config) : Fixed (p.Heavy c) where
  scheduler _ _ _ := rfl
  cpuId _ _ := rfl

theorem test_fixed (p : UsPlugin) (c : Config) : Fixed (p.test c) where
  scheduler _ _ _ := rfl
  cpuId _ _ := rfl

/-! ## What starts and completions keep -/

theorem filter_ne_iff (L : List ℕ) (x z : ℕ) : z ∈ L.filter (· ≠ x) ↔ z ∈ L ∧ z ≠ x := by
  rw [List.mem_filter, decide_eq_true_iff]

/-- The lists stay disjoint, the job that starts is in one of them afterwards, and fixed fields
stay as they are. -/
theorem jobStart_keeps (g : GlobalPlugin) (m : ℕ) (hd : ∀ y ∈ s.runList, y ∉ s.waitList)
    (hx : ¬ s.Listed x) :
    (∀ z ∈ (g.jobStart m s x).runList, z ∉ (g.jobStart m s x).waitList) ∧
      (∀ z, (g.jobStart m s x).Listed z ↔ z = x ∨ s.Listed z) ∧
      ∀ {α : Type} {f : PluginTask → α}, Fixed f → ∀ z,
        f ((g.jobStart m s x).task z) = f (s.task z) := by
  have hxr : x ∉ s.runList := fun hr => hx (Or.inl hr)
  have hxw : x ∉ s.waitList := fun hw => hx (Or.inr hw)
  rcases jobStart_eq g m s x with ⟨c, hfree, -, he⟩ | ⟨-, ⟨p, hp, hbef, he⟩ | ⟨-, he⟩⟩
  · have ho := run_runsFree (g := g) hxr hfree
    rw [he]
    refine ⟨fun z hz => ?_, ho.listed, fun hf => ho.fixed hf⟩
    rw [ho.runList, mem_insertBefore] at hz
    rw [ho.waitList]
    rcases hz with rfl | hz
    · exact hxw
    · exact hd z hz
  · have hpr : p ∈ s.runList := List.mem_of_getLast? hp
    have ho := run_preempts (g := g) hxr hp hbef (hd p hpr)
    rw [he]
    refine ⟨fun z hz => ?_, ho.listed, fun hf => ho.fixed hf⟩
    rw [ho.runList, mem_insertBefore, filter_ne_iff] at hz
    rw [ho.waitList, mem_insertBefore, not_or]
    rcases hz with rfl | ⟨hz, hzp⟩
    · exact ⟨fun e => hxr (e ▸ hpr), hxw⟩
    · exact ⟨hzp, hd z hz⟩
  · obtain ⟨hw, hr, -⟩ := wait_lists g s hxw
    rw [he]
    refine ⟨fun z hz => ?_, fun z => ?_, fun hf z => ?_⟩
    · rw [hr] at hz
      rw [hw, mem_insertBefore, not_or]
      exact ⟨fun e => hxr (e ▸ hz), hd z hz⟩
    · unfold PluginState.Listed
      rw [hr, hw, mem_insertBefore, or_left_comm]
    · rw [wait_task]
      split
      · rename_i e
        rw [e, hf.back]
      · rfl

theorem jobComplete_keeps (g : GlobalPlugin) (hd : ∀ y ∈ s.runList, y ∉ s.waitList) (x : ℕ) :
    (∀ z ∈ (g.jobComplete s x).runList, z ∉ (g.jobComplete s x).waitList) ∧
      (∀ z, (g.jobComplete s x).Listed z ↔ z ≠ x ∧ s.Listed z) ∧
      ∀ {α : Type} {f : PluginTask → α}, Fixed f → ∀ z,
        f ((g.jobComplete s x).task z) = f (s.task z) := by
  rcases jobComplete_cases g hd x with ⟨hempty, hr, hw, -, ht⟩ | ⟨n, rest, hwait, hr, hw, -, ht⟩
  · -- nobody else waits
    have hgone : ∀ z ∈ s.waitList, z = x := by
      intro z hz
      by_contra hzx
      have hzf := (filter_ne_iff s.waitList x z).2 ⟨hz, hzx⟩
      rw [hempty] at hzf
      exact absurd hzf List.not_mem_nil
    refine ⟨fun z _ => ?_, fun z => ?_, fun hf z => ?_⟩
    · rw [hw]
      exact List.not_mem_nil
    · unfold PluginState.Listed
      rw [hr, hw, filter_ne_iff]
      constructor
      · rintro (⟨hz, hzx⟩ | hz)
        · exact ⟨hzx, Or.inl hz⟩
        · exact absurd hz List.not_mem_nil
      · rintro ⟨hzx, hz | hz⟩
        · exact Or.inl ⟨hz, hzx⟩
        · exact absurd (hgone z hz) hzx
    · rw [ht]
      split
      · rename_i e
        rw [e]
        exact hf.scheduler ..
      · rfl
  · -- `n`, the first that waits, takes over
    have hmemw : ∀ z, z ∈ n :: rest ↔ z ∈ s.waitList ∧ z ≠ x := by
      intro z
      rw [← hwait, filter_ne_iff]
    have hn := (hmemw n).1 List.mem_cons_self
    refine ⟨fun z hz => ?_, fun z => ?_, fun hf z => ?_⟩
    · rw [hr, mem_insertBefore, filter_ne_iff] at hz
      rw [hw, filter_ne_iff, hmemw]
      rintro ⟨⟨hzw, -⟩, hzn⟩
      rcases hz with hz | hz
      · exact hzn hz
      · exact hd z hz.1 hzw
    · unfold PluginState.Listed
      rw [hr, hw, mem_insertBefore, filter_ne_iff, filter_ne_iff, hmemw]
      constructor
      · rintro ((rfl | ⟨hz, hzx⟩) | ⟨⟨hz, hzx⟩, -⟩)
        · exact ⟨hn.2, Or.inr hn.1⟩
        · exact ⟨hzx, Or.inl hz⟩
        · exact ⟨hzx, Or.inr hz⟩
      · rintro ⟨hzx, hz | hz⟩
        · exact Or.inl (Or.inr ⟨hz, hzx⟩)
        · by_cases hzn : z = n
          · exact Or.inl (Or.inl hzn)
          · exact Or.inr ⟨⟨hz, hzx⟩, hzn⟩
    · rw [ht]
      split
      · rename_i e
        rw [e, hf.cpuId]
      · split
        · rename_i e
          rw [e]
          exact hf.scheduler ..
        · rfl

/-- What `task_run` leaves of a task. -/
theorem taskRun_task {rt : ℕ} (hs : g.taskRun s rt = some s') :
    ∃ t, g.submit (s.task rt) = some t ∧ s'.task rt =
      { { t with submitted := true }.setHighPrio with cpuId := pluginCpuMain } := by
  unfold GlobalPlugin.taskRun at hs
  obtain ⟨t, ht, rfl⟩ := Option.map_eq_some_iff.1 hs
  refine ⟨t, ht, ?_⟩
  unfold PluginState.migrateTask PluginState.setTask
  dsimp only
  rw [Function.update_self, Function.update_self]

/-! ## FP-US -/

/-- Submitted tasks have the base priority of their class, and the jobs of the lists run at it. -/
structure FpUsTasks (c : Config) (s : PluginState) : Prop where
  submitted : ∀ x, s.Listed x → (s.task x).submitted = true
  room : ∀ x, (s.task x).submitted = true → s.cpu x < c.nrRtCpus
  classified : ∀ x, (s.task x).submitted = true →
    (UsPlugin.fpUs.test c (s.task x) = true ↔ UsPlugin.fpUs.Heavy c (s.task x))
  heavy : ∀ x, (s.task x).submitted = true → UsPlugin.fpUs.Heavy c (s.task x) →
    (s.task x).base = pluginPrioHigh
  light : ∀ x, (s.task x).submitted = true → ¬ UsPlugin.fpUs.Heavy c (s.task x) →
    (s.task x).base < pluginPrioHigh
  listed : ∀ x, s.Listed x → (s.task x).prio = (s.task x).base ∧ (s.task x).policy = reschSchedFp
  ready : ∀ x, (s.task x).submitted = true → ¬ s.Listed x → (s.task x).prio = pluginPrioHigh

/-- Heavy jobs come first in both lists, and no light job runs while a heavy one waits. -/
structure FpUsLists (c : Config) (s : PluginState) : Prop where
  full : s.waitList ≠ [] → ∀ d < c.nrRtCpus, s.cpuRun d = true
  run : s.runList.Pairwise fun a b =>
    UsPlugin.fpUs.Heavy c (s.task b) → UsPlugin.fpUs.Heavy c (s.task a)
  wait : s.waitList.Pairwise fun a b =>
    UsPlugin.fpUs.Heavy c (s.task b) → UsPlugin.fpUs.Heavy c (s.task a)
  order : ∀ w ∈ s.waitList, ∀ r ∈ s.runList,
    UsPlugin.fpUs.Heavy c (s.task w) → UsPlugin.fpUs.Heavy c (s.task r)

structure FpUsInv (c : Config) (s : PluginState) : Prop where
  disjoint : ∀ x ∈ s.runList, x ∉ s.waitList
  tasks : FpUsTasks c s
  lists : FpUsLists c s

theorem FpUsInv.separated (h : FpUsInv c s) : UsSeparated .fpUs c s := by
  refine ⟨h.tasks.classified, fun x hx hh => ?_, h.lists.order⟩
  obtain ⟨hp, hpol⟩ := h.tasks.listed x hx
  exact ⟨hpol, hp.trans (h.tasks.heavy x (h.tasks.submitted x hx) hh)⟩

/-- No listed job is above the high priority, and the heavy ones are those that have it. -/
theorem FpUsTasks.prio (h : FpUsTasks c s) (hx : s.Listed x) :
    (s.task x).prio ≤ pluginPrioHigh ∧
      (UsPlugin.fpUs.Heavy c (s.task x) ↔ (s.task x).prio = pluginPrioHigh) := by
  have hs := h.submitted x hx
  rw [(h.listed x hx).1]
  by_cases hh : UsPlugin.fpUs.Heavy c (s.task x)
  · have hb := h.heavy x hs hh
    exact ⟨hb.le, iff_of_true hh hb⟩
  · have hb := h.light x hs hh
    exact ⟨hb.le, iff_of_false hh hb.ne⟩

/-- An insertion that passes all heavy elements, and no light one if it is for a heavy one. -/
theorem heavy_first_insert {H : ℕ → Prop} {q : ℕ → Bool} {L : List ℕ}
    (hL : L.Pairwise fun a b => H b → H a) (hlight : ∀ y ∈ L, q y = true → ¬ H y)
    (hx : H x → ∀ y ∈ L, ¬ H y → q y = true) :
    (insertBefore q x L).Pairwise fun a b => H b → H a := by
  obtain ⟨A, B, rfl, hi, hA, hB⟩ := insertBefore_split q x L
  rw [List.pairwise_append] at hL
  obtain ⟨hLA, hLB, hAB⟩ := hL
  -- what follows the place of `x` is light
  have hBlight : ∀ b ∈ B, ¬ H b := by
    cases B with
    | nil => exact fun b hb => absurd hb List.not_mem_nil
    | cons b₀ B =>
      have h₀ : ¬ H b₀ := hlight b₀ (by simp) (hB b₀ (by simp))
      intro b hb hHb
      rcases List.mem_cons.1 hb with rfl | hb
      · exact h₀ hHb
      · exact h₀ ((List.pairwise_cons.1 hLB).1 b hb hHb)
  rw [hi, List.pairwise_append, List.pairwise_cons]
  refine ⟨hLA, ⟨fun b hb hHb => absurd hHb (hBlight b hb), hLB⟩, fun a ha b hb hHb => ?_⟩
  rcases List.mem_cons.1 hb with rfl | hb
  · by_contra hHa
    have := hx hHb a (List.mem_append_left B ha) hHa
    rw [hA a ha] at this
    cases this
  · exact absurd hHb (hBlight b hb)

/-- The comparison of priorities makes such an insertion, for a job that is not above the high
priority and has it if it is heavy. -/
theorem FpUsTasks.insert (h : FpUsTasks c s) {L : List ℕ} (hL : ∀ y ∈ L, s.Listed y)
    (hle : (s.task x).prio ≤ pluginPrioHigh)
    (hx : UsPlugin.fpUs.Heavy c (s.task x) → (s.task x).prio = pluginPrioHigh)
    (hfirst : L.Pairwise fun a b =>
      UsPlugin.fpUs.Heavy c (s.task b) → UsPlugin.fpUs.Heavy c (s.task a)) :
    (insertBefore (fun y => (fpUs c).before (s.task x) (s.task y)) x L).Pairwise fun a b =>
      UsPlugin.fpUs.Heavy c (s.task b) → UsPlugin.fpUs.Heavy c (s.task a) := by
  have hbefore : ∀ y, (fpUs c).before (s.task x) (s.task y) = true ↔
      (s.task y).prio < (s.task x).prio := fun y => decide_eq_true_iff
  refine heavy_first_insert (H := fun y => UsPlugin.fpUs.Heavy c (s.task y)) hfirst
    (fun y hy hb hh => ?_) fun hh y hy hn => ?_
  · have hlt := (hbefore y).1 hb
    rw [(h.prio (hL y hy)).2.1 hh] at hlt
    omega
  · rw [hbefore, hx hh]
    exact lt_of_le_of_ne (h.prio (hL y hy)).1 fun e => hn ((h.prio (hL y hy)).2.2 e)

/-- The start of a job puts the base priority of its task back. -/
theorem FpUsTasks.start (h : FpUsTasks c s) (hx : (s.task x).submitted = true)
    (htask : ∀ z, z ≠ x → s'.task z = s.task z)
    (hback : ∃ d < c.nrRtCpus, s'.task x = (fpUs c).back { s.task x with cpuId := d })
    (hl : ∀ z, s'.Listed z ↔ z = x ∨ s.Listed z) : FpUsTasks c s' := by
  obtain ⟨d, hd, hback⟩ := hback
  have hof : ∀ P : PluginTask → Prop, (P (s.task x) → P (s'.task x)) →
      ∀ z, P (s.task z) → P (s'.task z) := by
    intro P hP z hz
    by_cases hzx : z = x
    · rw [hzx] at hz ⊢
      exact hP hz
    · rw [htask z hzx]
      exact hz
  have hsub : ∀ z, (s'.task z).submitted = (s.task z).submitted := by
    intro z
    by_cases hzx : z = x
    · rw [hzx, hback]
      rfl
    · rw [htask z hzx]
  refine ⟨fun z hz => ?_, fun z hz => ?_, fun z hz => ?_, fun z hz => ?_, fun z hz => ?_,
    fun z hz => ?_, fun z hz hn => ?_⟩
  · rw [hsub]
    rcases (hl z).1 hz with rfl | hz
    · exact hx
    · exact h.submitted z hz
  · rw [hsub] at hz
    refine hof (fun t => t.cpuId < c.nrRtCpus) (fun _ => ?_) z (h.room z hz)
    rw [hback]
    exact hd
  · rw [hsub] at hz
    refine hof (fun t => UsPlugin.fpUs.test c t = true ↔ UsPlugin.fpUs.Heavy c t) (fun hP => ?_) z
      (h.classified z hz)
    rw [hback]
    exact hP
  · rw [hsub] at hz
    refine hof (fun t => UsPlugin.fpUs.Heavy c t → t.base = pluginPrioHigh) (fun hP => ?_) z
      (h.heavy z hz)
    rw [hback]
    exact hP
  · rw [hsub] at hz
    refine hof (fun t => ¬ UsPlugin.fpUs.Heavy c t → t.base < pluginPrioHigh) (fun hP => ?_) z
      (h.light z hz)
    rw [hback]
    exact hP
  · by_cases hzx : z = x
    · rw [hzx, hback]
      exact ⟨rfl, rfl⟩
    · rw [htask z hzx]
      exact h.listed z (((hl z).1 hz).resolve_left hzx)
  · have hzx : z ≠ x := fun e => hn ((hl z).2 (Or.inl e))
    rw [hsub] at hz
    rw [htask z hzx]
    exact h.ready z hz fun hz' => hn ((hl z).2 (Or.inr hz'))

/-- The completion of a job raises the priority of its task, and may move another job. -/
theorem FpUsTasks.complete (h : FpUsTasks c s) (hx : s.Listed x)
    (htask : ∀ z, s'.task z = s.task z ∨ s'.task z = { s.task z with cpuId := s.cpu x } ∨
      z = x ∧ s'.task z = (s.task z).setHighPrio)
    (hhigh : s'.task x = (s.task x).setHighPrio)
    (hl : ∀ z, s'.Listed z ↔ z ≠ x ∧ s.Listed z) : FpUsTasks c s' := by
  -- what neither the CPU nor the high priority decides is kept
  have hof : ∀ P : PluginTask → Prop, (∀ t, P t → P t.setHighPrio) →
      (∀ t, P t → P { t with cpuId := s.cpu x }) → ∀ z, P (s.task z) → P (s'.task z) := by
    intro P hset hcpu z hz
    rcases htask z with he | he | ⟨-, he⟩
    · rw [he]
      exact hz
    · rw [he]
      exact hcpu _ hz
    · rw [he]
      exact hset _ hz
  have hsub : ∀ z, (s'.task z).submitted = (s.task z).submitted := by
    intro z
    exact hof (fun t => t.submitted = (s.task z).submitted) (fun _ h => h) (fun _ h => h) z rfl
  have hroom := h.room x (h.submitted x hx)
  refine ⟨fun z hz => ?_, fun z hz => ?_, fun z hz => ?_, fun z hz => ?_, fun z hz => ?_,
    fun z hz => ?_, fun z hz hn => ?_⟩
  · rw [hsub]
    exact h.submitted z ((hl z).1 hz).2
  · rw [hsub] at hz
    exact hof (fun t => t.cpuId < c.nrRtCpus) (fun _ h => h) (fun _ _ => hroom) z (h.room z hz)
  · rw [hsub] at hz
    exact hof (fun t => UsPlugin.fpUs.test c t = true ↔ UsPlugin.fpUs.Heavy c t) (fun _ h => h)
      (fun _ h => h) z (h.classified z hz)
  · rw [hsub] at hz
    exact hof (fun t => UsPlugin.fpUs.Heavy c t → t.base = pluginPrioHigh) (fun _ h => h)
      (fun _ h => h) z (h.heavy z hz)
  · rw [hsub] at hz
    exact hof (fun t => ¬ UsPlugin.fpUs.Heavy c t → t.base < pluginPrioHigh) (fun _ h => h)
      (fun _ h => h) z (h.light z hz)
  · obtain ⟨hzx, hz⟩ := (hl z).1 hz
    have hP := h.listed z hz
    rcases htask z with he | he | ⟨e, -⟩
    · rw [he]
      exact hP
    · rw [he]
      exact hP
    · exact absurd e hzx
  · by_cases hzx : z = x
    · rw [hzx, hhigh]
      rfl
    · rw [hsub] at hz
      have hP := h.ready z hz fun hz' => hn ((hl z).2 ⟨hzx, hz'⟩)
      rcases htask z with he | he | ⟨e, -⟩
      · rw [he]
        exact hP
      · rw [he]
        exact hP
      · exact absurd e hzx

/-- A call for a task that is in no list. -/
theorem FpUsInv.elsewhere {rt : ℕ} (h : FpUsInv c s) (he : Elsewhere rt s s') (hrt : ¬ s.Listed rt)
    (hnew : (s'.task rt).submitted = true → s'.cpu rt < c.nrRtCpus ∧
      (UsPlugin.fpUs.test c (s'.task rt) = true ↔ UsPlugin.fpUs.Heavy c (s'.task rt)) ∧
      (UsPlugin.fpUs.Heavy c (s'.task rt) → (s'.task rt).base = pluginPrioHigh) ∧
      (¬ UsPlugin.fpUs.Heavy c (s'.task rt) → (s'.task rt).base < pluginPrioHigh) ∧
      (s'.task rt).prio = pluginPrioHigh) : FpUsInv c s' := by
  have hne : ∀ z, s.Listed z → s'.task z = s.task z := fun z hz => he.task z fun e => hrt (e ▸ hz)
  -- what holds of every submitted task holds again if it does of `rt`
  have hof : ∀ P : ℕ → PluginTask → Prop, ((s'.task rt).submitted = true → P rt (s'.task rt)) →
      (∀ z, (s.task z).submitted = true → P z (s.task z)) →
      ∀ z, (s'.task z).submitted = true → P z (s'.task z) := by
    intro P hP hold z hz
    by_cases hzr : z = rt
    · rw [hzr] at hz ⊢
      exact hP hz
    · rw [he.task z hzr] at hz ⊢
      exact hold z hz
  refine ⟨?_, ⟨fun z hz => ?_, ?_, ?_, ?_, ?_, fun z hz => ?_, ?_⟩, ?_, ?_, ?_, ?_⟩
  · rw [he.runList, he.waitList]
    exact h.disjoint
  · have hz := (he.listed z).1 hz
    rw [hne z hz]
    exact h.tasks.submitted z hz
  · exact hof (fun _ t => t.cpuId < c.nrRtCpus) (fun hs => (hnew hs).1) h.tasks.room
  · exact hof (fun _ t => UsPlugin.fpUs.test c t = true ↔ UsPlugin.fpUs.Heavy c t)
      (fun hs => (hnew hs).2.1) h.tasks.classified
  · exact hof (fun _ t => UsPlugin.fpUs.Heavy c t → t.base = pluginPrioHigh)
      (fun hs => (hnew hs).2.2.1) h.tasks.heavy
  · exact hof (fun _ t => ¬ UsPlugin.fpUs.Heavy c t → t.base < pluginPrioHigh)
      (fun hs => (hnew hs).2.2.2.1) h.tasks.light
  · have hz := (he.listed z).1 hz
    rw [hne z hz]
    exact h.tasks.listed z hz
  · have hready := hof (fun z t => ¬ s.Listed z → t.prio = pluginPrioHigh)
      (fun hs _ => (hnew hs).2.2.2.2) h.tasks.ready
    exact fun z hz hn => hready z hz fun hz' => hn ((he.listed z).2 hz')
  · rw [he.waitList, he.cpuRun]
    exact h.lists.full
  · rw [he.runList]
    refine h.lists.run.imp_of_mem fun {a b} ha hb hab => ?_
    rw [hne a (Or.inl ha), hne b (Or.inl hb)]
    exact hab
  · rw [he.waitList]
    refine h.lists.wait.imp_of_mem fun {a b} ha hb hab => ?_
    rw [hne a (Or.inr ha), hne b (Or.inr hb)]
    exact hab
  · rw [he.runList, he.waitList]
    intro w hw r hr
    rw [hne w (Or.inr hw), hne r (Or.inl hr)]
    exact h.lists.order w hw r hr

/-- The lists of a state in terms of the tasks before the call. -/
theorem FpUsLists.of_heavy
    (hk : ∀ z, UsPlugin.fpUs.Heavy c (s'.task z) = UsPlugin.fpUs.Heavy c (s.task z))
    (hf : s'.waitList ≠ [] → ∀ d < c.nrRtCpus, s'.cpuRun d = true)
    (hr : s'.runList.Pairwise fun a b =>
      UsPlugin.fpUs.Heavy c (s.task b) → UsPlugin.fpUs.Heavy c (s.task a))
    (hw : s'.waitList.Pairwise fun a b =>
      UsPlugin.fpUs.Heavy c (s.task b) → UsPlugin.fpUs.Heavy c (s.task a))
    (ho : ∀ w ∈ s'.waitList, ∀ r ∈ s'.runList,
      UsPlugin.fpUs.Heavy c (s.task w) → UsPlugin.fpUs.Heavy c (s.task r)) : FpUsLists c s' := by
  refine ⟨hf, ?_, ?_, ?_⟩
  · simp only [hk]
    exact hr
  · simp only [hk]
    exact hw
  · simp only [hk]
    exact ho

theorem FpUsInv.runsFree {d : ℕ} (h : FpUsInv c s)
    (hp : (s.task x).prio = pluginPrioHigh) (hd : d < c.nrRtCpus)
    (ho : RunsFree (fpUs c) x d s s') : FpUsLists c s' := by
  have hempty : s.waitList = [] := by
    by_contra hne
    have := h.lists.full hne d hd
    rw [ho.free] at this
    cases this
  have hwait : s'.waitList = [] := ho.waitList.trans hempty
  refine FpUsLists.of_heavy (ho.fixed (heavy_fixed _ c)) ?_ ?_ ?_ ?_
  · rw [hwait]
    exact fun hne => absurd rfl hne
  · rw [ho.runList]
    exact h.tasks.insert (fun y hy => Or.inl hy) hp.le (fun _ => hp) h.lists.run
  · rw [hwait]
    exact List.Pairwise.nil
  · rw [hwait]
    exact fun w hw => absurd hw List.not_mem_nil

theorem FpUsInv.preempts {q : ℕ} (h : FpUsInv c s)
    (hp : (s.task x).prio = pluginPrioHigh) (hall : ∀ d < c.nrRtCpus, s.cpuRun d = true)
    (ho : Preempts (fpUs c) x q s s') : FpUsLists c s' := by
  have hq : q ∈ s.runList := List.mem_of_getLast? ho.last
  have hqprio := h.tasks.prio (Or.inl hq)
  -- the job that gives way is light, so no heavy one waits
  have hqlight : ¬ UsPlugin.fpUs.Heavy c (s.task q) := by
    intro hh
    have hb : (s.task q).prio < (s.task x).prio := of_decide_eq_true ho.before
    rw [hqprio.2.1 hh, hp] at hb
    omega
  have hmemw : ∀ z, z ∈ s'.waitList → z = q ∨ z ∈ s.waitList := by
    intro z hz
    rwa [ho.waitList, mem_insertBefore] at hz
  refine FpUsLists.of_heavy (ho.fixed (heavy_fixed _ c)) (fun _ d hd => ?_) ?_ ?_
    (fun w hw r _ hh => ?_)
  · rw [ho.cpuRun, Function.update_apply]
    split
    · rfl
    · exact hall d hd
  · rw [ho.runList]
    exact h.tasks.insert (fun y hy => Or.inl (List.mem_filter.1 hy).1) hp.le (fun _ => hp)
      (h.lists.run.filter _)
  · rw [ho.waitList]
    exact h.tasks.insert (fun y hy => Or.inr hy) hqprio.1 (fun hh => absurd hh hqlight) h.lists.wait
  · rcases hmemw w hw with rfl | hw
    · exact absurd hh hqlight
    · exact absurd (h.lists.order w hw q hq hh) hqlight

theorem FpUsInv.waits (h : FpUsInv c s) (hx : ¬ s.Listed x)
    (hp : (s.task x).prio = pluginPrioHigh) (hall : ∀ d < c.nrRtCpus, s.cpuRun d = true)
    (hk : ∀ z, UsPlugin.fpUs.Heavy c (((fpUs c).wait s x).task z) =
      UsPlugin.fpUs.Heavy c (s.task z))
    (hlast : ∀ q, s.runList.getLast? = some q → (fpUs c).before (s.task x) (s.task q) = false) :
    FpUsLists c ((fpUs c).wait s x) := by
  obtain ⟨hw, hr, hb⟩ := wait_lists (fpUs c) s fun hw => hx (Or.inr hw)
  -- the last running job is heavy, and with it all running jobs
  have hheavy : ∀ r ∈ s.runList, UsPlugin.fpUs.Heavy c (s.task r) := by
    cases hl : s.runList.getLast? with
    | none =>
      rw [List.getLast?_eq_none_iff.1 hl]
      exact fun r hr => absurd hr List.not_mem_nil
    | some q =>
      obtain ⟨L, hL⟩ := List.getLast?_eq_some_iff.1 hl
      have hq : q ∈ s.runList := List.mem_of_getLast? hl
      have hqprio := h.tasks.prio (Or.inl hq)
      have hqh : UsPlugin.fpUs.Heavy c (s.task q) := by
        have hb : ¬ (s.task q).prio < (s.task x).prio := of_decide_eq_false (hlast q hl)
        rw [hp] at hb
        exact hqprio.2.2 (le_antisymm hqprio.1 (not_lt.1 hb))
      intro r hr
      have hrun := h.lists.run
      rw [hL] at hr hrun
      rcases List.mem_append.1 hr with hr | hr
      · exact (List.pairwise_append.1 hrun).2.2 r hr q (by simp) hqh
      · rw [List.mem_singleton.1 hr]
        exact hqh
  refine FpUsLists.of_heavy hk (fun _ => ?_) ?_ ?_ (fun w _ r hrm _ => ?_)
  · rw [hb]
    exact hall
  · rw [hr]
    exact h.lists.run
  · rw [hw]
    exact h.tasks.insert (fun y hy => Or.inr hy) hp.le (fun _ => hp) h.lists.wait
  · rw [hr] at hrm
    exact hheavy r hrm

/-- **A start under FP-US.** -/
theorem FpUsInv.jobStart (h : FpUsInv c s) (hs : (s.task x).submitted = true) (hx : ¬ s.Listed x) :
    FpUsInv c ((fpUs c).jobStart c.nrRtCpus s x) := by
  have hp := h.tasks.ready x hs hx
  have hroom := h.tasks.room x hs
  have hxr : x ∉ s.runList := fun hr => hx (Or.inl hr)
  obtain ⟨hd', hl', hf⟩ := jobStart_keeps (fpUs c) c.nrRtCpus h.disjoint hx
  have hk := hf (heavy_fixed .fpUs c)
  rcases jobStart_eq (fpUs c) c.nrRtCpus s x with ⟨d, hfree, hd, he⟩ | ⟨hall, ⟨q, hq, hb, he⟩ | ⟨hl, he⟩⟩
  · have hd : d < c.nrRtCpus := by
      rcases hd with rfl | hd
      · exact hroom
      · exact hd
    have ho := run_runsFree (g := fpUs c) hxr hfree
    rw [he] at hd' hl' ⊢
    refine ⟨hd', h.tasks.start hs (fun z hz => ?_) ⟨d, hd, ?_⟩ hl', h.runsFree hp hd ho⟩
    · rw [ho.task, if_neg hz]
    · rw [ho.task, if_pos rfl]
  · have hqr : q ∈ s.runList := List.mem_of_getLast? hq
    have ho := run_preempts (g := fpUs c) hxr hq hb (h.disjoint q hqr)
    rw [he] at hd' hl' ⊢
    refine ⟨hd', h.tasks.start hs (fun z hz => ?_) ⟨s.cpu q, ?_, ?_⟩ hl', h.preempts hp hall ho⟩
    · rw [ho.task, if_neg hz]
    · exact h.tasks.room q (h.tasks.submitted q (Or.inl hqr))
    · rw [ho.task, if_pos rfl]
  · rw [he] at hd' hl' hk ⊢
    refine ⟨hd', h.tasks.start hs (fun z hz => ?_) ⟨s.cpu x, hroom, ?_⟩ hl',
      h.waits hx hp hall hk hl⟩
    · rw [wait_task, if_neg hz]
    · rw [wait_task, if_pos rfl]
      rfl

/-- **A completion under FP-US**, of a running or a waiting job. -/
theorem FpUsInv.jobComplete (h : FpUsInv c s) (hx : s.Listed x) :
    FpUsInv c ((fpUs c).jobComplete s x) := by
  obtain ⟨hd', hl', hf⟩ := jobComplete_keeps (fpUs c) h.disjoint x
  have hk := hf (heavy_fixed .fpUs c)
  rcases jobComplete_cases (fpUs c) h.disjoint x with
    ⟨-, hr, hw, -, ht⟩ | ⟨n, rest, hwait, hr, hw, hb, ht⟩
  · -- the CPU of `x` becomes free
    refine ⟨hd', h.tasks.complete hx (fun z => ?_) ?_ hl', FpUsLists.of_heavy hk ?_ ?_ ?_ ?_⟩
    · rw [ht]
      split
      · rename_i e
        rw [e]
        exact Or.inr (Or.inr ⟨rfl, rfl⟩)
      · exact Or.inl rfl
    · rw [ht, if_pos rfl]
    · rw [hw]
      exact fun hne => absurd rfl hne
    · rw [hr]
      exact h.lists.run.filter _
    · rw [hw]
      exact List.Pairwise.nil
    · rw [hw]
      exact fun w hw => absurd hw List.not_mem_nil
  · -- `n`, the first of the other waiting jobs, takes the CPU of `x`
    have hsorted := h.lists.wait.filter (· ≠ x)
    rw [hwait] at hsorted
    have hmemw : ∀ z, z ∈ n :: rest ↔ z ∈ s.waitList ∧ z ≠ x := by
      intro z
      rw [← hwait, filter_ne_iff]
    have hn := (hmemw n).1 List.mem_cons_self
    have hnprio := h.tasks.prio (Or.inr hn.1)
    refine ⟨hd', h.tasks.complete hx (fun z => ?_) ?_ hl', FpUsLists.of_heavy hk ?_ ?_ ?_ ?_⟩
    · rw [ht]
      split
      · rename_i e
        rw [e]
        exact Or.inr (Or.inl rfl)
      · split
        · rename_i e
          rw [e]
          exact Or.inr (Or.inr ⟨rfl, rfl⟩)
        · exact Or.inl rfl
    · rw [ht, if_neg hn.2.symm, if_pos rfl]
    · rw [hb]
      exact fun _ => h.lists.full (List.ne_nil_of_mem hn.1)
    · rw [hr]
      exact h.tasks.insert (fun y hy => Or.inl (List.mem_filter.1 hy).1) hnprio.1 hnprio.2.1
        (h.lists.run.filter _)
    · rw [hw]
      exact hsorted.filter _
    · -- a heavy job that waits comes after those before it on the list
      rw [hr, hw]
      intro w hwm r hrm hh
      obtain ⟨hwm, hwn⟩ := (filter_ne_iff _ n w).1 hwm
      rcases mem_insertBefore.1 hrm with rfl | hrm
      · exact (List.pairwise_cons.1 hsorted).1 w ((List.mem_cons.1 hwm).resolve_left hwn) hh
      · exact h.lists.order w ((hmemw w).1 hwm).1 r (List.mem_filter.1 hrm).1 hh

/-- A submission under FP-US: a task that passes the test keeps the high priority as its own. -/
theorem FpUsInv.taskRun (hm : 0 < c.nrRtCpus) (h : FpUsInv c s) (hx : ¬ s.Listed x)
    (hc : (PluginOp.taskRun x).Separates .fpUs c s) (hs : (fpUs c).taskRun s x = some s') :
    FpUsInv c s' := by
  obtain ⟨-, hside, hlight⟩ := hc
  obtain ⟨he, hcpu, hprio⟩ := taskRun_elsewhere hs
  obtain ⟨t, ht, htask⟩ := taskRun_task hs
  have ht : fpUsSubmit c (s.task x) = some t := ht
  unfold fpUsSubmit at ht
  split at ht
  · cases ht
  rename_i hperiod
  rw [Option.some.injEq] at ht
  have htest := UsPlugin.test_iff_heavy (p := .fpUs) (Nat.pos_of_ne_zero hperiod) hside
  have hbranch : UsPlugin.fpUs.test c (s.task x) = true ↔ c.nrRtCpus * 100 / (3 * c.nrRtCpus - 2) <
      c.usecsToJiffies ((s.task x).wcet * 100) / (s.task x).period := decide_eq_true_iff
  refine h.elsewhere he hx fun _ => ⟨?_, ?_, ?_, ?_, hprio⟩
  · rw [hcpu]
    exact hm
  · rw [htask, ← ht]
    split <;> exact htest
  · rw [htask, ← ht]
    split
    · exact fun _ => rfl
    · rename_i hle
      exact fun hh => absurd (hbranch.1 (htest.2 hh)) hle
  · rw [htask, ← ht]
    split
    · rename_i hlt
      exact fun hh => absurd (htest.1 (hbranch.2 hlt)) hh
    · exact hlight rfl

theorem fpUs_step (hm : 0 < c.nrRtCpus) (h : FpUsInv c s) {op : PluginOp}
    (hc : op.Separates .fpUs c s) (hs : pluginStep (fpUs c) c.nrRtCpus s op = some s') :
    FpUsInv c s' := by
  unfold pluginStep at hs
  split at hs
  swap
  · cases hs
  rename_i he
  cases op with
  | taskRun rt => exact h.taskRun hm (of_decide_eq_true he) hc hs
  | release rt d =>
    rw [PluginOp.exec, Option.some.injEq] at hs
    subst hs
    have hrt : ¬ s.Listed rt := of_decide_eq_true he
    refine h.elsewhere (release_elsewhere s rt d) hrt fun hsub => ?_
    unfold PluginState.setTask PluginState.cpu at *
    dsimp only at hsub ⊢
    rw [Function.update_self] at hsub ⊢
    exact ⟨h.tasks.room rt hsub, h.tasks.classified rt hsub, h.tasks.heavy rt hsub,
      h.tasks.light rt hsub, h.tasks.ready rt hsub hrt⟩
  | jobStart rt =>
    rw [PluginOp.exec, Option.some.injEq] at hs
    subst hs
    simp only [PluginOp.enabled, Bool.and_eq_true, decide_eq_true_iff] at he
    exact h.jobStart he.1 he.2
  | jobComplete rt =>
    rw [PluginOp.exec, Option.some.injEq] at hs
    subst hs
    exact h.jobComplete (of_decide_eq_true he)

/-! ## EDF-US -/

/-- No job of the lists is heavy. -/
structure EdfUsInv (c : Config) (s : PluginState) : Prop where
  disjoint : ∀ x ∈ s.runList, x ∉ s.waitList
  classified : ∀ x, (s.task x).submitted = true →
    (UsPlugin.edfUs.test c (s.task x) = true ↔ UsPlugin.edfUs.Heavy c (s.task x))
  light : ∀ x, s.Listed x → ¬ UsPlugin.edfUs.Heavy c (s.task x)

theorem EdfUsInv.separated (h : EdfUsInv c s) : UsSeparated .edfUs c s :=
  ⟨h.classified, fun x hx hh => absurd hh (h.light x hx),
    fun w hw _ _ hh => absurd hh (h.light w (Or.inr hw))⟩

/-- A start or a completion, after which the fixed fields are the same. -/
theorem EdfUsInv.of_fixed (h : EdfUsInv c s) (hd : ∀ z ∈ s'.runList, z ∉ s'.waitList)
    (hf : ∀ {α : Type} {f : PluginTask → α}, Fixed f → ∀ z, f (s'.task z) = f (s.task z))
    (hl : ∀ z, s'.Listed z → ¬ UsPlugin.edfUs.Heavy c (s.task z)) : EdfUsInv c s' := by
  refine ⟨hd, fun z hz => ?_, fun z hz => ?_⟩
  · rw [hf submitted_fixed] at hz
    rw [hf (test_fixed .edfUs c), hf (heavy_fixed .edfUs c)]
    exact h.classified z hz
  · rw [hf (heavy_fixed .edfUs c)]
    exact hl z hz

/-- A call for a task that is in no list. -/
theorem EdfUsInv.elsewhere {rt : ℕ} (h : EdfUsInv c s) (he : Elsewhere rt s s')
    (hrt : ¬ s.Listed rt) (hnew : (s'.task rt).submitted = true →
      (UsPlugin.edfUs.test c (s'.task rt) = true ↔ UsPlugin.edfUs.Heavy c (s'.task rt))) :
    EdfUsInv c s' := by
  refine ⟨?_, fun z hz => ?_, fun z hz => ?_⟩
  · rw [he.runList, he.waitList]
    exact h.disjoint
  · by_cases hzr : z = rt
    · rw [hzr] at hz ⊢
      exact hnew hz
    · rw [he.task z hzr] at hz ⊢
      exact h.classified z hz
  · have hz := (he.listed z).1 hz
    rw [he.task z fun e => hrt (e ▸ hz)]
    exact h.light z hz

theorem edfUs_step (h : EdfUsInv c s) {op : PluginOp} (hc : op.Separates .edfUs c s)
    (hs : pluginStep (edfUs c) c.nrRtCpus s op = some s') : EdfUsInv c s' := by
  unfold pluginStep at hs
  split at hs
  swap
  · cases hs
  rename_i he
  cases op with
  | taskRun rt =>
    obtain ⟨t, ht, htask⟩ := taskRun_task hs
    have ht : edfUsSubmit c (s.task rt) = some t := ht
    unfold edfUsSubmit at ht
    split at ht
    · cases ht
    rename_i hperiod
    rw [Option.some.injEq] at ht
    refine h.elsewhere (taskRun_elsewhere hs).1 (of_decide_eq_true he) fun _ => ?_
    have htest := UsPlugin.test_iff_heavy (p := .edfUs) (Nat.pos_of_ne_zero hperiod) hc.2.1
    rw [htask, ← ht]
    split <;> exact htest
  | release rt d =>
    rw [PluginOp.exec, Option.some.injEq] at hs
    subst hs
    refine h.elsewhere (release_elsewhere s rt d) (of_decide_eq_true he) fun hsub => ?_
    unfold PluginState.setTask at hsub ⊢
    dsimp only at hsub ⊢
    rw [Function.update_self] at hsub ⊢
    exact h.classified rt hsub
  | jobStart rt =>
    rw [PluginOp.exec, Option.some.injEq] at hs
    subst hs
    simp only [PluginOp.enabled, Bool.and_eq_true, decide_eq_true_iff] at he
    obtain ⟨hd, hl, hf⟩ := jobStart_keeps (edfUs c) c.nrRtCpus h.disjoint he.2
    refine h.of_fixed hd hf fun z hz => ?_
    rcases (hl z).1 hz with rfl | hz
    · exact hc rfl
    · exact h.light z hz
  | jobComplete rt =>
    rw [PluginOp.exec, Option.some.injEq] at hs
    subst hs
    obtain ⟨hd, hl, hf⟩ := jobComplete_keeps (edfUs c) h.disjoint rt
    exact h.of_fixed hd hf fun z hz => h.light z ((hl z).1 hz).2

/-! ## Runs -/

theorem pluginInit_not_listed (task : ℕ → PluginTask) (x : ℕ) : ¬ (pluginInit task).Listed x := by
  rintro (hx | hx)
  · exact List.not_mem_nil hx
  · exact List.not_mem_nil hx

theorem pluginInit_fpUs (c : Config) (task : ℕ → PluginTask) : FpUsInv c (pluginInit task) := by
  have hno := pluginInit_not_listed task
  have hsub : ∀ x, ¬ ((pluginInit task).task x).submitted = true := fun x hx => by cases hx
  exact ⟨fun x hx => absurd hx List.not_mem_nil,
    ⟨fun x hx => absurd hx (hno x), fun x hx => absurd hx (hsub x), fun x hx => absurd hx (hsub x),
      fun x hx => absurd hx (hsub x), fun x hx => absurd hx (hsub x), fun x hx => absurd hx (hno x),
      fun x hx => absurd hx (hsub x)⟩,
    ⟨fun hne => absurd rfl hne, List.Pairwise.nil, List.Pairwise.nil,
      fun w hw => absurd hw List.not_mem_nil⟩⟩

theorem pluginInit_edfUs (c : Config) (task : ℕ → PluginTask) : EdfUsInv c (pluginInit task) := by
  refine ⟨fun x hx => absurd hx List.not_mem_nil, fun x hx => ?_,
    fun x hx => absurd hx (pluginInit_not_listed task x)⟩
  cases hx

/-- **Separation in runs.** On any number of CPUs, in a run that submits no execution time
between the two bounds and, with FP-US, no light task at the high priority, and in which EDF-US
starts no heavy job, tasks are classified by their exact utilisation, heavy jobs execute at the
high priority, and none of them waits while a light job runs. -/
theorem us_separated (p : UsPlugin) (c : Config) (hm : 0 < c.nrRtCpus) (task : ℕ → PluginTask)
    (ops : List PluginOp)
    (he : Each (pluginStep (p.plugin c) c.nrRtCpus) (fun s op => op.Separates p c s)
      (pluginInit task) ops) :
    Always (pluginStep (p.plugin c) c.nrRtCpus) (UsSeparated p c) (pluginInit task) ops := by
  cases p with
  | edfUs =>
    have hall := Always.of_each (fun s op s' hi hc hs => edfUs_step hi hc hs) ops _
      (pluginInit_edfUs c task) he
    exact hall.mono (fun _ hi => hi.separated) ops _
  | fpUs =>
    have hall := Always.of_each (fun s op s' hi hc hs => fpUs_step hm hi hc hs) ops _
      (pluginInit_fpUs c task) he
    exact hall.mono (fun _ hi => hi.separated) ops _

/-- Two CPUs, with a tick of a millisecond. -/
def twoCpus : Config := { Config.small false with nrRtCpus := 2 }

/-- Task 0 has a utilisation of 90 percent, the others of 10 percent. -/
def heavyLight (i : ℕ) : PluginTask :=
  ⟨10, reschSchedFp, 0, 0, if i = 0 then 9000 else 1000, 10, 0, false⟩

/-- The two CPUs run light jobs when the heavy one starts. -/
def heavyLast : List PluginOp :=
  [.taskRun 0, .taskRun 1, .taskRun 2, .jobStart 1, .jobStart 2, .jobStart 0, .jobComplete 0]

instance (p : UsPlugin) (c : Config) (s : PluginState) (op : PluginOp) :
    Decidable (op.Separates p c s) := by
  cases op <;> unfold PluginOp.Separates <;> unfold UsPlugin.SameSide <;> infer_instance

theorem us_separated_heavyLast :
    Always (pluginStep (UsPlugin.fpUs.plugin twoCpus) twoCpus.nrRtCpus)
      (UsSeparated .fpUs twoCpus) (pluginInit heavyLight) heavyLast :=
  us_separated .fpUs twoCpus (by decide) heavyLight heavyLast
    (Each.of_check (fun s op (h : decide (PluginOp.Separates .fpUs twoCpus s op) = true) =>
      of_decide_eq_true h) (by decide +kernel))

/-- The utilisations of task 0 are 50.5 and 66.9 percent, and the thresholds on two CPUs 50
and 66 2/3 percent. -/
def justHeavy (p : UsPlugin) (_ : ℕ) : PluginTask :=
  ⟨10, reschSchedFp, 0, 0, if p = .fpUs then 5050 else 6690, 10, 0, false⟩

/-- With either plugin a heavy job executes below the high priority. -/
theorem us_not_separated :
    (¬ ∀ (c : Config) (task : ℕ → PluginTask) (ops : List PluginOp), 2 ≤ c.nrRtCpus →
      Always (pluginStep (UsPlugin.edfUs.plugin c) c.nrRtCpus) (UsSeparated .edfUs c)
        (pluginInit task) ops) ∧
    ¬ ∀ (c : Config) (task : ℕ → PluginTask) (ops : List PluginOp), 2 ≤ c.nrRtCpus →
      Always (pluginStep (UsPlugin.fpUs.plugin c) c.nrRtCpus) (UsSeparated .fpUs c)
        (pluginInit task) ops := by
  have hnot : ∀ p : UsPlugin, ¬ ∀ (c : Config) (task : ℕ → PluginTask) (ops : List PluginOp),
      2 ≤ c.nrRtCpus → Always (pluginStep (p.plugin c) c.nrRtCpus) (UsSeparated p c)
        (pluginInit task) ops := by
    intro p hall
    have hrun := hall twoCpus (justHeavy p) [.taskRun 0, .jobStart 0] (by decide)
    obtain ⟨s, hsep, ht⟩ := hrun.final_test
      (fun s => decide (s.Listed 0 ∧ p.Heavy twoCpus (s.task 0) ∧
        ¬ ((s.task 0).policy = reschSchedFp ∧ (s.task 0).prio = pluginPrioHigh)))
      (by cases p <;> decide +kernel)
    obtain ⟨hl, hh, hn⟩ := of_decide_eq_true ht
    exact hn (hsep.high 0 hl hh)
  exact ⟨hnot .edfUs, hnot .fpUs⟩

end Resch
