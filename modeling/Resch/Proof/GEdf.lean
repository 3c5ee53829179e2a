import Resch.Lib.Runs
import Resch.Proof.JobsOrdered

/-!
# G-EDF

`GEdfOk` says that the running jobs are those of the earliest deadlines, one on each CPU that
runs. `job_complete` hands the CPU of the task over whether its job was running or waiting,
and a waiting job has none: `gEdf_step_iff` says that this is the only way to lose it.
-/

namespace Resch

open Lib

variable {m : ℕ} {s s' : PluginState}

/-- Both lists are sorted by deadline, the running jobs have CPUs of their own, jobs wait only
when all CPUs run, and no waiting job has an earlier deadline than a running one. -/
structure GEdfOk (m : ℕ) (s : PluginState) : Prop where
  disjoint : ∀ x ∈ s.runList, x ∉ s.waitList
  runSorted : s.runList.Pairwise fun a b => (s.task a).deadlineTime ≤ (s.task b).deadlineTime
  waitSorted : s.waitList.Pairwise fun a b => (s.task a).deadlineTime ≤ (s.task b).deadlineTime
  length : s.runList.length ≤ m
  distinct : ∀ x ∈ s.runList, ∀ y ∈ s.runList, (s.task x).cpuId = (s.task y).cpuId → x = y
  busy : ∀ c, s.cpuRun c = true ↔ ∃ x ∈ s.runList, (s.task x).cpuId = c
  full : s.waitList ≠ [] → ∀ c < m, s.cpuRun c = true
  order : ∀ w ∈ s.waitList, ∀ r ∈ s.runList, (s.task r).deadlineTime ≤ (s.task w).deadlineTime

def deadlineKey (t : PluginTask) : ℤ := t.deadlineTime

theorem GEdfOk.of_dispatched (h : JobsDispatched m s) (ho : JobsOrdered deadlineKey s) : GEdfOk m s where
  disjoint := h.disjoint
  runSorted := ho.run.imp fun hab => Int.ofNat_le.1 hab
  waitSorted := ho.wait.imp fun hab => Int.ofNat_le.1 hab
  length := h.length
  distinct := h.distinct
  busy := h.busy
  full := h.full
  order w hw r hr := Int.ofNat_le.1 (ho.cross w hw r hr)

/-- The comparisons of G-EDF are those of the deadlines. -/
theorem gEdf_before (t u : PluginTask) : gEdf.before t u = true ↔ deadlineKey t < deadlineKey u := by
  unfold gEdf deadlineKey
  rw [decide_eq_true_iff]
  omega

theorem gEdf_mono {t u v : PluginTask} (h : deadlineKey u ≤ deadlineKey v)
    (hb : gEdf.before t u = true) : gEdf.before t v = true :=
  (gEdf_before t v).2 (((gEdf_before t u).1 hb).trans_le h)

theorem gEdf_agreesOn (x y : ℕ) : AgreesOn gEdf deadlineKey s x y := by
  refine ⟨fun h => ((gEdf_before _ _).1 h).le, fun h => ?_⟩
  by_contra hlt
  rw [(gEdf_before _ _).2 (not_le.1 hlt)] at h
  cases h

theorem gEdf_orderedBy (s : PluginState) : OrderedBy gEdf deadlineKey s where
  listed _ _ _ _ := gEdf_before _ _
  mono _ _ _ _ _ := gEdf_mono

theorem deadlineKey_fixed : Fixed deadlineKey where
  scheduler _ _ _ := rfl
  cpuId _ _ := rfl

/-- The facts about the lists and tasks that `GEdfOk` does not say. -/
structure GEdfInv (m : ℕ) (s : PluginState) : Prop where
  nodupRun : s.runList.Nodup
  nodupWait : s.waitList.Nodup
  submitted : ∀ x, s.Listed x → (s.task x).submitted = true
  room : ∀ x, (s.task x).submitted = true → s.cpu x < m

theorem GEdfOk.dispatched (h : GEdfOk m s) (hi : GEdfInv m s) : JobsDispatched m s :=
  ⟨hi.nodupRun, hi.nodupWait, h.disjoint, hi.submitted, hi.room, h.distinct, h.busy, h.full⟩

theorem GEdfOk.ordered (h : GEdfOk m s) : JobsOrdered deadlineKey s where
  run := h.runSorted.imp fun hab => Int.ofNat_le.2 hab
  wait := h.waitSorted.imp fun hab => Int.ofNat_le.2 hab
  cross w hw r hr := Int.ofNat_le.2 (h.order w hw r hr)

theorem JobsDispatched.inv (h : JobsDispatched m s) : GEdfInv m s :=
  ⟨h.nodupRun, h.nodupWait, h.submitted, h.room⟩

/-- The completion of a waiting job puts one job too many into the run list, or frees the CPU of
a running one. -/
theorem jobComplete_waiting_not_ok {x : ℕ} (h : JobsDispatched m s) (hx : x ∈ s.waitList) :
    ¬ GEdfOk m (gEdf.jobComplete s x) := by
  intro hok
  have hall := h.full (List.ne_nil_of_mem hx)
  rcases jobComplete_waiting gEdf h hx with hlen | ⟨hr, hb, hcpu⟩
  · have := hok.length
    have := h.length_full hall
    omega
  · -- another job runs on the CPU of the task
    obtain ⟨z, hz, hzx⟩ := (h.busy (s.cpu x)).1 (hall _ (h.cpu_lt (Or.inr hx)))
    have hbusy := (hok.busy (s.cpu x)).2 ⟨z, hr ▸ hz, (hcpu z hz).trans hzx⟩
    rw [hb, Function.update_self] at hbusy
    cases hbusy

/-- **The step lemma.** -/
theorem gEdf_step_iff (hm : 0 < m) (hi : GEdfInv m s) (h : GEdfOk m s) {op : PluginOp}
    (hs : pluginStep gEdf m s op = some s') : GEdfOk m s' ↔ op.CompletesRunning s := by
  have hd := h.dispatched hi
  constructor
  · intro hok
    unfold pluginStep at hs
    split at hs
    swap
    · cases hs
    rename_i he
    cases op with
    | taskRun rt | release rt d | jobStart rt => trivial
    | jobComplete rt =>
      rw [PluginOp.exec, Option.some.injEq] at hs
      subst hs
      rcases (of_decide_eq_true he : s.Listed rt) with hr | hw
      · exact hr
      · exact absurd hok (jobComplete_waiting_not_ok hd hw)
  · intro hop
    refine GEdfOk.of_dispatched (pluginStep_dispatched hm hd hop hs) ?_
    exact (pluginStep_ordered_iff deadlineKey_fixed hm hd h.ordered (gEdf_orderedBy s) hop hs).2
      fun rt _ y _ => gEdf_agreesOn rt y

/-- **G-EDF in runs.** On any number of CPUs, the running jobs have the earliest deadlines and
CPUs of their own in every state of a run iff no job completes while it waits. -/
theorem gEdf_ok_iff (m : ℕ) (hm : 0 < m) (task : ℕ → PluginTask) (ops : List PluginOp) :
    Always (pluginStep gEdf m) (GEdfOk m) (pluginInit task) ops ↔
      Each (pluginStep gEdf m) (fun s op => op.CompletesRunning s) (pluginInit task) ops := by
  have hd := pluginInit_dispatched m task
  refine always_iff_each (fun s op s' hi h hs h' => ?_) (fun s op s' hi h hs => ?_) ops _ hd.inv
    (GEdfOk.of_dispatched hd (pluginInit_ordered _ task))
  · exact (pluginStep_dispatched hm (h.dispatched hi) ((gEdf_step_iff hm hi h hs).1 h') hs).inv
  · exact gEdf_step_iff hm hi h hs

/-- Three tasks; task `i` has the deadline `10 + i`. -/
def threeTasks (i : ℕ) : PluginTask := ⟨10, reschSchedFp, 0, 10 + i, 1, 10, 0, false⟩

/-- Two jobs start on one CPU, and the first completes. -/
def firstCompletes : List PluginOp :=
  [.taskRun 0, .taskRun 1, .jobStart 0, .jobStart 1, .jobComplete 0]

theorem gEdf_ok_iff_first : Always (pluginStep gEdf 1) (GEdfOk 1) (pluginInit threeTasks) firstCompletes ↔
    Each (pluginStep gEdf 1) (fun s op => op.CompletesRunning s) (pluginInit threeTasks) firstCompletes :=
  gEdf_ok_iff 1 (by decide) threeTasks firstCompletes

/-- Three jobs start on one CPU, and the second, which waits, completes: the third gets into the
run list beside the first. -/
def waitingCompletes : List PluginOp :=
  [.taskRun 0, .taskRun 1, .taskRun 2, .jobStart 0, .jobStart 1, .jobStart 2, .jobComplete 1]

theorem gEdf_not_ok : ¬ ∀ (m : ℕ) (task : ℕ → PluginTask) (ops : List PluginOp), 0 < m →
    Always (pluginStep gEdf m) (GEdfOk m) (pluginInit task) ops := by
  intro hall
  obtain ⟨s, hok, ht⟩ := (hall 1 threeTasks waitingCompletes (by decide)).final_test
    (fun s => decide (s.runList = [0, 2])) (by decide +kernel)
  have hlen := hok.length
  rw [of_decide_eq_true ht] at hlen
  exact absurd hlen (by decide)

end Resch
