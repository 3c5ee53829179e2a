import Resch.Spec.GlobalPlugin
import Mathlib.Data.List.Nodup

/-!
# The calls of a global plugin

What `task_run`, `__job_start` and `job_complete` do, when each running job has a CPU of its
own and jobs wait only when all CPUs run (`JobsDispatched`).

* `jobStart_cases`: a job gets a free CPU, takes that of the last running job, or waits.
* `jobComplete_running`: the CPU becomes free, or the first waiting job takes it.
* `jobComplete_waiting`: the same is done for a job that has no CPU to hand over.
-/

namespace Resch

open Lib

variable {g : GlobalPlugin} {m : ℕ} {s s' : PluginState} {gt x y : ℕ}

/-- The CPU that a task is assigned to. -/
def PluginState.cpu (s : PluginState) (x : ℕ) : ℕ := (s.task x).cpuId

/-- Each running job has a CPU of its own; jobs wait only when all CPUs run. -/
structure JobsDispatched (m : ℕ) (s : PluginState) : Prop where
  nodupRun : s.runList.Nodup
  nodupWait : s.waitList.Nodup
  disjoint : ∀ x ∈ s.runList, x ∉ s.waitList
  submitted : ∀ x, s.Listed x → (s.task x).submitted = true
  room : ∀ x, (s.task x).submitted = true → s.cpu x < m
  distinct : ∀ x ∈ s.runList, ∀ y ∈ s.runList, s.cpu x = s.cpu y → x = y
  busy : ∀ c, s.cpuRun c = true ↔ ∃ x ∈ s.runList, s.cpu x = c
  full : s.waitList ≠ [] → ∀ c < m, s.cpuRun c = true

/-! ## The parts of the calls -/

/-- A task after `__job_start` has put its own policy and priority back. -/
def GlobalPlugin.back (g : GlobalPlugin) (t : PluginTask) : PluginTask :=
  t.setScheduler (g.own t).1 (g.own t).2

theorem run_task (g : GlobalPlugin) (s : PluginState) (gt cpu x : ℕ) :
    (g.run s gt cpu).task x = if x = gt then g.back { s.task gt with cpuId := cpu } else s.task x := by
  have hsame : (g.runListInsert { s with cpuRun := Function.update s.cpuRun cpu true } gt).task =
      s.task := by
    unfold GlobalPlugin.runListInsert
    split <;> rfl
  unfold GlobalPlugin.run GlobalPlugin.putBack GlobalPlugin.back PluginState.migrateTask
    PluginState.setTask
  dsimp only
  rw [hsame]
  by_cases hcpu : (s.task gt).cpuId = cpu
  · subst hcpu
    rw [if_neg (not_not.2 rfl), hsame]
    by_cases hx : x = gt
    · subst hx
      rw [if_pos rfl, Function.update_self]
    · rw [if_neg hx, Function.update_of_ne hx]
  · rw [if_pos hcpu]
    dsimp only
    rw [Function.update_self]
    by_cases hx : x = gt
    · subst hx
      rw [if_pos rfl, Function.update_self]
    · rw [if_neg hx, Function.update_of_ne hx, Function.update_of_ne hx]

theorem run_lists (g : GlobalPlugin) (s : PluginState) (cpu : ℕ) (hx : gt ∉ s.runList) :
    (g.run s gt cpu).runList =
        insertBefore (fun p => g.before (s.task gt) (s.task p)) gt s.runList ∧
      (g.run s gt cpu).waitList = s.waitList ∧
      (g.run s gt cpu).cpuRun = Function.update s.cpuRun cpu true := by
  unfold GlobalPlugin.run GlobalPlugin.runListInsert
  dsimp only
  rw [if_neg hx]
  split <;> exact ⟨rfl, rfl, rfl⟩

theorem wait_task (g : GlobalPlugin) (s : PluginState) (gt x : ℕ) :
    (g.wait s gt).task x = if x = gt then g.back (s.task gt) else s.task x := by
  unfold GlobalPlugin.wait GlobalPlugin.waitListInsert
  split <;> exact Function.update_apply ..

theorem wait_lists (g : GlobalPlugin) (s : PluginState) (hx : gt ∉ s.waitList) :
    (g.wait s gt).waitList =
        insertBefore (fun p => g.before (s.task gt) (s.task p)) gt s.waitList ∧
      (g.wait s gt).runList = s.runList ∧ (g.wait s gt).cpuRun = s.cpuRun := by
  unfold GlobalPlugin.wait GlobalPlugin.waitListInsert
  rw [if_neg hx]
  exact ⟨rfl, rfl, rfl⟩

theorem waitListInsert_lists (g : GlobalPlugin) (s : PluginState) (hx : gt ∉ s.waitList) :
    (g.waitListInsert s gt).waitList =
        insertBefore (fun p => g.before (s.task gt) (s.task p)) gt s.waitList ∧
      (g.waitListInsert s gt).runList = s.runList ∧
      (g.waitListInsert s gt).cpuRun = s.cpuRun ∧ (g.waitListInsert s gt).task = s.task := by
  unfold GlobalPlugin.waitListInsert
  rw [if_neg hx]
  exact ⟨rfl, rfl, rfl, rfl⟩

/-! ## What the calls do -/

/-- The three outcomes of a start, as relations between the states: `x` gets a free CPU, `x`
takes the CPU of the last running job `p`, or `x` waits. -/
structure RunsFree (g : GlobalPlugin) (x c : ℕ) (s s' : PluginState) : Prop where
  free : s.cpuRun c = false
  runList : s'.runList = insertBefore (fun p => g.before (s.task x) (s.task p)) x s.runList
  waitList : s'.waitList = s.waitList
  cpuRun : s'.cpuRun = Function.update s.cpuRun c true
  task : ∀ z, s'.task z = if z = x then g.back { s.task x with cpuId := c } else s.task z

structure Preempts (g : GlobalPlugin) (x p : ℕ) (s s' : PluginState) : Prop where
  last : s.runList.getLast? = some p
  before : g.before (s.task x) (s.task p) = true
  runList : s'.runList =
    insertBefore (fun p => g.before (s.task x) (s.task p)) x (s.runList.filter (· ≠ p))
  waitList : s'.waitList = insertBefore (fun q => g.before (s.task p) (s.task q)) p s.waitList
  cpuRun : s'.cpuRun = Function.update s.cpuRun (s.cpu p) true
  task : ∀ z, s'.task z = if z = x then g.back { s.task x with cpuId := s.cpu p } else s.task z

structure Waits (g : GlobalPlugin) (x p : ℕ) (s s' : PluginState) : Prop where
  last : s.runList.getLast? = some p
  before : g.before (s.task x) (s.task p) = false
  runList : s'.runList = s.runList
  waitList : s'.waitList = insertBefore (fun p => g.before (s.task x) (s.task p)) x s.waitList
  cpuRun : s'.cpuRun = s.cpuRun
  task : ∀ z, s'.task z = if z = x then g.back (s.task x) else s.task z

theorem run_runsFree (hx : x ∉ s.runList) {c : ℕ} (hc : s.cpuRun c = false) :
    RunsFree g x c s (g.run s x c) := by
  obtain ⟨hr, hw, hb⟩ := run_lists g s c hx
  exact ⟨hc, hr, hw, hb, run_task g s x c⟩

/-- **What `__job_start` does**, whatever the state: it takes a free CPU, or that of the last
running job `p`, or the job waits. -/
theorem jobStart_eq (g : GlobalPlugin) (m : ℕ) (s : PluginState) (x : ℕ) :
    (∃ c, s.cpuRun c = false ∧ (c = s.cpu x ∨ c < m) ∧ g.jobStart m s x = g.run s x c) ∨
      (∀ c < m, s.cpuRun c = true) ∧
        ((∃ p, s.runList.getLast? = some p ∧ g.before (s.task x) (s.task p) = true ∧
            g.jobStart m s x = g.run (g.waitListInsert (s.runListRemove p) p) x (s.cpu p)) ∨
          (∀ p, s.runList.getLast? = some p → g.before (s.task x) (s.task p) = false) ∧
            g.jobStart m s x = g.wait s x) := by
  unfold GlobalPlugin.jobStart
  by_cases hown : s.cpuRun (s.task x).cpuId = false
  · rw [if_pos hown]
    exact Or.inl ⟨_, hown, Or.inl rfl, rfl⟩
  rw [if_neg hown]
  cases hfind : (List.range m).find? fun cpu => !s.cpuRun cpu with
  | some c =>
    have hc : c < m := List.mem_range.1 (List.mem_of_find?_eq_some hfind)
    have hfree : s.cpuRun c = false := by simpa using List.find?_some hfind
    exact Or.inl ⟨c, hfree, Or.inr hc, rfl⟩
  | none =>
    have hall : ∀ c < m, s.cpuRun c = true := by
      intro c hc
      simpa using List.find?_eq_none.1 hfind c (List.mem_range.2 hc)
    refine Or.inr ⟨hall, ?_⟩
    unfold PluginState.getLowestPrioTask
    cases hlast : s.runList.getLast? with
    | none =>
      refine Or.inr ⟨fun p hp => ?_, rfl⟩
      cases hp
    | some p =>
      dsimp only
      by_cases hbef : g.before (s.task x) (s.task p) = true
      · rw [if_pos hbef]
        exact Or.inl ⟨p, rfl, hbef, rfl⟩
      · rw [if_neg hbef]
        refine Or.inr ⟨fun q hq => ?_, rfl⟩
        rw [← Option.some.inj hq]
        simpa using hbef

/-- The CPU of the last running job is taken. -/
theorem run_preempts {p : ℕ} (hx : x ∉ s.runList) (hlast : s.runList.getLast? = some p)
    (hbef : g.before (s.task x) (s.task p) = true) (hp : p ∉ s.waitList) :
    Preempts g x p s (g.run (g.waitListInsert (s.runListRemove p) p) x (s.cpu p)) := by
  obtain ⟨hw, hr, hb, ht⟩ := waitListInsert_lists g (s.runListRemove p) hp
  have hxr : x ∉ (g.waitListInsert (s.runListRemove p) p).runList := by
    rw [hr]
    exact fun hmem => hx (List.mem_filter.1 hmem).1
  obtain ⟨hr', hw', hb'⟩ := run_lists g (g.waitListInsert (s.runListRemove p) p) (s.cpu p) hxr
  refine ⟨hlast, hbef, ?_, ?_, ?_, fun z => ?_⟩
  · rw [hr', hr, ht]
    rfl
  · rw [hw', hw]
    rfl
  · rw [hb', hb]
    rfl
  · rw [run_task, ht]
    rfl

theorem jobStart_cases (hm : 0 < m) (h : JobsDispatched m s) (hs : (s.task x).submitted = true)
    (hx : ¬ s.Listed x) :
    (∃ c < m, RunsFree g x c s (g.jobStart m s x)) ∨
      (∀ c < m, s.cpuRun c = true) ∧
        ∃ p, Preempts g x p s (g.jobStart m s x) ∨ Waits g x p s (g.jobStart m s x) := by
  have hxr : x ∉ s.runList := fun hr => hx (Or.inl hr)
  have hxw : x ∉ s.waitList := fun hw => hx (Or.inr hw)
  rcases jobStart_eq g m s x with ⟨c, hfree, hc, he⟩ | ⟨hall, ⟨p, hp, hbef, he⟩ | ⟨hbef, he⟩⟩
  · rw [he]
    refine Or.inl ⟨c, ?_, run_runsFree hxr hfree⟩
    rcases hc with rfl | hc
    · exact h.room x hs
    · exact hc
  · rw [he]
    exact Or.inr ⟨hall, p, Or.inl (run_preempts hxr hp hbef (h.disjoint p (List.mem_of_getLast? hp)))⟩
  · -- some job runs on CPU 0
    obtain ⟨z, hz, -⟩ := (h.busy 0).1 (hall 0 hm)
    obtain ⟨p, hp⟩ : ∃ p, s.runList.getLast? = some p :=
      Option.ne_none_iff_exists'.1 fun hn => List.ne_nil_of_mem hz (List.getLast?_eq_none_iff.1 hn)
    obtain ⟨hw, hr, hb⟩ := wait_lists g s hxw
    rw [he]
    exact Or.inr ⟨hall, p, Or.inr ⟨hp, hbef p hp, hr, hw, hb, wait_task g s x⟩⟩

/-- The two outcomes of the completion of a running job: its CPU becomes free, or the first
waiting job `n` takes it. -/
structure Leaves (x : ℕ) (s s' : PluginState) : Prop where
  empty : s.waitList = []
  runList : s'.runList = s.runList.filter (· ≠ x)
  waitList : s'.waitList = []
  cpuRun : s'.cpuRun = Function.update s.cpuRun (s.cpu x) false
  task : ∀ z, s'.task z = if z = x then (s.task x).setHighPrio else s.task z

structure HandsOver (g : GlobalPlugin) (x n : ℕ) (s s' : PluginState) : Prop where
  first : ∃ rest, s.waitList = n :: rest ∧ s'.waitList = rest
  runList : s'.runList =
    insertBefore (fun p => g.before (s.task n) (s.task p)) n (s.runList.filter (· ≠ x))
  cpuRun : s'.cpuRun = s.cpuRun
  task : ∀ z, s'.task z =
    if z = n then { s.task n with cpuId := s.cpu x }
    else if z = x then (s.task x).setHighPrio else s.task z

theorem filter_ne_head {n : ℕ} {rest : List ℕ} (h : (n :: rest).Nodup) :
    (n :: rest).filter (· ≠ n) = rest := by
  obtain ⟨hn, -⟩ := List.nodup_cons.1 h
  have hrest : rest.filter (· ≠ n) = rest := by
    rw [List.filter_eq_self]
    intro y hy
    have hne : y ≠ n := fun e => hn (e ▸ hy)
    simpa using hne
  simpa using hrest

/-- Handing the CPU of `x` over to `n`, whose task it is not. -/
theorem migrate_task {n c : ℕ} (hn : n ≠ x) (t : ℕ → PluginTask)
    (hs : s.task = Function.update t x (t x).setHighPrio) (z : ℕ) :
    (if (s.task n).cpuId ≠ c then s.migrateTask n c else s).task z =
      if z = n then { t n with cpuId := c } else if z = x then (t x).setHighPrio else t z := by
  have htn : s.task n = t n := by rw [hs, Function.update_of_ne hn]
  have htz : s.task z = if z = x then (t x).setHighPrio else t z := by
    rw [hs, Function.update_apply]
  by_cases hc : (s.task n).cpuId = c
  · rw [if_neg (not_not.2 hc), htz]
    by_cases hz : z = n
    · subst hz
      rw [if_pos rfl, if_neg hn, ← hc, htn]
    · rw [if_neg hz]
  · rw [if_pos hc]
    unfold PluginState.migrateTask PluginState.setTask
    dsimp only
    by_cases hz : z = n
    · subst hz
      rw [Function.update_self, if_pos rfl, htn]
    · rw [Function.update_of_ne hz, if_neg hz, htz]

/-- **What `job_complete` does** for a running or a waiting job `x`: its CPU becomes free, or the
first of the other waiting jobs, `n`, takes it. -/
theorem jobComplete_cases (g : GlobalPlugin) (hd : ∀ y ∈ s.runList, y ∉ s.waitList) (x : ℕ) :
    (s.waitList.filter (· ≠ x) = [] ∧
        (g.jobComplete s x).runList = s.runList.filter (· ≠ x) ∧
        (g.jobComplete s x).waitList = [] ∧
        (g.jobComplete s x).cpuRun = Function.update s.cpuRun (s.cpu x) false ∧
        ∀ z, (g.jobComplete s x).task z = if z = x then (s.task x).setHighPrio else s.task z) ∨
      ∃ n rest, s.waitList.filter (· ≠ x) = n :: rest ∧
        (g.jobComplete s x).runList =
          insertBefore (fun p => g.before (s.task n) (s.task p)) n (s.runList.filter (· ≠ x)) ∧
        (g.jobComplete s x).waitList = (n :: rest).filter (· ≠ n) ∧
        (g.jobComplete s x).cpuRun = s.cpuRun ∧
        ∀ z, (g.jobComplete s x).task z =
          if z = n then { s.task n with cpuId := s.cpu x }
          else if z = x then (s.task x).setHighPrio else s.task z := by
  have hkeep : ∀ L : List ℕ, x ∉ L → L.filter (· ≠ x) = L := by
    intro L hx
    rw [List.filter_eq_self]
    intro y hy
    have hne : y ≠ x := fun e => hx (e ▸ hy)
    simpa using hne
  -- the lists without `x`
  obtain ⟨t, ht, htr, htw, htc, htt⟩ : ∃ t : PluginState,
      (if x ∈ (s.setTask x PluginTask.setHighPrio).waitList
        then (s.setTask x PluginTask.setHighPrio).waitListRemove x
        else (s.setTask x PluginTask.setHighPrio).runListRemove x) = t ∧
      t.runList = s.runList.filter (· ≠ x) ∧ t.waitList = s.waitList.filter (· ≠ x) ∧
      t.cpuRun = s.cpuRun ∧ t.task = Function.update s.task x (s.task x).setHighPrio := by
    by_cases hxw : x ∈ s.waitList
    · rw [if_pos (show x ∈ (s.setTask x PluginTask.setHighPrio).waitList from hxw)]
      exact ⟨_, rfl, (hkeep _ fun hx => hd x hx hxw).symm, rfl, rfl, rfl⟩
    · rw [if_neg (show x ∉ (s.setTask x PluginTask.setHighPrio).waitList from hxw)]
      exact ⟨_, rfl, rfl, (hkeep _ hxw).symm, rfl, rfl⟩
  have hcpu : (t.task x).cpuId = s.cpu x := by
    rw [htt, Function.update_self]
    rfl
  unfold GlobalPlugin.jobComplete
  dsimp only
  rw [ht]
  unfold PluginState.getNextTask
  cases hwait : s.waitList.filter (· ≠ x) with
  | nil =>
    left
    have hhead : t.waitList.head? = none := by
      rw [htw, hwait]
      exact List.head?_nil
    rw [hhead]
    refine ⟨rfl, htr, htw.trans hwait, ?_, fun z => ?_⟩
    · show Function.update t.cpuRun (t.task x).cpuId false = _
      rw [htc, hcpu]
    · show t.task z = _
      rw [htt, Function.update_apply]
  | cons n rest =>
    right
    refine ⟨n, rest, rfl, ?_⟩
    have hnw : n ∈ s.waitList.filter (· ≠ x) := by
      rw [hwait]
      exact List.mem_cons_self
    have hnx : n ≠ x := by simpa using (List.mem_filter.1 hnw).2
    have hhead : t.waitList.head? = some n := by
      rw [htw, hwait]
      exact List.head?_cons
    have hnr : n ∉ t.runList := by
      rw [htr]
      exact fun hmem => hd n (List.mem_filter.1 hmem).1 (List.mem_filter.1 hnw).1
    rw [hhead]
    dsimp only
    unfold GlobalPlugin.runListInsert
    rw [if_neg (show n ∉ (t.waitListRemove n).runList from hnr)]
    have hbefore : insertBefore (fun p => g.before (t.task n) (t.task p)) n t.runList =
        insertBefore (fun p => g.before (s.task n) (s.task p)) n (s.runList.filter (· ≠ x)) := by
      rw [htr]
      refine insertBefore_congr fun y hy => ?_
      have hyx : y ≠ x := by simpa using (List.mem_filter.1 hy).2
      rw [htt, Function.update_of_ne hnx, Function.update_of_ne hyx]
    refine ⟨?_, ?_, ?_, fun z => ?_⟩
    · split <;> exact hbefore
    · have hfilter : t.waitList.filter (· ≠ n) = (n :: rest).filter (· ≠ n) := by rw [htw, hwait]
      split <;> exact hfilter
    · split <;> exact htc
    · refine (migrate_task hnx s.task ?_ z).trans ?_
      · exact htt
      · show (if z = n then { s.task n with cpuId := (t.task x).cpuId } else _) = _
        rw [hcpu]

/-- What `job_complete` does for a running job, when it is not among the waiting ones. -/
theorem jobComplete_running (g : GlobalPlugin) (h : JobsDispatched m s) (hx : x ∈ s.runList) :
    Leaves x s (g.jobComplete s x) ∨ ∃ n, HandsOver g x n s (g.jobComplete s x) := by
  have hwait : s.waitList.filter (· ≠ x) = s.waitList := by
    rw [List.filter_eq_self]
    intro y hy
    have hne : y ≠ x := fun e => h.disjoint x hx (e ▸ hy)
    simpa using hne
  have hcases := jobComplete_cases g h.disjoint x
  rw [hwait] at hcases
  rcases hcases with ⟨hw, hr, hw', hb, ht⟩ | ⟨n, rest, hw, hr, hw', hb, ht⟩
  · exact Or.inl ⟨hw, hr, hw', hb, ht⟩
  · refine Or.inr ⟨n, ⟨rest, hw, ?_⟩, hr, hb, ht⟩
    rw [hw', filter_ne_head (hw ▸ h.nodupWait)]

/-- What `job_complete` does for a waiting job: it treats it like a running one. -/
theorem jobComplete_waiting (g : GlobalPlugin) (h : JobsDispatched m s) (hx : x ∈ s.waitList) :
    (g.jobComplete s x).runList.length = s.runList.length + 1 ∨
      (g.jobComplete s x).runList = s.runList ∧
        (g.jobComplete s x).cpuRun = Function.update s.cpuRun (s.cpu x) false ∧
        ∀ z ∈ s.runList, (g.jobComplete s x).cpu z = s.cpu z := by
  have hrun : s.runList.filter (· ≠ x) = s.runList := by
    rw [List.filter_eq_self]
    intro y hy
    have hne : y ≠ x := fun e => h.disjoint y hy (e ▸ hx)
    simpa using hne
  have hcases := jobComplete_cases g h.disjoint x
  rw [hrun] at hcases
  rcases hcases with ⟨-, hr, -, hb, ht⟩ | ⟨n, rest, -, hr, -, -, -⟩
  · refine Or.inr ⟨hr, hb, fun z hz => ?_⟩
    have hzx : z ≠ x := fun e => h.disjoint z hz (e ▸ hx)
    unfold PluginState.cpu
    rw [ht, if_neg hzx]
  · left
    rw [hr, length_insertBefore]

/-! ## Fields that the calls do not write -/

/-- A field of a task that neither `set_scheduler` nor `migrate_task` writes. -/
structure Fixed {α : Type*} (f : PluginTask → α) : Prop where
  scheduler : ∀ t policy prio, f (t.setScheduler policy prio) = f t
  cpuId : ∀ (t : PluginTask) c, f { t with cpuId := c } = f t

theorem submitted_fixed : Fixed PluginTask.submitted where
  scheduler _ _ _ := rfl
  cpuId _ _ := rfl

section Fixed

variable {α : Type*} {f : PluginTask → α} (hf : Fixed f)

include hf

theorem Fixed.back (t : PluginTask) : f (g.back t) = f t := hf.scheduler ..

theorem RunsFree.fixed {c : ℕ} (h : RunsFree g x c s s') (z : ℕ) :
    f (s'.task z) = f (s.task z) := by
  rw [h.task]
  split
  · rename_i e
    rw [e, hf.back, hf.cpuId]
  · rfl

theorem Preempts.fixed {p : ℕ} (h : Preempts g x p s s') (z : ℕ) :
    f (s'.task z) = f (s.task z) := by
  rw [h.task]
  split
  · rename_i e
    rw [e, hf.back, hf.cpuId]
  · rfl

theorem Waits.fixed {p : ℕ} (h : Waits g x p s s') (z : ℕ) : f (s'.task z) = f (s.task z) := by
  rw [h.task]
  split
  · rename_i e
    rw [e, hf.back]
  · rfl

theorem Leaves.fixed (h : Leaves x s s') (z : ℕ) : f (s'.task z) = f (s.task z) := by
  rw [h.task]
  split
  · rename_i e
    rw [e]
    exact hf.scheduler ..
  · rfl

theorem HandsOver.fixed {n : ℕ} (h : HandsOver g x n s s') (z : ℕ) :
    f (s'.task z) = f (s.task z) := by
  rw [h.task]
  split
  · rename_i e
    rw [e, hf.cpuId]
  · split
    · rename_i e
      rw [e]
      exact hf.scheduler ..
    · rfl

end Fixed

/-! ## Calls between jobs -/

/-- A step that only changes a task that is in no list. -/
structure Elsewhere (rt : ℕ) (s s' : PluginState) : Prop where
  runList : s'.runList = s.runList
  waitList : s'.waitList = s.waitList
  cpuRun : s'.cpuRun = s.cpuRun
  task : ∀ z, z ≠ rt → s'.task z = s.task z

theorem Elsewhere.listed {rt : ℕ} (he : Elsewhere rt s s') (z : ℕ) : s'.Listed z ↔ s.Listed z := by
  unfold PluginState.Listed
  rw [he.runList, he.waitList]

/-- `task_run` puts a task on the main CPU with the high priority. -/
theorem taskRun_elsewhere {rt : ℕ} (hs : g.taskRun s rt = some s') :
    Elsewhere rt s s' ∧ s'.cpu rt = pluginCpuMain ∧ (s'.task rt).prio = pluginPrioHigh := by
  unfold GlobalPlugin.taskRun at hs
  rw [Option.map_eq_some_iff] at hs
  obtain ⟨t, -, rfl⟩ := hs
  unfold PluginState.migrateTask PluginState.setTask
  refine ⟨⟨rfl, rfl, rfl, fun z hz => ?_⟩, ?_, ?_⟩
  · dsimp only
    rw [Function.update_of_ne hz, Function.update_of_ne hz]
  · unfold PluginState.cpu
    dsimp only
    rw [Function.update_self]
  · dsimp only
    rw [Function.update_self, Function.update_self]
    rfl

theorem release_elsewhere (s : PluginState) (rt d : ℕ) :
    Elsewhere rt s (s.setTask rt fun t => { t with deadlineTime := d }) :=
  ⟨rfl, rfl, rfl, fun _ hz => Function.update_of_ne hz ..⟩

end Resch
