import Resch.Proof.PidMap
import Resch.Proof.Place
import Resch.Proof.PolicyClass
import Resch.Spec.WriteRun

/-!
# Isolation of the `write()` interface

What a call does, it does to the descriptor that the RESCH id names. So it leaves the tasks of
other processes alone if the id is one of the caller's own, and if the lists that it works on are
rings: an entry that is linked a second time, or whose head is initialised while it is linked,
takes others out of the list.

* `Updates.sameFor`: what hooks leave of the other tasks.
* `WriteInv`: ids belong to one process and are in the table, and the lists are rings.
* `write_isolated`: in runs whose calls are `Own`, no call touches the task of another process.
-/

namespace Resch

open Lib

variable {c : Config} {k : Kernel} {rt q p rid : ℕ}

/-! ## What calls leave alone -/

/-- The descriptor and the list memberships of a task are the same. -/
structure SameFor (s s' : State) (q : ℕ) : Prop where
  task : s'.task q = s.task q
  global : q ∈ s'.taskList ↔ q ∈ s.taskList
  queue : ∀ cpu idx, q ∈ (s'.lo cpu).queue idx ↔ q ∈ (s.lo cpu).queue idx
  component : ∀ cid, q ∈ (s'.component cid).taskList ↔ q ∈ (s.component cid).taskList

/-- Each list is a ring on which each task is once, and only if its head is linked. -/
structure Rings (s : State) : Prop where
  queue : WellLinked s
  global : GlobalOk s
  linked : ∀ cid q, q ∈ (s.component cid).taskList → (s.task q).componentEntry = true
  nodup : ∀ cid, (s.component cid).taskList.Nodup

section Frame

variable {s s' : State}

theorem SameFor.refl (s : State) (q : ℕ) : SameFor s s q :=
  ⟨rfl, Iff.rfl, fun _ _ => Iff.rfl, fun _ => Iff.rfl⟩

theorem SameFor.trans {s₁ s₂ : State} (h : SameFor s s₁ q) (h' : SameFor s₁ s₂ q) :
    SameFor s s₂ q :=
  ⟨h'.task.trans h.task, h'.global.trans h.global,
    fun cpu idx => (h'.queue cpu idx).trans (h.queue cpu idx),
    fun cid => (h'.component cid).trans (h.component cid)⟩

theorem mem_link {cpu cpu' : ℕ} {idx idx' : ℤ} {ins : List ℕ → List ℕ} (hins : AddsOnce ins rt)
    (hq : q ≠ rt) :
    q ∈ ((s.link rt cpu idx ins).lo cpu').queue idx' ↔ q ∈ (s.lo cpu').queue idx' := by
  unfold State.link
  by_cases hcpu : cpu' = cpu
  · subst hcpu
    by_cases hidx : idx' = idx
    · subst hidx
      simp [(hins _).mem_iff, hq]
    · simp [hidx]
  · simp [hcpu]

theorem mem_unlink {cpu cpu' : ℕ} {idx idx' : ℤ} (hq : q ≠ rt) :
    q ∈ ((s.unlink rt cpu idx).lo cpu').queue idx' ↔ q ∈ (s.lo cpu').queue idx' := by
  unfold State.unlink
  by_cases hcpu : cpu' = cpu
  · subst hcpu
    simp [hq]
  · simp [hcpu, hq]

theorem Update.sameFor (h : Update rt s s') (hq : q ≠ rt) : SameFor s s' q := by
  refine ⟨h.task_of_ne hq, ?_, fun cpu' idx' => ?_, fun cid => ?_⟩
  · cases h with
    | data | proc | rcu | link | unlink => exact Iff.rfl
    | insert =>
      unfold globalListInsert
      split
      · exact Iff.rfl
      · simp [(insertBefore_perm _ rt _).mem_iff, hq]
    | remove =>
      unfold globalListRemove
      split
      · simp [hq]
      · exact Iff.rfl
  · cases h with
    | data | proc | rcu => exact Iff.rfl
    | link cpu idx ins _ hins => exact mem_link hins hq
    | unlink cpu idx => exact mem_unlink hq
    | insert => rw [globalListInsert_only.lo]
    | remove => rw [globalListRemove_only.lo]
  · rw [h.rest.2.2]

theorem Updates.sameFor (h : Updates rt s s') (hq : q ≠ rt) : SameFor s s' q := by
  induction h with
  | refl => exact .refl _ q
  | tail _ h ih => exact ih.trans (h.sameFor hq)

theorem Updates.rings (h : Updates rt s s') (hr : Rings s) : Rings s' := by
  have hcomp := h.rest.2.2
  refine ⟨h.wellLinked hr.queue, h.globalOk hr.global, fun cid q hq => ?_, fun cid => ?_⟩
  · rw [hcomp] at hq
    rw [(h.sameAll q).component]
    exact hr.linked cid q hq
  · rw [hcomp]
    exact hr.nodup cid

/-- Only what no list depends on differs. -/
theorem Rings.congr (h : Rings s) (htask : s'.task = s.task) (hlo : s'.lo = s.lo)
    (hlist : s'.taskList = s.taskList) (hcomp : s'.component = s.component) : Rings s' := by
  obtain ⟨place, hplace⟩ := h.queue
  have hactive : ∀ q, s'.isActive q = s.isActive q := by
    intro q
    unfold State.isActive
    rw [htask]
  have hmanaged : ∀ q, s'.isManaged q = s.isManaged q := by
    intro q
    unfold State.isManaged
    rw [htask]
  refine ⟨⟨place, hplace.congr hlo hactive⟩, h.global.congr hlist hmanaged, fun cid q hq => ?_,
    fun cid => ?_⟩
  · rw [hcomp] at hq
    rw [htask]
    exact h.linked cid q hq
  · rw [hcomp]
    exact h.nodup cid

theorem SameFor.congr (htask : s'.task = s.task) (hlo : s'.lo = s.lo)
    (hlist : s'.taskList = s.taskList) (hcomp : s'.component = s.component) : SameFor s s' q := by
  refine ⟨congrFun htask q, ?_, fun cpu idx => ?_, fun cid => ?_⟩
  · rw [hlist]
  · rw [hlo]
  · rw [hcomp]

/-- One descriptor that is in no list is assigned. -/
theorem Rings.init (h : Rings s) {t : Task} {proc : ℕ → Proc} (ha : s.isActive rt = false)
    (hm : s.isManaged rt = false) (hc : (s.task rt).componentEntry = false)
    (ha' : t.activeEntry = false) (hm' : t.globalEntry = false) :
    Rings { s with task := Function.update s.task rt t, proc } := by
  obtain ⟨place, hplace⟩ := h.queue
  have hfield : ∀ (g : Task → Bool), g t = g (s.task rt) → ∀ q,
      g (Function.update s.task rt t q) = g (s.task q) := by
    intro g hg q
    by_cases hq : q = rt
    · subst hq
      rw [Function.update_self, hg]
    · rw [Function.update_of_ne hq]
  refine ⟨⟨place, hplace.congr rfl ?_⟩, h.global.congr rfl ?_, fun cid q hq => ?_, h.nodup⟩
  · exact hfield (·.activeEntry) (ha'.trans ha.symm)
  · exact hfield (·.globalEntry) (hm'.trans hm.symm)
  · have hqrt : q ≠ rt := by
      rintro rfl
      have := h.linked cid q hq
      rw [hc] at this
      cases this
    show (Function.update s.task rt t q).componentEntry = true
    rw [Function.update_of_ne hqrt]
    exact h.linked cid q hq

/-- An assignment that leaves the list heads of the descriptor as they are. -/
theorem Rings.setTask (h : Rings s) {f : Task → Task}
    (ha : (f (s.task rt)).activeEntry = (s.task rt).activeEntry)
    (hm : (f (s.task rt)).globalEntry = (s.task rt).globalEntry)
    (hc : (f (s.task rt)).componentEntry = (s.task rt).componentEntry) :
    Rings (s.setTask rt f) := by
  obtain ⟨place, hplace⟩ := h.queue
  refine ⟨⟨place, hplace.congr rfl ?_⟩, h.global.congr rfl ?_, fun cid q hq => ?_, h.nodup⟩
  · exact setTask_field (·.activeEntry) ha
  · exact setTask_field (·.globalEntry) hm
  · have hq' : ((s.setTask rt f).task q).componentEntry = (s.task q).componentEntry :=
      setTask_field (·.componentEntry) hc q
    rw [hq']
    exact h.linked cid q hq

/-- A change of the core made by a call on task `rt`. -/
structure OnTask (rt : ℕ) (s s' : State) : Prop where
  same : ∀ q, q ≠ rt → SameFor s s' q
  rings : Rings s → Rings s'
  pidMap : s'.pidMap = s.pidMap

theorem OnTask.trans {s₁ s₂ : State} (h : OnTask rt s s₁) (h' : OnTask rt s₁ s₂) :
    OnTask rt s s₂ :=
  ⟨fun q hq => (h.same q hq).trans (h'.same q hq), fun hr => h'.rings (h.rings hr),
    h'.pidMap.trans h.pidMap⟩

theorem Updates.onTask (h : Updates rt s s') : OnTask rt s s' :=
  ⟨fun _ hq => h.sameFor hq, h.rings, h.rest.2.1⟩

theorem onTask_refl (rt : ℕ) (s : State) : OnTask rt s s := (Updates.refl s).onTask

theorem onTask_setPoint (rt : ℕ) (s : State) (p : Point) : OnTask rt s (s.setPoint rt p) :=
  ⟨fun _ _ => .congr rfl rfl rfl rfl, fun hr => hr.congr rfl rfl rfl rfl, rfl⟩

theorem onTask_setPolicy (c : Config) (s : State) (rt : ℕ) (policy : ℤ) :
    OnTask rt s (setPolicy c s rt policy) := by
  unfold setPolicy
  split
  · refine ⟨fun q hq => ?_, fun hr => hr.setTask rfl rfl rfl, rfl⟩
    exact ⟨task_setTask_of_ne _ hq, Iff.rfl, fun _ _ => Iff.rfl, fun _ => Iff.rfl⟩
  · exact onTask_refl rt s

theorem onTask_setScheduler (c : Config) (k : Kernel) (s : State) (rt : ℕ) (policy prio : ℤ) :
    OnTask rt s (setScheduler c k s rt policy prio).1 :=
  (onTask_setPolicy c s rt policy).trans (setScheduler_updates c k s rt policy prio).onTask

theorem onTask_apiSetScheduler (c : Config) (k : Kernel) (s : State) (rt : ℕ) (policy : ℤ) :
    OnTask rt s (apiSetScheduler c k s rt policy).1 := by
  by_cases hne : policy ≠ (s.task rt).policy
  · rw [apiSetScheduler_of_ne hne]
    exact onTask_setScheduler c k s rt policy _
  · unfold apiSetScheduler
    rw [if_neg hne]
    exact onTask_refl rt s

theorem onTask_apiExitPolicy (c : Config) (k : Kernel) (s : State) (rt : ℕ) :
    OnTask rt s (apiExitPolicy c k s rt) := by
  unfold apiExitPolicy
  split
  · exact onTask_setScheduler c k s rt _ _
  · exact onTask_refl rt s

theorem onTask_apiServerRun (c : Config) (s : State) (rt : ℕ) (mem : Option ℕ) :
    OnTask rt s (apiServerRun c s rt mem).1 := by
  unfold apiServerRun
  split
  · exact onTask_refl rt s
  · dsimp only
    refine Updates.onTask (Updates.setProc ?_)
    refine (Updates.refl s).setTask ?_
    exact ⟨rfl, rfl, rfl, rfl, rfl, rfl⟩

theorem onTask_serverHandler (s : State) (rt : ℕ) : OnTask rt s (serverHandler s rt) := by
  unfold serverHandler
  refine Updates.onTask ((Updates.refl s).setTask ?_)
  exact ⟨rfl, rfl, rfl, rfl, rfl, rfl⟩

/-! ## Components -/

/-- The component whose list `api_component_create` initialises. -/
def createdComponent (c : Config) (s : State) : ℕ :=
  let ffz := reschFfz s.cidMap c.cidMapLong
  (if ffz < 0 then resFault else ffz).toNat

theorem onTask_apiComponentCreate (h : (s.component (createdComponent c s)).taskList = []) :
    OnTask rt s (apiComponentCreate c s).1 := by
  have hlist : ∀ cid, ((apiComponentCreate c s).1.component cid).taskList =
      (s.component cid).taskList := by
    intro cid
    have hcomp : (apiComponentCreate c s).1.component =
        Function.update s.component (createdComponent c s) ⟨[], true⟩ := by
      unfold apiComponentCreate createdComponent
      dsimp only
      split <;> rfl
    rw [hcomp]
    by_cases hcid : cid = createdComponent c s
    · rw [hcid, Function.update_self, h]
    · rw [Function.update_of_ne hcid]
  have hrest : (apiComponentCreate c s).1.task = s.task ∧ (apiComponentCreate c s).1.lo = s.lo ∧
      (apiComponentCreate c s).1.taskList = s.taskList ∧
      (apiComponentCreate c s).1.pidMap = s.pidMap := by
    unfold apiComponentCreate
    dsimp only
    split <;> exact ⟨rfl, rfl, rfl, rfl⟩
  obtain ⟨htask, hlo, hglobal, hpid⟩ := hrest
  generalize (apiComponentCreate c s).1 = s' at *
  refine ⟨fun q _ => ⟨congrFun htask q, by rw [hglobal], fun _ _ => by rw [hlo], fun cid => by
    rw [hlist]⟩, fun hr => ?_, hpid⟩
  have hkeep : Rings { s' with component := s.component } := hr.congr htask hlo hglobal rfl
  obtain ⟨⟨place, hplace⟩, hlist', -⟩ := hkeep
  refine ⟨⟨place, hplace.congr rfl fun _ => rfl⟩, hlist'.congr rfl fun _ => rfl, fun cid q hq => ?_,
    fun cid => ?_⟩
  · rw [hlist] at hq
    rw [htask]
    exact hr.linked cid q hq
  · rw [hlist]
    exact hr.nodup cid

theorem onTask_apiComponentDestroy (rt : ℕ) (s : State) (cid : ℤ) :
    OnTask rt s (apiComponentDestroy s cid).1 :=
  ⟨fun _ _ => .congr rfl rfl rfl rfl, fun hr => hr.congr rfl rfl rfl rfl, rfl⟩

/-- The component lists and the component entry of one task are assigned. -/
theorem onTask_component {component : ℕ → Component} {b : Bool}
    (hmem : ∀ q, q ≠ rt → ∀ cid, q ∈ (component cid).taskList ↔ q ∈ (s.component cid).taskList)
    (hrt : ∀ cid, rt ∈ (component cid).taskList → b = true)
    (hnodup : Rings s → ∀ cid, (component cid).taskList.Nodup) :
    OnTask rt s ({ s with component := component }.setTask rt fun t =>
      { t with componentEntry := b }) := by
  refine ⟨fun q hq => ⟨task_setTask_of_ne _ hq, Iff.rfl, fun _ _ => Iff.rfl, hmem q hq⟩,
    fun hr => ?_, rfl⟩
  obtain ⟨place, hplace⟩ := hr.queue
  refine ⟨⟨place, hplace.congr rfl ?_⟩, hr.global.congr rfl ?_, fun cid q hq => ?_, hnodup hr⟩
  · exact setTask_field (·.activeEntry) (by rfl)
  · exact setTask_field (·.globalEntry) (by rfl)
  · by_cases hqrt : q = rt
    · subst hqrt
      rw [task_setTask_self]
      exact hrt cid hq
    · rw [task_setTask_of_ne _ hqrt]
      exact hr.linked cid q ((hmem q hqrt cid).1 hq)

theorem onTask_apiDecompose (s : State) (rt : ℕ) : OnTask rt s (apiDecompose s rt).1 := by
  unfold apiDecompose
  split
  · refine onTask_component (fun q hq cid => ?_) (fun cid hrt => ?_) fun hr cid => ?_
    · simp [hq]
    · simp at hrt
    · exact (hr.nodup cid).filter _
  · exact onTask_refl rt s

theorem onTask_apiCompose {cid : ℤ} {r : State × ℤ} (hr : Rings s)
    (h : apiCompose c s rt cid = some r) : OnTask rt s r.1 := by
  unfold apiCompose at h
  split at h
  · cases h
    exact onTask_refl rt s
  split at h
  · cases h
  split at h
  · cases h
    exact onTask_refl rt s
  split at h
  · cases h
    exact onTask_refl rt s
  rename_i hentry
  split at h
  · cases h
  cases h
  have hnot : ∀ x, rt ∉ (s.component x).taskList := fun x hx => hentry (hr.linked x rt hx)
  refine onTask_component (fun q hq x => ?_) (fun _ _ => rfl) fun _ x => ?_
  · by_cases hx : x = cid.toNat
    · subst hx
      simp [hq]
    · rw [Function.update_of_ne hx]
  · by_cases hx : x = cid.toNat
    · subst hx
      rw [Function.update_self]
      refine List.Nodup.append (hr.nodup _) (List.nodup_singleton rt) ?_
      exact List.disjoint_singleton.2 (hnot _)
    · rw [Function.update_of_ne hx]
      exact hr.nodup x

theorem onTask_reschTaskInit (ha : s.isActive rt = false) (hm : s.isManaged rt = false)
    (hc : (s.task rt).componentEntry = false) : OnTask rt s (reschTaskInit c k s rt p) := by
  obtain ⟨t, proc, heq, ht, -⟩ := reschTaskInit_eq c k s rt p
  rw [heq]
  refine ⟨fun q hq => ⟨Function.update_of_ne hq _ _, Iff.rfl, fun _ _ => Iff.rfl, fun _ => Iff.rfl⟩,
    fun hr => hr.init ha hm hc ht.activeEntry ht.globalEntry, rfl⟩

/-- **A call on one task touches that task only.** -/
theorem ApiOp.onTask {op : ApiOp} (hop : op.hookOf = some rt) (hstart : op.StartsInactive s)
    (h : op.exec c k s = some s') : OnTask rt s s' := by
  obtain ⟨s₁, hu, rfl⟩ := ApiOp.hookUpdates hop hstart h
  exact hu.onTask.trans (onTask_setPoint rt s₁ _)

end Frame

/-! ## The condition -/

/-- The id of a call is one that the process holds, the id that `api_init` takes is in the table,
nobody is busy with it and its descriptor is in no list, no job that is queued is started, and
no component that has tasks is created again. -/
def WriteOp.Own (c : Config) (s : WriteState) : WriteOp → Prop
  | .write p a _ =>
    match a.call c with
    | .init => (PidOp.initTake p).Orderly c s.toPidState ∧ s.inTable c a = true
    | .exit | .serverRun | .task _ => 0 ≤ a.rid ∧ s.held p a.rid.toNat = true
    | .wakeUp => s.inTable c a = true
    | .other .componentCreate =>
      (s.core.component (createdComponent c s.core)).taskList = []
    | .other _ | .illegal => True
  | .goOn p =>
    (∀ rid, s.call p = .initDesc rid → s.core.isActive rid = false ∧ s.core.isManaged rid = false ∧
      (s.core.task rid).componentEntry = false) ∧
    ∀ op, s.rest p = some op → op.StartsInactive s.core
  | _ => True

/-- The lists are still rings, and the tasks of processes other than `p` are as before. -/
def WriteState.Untouched (p : ℕ) (s s' : WriteState) : Prop :=
  Rings s'.core ∧ ∀ q rid, q ≠ p → s.held q rid = true → SameFor s.core s'.core rid

/-- What a call does stays in the table and with the tasks of the caller. -/
def WriteOp.Isolated (c : Config) (s : WriteState) (a : WriteOp × Kernel) : Prop :=
  match a.1 with
  | .write p w _ =>
    s.inTable c w = true ∧ ∀ s', writeStep c s a = some s' → s.Untouched p s'
  | .goOn p => ∀ s', writeStep c s a = some s' → s.Untouched p s'
  | _ => True

/-- **The invariant.** -/
structure WriteInv (c : Config) (s : WriteState) : Prop where
  pid : PidInv s.toPidState
  inTable : ∀ p rid, s.held p rid = true → rid < c.nrRtTasks
  rest : ∀ p op, s.rest p = some op →
    s.call p = .user ∧ ∃ rt, op.hookOf = some rt ∧ s.held p rt = true
  rings : Rings s.core

/-! ## One step -/

section Step

variable {s s' : WriteState}

/-- A step of `p` that keeps the invariant. -/
structure WriteState.Keeps (c : Config) (p : ℕ) (s s' : WriteState) : Prop where
  inv : WriteInv c s'
  same : ∀ q rid, q ≠ p → s.held q rid = true → SameFor s.core s'.core rid

theorem WriteState.Keeps.untouched (h : s.Keeps c p s') : s.Untouched p s' := ⟨h.inv.rings, h.same⟩

theorem WriteInv.setCore (h : WriteInv c s) {core : State} (hmap : core.pidMap = s.core.pidMap)
    (hr : Rings core) : WriteInv c (s.setCore core) :=
  ⟨h.pid.congr hmap, h.inTable, h.rest, hr⟩

/-- A change of a task that is the caller's. -/
theorem WriteInv.onTask (h : WriteInv c s) {core : State} (hheld : s.held p rt = true)
    (ho : OnTask rt s.core core) : s.Keeps c p (s.setCore core) := by
  refine ⟨h.setCore ho.pidMap (ho.rings h.rings), fun q rid hq hrid => ho.same rid ?_⟩
  rintro rfl
  exact hq (h.pid.exclusive q p rid hrid hheld)

/-- The rest of the call of `p` changes. -/
theorem WriteState.Keeps.setRest (h : s.Keeps c p s') {r : Option ApiOp}
    (hr : ∀ op, r = some op → s'.call p = .user ∧ ∃ rt, op.hookOf = some rt ∧ s'.held p rt = true) :
    s.Keeps c p { s' with rest := Function.update s'.rest p r } := by
  refine ⟨⟨h.inv.pid, h.inv.inTable, fun q op hq => ?_, h.inv.rings⟩, h.same⟩
  dsimp only at hq
  by_cases hqp : q = p
  · subst hqp
    rw [Function.update_self] at hq
    exact hr op hq
  · rw [Function.update_of_ne hqp] at hq
    exact h.inv.rest q op hq

/-- A step of `api_init` or `api_exit`. -/
theorem WriteInv.pidExec (h : WriteInv c s) {o : PidOp} (hen : o.enabled s.toPidState = true)
    (ho : o.Orderly c s.toPidState) (hrest : s.rest o.proc = none)
    (htable : ∀ rid, (o.exec c k s.toPidState).held o.proc rid = true → rid < c.nrRtTasks)
    (hr : Rings (o.exec c k s.toPidState).core)
    (hsame : ∀ q rid, q ≠ o.proc → s.held q rid = true →
      SameFor s.core (o.exec c k s.toPidState).core rid) :
    s.Keeps c o.proc (s.pidExec c k o) := by
  refine ⟨⟨h.pid.step hen ho, fun q rid hq => ?_, fun q op' hq => ?_, hr⟩, hsame⟩
  · by_cases hqp : q = o.proc
    · subst hqp
      exact htable rid hq
    · have : (o.exec c k s.toPidState).held q = s.held q := PidOp.held_of_ne _ _ _ hqp
      exact h.inTable q rid (by rw [← this]; exact hq)
  · have hqp : q ≠ o.proc := by
      rintro rfl
      have : s.rest o.proc = some op' := hq
      rw [hrest] at this
      cases this
    obtain ⟨hcall, rt, hop, hheld⟩ := h.rest q op' hq
    have hcall' : (o.exec c k s.toPidState).call q = s.call q := PidOp.call_of_ne _ _ _ hqp
    have hheld' : (o.exec c k s.toPidState).held q = s.held q := PidOp.held_of_ne _ _ _ hqp
    exact ⟨hcall'.trans hcall, rt, hop, (congrFun hheld' rt).trans hheld⟩

theorem WriteState.pidExec_call {o : PidOp} (hq : q ≠ o.proc) :
    (s.pidExec c k o).call q = s.call q := PidOp.call_of_ne c k s.toPidState hq

theorem WriteOp.Own.inTable {a : ApiStruct} {mem : Option ℕ} (h : WriteInv c s)
    (ho : (WriteOp.write p a mem).Own c s) : s.inTable c a = true := by
  unfold WriteOp.Own at ho
  dsimp only at ho
  have own : 0 ≤ a.rid ∧ s.held p a.rid.toNat = true → 0 ≤ a.rid ∧ a.rid < c.nrRtTasks := by
    rintro ⟨hr, hheld⟩
    have := h.inTable p _ hheld
    omega
  unfold WriteState.inTable WriteState.index at ho ⊢
  split at ho
  · exact ho.2
  · rename_i hcall
    rw [hcall]
    simpa using own ho
  · rename_i hcall
    rw [hcall]
    simpa using own ho
  · rename_i hcall
    rw [hcall]
    simpa using own ho
  · exact ho
  · rename_i hcall
    rw [hcall]
    rfl
  · rename_i hcall
    rw [hcall]
    rfl
  · rename_i hcall
    rw [hcall]
    rfl

/-- The tables of `api_init`: only the pid map and the id are new. -/
theorem WriteInv.initTake (h : WriteInv c s) (hcan : s.canRun p = true) (hcall : s.call p = .user)
    (hrest : s.rest p = none) (ho : (PidOp.initTake p).Orderly c s.toPidState)
    (htable : ¬ reschFfz s.core.pidMap c.pidMapLong < 0 →
      (reschFfz s.core.pidMap c.pidMapLong).toNat < c.nrRtTasks) :
    s.Keeps c p (s.pidExec c k (.initTake p)) := by
  obtain ⟨m, hm⟩ := PidOp.initTake_only c k s.toPidState p
  refine h.pidExec (o := .initTake p) ?_ ho hrest (fun rid hrid => ?_) ?_ fun q rid _ _ => ?_
  · simp [PidOp.enabled, hcan, hcall]
  · have hffz : (apiInitTake c s.core).2 = reschFfz s.core.pidMap c.pidMapLong := by
      unfold apiInitTake
      dsimp only
      split <;> rfl
    unfold PidOp.exec at hrid
    dsimp only [PidOp.proc] at hrid
    rw [hffz] at hrid
    split at hrid
    · exact h.inTable p rid hrid
    · rename_i hneg
      rw [held_setHeld] at hrid
      split at hrid
      · rename_i hr
        rw [hr.2]
        exact htable hneg
      · exact h.inTable p rid hrid
  · rw [hm]
    exact h.rings.congr rfl rfl rfl rfl
  · rw [hm]
    exact .congr rfl rfl rfl rfl

theorem WriteInv.exitDetach (h : WriteInv c s) (hcan : s.canRun p = true) (hcall : s.call p = .user)
    (hrest : s.rest p = none) (hheld : s.held p rid = true) :
    s.Keeps c p (s.pidExec c k (.exitDetach p rid)) := by
  have hon : OnTask rid s.core (apiExitDetach c k s.core rid) :=
    (apiExitDetach_updates c k s.core rid).onTask
  have hnot : ∀ q, q ≠ p → s.held q rid = false := by
    intro q hq
    by_contra hc
    exact hq (h.pid.exclusive q p rid (by simpa using hc) hheld)
  refine h.pidExec (o := .exitDetach p rid) ?_ hnot hrest (fun r hr => h.inTable p r hr)
    (hon.rings h.rings) fun q r hq hr => hon.same r ?_
  · simp [PidOp.enabled, hcan, hcall]
  · rintro rfl
    rw [hnot q hq] at hr
    cases hr

/-- Each entry of the `switch` that takes a task is a call on that task. -/
theorem ApiStruct.call_task {a : ApiStruct} {f : ℕ → ApiOp} (h : a.call c = .task f) (rt : ℕ) :
    ((f rt).hookOf = some rt ∧ ∀ s, (f rt).StartsInactive s) ∨
      (∃ v, f rt = .setScheduler rt v ∨ f rt = .compose rt v) ∨ f rt = .decompose rt := by
  unfold ApiStruct.call at h
  dsimp only at h
  split at h <;> cases h <;> simp [ApiOp.hookOf, ApiOp.StartsInactive]

theorem onTask_call {s s' : State} {a : ApiStruct} {f : ℕ → ApiOp} (hf : a.call c = .task f)
    (hr : Rings s) (h : (f rt).exec c k s = some s') : OnTask rt s s' := by
  rcases ApiStruct.call_task hf rt with ⟨hop, hstart⟩ | ⟨v, hop | hop⟩ | hop
  · exact ApiOp.onTask hop (hstart s) h
  · rw [hop] at h
    cases h
    exact onTask_apiSetScheduler c k s rt v
  · rw [hop] at h
    obtain ⟨r, hc, rfl⟩ := Option.map_eq_some_iff.1 h
    exact onTask_apiCompose hr hc
  · rw [hop] at h
    cases h
    exact onTask_apiDecompose s rt

/-- What is left of a call that sleeps is a call on the same task. -/
theorem WriteState.taskCall_eq {op : ApiOp} (h : s.taskCall c k p op = some s') :
    ∃ core, op.exec c k s.core = some core ∧ (s' = s.setCore core ∨ ∃ r rt, op.hookOf = some rt ∧
      r.hookOf = some rt ∧ s' = { s.setCore core with rest := Function.update s.rest p (some r) }) := by
  obtain ⟨core, hcore, rfl⟩ := Option.map_eq_some_iff.1 h
  refine ⟨core, hcore, ?_⟩
  cases op with
  | run rt | waitForPeriod rt | waitForInterval rt =>
    exact Or.inr ⟨.release rt, rt, rfl, rfl, rfl⟩
  | sleep rt | suspend rt => exact Or.inr ⟨.resume rt, rt, rfl, rfl, rfl⟩
  | _ => exact Or.inl rfl

/-- A call on a task of the caller, up to where it sleeps. -/
theorem WriteInv.taskCall (h : WriteInv c s) (hcall : s.call p = .user) {a : ApiStruct}
    {f : ℕ → ApiOp} (hf : a.call c = .task f) (hheld : s.held p rt = true)
    (hs : s.taskCall c k p (f rt) = some s') : s.Keeps c p s' := by
  obtain ⟨core, hcore, hrest⟩ := WriteState.taskCall_eq hs
  have hk : s.Keeps c p (s.setCore core) := h.onTask hheld (onTask_call hf h.rings hcore)
  rcases hrest with rfl | ⟨r, rt', hop, hr, rfl⟩
  · exact hk
  refine hk.setRest fun op hop' => ⟨hcall, rt, ?_, hheld⟩
  cases hop'
  rcases ApiStruct.call_task hf rt with ⟨ht, -⟩ | ⟨v, ht | ht⟩ | ht
  · rw [hr, ← hop, ht]
  all_goals
    rw [ht] at hop
    cases hop

/-- A change that touches no task. -/
theorem WriteInv.onNone (h : WriteInv c s) {core : State} (ho : ∀ rt, OnTask rt s.core core) :
    s.Keeps c p (s.setCore core) :=
  ⟨h.setCore (ho 0).pidMap ((ho 0).rings h.rings), fun _ rid _ _ => (ho (rid + 1)).same rid (by omega)⟩

theorem WriteInv.refl (h : WriteInv c s) : s.Keeps c p s := ⟨h, fun _ rid _ _ => .refl _ rid⟩

theorem apiWakeUp_only (s : State) (rt : ℕ) : ∃ proc, (apiWakeUp s rt).1 = { s with proc } := by
  unfold apiWakeUp
  split
  · exact ⟨s.proc, rfl⟩
  · split
    · exact ⟨_, rfl⟩
    · exact ⟨s.proc, rfl⟩

theorem ApiStruct.call_other {a : ApiStruct} {op : ApiOp} (h : a.call c = .other op) :
    op = .componentCreate ∨ ∃ cid, op = .componentDestroy cid := by
  unfold ApiStruct.call at h
  dsimp only at h
  split at h <;> cases h
  · exact Or.inl rfl
  · exact Or.inr ⟨_, rfl⟩

/-- **One call of `write()`.** -/
theorem WriteInv.write (h : WriteInv c s) {a : ApiStruct} {mem : Option ℕ}
    (hcan : s.canRun p = true) (hcall : s.call p = .user) (hrest : s.rest p = none)
    (ho : (WriteOp.write p a mem).Own c s) (hs : reschWrite c k s p a mem = some s') :
    s.Keeps c p s' := by
  have hin := WriteOp.Own.inTable h ho
  unfold reschWrite at hs
  rw [if_pos hin] at hs
  unfold WriteOp.Own at ho
  dsimp only at ho
  cases hw : a.call c with
  | init =>
    rw [hw] at hs ho
    cases hs
    refine h.initTake hcan hcall hrest ho.1 fun hneg => ?_
    unfold WriteState.inTable WriteState.index at hin
    rw [hw] at hin
    simp only [if_neg hneg, Option.all_some, decide_eq_true_eq] at hin
    omega
  | exit =>
    rw [hw] at hs ho
    cases hs
    exact h.exitDetach hcan hcall hrest ho.2
  | serverRun =>
    rw [hw] at hs ho
    cases hs
    exact h.onTask ho.2 (onTask_apiServerRun c s.core _ mem)
  | task f =>
    rw [hw] at hs ho
    exact h.taskCall hcall hw ho.2 hs
  | wakeUp =>
    rw [hw] at hs
    cases hs
    obtain ⟨proc, hproc⟩ := apiWakeUp_only s.core a.val.toNat
    rw [hproc]
    refine h.onNone fun rt => ⟨fun _ _ => .congr rfl rfl rfl rfl, fun hr => ?_, rfl⟩
    exact hr.congr rfl rfl rfl rfl
  | other op =>
    rw [hw] at hs ho
    rcases ApiStruct.call_other hw with rfl | ⟨cid, rfl⟩
    · cases hs
      exact h.onNone fun rt => onTask_apiComponentCreate ho
    · cases hs
      exact h.onNone fun rt => onTask_apiComponentDestroy rt s.core cid
  | illegal =>
    rw [hw] at hs
    cases hs
    exact h.refl

/-- **The rest of a call.** -/
theorem WriteInv.goOn (h : WriteInv c s) (hcan : s.canRun p = true)
    (ho : (WriteOp.goOn p).Own c s) (hs : s.goOn c k p = some s') : s.Keeps c p s' := by
  obtain ⟨hinit, hstart⟩ := ho
  -- only in user mode does a call leave something to be done
  have hrest : s.call p ≠ .user → s.rest p = none := by
    intro hne
    by_contra hc
    obtain ⟨op, hop⟩ := Option.ne_none_iff_exists'.1 hc
    exact hne (h.rest p op hop).1
  -- the ids of other processes are other ids
  have hother : ∀ rid, s.held p rid = true → ∀ q rid', q ≠ p → s.held q rid' = true → rid' ≠ rid := by
    rintro rid hheld q rid' hq hrid rfl
    exact hq (h.pid.exclusive q p rid' hrid hheld)
  unfold WriteState.goOn at hs
  cases hw : s.call p with
  | initDesc rid =>
    rw [hw] at hs
    cases hs
    obtain ⟨ha, hm, hc⟩ := hinit rid hw
    have hheld := h.pid.fresh p rid hw
    have hon : OnTask rid s.core (reschTaskInit c k s.core rid p) := onTask_reschTaskInit ha hm hc
    refine h.pidExec (o := .initDesc p rid) ?_ trivial (hrest (by simp [hw]))
      (fun r hr => h.inTable p r hr) (hon.rings h.rings) fun q r hq hr => hon.same r ?_
    · simp [PidOp.enabled, hcan, hw]
    · exact hother rid hheld q r hq hr
  | exitClear rid =>
    rw [hw] at hs
    cases hs
    refine h.pidExec (o := .exitClear p rid) ?_ trivial (hrest (by simp [hw]))
      (fun r hr => h.inTable p r hr) (h.rings.congr rfl rfl rfl rfl) fun q r _ _ =>
      .congr rfl rfl rfl rfl
    simp [PidOp.enabled, hcan, hw]
  | exitPolicy rid =>
    rw [hw] at hs
    cases hs
    have hon := onTask_apiExitPolicy c k s.core rid
    refine h.pidExec (o := .exitPolicy p rid) ?_ trivial (hrest (by simp [hw])) (fun r hr => ?_)
      (hon.rings h.rings) fun q r hq hr => hon.same r ?_
    · simp [PidOp.enabled, hcan, hw]
    · unfold PidOp.exec at hr
      dsimp only [PidOp.proc] at hr
      rw [held_setHeld] at hr
      split at hr
      · cases hr
      · exact h.inTable p r hr
    · -- nobody else holds the id that is given back
      rintro rfl
      rw [h.pid.leaving p r (Or.inr hw) q hq] at hr
      cases hr
  | user =>
    rw [hw] at hs
    obtain ⟨op, hop, hs⟩ := Option.bind_eq_some_iff.1 hs
    obtain ⟨core, hcore, rfl⟩ := Option.map_eq_some_iff.1 hs
    obtain ⟨-, rt, hhook, hheld⟩ := h.rest p op hop
    have hk : s.Keeps c p (s.setCore core) := h.onTask hheld (ApiOp.onTask hhook (hstart op hop) hcore)
    refine hk.setRest fun op hop => ?_
    cases hop

/-- **The step lemma.** -/
theorem WriteInv.step (h : WriteInv c s) {a : WriteOp × Kernel} (ho : a.1.Own c s)
    (hs : writeStep c s a = some s') : WriteInv c s' ∧ WriteOp.Isolated c s a := by
  obtain ⟨op, k⟩ := a
  cases op with
  | write p w mem =>
    have hk : ∀ s', writeStep c s (.write p w mem, k) = some s' → s.Keeps c p s' := by
      intro s' hs
      unfold writeStep at hs
      dsimp only at hs
      split at hs
      · rename_i hen
        exact h.write hen.1 hen.2.1 (Option.isNone_iff_eq_none.1 hen.2.2) ho hs
      · cases hs
    exact ⟨(hk s' hs).inv, WriteOp.Own.inTable h ho, fun s' hs => (hk s' hs).untouched⟩
  | goOn p =>
    have hk : ∀ s', writeStep c s (.goOn p, k) = some s' → s.Keeps c p s' := by
      intro s' hs
      unfold writeStep at hs
      dsimp only at hs
      split at hs
      · rename_i hcan
        exact h.goOn hcan ho hs
      · cases hs
    exact ⟨(hk s' hs).inv, fun s' hs => (hk s' hs).untouched⟩
  | replenishTimer rt =>
    unfold writeStep at hs
    dsimp only at hs
    split at hs
    · cases hs
      have hu : Updates rt s.core (onReplenish c k s.core rt) := (Updates.refl _).onReplenish
      exact ⟨h.setCore hu.rest.2.1 (hu.rings h.rings), trivial⟩
    · cases hs
  | serverTimer rt =>
    unfold writeStep at hs
    dsimp only at hs
    split at hs
    · cases hs
      have hon := onTask_serverHandler s.core rt
      exact ⟨h.setCore hon.pidMap (hon.rings h.rings), trivial⟩
    · cases hs
  | stop p =>
    cases hs
    exact ⟨h.setCore rfl (h.rings.congr rfl rfl rfl rfl), trivial⟩
  | cont p =>
    unfold writeStep at hs
    dsimp only at hs
    split at hs
    · cases hs
      exact ⟨h.setCore rfl (h.rings.congr rfl rfl rfl rfl), trivial⟩
    · cases hs
  | linux jiffies proc =>
    cases hs
    exact ⟨h.setCore rfl (h.rings.congr rfl rfl rfl rfl), trivial⟩

end Step

/-! ## Runs -/

theorem writeInit_inv (c : Config) (jiffies : ℕ) (proc : ℕ → Proc) :
    WriteInv c (writeInit jiffies proc) := by
  refine ⟨pidInit_inv jiffies proc, fun p rid hp => ?_, fun p op hp => ?_, ?_⟩
  · cases hp
  · cases hp
  · refine ⟨⟨_, (schedInit_queued jiffies proc).toLinked⟩, ⟨List.nodup_nil, fun q => ?_⟩,
      fun cid q hq => ?_, fun cid => List.nodup_nil⟩
    · constructor <;> intro hq <;> cases hq
    · cases hq

/-- **A call of `write()` stays with the tasks of its caller**, in every run whose calls are on
the caller's own ids. -/
theorem write_isolated (c : Config) (jiffies : ℕ) (proc : ℕ → Proc)
    (run : List (WriteOp × Kernel))
    (h : Each (writeStep c) (fun s a => a.1.Own c s) (writeInit jiffies proc) run) :
    Each (writeStep c) (fun s a => WriteOp.Isolated c s a) (writeInit jiffies proc) run := by
  refine Each.of_inv (I := WriteInv c) ?_ run _ (writeInit_inv c jiffies proc) h
  exact fun s a s' hi ho hs => hi.step ho hs

/-- A build for one CPU and two tasks. -/
def Config.pair : Config := { Config.small false with nrRtTasks := 2 }

/-- Two processes attach, and the second sets its period. -/
def pairRun : List (WriteOp × Kernel) :=
  [(.write 1 ⟨0, -1, 0, 0⟩ none, .accepting), (.goOn 1, .accepting),
    (.write 2 ⟨0, -1, 0, 0⟩ none, .accepting), (.goOn 2, .accepting),
    (.write 2 ⟨5, 1, 0, 9000⟩ none, .accepting)]

theorem write_isolated_pair :
    Each (writeStep .pair) (fun s a => WriteOp.Isolated .pair s a) (writeInit 0 fun _ => .fair)
      pairRun := by
  refine write_isolated .pair 0 (fun _ => .fair) pairRun ?_
  refine Each.cons rfl ?_ (Each.cons rfl ?_ (Each.cons rfl ?_ (Each.cons rfl ?_
    (Each.cons rfl ?_ trivial))))
  · refine ⟨?_, by decide +kernel⟩
    unfold PidOp.Orderly
    dsimp only
    rw [if_neg (by decide +kernel)]
    rintro q (h | h) <;> cases h
  · refine ⟨fun rid h => ?_, fun op h => by cases h⟩
    cases h
    exact ⟨by decide +kernel, by decide +kernel, by decide +kernel⟩
  · refine ⟨?_, by decide +kernel⟩
    unfold PidOp.Orderly
    dsimp only
    rw [if_neg (by decide +kernel)]
    intro q hq
    rcases eq_or_ne q 1 with rfl | hne
    · rcases hq with h | h <;> cases h
    · rcases hq with h | h
      all_goals
        rw [WriteState.pidExec_call hne, WriteState.pidExec_call hne] at h
        cases h
  · refine ⟨fun rid h => ?_, fun op h => by cases h⟩
    cases h
    exact ⟨by decide +kernel, by decide +kernel, by decide +kernel⟩
  · exact ⟨by decide, by decide +kernel⟩

/-- The second process sets the period of the first; a process that is not attached writes before
the table. -/
theorem write_not_isolated :
    ¬ Each (writeStep .pair) (fun s a => WriteOp.Isolated .pair s a) (writeInit 0 fun _ => .fair)
        [(.write 1 ⟨0, -1, 0, 0⟩ none, .accepting), (.goOn 1, .accepting),
          (.write 2 ⟨5, 0, 0, 9000⟩ none, .accepting)] ∧
      ¬ Each (writeStep .pair) (fun s a => WriteOp.Isolated .pair s a) (writeInit 0 fun _ => .fair)
        [(.write 2 ⟨5, -1, 0, 9000⟩ none, .accepting)] := by
  constructor
  · intro h
    obtain ⟨-, h⟩ := h _ rfl
    obtain ⟨-, h⟩ := h _ rfl
    obtain ⟨⟨-, h⟩, -⟩ := h _ rfl
    have hsame := ((h _ rfl).2 1 0 (by decide) (by decide +kernel)).task
    have hperiod := congrArg Task.period hsame
    revert hperiod
    decide +kernel
  · intro h
    have hin := (h _ rfl).1.1
    revert hin
    decide +kernel

end Resch
