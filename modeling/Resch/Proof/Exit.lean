import Resch.Lib.Runs
import Resch.Proof.Frame
import Resch.Proof.ApiHooks
import Resch.Proof.Place

/-!
# Leaving

A descriptor is linked into an active queue, the global list and a component; `api_exit`
has to take it out of all of them before the next `api_init` re-initialises its list
heads. `ListsOk` says that every list is well formed and that descriptors that are not
attached are linked nowhere.

`ApiOp.Clean` is the exact condition on one step under which `ListsOk` is kept
(`ListsOk.step_iff`): the task that leaves is in no component, and not queued by a class
it has left for FAIR; no job is started of a task that is queued already; and the list
head of a component is not re-initialised under its tasks.
-/

namespace Resch

open Lib

variable {c : Config} {k : Kernel} {s s' : State} {rt q cpu : ℕ} {prio : ℤ}

/-- The lists of the components. -/
def State.members (s : State) : ℕ → List ℕ := fun cid => (s.component cid).taskList

/-- The lists of the components are well formed. -/
structure ComponentOk (s : State) (place : ℕ → Option ℕ) : Prop where
  placed : Placed s.members place
  entry : ∀ q, (s.task q).componentEntry = (place q).isSome

/-- A descriptor is linked nowhere. -/
structure Unlinked (s : State) (q : ℕ) : Prop where
  active : ∀ cpu i, q ∉ (s.lo cpu).queue i
  global : q ∉ s.taskList
  component : ∀ cid, q ∉ s.members cid

/-- **All lists are well formed, and detached descriptors are linked nowhere.** -/
structure ListsOk (s : State) : Prop where
  active : WellLinked s
  global : GlobalOk s
  component : ∃ place, ComponentOk s place
  gone : ∀ q, s.point q = .detached → Unlinked s q

/-- The component id that `api_component_create` initialises. -/
def nextComponent (c : Config) (s : State) : ℕ :=
  (if reschFfz s.cidMap c.cidMapLong < 0 then resFault else reschFfz s.cidMap c.cidMapLong).toNat

/-- The condition on a step. -/
def ApiOp.Clean (c : Config) (s : State) : ApiOp → Prop
  | exit rt => (s.task rt).componentEntry = false ∧ ¬ (s.isActive rt = true ∧ (s.task rt).cls = .fair)
  | release rt => (s.task rt).cls ≠ .fair → s.isActive rt = false
  | componentCreate => s.members (nextComponent c s) = []
  | _ => True

/-- All calls but the ones that sleep. -/
def ApiOp.noSleep : ApiOp → Bool
  | sleep _ | suspend _ | resume _ => false
  | _ => true

/-! ## List heads and lists -/

/-- The list heads of a descriptor. -/
structure Task.SameHeads (t t' : Task) : Prop where
  active : t'.activeEntry = t.activeEntry
  global : t'.globalEntry = t.globalEntry
  component : t'.componentEntry = t.componentEntry

/-- The list heads of a descriptor are all self-linked. -/
structure Task.Free (t : Task) : Prop where
  active : t.activeEntry = false
  global : t.globalEntry = false
  component : t.componentEntry = false

/-- The three kinds of lists are well formed. -/
structure ListsWf (s : State) : Prop where
  active : WellLinked s
  global : GlobalOk s
  component : ∃ place, ComponentOk s place

theorem ListsOk.wf (h : ListsOk s) : ListsWf s := ⟨h.active, h.global, h.component⟩

theorem ComponentOk.congr {place : ℕ → Option ℕ} (h : ComponentOk s place)
    (hc : s'.component = s.component)
    (he : ∀ q, (s'.task q).componentEntry = (s.task q).componentEntry) : ComponentOk s' place := by
  refine ⟨?_, fun q => (he q).trans (h.entry q)⟩
  have : s'.members = s.members := by unfold State.members; rw [hc]
  rw [this]; exact h.placed

/-- In well-formed lists a descriptor is linked nowhere iff its heads are self-linked. -/
theorem ListsWf.unlinked_iff (h : ListsWf s) : Unlinked s q ↔ (s.task q).Free := by
  obtain ⟨place, hl⟩ := h.active
  obtain ⟨cplace, hc⟩ := h.component
  constructor
  · intro hu
    refine ⟨?_, ?_, ?_⟩
    · refine hl.inactive.2 ?_
      by_contra hne
      obtain ⟨⟨cpu, i⟩, hk⟩ := Option.ne_none_iff_exists'.1 hne
      exact hu.active cpu i (hl.mem_iff.2 hk)
    · by_contra hne
      exact hu.global ((h.global.mem q).2 (by simpa [State.isManaged] using hne))
    · rw [hc.entry q]
      by_contra hne
      obtain ⟨cid, hk⟩ := Option.ne_none_iff_exists'.1 (by simpa using hne)
      exact hu.component cid (hc.placed.mem_iff.2 hk)
  · intro hf
    refine ⟨fun cpu i hm => ?_, fun hm => ?_, fun cid hm => ?_⟩
    · have := hl.inactive.1 hf.active
      rw [hl.mem_iff.1 hm] at this; cases this
    · have := (h.global.mem q).1 hm
      unfold State.isManaged at this
      rw [hf.global] at this; cases this
    · have hk := hc.placed.mem_iff.1 hm
      have := hc.entry q
      rw [hk, hf.component] at this; cases this

theorem listsOk_iff : ListsOk s ↔ ListsWf s ∧ ∀ q, s.point q = .detached → (s.task q).Free :=
  ⟨fun h => ⟨h.wf, fun q hq => h.wf.unlinked_iff.1 (h.gone q hq)⟩,
    fun h => ⟨h.1.active, h.1.global, h.1.component, fun q hq => h.1.unlinked_iff.2 (h.2 q hq)⟩⟩

theorem ListsWf.congr (h : ListsWf s) (hlo : s'.lo = s.lo) (hl : s'.taskList = s.taskList)
    (hc : s'.component = s.component) (ht : ∀ q, (s.task q).SameHeads (s'.task q)) :
    ListsWf s' := by
  obtain ⟨place, hp⟩ := h.active
  obtain ⟨cplace, hcp⟩ := h.component
  exact ⟨⟨place, hp.congr hlo fun q => (ht q).active⟩, h.global.congr hl fun q => (ht q).global,
    ⟨cplace, hcp.congr hc fun q => (ht q).component⟩⟩

theorem ListsWf.updates (h : ListsWf s) (hu : Updates rt s s') : ListsWf s' := by
  obtain ⟨cplace, hc⟩ := h.component
  refine ⟨hu.wellLinked h.active, hu.globalOk h.global, cplace, hc.congr hu.rest.2.2 fun q => ?_⟩
  by_cases hq : q = rt
  · subst hq; exact hu.same.component
  · rw [hu.task_of_ne hq]

/-- Nothing that the lists are about is written. -/
theorem ListsOk.congr (h : ListsOk s) (hlo : s'.lo = s.lo) (hl : s'.taskList = s.taskList)
    (hc : s'.component = s.component) (ht : s'.task = s.task) (hp : s'.point = s.point) :
    ListsOk s' := by
  rw [listsOk_iff] at h ⊢
  refine ⟨h.1.congr hlo hl hc fun q => ?_, fun q hq => ?_⟩
  · rw [ht]; exact ⟨rfl, rfl, rfl⟩
  · rw [hp] at hq
    rw [ht]; exact h.2 q hq

/-- A sequence of updates of an attached task. -/
theorem ListsOk.hook (h : ListsOk s) (hu : Updates rt s s') {p : Point} (hp : p ≠ .detached) :
    ListsOk (s'.setPoint rt p) := by
  have hwf := h.wf.updates hu
  rw [listsOk_iff] at h ⊢
  refine ⟨hwf.congr rfl rfl rfl fun _ => ⟨rfl, rfl, rfl⟩, fun q hq => ?_⟩
  by_cases hqr : q = rt
  · subst hqr
    simp only [State.setPoint, Function.update_self] at hq
    exact absurd hq hp
  · simp only [State.setPoint, Function.update_of_ne hqr, hu.rest.1] at hq
    show (s'.task q).Free
    rw [hu.task_of_ne hqr]
    exact h.2 q hq

/-! ## Leaving -/

theorem isActive_setTask {f : Task → Task} (h : (f (s.task rt)).activeEntry = (s.task rt).activeEntry)
    (q : ℕ) : (s.setTask rt f).isActive q = s.isActive q :=
  setTask_field (·.activeEntry) h q

theorem classJobComplete_inactive (hc : (s.task rt).cls ≠ .fair) :
    (classJobComplete s rt).isActive rt = false := by
  unfold classJobComplete
  split
  · exact absurd ‹_› hc
  · exact isActive_dequeueTaskAt _ _ _ _
  · unfold Edf.edfJobComplete
    simp only [ifSome]
    split <;> exact isActive_setPrio.trans (isActive_dequeueTaskAt _ _ _ _)
  · exact isActive_dequeueTaskAt _ _ _ _

/-- Completing a job takes the task out of the queues, unless its class is FAIR. -/
theorem jobComplete_inactive (hc : (s.task rt).cls ≠ .fair) :
    (jobComplete c k s rt).isActive rt = false := by
  unfold jobComplete
  have hs : ∀ s₁ : State, (s₁.task rt).cls ≠ .fair →
      (if (classJobComplete s₁ rt).hasReserve rt then
        reserveReplenish c k (stopAccount c (classJobComplete s₁ rt) rt) rt
        else classJobComplete s₁ rt).isActive rt = false := by
    intro s₁ hc
    have h₁ := classJobComplete_inactive hc
    have h₂ : (stopAccount c (classJobComplete s₁ rt) rt).isActive rt = false :=
      (isActive_of_frame (stopAccount_accounts.frame _ _) rt).trans h₁
    split
    · unfold reserveReplenish
      refine (isActive_setTask (by rfl) rt).trans ?_
      split
      · exact classReserveReplenish_inactive h₂ _
      · exact h₂
    · exact h₁
  refine hs _ ?_
  split
  · simpa using hc
  · exact hc

/-- What `api_exit` has unlinked before it clears the bit of the id. -/
theorem apiExitDetach_free (hcomp : (s.task rt).componentEntry = false)
    (hact : ¬ (s.isActive rt = true ∧ (s.task rt).cls = .fair)) :
    ((apiExitDetach c k s rt).task rt).Free := by
  have hu := apiExitDetach_updates c k s rt
  have h₁ : (if s.isActive rt = true then jobComplete c k s rt else s).isActive rt = false := by
    split
    · rename_i ha
      exact jobComplete_inactive fun hc => hact ⟨ha, hc⟩
    · simpa using ‹¬ s.isActive rt = true›
  refine ⟨?_, ?_, hu.same.component.trans hcomp⟩ <;> unfold apiExitDetach <;> dsimp only <;>
    generalize (if s.isActive rt = true then jobComplete c k s rt else s) = s₁ at h₁ ⊢
  · have h₂ : (if s₁.hasReserve rt = true then reserveStop c s₁ rt else s₁).isActive rt = false := by
      split
      · exact (isActive_of_frame (reserveStop_accounts.frame _ _) rt).trans h₁
      · exact h₁
    generalize (if s₁.hasReserve rt = true then reserveStop c s₁ rt else s₁) = s₂ at h₂ ⊢
    show (if s₂.isManaged rt = true then globalListRemove s₂ rt else s₂).isActive rt = false
    split
    · exact (globalListRemove_only.isActive rt).trans h₂
    · exact h₂
  · generalize (if s₁.hasReserve rt = true then reserveStop c s₁ rt else s₁) = s₂
    show (if s₂.isManaged rt = true then globalListRemove s₂ rt else s₂).isManaged rt = false
    split
    · exact isManaged_globalListRemove
    · simpa using ‹¬ s₂.isManaged rt = true›

theorem setPolicy_sameHeads (c : Config) (s : State) (rt : ℕ) (policy : ℤ) (q : ℕ) :
    (s.task q).SameHeads ((setPolicy c s rt policy).task q) := by
  unfold setPolicy
  split
  · exact ⟨setTask_field (·.activeEntry) (by rfl) q, setTask_field (·.globalEntry) (by rfl) q,
      setTask_field (·.componentEntry) (by rfl) q⟩
  · exact ⟨rfl, rfl, rfl⟩

/-- Changing policy and priority keeps the lists well formed and the heads of the task. -/
theorem ListsWf.setScheduler (h : ListsWf s) (c : Config) (k : Kernel) (rt : ℕ) (policy prio : ℤ) :
    ListsWf (setScheduler c k s rt policy prio).1 ∧
      (s.task rt).SameHeads ((setScheduler c k s rt policy prio).1.task rt) := by
  have hr := setPolicy_rest c s rt policy
  have h₁ : ListsWf (setPolicy c s rt policy) :=
    h.congr hr.lo hr.taskList hr.component (setPolicy_sameHeads c s rt policy)
  have hu := setScheduler_updates c k s rt policy prio
  have hcomp := (setPolicy_sameHeads c s rt policy rt).component
  exact ⟨h₁.updates hu, setScheduler_sameLinks.active, setScheduler_sameLinks.managed,
    hu.same.component.trans hcomp⟩

theorem setPoint_free (p : Point) : ((s.setPoint rt p).task q).Free ↔ (s.task q).Free := Iff.rfl

theorem ListsWf.setPoint (h : ListsWf s) (p : Point) : ListsWf (s.setPoint rt p) :=
  h.congr rfl rfl rfl fun _ => ⟨rfl, rfl, rfl⟩

/-- `api_exit` keeps the lists well formed; the heads of the descriptor are those that
`apiExitDetach` leaves, and the components are as before. -/
theorem apiExit_lists (c : Config) (k : Kernel) (rt : ℕ) (h : ListsWf s) :
    ListsWf (apiExit c k s rt).1 ∧
      ((apiExitDetach c k s rt).task rt).SameHeads ((apiExit c k s rt).1.task rt) ∧
      (∀ q, q ≠ rt → (apiExit c k s rt).1.task q = s.task q) ∧
      (apiExit c k s rt).1.point = s.point ∧ (apiExit c k s rt).1.component = s.component := by
  have hu := apiExitDetach_updates c k s rt
  have hclear : ListsWf (apiExitClear (apiExitDetach c k s rt) rt) :=
    (h.updates hu).congr rfl rfl rfl fun _ => ⟨rfl, rfl, rfl⟩
  unfold apiExit apiExitPolicy
  dsimp only
  split
  · obtain ⟨hw, hh⟩ := hclear.setScheduler c k rt reschSchedFair 0
    refine ⟨hw, hh, fun q hq => ?_, ?_, ?_⟩
    · rw [setScheduler_task_of_ne hq]; exact hu.task_of_ne hq
    · rw [(setScheduler_rest ..).1]; exact hu.rest.1
    · rw [(setScheduler_rest ..).2.2]; exact hu.rest.2.2
  · exact ⟨hclear, ⟨rfl, rfl, rfl⟩, fun q hq => hu.task_of_ne hq, hu.rest.1, hu.rest.2.2⟩

theorem ListsOk.exit (h : ListsOk s)
    (hc : (s.task rt).componentEntry = false ∧ ¬ (s.isActive rt = true ∧ (s.task rt).cls = .fair)) :
    ListsOk ((apiExit c k s rt).1.setPoint rt .detached) := by
  obtain ⟨hw, hh, hother, hpoint, -⟩ := apiExit_lists c k rt h.wf
  have hf := apiExitDetach_free (c := c) (k := k) hc.1 hc.2
  rw [listsOk_iff] at h ⊢
  refine ⟨hw.setPoint _, fun q hq => ?_⟩
  rw [setPoint_free]
  by_cases hqr : q = rt
  · subst hqr
    exact ⟨hh.active.trans hf.active, hh.global.trans hf.global, hh.component.trans hf.component⟩
  · rw [hother q hqr]
    simp only [State.setPoint, Function.update_of_ne hqr, hpoint] at hq
    exact h.2 q hq

/-! ## The other calls -/

theorem ListsOk.init (h : ListsOk s) (hd : s.point rt = .detached) (current : ℕ) :
    ListsOk ((reschTaskInit c k s rt current).setPoint rt .user) := by
  obtain ⟨t, proc, heq, ht, -⟩ := reschTaskInit_eq c k s rt current
  rw [listsOk_iff] at h ⊢
  have hf := h.2 rt hd
  have hheads : ∀ q, (s.task q).SameHeads ((reschTaskInit c k s rt current).task q) := by
    intro q
    rw [heq]
    by_cases hq : q = rt
    · subst hq
      simp only [Function.update_self]
      exact ⟨ht.activeEntry.trans hf.active.symm, ht.globalEntry.trans hf.global.symm,
        ht.componentEntry.trans hf.component.symm⟩
    · simp only [Function.update_of_ne hq]
      exact ⟨rfl, rfl, rfl⟩
  have hw : ListsWf (reschTaskInit c k s rt current) := by
    refine h.1.congr ?_ ?_ ?_ hheads <;> rw [heq]
  refine ⟨hw.setPoint _, fun q hq => ?_⟩
  have hqr : q ≠ rt := by
    rintro rfl
    simp [State.setPoint] at hq
  simp only [State.setPoint, Function.update_of_ne hqr, heq] at hq ⊢
  exact h.2 q hq

theorem ListsOk.setScheduler (h : ListsOk s) (ha : s.Attached rt) (policy : ℤ) :
    ListsOk (apiSetScheduler c k s rt policy).1 := by
  by_cases hpol : policy = (s.task rt).policy
  · have : (apiSetScheduler c k s rt policy).1 = s := by simp [apiSetScheduler, hpol]
    rw [this]; exact h
  rw [apiSetScheduler_of_ne hpol]
  rw [listsOk_iff] at h ⊢
  refine ⟨(h.1.setScheduler c k rt policy _).1, fun q hq => ?_⟩
  rw [(setScheduler_rest ..).1] at hq
  have hqr : q ≠ rt := by
    rintro rfl
    exact ha hq
  rw [setScheduler_task_of_ne hqr]
  exact h.2 q hq

/-- A call on components: everything but the components and their entries is as before. -/
theorem ListsOk.components (h : ListsOk s) (hlo : s'.lo = s.lo) (hl : s'.taskList = s.taskList)
    (hp : s'.point = s.point) (ha : s.Attached rt) (hother : ∀ q, q ≠ rt → s'.task q = s.task q)
    (hact : (s'.task rt).activeEntry = (s.task rt).activeEntry)
    (hglob : (s'.task rt).globalEntry = (s.task rt).globalEntry)
    (hcomp : ∃ place, ComponentOk s' place) : ListsOk s' := by
  obtain ⟨place, hlk⟩ := h.active
  rw [listsOk_iff] at h ⊢
  refine ⟨⟨⟨place, hlk.congr hlo fun q => ?_⟩, h.1.global.congr hl fun q => ?_, hcomp⟩, fun q hq => ?_⟩
  · by_cases hq : q = rt
    · subst hq; exact hact
    · unfold State.isActive; rw [hother q hq]
  · by_cases hq : q = rt
    · subst hq; exact hglob
    · unfold State.isManaged; rw [hother q hq]
  · rw [hp] at hq
    have hqr : q ≠ rt := by
      rintro rfl
      exact ha hq
    rw [hother q hqr]
    exact h.2 q hq

theorem ListsOk.compose (h : ListsOk s) (ha : s.Attached rt) {cid : ℤ} {res : ℤ}
    (hs : apiCompose c s rt cid = some (s', res)) : ListsOk s' := by
  unfold apiCompose at hs
  split at hs
  · cases hs; exact h
  split at hs
  · cases hs
  split at hs
  · cases hs; exact h
  split at hs
  · cases hs; exact h
  rename_i hentry
  split at hs
  · cases hs
  obtain ⟨place, hc⟩ := h.component
  have hnone : place rt = none := by
    have := hc.entry rt
    cases hp : place rt with
    | none => rfl
    | some x => rw [hp] at this; exact absurd this hentry
  obtain ⟨rfl, -⟩ := Prod.mk.inj (Option.some.inj hs)
  refine h.components rfl rfl rfl ha (fun q hq => task_setTask_of_ne _ hq) (by simp) (by simp)
    ⟨Function.update place rt (some cid.toNat), ?_, fun q => ?_⟩
  · have := hc.placed.insert (addsOnce_append rt) hnone cid.toNat
    convert this using 1
    funext x
    by_cases hx : x = cid.toNat <;> simp [State.members, hx]
  · by_cases hq : q = rt
    · subst hq; simp
    · simp [task_setTask_of_ne _ hq, hq]
      exact hc.entry q

theorem ListsOk.decompose (h : ListsOk s) (ha : s.Attached rt) : ListsOk (apiDecompose s rt).1 := by
  unfold apiDecompose
  split
  swap
  · exact h
  obtain ⟨place, hc⟩ := h.component
  dsimp only
  refine h.components rfl rfl rfl ha (fun q hq => task_setTask_of_ne _ hq) (by simp) (by simp)
    ⟨Function.update place rt none, hc.placed.unlink rt, fun q => ?_⟩
  by_cases hq : q = rt
  · subst hq; simp
  · simp [task_setTask_of_ne _ hq, hq]
    exact hc.entry q

/-- `api_component_create` writes the component map and one component. -/
theorem apiComponentCreate_eq (c : Config) (s : State) :
    ∃ m, (apiComponentCreate c s).1 = { s with
      cidMap := m
      component := Function.update s.component (nextComponent c s) ⟨[], true⟩ } := by
  unfold apiComponentCreate nextComponent
  by_cases hf : reschFfz s.cidMap c.cidMapLong < 0
  · simp only [hf, if_true]
    exact ⟨_, rfl⟩
  · simp only [hf, if_false]
    exact ⟨_, rfl⟩

theorem apiComponentCreate_members :
    (apiComponentCreate c s).1.members = Function.update s.members (nextComponent c s) [] := by
  obtain ⟨m, hm⟩ := apiComponentCreate_eq c s
  rw [hm]
  funext x
  by_cases hx : x = nextComponent c s <;> simp [State.members, hx]

theorem ListsOk.componentCreate (h : ListsOk s) (he : s.members (nextComponent c s) = []) :
    ListsOk (apiComponentCreate c s).1 := by
  obtain ⟨place, hc⟩ := h.component
  have hm : (apiComponentCreate c s).1.members = s.members := by
    rw [apiComponentCreate_members, ← he, Function.update_eq_self]
  obtain ⟨m, hs⟩ := apiComponentCreate_eq c s
  rw [listsOk_iff] at h ⊢
  obtain ⟨pl, hl⟩ := h.1.active
  refine ⟨⟨⟨pl, hl.congr ?_ ?_⟩, h.1.global.congr ?_ ?_, place, ?_, ?_⟩, ?_⟩
  · rw [hs]
  · intro q; rw [hs]; rfl
  · rw [hs]
  · intro q; rw [hs]; rfl
  · rw [hm]; exact hc.placed
  · intro q; rw [hs]; exact hc.entry q
  · intro q hq; rw [hs] at hq ⊢; exact h.2 q hq

/-- **A clean step keeps the lists in order.** -/
theorem ListsOk.step (h : ListsOk s) (op : ApiOp) (hns : op.noSleep = true)
    (hen : op.enabled s = true) (hclean : op.Clean c s) (hs : op.exec c k s = some s') :
    ListsOk s' := by
  have hook : ∀ {rt}, op.hookOf = some rt → op.StartsInactive s → ListsOk s' := by
    intro rt hop hst
    obtain ⟨s₁, p, hu, rfl, hp⟩ := ApiOp.updates hop hen hst hs
    exact h.hook hu hp
  have user : ∀ {rt}, s.point rt = .user → s.Attached rt := by
    intro rt hp
    unfold State.Attached
    rw [hp]; decide
  cases op with
  | init rt current =>
    cases hs
    exact h.init (of_decide_eq_true hen) current
  | exit rt =>
    cases hs
    exact h.exit hclean
  | setScheduler rt policy =>
    cases hs
    exact h.setScheduler (user (of_decide_eq_true hen)) policy
  | componentCreate =>
    cases hs
    exact h.componentCreate hclean
  | componentDestroy cid =>
    cases hs
    exact h.congr rfl rfl rfl rfl rfl
  | compose rt cid =>
    obtain ⟨⟨s₁, res⟩, hc, rfl⟩ := Option.map_eq_some_iff.1 hs
    exact h.compose (user (of_decide_eq_true hen)) hc
  | decompose rt =>
    cases hs
    exact h.decompose (user (of_decide_eq_true hen))
  | linux jiffies proc =>
    cases hs
    exact h.congr rfl rfl rfl rfl rfl
  | release rt => exact hook rfl hclean
  | sleep rt => cases hns
  | suspend rt => cases hns
  | resume rt => cases hns
  | _ => exact hook rfl trivial

/-! ## Steps that are not clean -/

/-- **Leaving while composed**: the entry stays in the list of the component. -/
theorem ListsOk.not_exit_composed (h : ListsOk s) (he : (s.task rt).componentEntry = true) :
    ¬ ListsOk ((apiExit c k s rt).1.setPoint rt .detached) := by
  intro hbad
  obtain ⟨-, -, -, -, hcomp⟩ := apiExit_lists c k rt h.wf
  obtain ⟨place, hc⟩ := h.component
  obtain ⟨cid, hcid⟩ := Option.isSome_iff_exists.1 ((hc.entry rt).symm.trans he)
  refine (hbad.gone rt (by simp [State.setPoint])).component cid ?_
  show rt ∈ ((apiExit c k s rt).1.component cid).taskList
  rw [hcomp]
  exact hc.placed.mem_iff.2 hcid

/-- For a task that has gone FAIR, completing the job leaves the queues alone. -/
theorem jobComplete_fair (hc : (s.task rt).cls = .fair) :
    (jobComplete c k s rt).isActive rt = s.isActive rt := by
  have hs : ∀ s₁ : State, (s₁.task rt).cls = .fair → s₁.isActive rt = s.isActive rt →
      (if (classJobComplete s₁ rt).hasReserve rt then
        reserveReplenish c k (stopAccount c (classJobComplete s₁ rt) rt) rt
        else classJobComplete s₁ rt).isActive rt = s.isActive rt := by
    intro s₁ hc ha
    have hj : classJobComplete s₁ rt = s₁ := by unfold classJobComplete; rw [hc]; rfl
    rw [hj]
    split
    swap
    · exact ha
    have hc₂ : ((stopAccount c s₁ rt).task rt).cls = .fair :=
      (Updates.refl s₁).stopAccount.same.cls.trans hc
    have ha₂ : (stopAccount c s₁ rt).isActive rt = s.isActive rt :=
      (isActive_of_frame (stopAccount_accounts.frame _ _) rt).trans ha
    unfold reserveReplenish
    refine (isActive_setTask (by rfl) rt).trans ?_
    have hr : ∀ cputime, classReserveReplenish c k (stopAccount c s₁ rt) rt cputime =
        stopAccount c s₁ rt := by
      intro cputime; unfold classReserveReplenish; rw [hc₂]; rfl
    rw [hr]
    split <;> exact ha₂
  unfold jobComplete
  refine hs _ ?_ ?_
  · split
    · simpa using hc
    · exact hc
  · split
    · exact isActive_setTask (by rfl) rt
    · rfl

/-- **Leaving after a change to FAIR within a job**: the task stays in its queue. -/
theorem not_exit_fair (ha : s.isActive rt = true) (hc : (s.task rt).cls = .fair) :
    ¬ ListsOk ((apiExit c k s rt).1.setPoint rt .detached) := by
  intro hbad
  have hfree := (listsOk_iff.1 hbad).2 rt (by simp [State.setPoint])
  have h₁ : (apiExitDetach c k s rt).isActive rt = true := by
    have hj : (jobComplete c k s rt).isActive rt = true := (jobComplete_fair hc).trans ha
    unfold apiExitDetach
    simp only [ha, if_true]
    generalize jobComplete c k s rt = s₁ at hj ⊢
    have h₂ : (if s₁.hasReserve rt = true then reserveStop c s₁ rt else s₁).isActive rt = true := by
      split
      · exact (isActive_of_frame (reserveStop_accounts.frame _ _) rt).trans hj
      · exact hj
    generalize (if s₁.hasReserve rt = true then reserveStop c s₁ rt else s₁) = s₂ at h₂ ⊢
    split
    · exact (globalListRemove_only.isActive rt).trans h₂
    · exact h₂
  have h₂ : (apiExit c k s rt).1.isActive rt = true := by
    unfold apiExit apiExitPolicy
    dsimp only
    split
    · exact setScheduler_sameLinks.active.trans h₁
    · exact h₁
  have := hfree.active
  rw [show (((apiExit c k s rt).1.setPoint rt .detached).task rt).activeEntry = true from h₂] at this
  cases this

/-- A descriptor that is linked a second time. -/
theorem not_wellLinked_link (h : WellLinked s) (ha : s.isActive rt = true) {idx : ℤ}
    {ins : List ℕ → List ℕ} (hins : AddsOnce ins rt) (hlo : s'.lo = (s.link rt cpu idx ins).lo) :
    ¬ WellLinked s' := by
  rintro ⟨place', h'⟩
  obtain ⟨place, hl⟩ := h
  obtain ⟨k, hk⟩ := Option.isSome_iff_exists.1 ((hl.active rt).symm.trans ha)
  -- `rt` is linked once more than before
  have hlev : s'.levels = Function.update s.levels (cpu, idx) (ins (s.levels (cpu, idx))) := by
    rw [← levels_link]
    unfold State.levels
    rw [hlo]
  have hnew : (s'.levels (cpu, idx)).count rt = (s.levels (cpu, idx)).count rt + 1 := by
    rw [hlev, Function.update_self, hins.count]
    simp
  have hold := hl.placed rt (cpu, idx)
  have hnew' := h'.placed rt (cpu, idx)
  by_cases hkk : k = (cpu, idx)
  · -- twice in one level
    rw [hk, hkk] at hold
    simp only [if_true] at hold
    rw [hnew, hold] at hnew'
    split at hnew' <;> omega
  · -- in two levels
    have hkeep : (s'.levels k).count rt = 1 := by
      rw [hlev, Function.update_of_ne hkk, hl.placed rt k, hk]
      simp
    have h₁ : place' rt = some k := by
      have := h'.placed rt k
      rw [hkeep] at this
      by_contra hne
      simp [hne] at this
    have h₂ : place' rt = some (cpu, idx) := by
      rw [hnew] at hnew'
      by_contra hne
      simp [hne] at hnew'
    rw [h₁, Option.some.injEq] at h₂
    exact hkk h₂

/-- Where a job start links the task. -/
theorem jobStart_lo (c : Config) {s : State} {rt : ℕ} (hc : (s.task rt).cls ≠ .fair) :
    ∃ cpu idx ins, AddsOnce ins rt ∧ (jobStart c s rt).lo = (s.link rt cpu idx ins).lo := by
  have hclass : ∃ cpu idx ins, AddsOnce ins rt ∧ (classJobStart s rt).lo = (s.link rt cpu idx ins).lo := by
    unfold classJobStart
    split
    · exact absurd ‹_› hc
    · exact ⟨_, _, _, addsOnce_append rt, rfl⟩
    · refine ⟨(s.task rt).cpuId, prioIndex reschPrioEdf,
        deadlineInsert s rt, addsOnce_insertBefore _ rt, ?_⟩
      unfold Edf.edfJobStart ifSome
      dsimp only
      split
      · split <;> rfl
      · rfl
    · exact ⟨_, _, _, addsOnce_insertBefore _ rt, rfl⟩
  obtain ⟨cpu, idx, ins, hins, hlo⟩ := hclass
  refine ⟨cpu, idx, ins, hins, ?_⟩
  unfold jobStart
  dsimp only
  split
  · exact (lo_of_frame (startAccount_accounts.frame _ _)).trans hlo
  · exact hlo

/-- **Starting a job of a queued task.** -/
theorem ListsOk.not_release (h : ListsOk s) (hc : (s.task rt).cls ≠ .fair)
    (ha : s.isActive rt = true) (hs : jobRelease c s rt = some s') (p : Point) :
    ¬ ListsOk (s'.setPoint rt p) := by
  intro hbad
  have hk := releasedState_keeps s rt
  have hwl : WellLinked (releasedState s rt) := (Updates.refl s).released.wellLinked h.active
  obtain ⟨cpu, idx, ins, hins, hlo⟩ := jobStart_lo c (s := releasedState s rt)
    (by rw [hk.cls]; exact hc)
  rw [← jobRelease_eq hs] at hlo
  have hact : WellLinked s' := by
    obtain ⟨place, hl⟩ := hbad.active
    exact ⟨place, hl.congr rfl fun _ => rfl⟩
  exact not_wellLinked_link hwl (hk.active.trans ha) hins hlo hact

/-- **Initialising the list head of a component that has members.** -/
theorem ListsOk.not_componentCreate (h : ListsOk s) (he : s.members (nextComponent c s) ≠ []) :
    ¬ ListsOk (apiComponentCreate c s).1 := by
  intro hbad
  obtain ⟨place, hc⟩ := h.component
  obtain ⟨place', hc'⟩ := hbad.component
  obtain ⟨q, hq⟩ := List.exists_mem_of_ne_nil _ he
  have hpq := hc.placed.mem_iff.1 hq
  have hentry : (place' q).isSome = true := by
    obtain ⟨m, hm⟩ := apiComponentCreate_eq c s
    rw [← hc'.entry q, hm, ← Option.isSome_some (a := nextComponent c s), ← hpq]
    exact hc.entry q
  obtain ⟨cid, hcid⟩ := Option.isSome_iff_exists.1 hentry
  have hm := hc'.placed.mem_iff.2 hcid
  rw [apiComponentCreate_members] at hm
  by_cases hx : cid = nextComponent c s
  · rw [hx, Function.update_self] at hm; cases hm
  · rw [Function.update_of_ne hx] at hm
    have := hc.placed.mem_iff.1 hm
    rw [hpq, Option.some.injEq] at this
    exact hx this.symm

/-- A step keeps the lists in order iff it is clean. -/
theorem ListsOk.step_iff (h : ListsOk s) (op : ApiOp) (hns : op.noSleep = true)
    (hen : op.enabled s = true) (hs : op.exec c k s = some s') : ListsOk s' ↔ op.Clean c s := by
  refine ⟨fun hbad => ?_, fun hc => h.step op hns hen hc hs⟩
  by_contra hc
  cases op with
  | exit rt =>
    cases hs
    by_cases he : (s.task rt).componentEntry = true
    · exact h.not_exit_composed he hbad
    · have hf : s.isActive rt = true ∧ (s.task rt).cls = .fair := by
        by_contra hn
        exact hc ⟨by simpa using he, hn⟩
      exact not_exit_fair hf.1 hf.2 hbad
  | release rt =>
    obtain ⟨s₁, h₁, rfl⟩ := Option.map_eq_some_iff.1 hs
    have hf : (s.task rt).cls ≠ .fair ∧ s.isActive rt = true := by
      by_contra hn
      refine hc fun hcls => ?_
      by_contra ha
      exact hn ⟨hcls, by simpa using ha⟩
    exact h.not_release hf.1 hf.2 h₁ _ hbad
  | componentCreate =>
    cases hs
    exact h.not_componentCreate hc hbad
  | _ => exact hc trivial

/-! ## Runs -/

theorem schedInit_listsOk (jiffies : ℕ) (proc : ℕ → Proc) : ListsOk (schedInit jiffies proc) := by
  have hq := schedInit_queued jiffies proc
  rw [listsOk_iff]
  refine ⟨⟨⟨_, hq.toLinked⟩, ⟨List.nodup_nil, fun q => ?_⟩, fun _ => none, fun q cid => ?_, fun _ => rfl⟩,
    fun _ _ => ⟨rfl, rfl, rfl⟩⟩
  · simp [schedInit, State.isManaged, Task.zero]
  · simp [State.members, schedInit]

/-- **Leaving unlinks the descriptor from every list, and every list stays well formed, in
every state of a run iff all its steps are clean.** -/
theorem apiStep_listsOk_iff (c : Config) (jiffies : ℕ) (proc : ℕ → Proc)
    (run : List (ApiOp × Kernel)) :
    Always (apiStep c ApiOp.noSleep) ListsOk (schedInit jiffies proc) run ↔
      Each (apiStep c ApiOp.noSleep) (fun s a => a.1.Clean c s) (schedInit jiffies proc) run := by
  refine always_iff_each (I := fun _ => True) (fun _ _ _ _ _ _ _ => trivial) ?_ run _ trivial
    (schedInit_listsOk jiffies proc)
  intro s a s' _ h hs
  unfold apiStep at hs
  split at hs
  swap
  · cases hs
  rename_i hen
  rw [Bool.and_eq_true] at hen
  exact h.step_iff a.1 hen.1 hen.2 hs

/-- A task that runs under FP, changes to FAIR within its job and leaves. -/
theorem apiStep_not_listsOk :
    ¬ Always (apiStep (.small false) ApiOp.noSleep) ListsOk (schedInit 0 fun _ => .fair)
      [(.init 0 1, .accepting), (.run 0 0, .accepting), (.release 0, .accepting),
        (.setScheduler 0 reschSchedFair, .accepting), (.exit 0, .accepting)] := by
  intro h
  obtain ⟨s, hs, ht⟩ := h.final_test
    (fun s => decide (s.point 0 = .detached ∧ 0 ∈ (s.lo 1).queue 97)) (by decide +kernel)
  obtain ⟨hp, hm⟩ := of_decide_eq_true ht
  exact (hs.gone 0 hp).active 1 97 hm

end Resch
