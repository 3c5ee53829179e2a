import Resch.Lib.Runs
import Resch.Proof.AcctView
import Resch.Spec.AcctRun

/-!
# Accounting hooks pair up

`start_account` and `stop_account` go to the class that the task has when they are called. Between
them the class must not change, and a reserve of no time must not be started: such a task has no
reserve that could be stopped.

* `Paired`: the property of a sequence of events.
* `AcctInv`: a start without its stop belongs to a task that is accounting, and is of its class.
* `hooks_paired`: in runs of `Steady` steps each start is followed by its stop in time.
-/

namespace Resch

open Lib

variable {c : Config} {k : Kernel} {s s' : State} {rt q cpu : ℕ} {prio : ℤ}

/-! ## Starts and stops -/

/-- The events that a start without its stop must not come before. -/
def AcctEvent.Ends (rt : ℕ) : AcctEvent → Prop
  | start q _ | reserveStop q | detach q => q = rt
  | stop _ _ => False

/-- Between a start and the next start on the task, the end of its reserve, or its detaching,
there is a stop of the same class. The last event comes first. -/
def Paired (events : List AcctEvent) : Prop :=
  ∀ later e between rt cls before, events = later ++ e :: (between ++ .start rt cls :: before) →
    e.Ends rt → .stop rt cls ∈ between

/-- A start has no stop so far. -/
def Started (events : List AcctEvent) (rt : ℕ) (cls : SchedClass) : Prop :=
  ∃ later before, events = later ++ .start rt cls :: before ∧ .stop rt cls ∉ later

section Events

variable {events : List AcctEvent} {e : AcctEvent} {cls : SchedClass}

theorem started_cons :
    Started (e :: events) rt cls ↔ e = .start rt cls ∨ (e ≠ .stop rt cls ∧ Started events rt cls) := by
  constructor
  · rintro ⟨later, before, heq, hstop⟩
    cases later with
    | nil =>
      obtain ⟨rfl, -⟩ := List.cons.inj heq
      exact Or.inl rfl
    | cons e' later =>
      obtain ⟨rfl, hrest⟩ := List.cons.inj heq
      rw [List.mem_cons, not_or] at hstop
      exact Or.inr ⟨fun he => hstop.1 he.symm, later, before, hrest, hstop.2⟩
  · rintro (rfl | ⟨he, later, before, rfl, hstop⟩)
    · exact ⟨[], events, rfl, List.not_mem_nil⟩
    · refine ⟨e :: later, before, rfl, ?_⟩
      rw [List.mem_cons, not_or]
      exact ⟨fun h => he h.symm, hstop⟩

theorem paired_nil : Paired [] := by
  intro later e between rt cls before heq
  cases later <;> cases heq

theorem Paired.cons (h : Paired events) (he : ∀ rt cls, e.Ends rt → ¬ Started events rt cls) :
    Paired (e :: events) := by
  intro later e' between rt cls before heq hends
  cases later with
  | nil =>
    obtain ⟨rfl, hrest⟩ := List.cons.inj heq
    by_contra hstop
    exact he rt cls hends ⟨between, before, hrest, hstop⟩
  | cons e'' later =>
    obtain ⟨-, hrest⟩ := List.cons.inj heq
    exact h later e' between rt cls before hrest hends

end Events

/-- **The invariant.** A start without its stop belongs to a task that is accounting, and is of its
class; a task that is accounting is attached and has a reserve. -/
structure AcctInv (s : AcctState) : Prop where
  paired : Paired s.events
  started : ∀ rt cls, Started s.events rt cls →
    (s.core.acct rt).accounting = true ∧ (s.core.acct rt).cls = cls
  reserved : ∀ rt, (s.core.acct rt).accounting = true →
    0 < (s.core.acct rt).reserveTime ∧ (s.core.acct rt).attached = true

/-- Accounting goes on, for the same class and reserve. -/
structure AcctView.Kept (a b : AcctView) : Prop where
  attached : b.attached = a.attached
  accounting : b.accounting = a.accounting
  same : a.accounting = true → b = a

theorem AcctView.Kept.refl (a : AcctView) : a.Kept a := ⟨rfl, rfl, fun _ => rfl⟩

theorem AcctView.Kept.trans {a b d : AcctView} (h : a.Kept b) (h' : b.Kept d) : a.Kept d := by
  refine ⟨h'.attached.trans h.attached, h'.accounting.trans h.accounting, fun ha => ?_⟩
  exact (h'.same (h.accounting.trans ha)).trans (h.same ha)

/-- Accounting goes on for every task. -/
def AcctKept (s s' : State) : Prop := ∀ q, (s.acct q).Kept (s'.acct q)

theorem AcctKept.of_eq (h : s'.acct = s.acct) : AcctKept s s' := fun q => by
  rw [h]
  exact .refl _

namespace AcctInv

variable {s s' : AcctState} {cls : SchedClass}

theorem congr (h : AcctInv s) (he : s'.events = s.events) (hk : AcctKept s.core s'.core) :
    AcctInv s' := by
  refine ⟨?_, fun rt cls hs => ?_, fun rt ha => ?_⟩
  · rw [he]
    exact h.paired
  · rw [he] at hs
    obtain ⟨ha, hc⟩ := h.started rt cls hs
    rw [(hk rt).same ha]
    exact ⟨ha, hc⟩
  · rw [(hk rt).accounting] at ha
    rw [(hk rt).same ha]
    exact h.reserved rt ha

theorem onKept (h : AcctInv s) {f : State → State} (hf : AcctKept s.core (f s.core)) :
    AcctInv (s.on f) := h.congr rfl hf

theorem on (h : AcctInv s) {f : State → State} (hf : (f s.core).acct = s.core.acct) :
    AcctInv (s.on f) := h.onKept (.of_eq hf)

/-- A task that is not accounting has no start without its stop. -/
theorem not_started (h : AcctInv s) (ha : (s.core.acct rt).accounting = false) :
    ¬ Started s.events rt cls := by
  intro hs
  rw [(h.started rt cls hs).1] at ha
  cases ha

/-- A hook starts accounting for a task that has a reserve. -/
theorem start (h : AcctInv s) (ha : (s.core.acct rt).accounting = false)
    (hres : 0 < (s.core.acct rt).reserveTime) (hatt : (s.core.acct rt).attached = true)
    (he : s'.events = .start rt (s.core.acct rt).cls :: s.events)
    (hs : s'.core.acct =
      Function.update s.core.acct rt { s.core.acct rt with accounting := true }) : AcctInv s' := by
  refine ⟨?_, fun q cls hq => ?_, fun q hq => ?_⟩
  · rw [he]
    refine h.paired.cons ?_
    rintro q cls rfl
    exact h.not_started ha
  · rw [hs]
    rw [he, started_cons] at hq
    by_cases hqrt : q = rt
    · subst hqrt
      rw [Function.update_self]
      rcases hq with hq | ⟨-, hq⟩
      · cases hq
        exact ⟨rfl, rfl⟩
      · exact absurd hq (h.not_started ha)
    · rw [Function.update_of_ne hqrt]
      rcases hq with hq | ⟨-, hq⟩
      · cases hq
        exact absurd rfl hqrt
      · exact h.started q cls hq
  · rw [hs] at hq ⊢
    by_cases hqrt : q = rt
    · subst hqrt
      rw [Function.update_self]
      exact ⟨hres, hatt⟩
    · rw [Function.update_of_ne hqrt] at hq ⊢
      exact h.reserved q hq

/-- The hook of the class of a task stops accounting. -/
theorem stop (h : AcctInv s) (he : s'.events = .stop rt (s.core.acct rt).cls :: s.events)
    (hs : s'.core.acct =
      Function.update s.core.acct rt { s.core.acct rt with accounting := false }) : AcctInv s' := by
  refine ⟨?_, fun q cls hq => ?_, fun q hq => ?_⟩
  · rw [he]
    exact h.paired.cons fun _ _ hends => hends.elim
  · rw [hs]
    rw [he, started_cons] at hq
    rcases hq with hq | ⟨hne, hq⟩
    · cases hq
    · obtain ⟨ha, hc⟩ := h.started q cls hq
      by_cases hqrt : q = rt
      · subst hqrt
        exact absurd (by rw [hc]) hne
      · rw [Function.update_of_ne hqrt]
        exact ⟨ha, hc⟩
  · rw [hs] at hq ⊢
    by_cases hqrt : q = rt
    · subst hqrt
      rw [Function.update_self] at hq
      cases hq
    · rw [Function.update_of_ne hqrt] at hq ⊢
      exact h.reserved q hq

/-- The reserve of a task ends, or the task. -/
theorem record (h : AcctInv s) {e : AcctEvent} (hstart : ∀ rt cls, e ≠ .start rt cls)
    (he : ∀ rt, e.Ends rt → (s.core.acct rt).accounting = false) : AcctInv (s.record e) := by
  refine ⟨h.paired.cons fun rt cls hends => h.not_started (he rt hends), fun q cls hq => ?_,
    h.reserved⟩
  rcases started_cons.1 hq with hq | ⟨-, hq⟩
  · exact absurd hq (hstart q cls)
  · exact h.started q cls hq

end AcctInv

/-! ## The functions that call hooks -/

/-- An assignment to the accounting data of one task. -/
theorem acct_update {f : Task → Task} {v : AcctView}
    (hf : (f (s.task rt)).acct (decide (s.Attached rt)) = v) :
    (s.setTask rt f).acct = Function.update s.acct rt v := by
  funext q
  by_cases hq : q = rt
  · subst hq
    rw [Function.update_self, ← hf]
    unfold State.acct
    rw [task_setTask_self]
    rfl
  · rw [Function.update_of_ne hq]
    unfold State.acct
    rw [task_setTask_of_ne f hq]
    rfl

theorem update_accounting {s : State} {b : Bool} (hb : (s.acct rt).accounting = b) :
    Function.update s.acct rt { s.acct rt with accounting := b } = s.acct := by
  subst hb
  exact Function.update_eq_self rt s.acct

theorem acct_accounting {s : State} (b : Bool) :
    (s.setTask rt fun t => { t with accounting := b }).acct =
      Function.update s.acct rt { s.acct rt with accounting := b } := acct_update rfl

theorem acct_budget {s : State} (b : ℕ) : (s.setTask rt fun t => { t with budget := b }).acct = s.acct :=
  acct_setTask rfl

theorem acct_server {s : State} : (s.setTask rt fun t => { t with server := none }).acct = s.acct :=
  acct_setTask rfl

section Hooks

variable {s s' : AcctState} {cls : SchedClass}

/-- The hook is called unless the task is accounting. -/
theorem startAccount_cases (c : Config) (s : AcctState) (rt : ℕ) :
    ((s.core.acct rt).accounting = true ∧ s.startAccount c rt = s) ∨
      ((s.core.acct rt).accounting = false ∧
        (s.startAccount c rt).events = .start rt (s.core.acct rt).cls :: s.events ∧
        (s.startAccount c rt).core.acct =
          Function.update s.core.acct rt { s.core.acct rt with accounting := true }) := by
  have hook : ∀ s₁ : AcctState, s₁.core.acct = s.core.acct → s₁.events = s.events →
      (s₁.classStartAccount c rt).events = .start rt (s.core.acct rt).cls :: s.events ∧
        (s₁.classStartAccount c rt).core.acct = s.core.acct := by
    intro s₁ hs₁ he
    rw [← hs₁, ← he]
    exact ⟨rfl, acct_classStartAccount⟩
  unfold AcctState.startAccount
  by_cases ha : s.core.isAccounting rt = true
  · rw [if_pos ha]
    exact Or.inl ⟨ha, rfl⟩
  · rw [if_neg ha]
    obtain ⟨he, hs⟩ := hook (s.on fun s => s.setTask rt fun t => { t with budget := budgetLeft c s rt })
      (acct_budget _) rfl
    refine Or.inr ⟨eq_false_of_ne_true ha, he, (acct_accounting true).trans ?_⟩
    rw [hs]

theorem acct_startAccount : (s.startAccount c rt).core.acct =
    Function.update s.core.acct rt { s.core.acct rt with accounting := true } := by
  rcases startAccount_cases c s rt with ⟨ha, h⟩ | ⟨-, -, h⟩
  · rw [h, update_accounting ha]
  · exact h

theorem AcctInv.startAccount (h : AcctInv s) (hres : 0 < (s.core.acct rt).reserveTime)
    (hatt : (s.core.acct rt).attached = true) : AcctInv (s.startAccount c rt) := by
  rcases startAccount_cases c s rt with ⟨-, hs⟩ | ⟨ha, he, hs⟩
  · rw [hs]
    exact h
  · exact h.start ha hres hatt he hs

/-- The hook is called if the task is accounting. -/
theorem stopAccount_cases (c : Config) (s : AcctState) (rt : ℕ) :
    ((s.core.acct rt).accounting = false ∧ (s.stopAccount c rt).events = s.events ∧
        (s.stopAccount c rt).core.acct = s.core.acct) ∨
      ((s.core.acct rt).accounting = true ∧
        (s.stopAccount c rt).events = .stop rt (s.core.acct rt).cls :: s.events ∧
        (s.stopAccount c rt).core.acct =
          Function.update s.core.acct rt { s.core.acct rt with accounting := false }) := by
  have hook : ∀ s₁ : AcctState, s₁.core.acct = s.core.acct → s₁.events = s.events →
      (s₁.classStopAccount rt).events = .stop rt (s.core.acct rt).cls :: s.events ∧
        (s₁.classStopAccount rt).core.acct = s.core.acct := by
    intro s₁ hs₁ he
    rw [← hs₁, ← he]
    exact ⟨rfl, acct_classStopAccount⟩
  unfold AcctState.stopAccount
  by_cases ha : s.core.isAccounting rt = true
  · rw [if_pos ha]
    obtain ⟨he, hs⟩ := hook (s.on fun s => s.setTask rt fun t => { t with budget := budgetLeft c s rt })
      (acct_budget _) rfl
    refine Or.inr ⟨ha, he, acct_server.trans ((acct_accounting false).trans ?_)⟩
    rw [hs]
  · rw [if_neg ha]
    exact Or.inl ⟨eq_false_of_ne_true ha, rfl, acct_server⟩

theorem acct_stopAccount : (s.stopAccount c rt).core.acct =
    Function.update s.core.acct rt { s.core.acct rt with accounting := false } := by
  rcases stopAccount_cases c s rt with ⟨ha, -, h⟩ | ⟨-, -, h⟩
  · rw [h, update_accounting ha]
  · exact h

theorem AcctInv.stopAccount (h : AcctInv s) (c : Config) (rt : ℕ) : AcctInv (s.stopAccount c rt) := by
  rcases stopAccount_cases c s rt with ⟨-, he, hs⟩ | ⟨-, he, hs⟩
  · exact h.congr he (.of_eq hs)
  · exact h.stop he hs

/-- A class restarts its own accounting. -/
theorem AcctInv.restartAccount (h : AcctInv s) (hc : (s.core.acct rt).cls = cls)
    {stop start : State → ℕ → State} (hstop : ∀ s, (stop s rt).acct = s.acct)
    (hstart : ∀ s, (start s rt).acct = s.acct) :
    AcctInv (s.restartAccount rt cls stop start) ∧
      (s.restartAccount rt cls stop start).core.acct = s.core.acct := by
  unfold AcctState.restartAccount
  split
  swap
  · exact ⟨h, rfl⟩
  rename_i ha
  have hacc : (s.core.acct rt).accounting = true := ha
  refine ⟨?_, (hstart _).trans (hstop _)⟩
  -- between the two hooks no start on the task is without its stop
  have hnone : ∀ x, ¬ Started (.stop rt cls :: s.events) rt x := by
    intro x hx
    rcases started_cons.1 hx with hx | ⟨hne, hx⟩
    · cases hx
    · have hcx := (h.started rt x hx).2
      rw [hc] at hcx
      rw [hcx] at hne
      exact hne rfl
  have hstopped : Paired (.stop rt cls :: s.events) := h.paired.cons fun _ _ hends => hends.elim
  have hcore : ((((s.record (.stop rt cls)).on fun s => stop s rt).record (.start rt cls)).on
      fun s => start s rt).core.acct = s.core.acct := (hstart _).trans (hstop _)
  refine ⟨hstopped.cons ?_, fun q x hq => ?_, fun q hq => ?_⟩
  · rintro q x rfl
    exact hnone x
  · rw [hcore]
    rcases started_cons.1 hq with hq | ⟨-, hq⟩
    · cases hq
      exact ⟨hacc, hc⟩
    · rcases started_cons.1 hq with hq | ⟨-, hq⟩
      · cases hq
      · exact h.started q x hq
  · rw [hcore] at hq ⊢
    exact h.reserved q hq

end Hooks

/-! ## Migration and plugins -/

/-- No hook is called, and what hooks depend on is the same. -/
structure Quiet (s s' : AcctState) : Prop where
  events : s'.events = s.events
  acct : s'.core.acct = s.core.acct

theorem Quiet.refl (s : AcctState) : Quiet s s := ⟨rfl, rfl⟩

theorem Quiet.on {s s' : AcctState} (h : Quiet s s') {f : State → State}
    (hf : (f s'.core).acct = s'.core.acct) : Quiet s (s'.on f) := ⟨h.events, hf.trans h.acct⟩

theorem AcctInv.quiet {s s' : AcctState} (h : AcctInv s) (hq : Quiet s s') : AcctInv s' :=
  h.congr hq.events (.of_eq hq.acct)

section Plugin

variable {s : AcctState}

theorem AcctInv.restartQuiet {s s' : AcctState} (h : AcctInv s) (hq : Quiet s s') {cls : SchedClass}
    (hc : (s.core.acct rt).cls = cls) {stop start : State → ℕ → State}
    (hstop : ∀ s, (stop s rt).acct = s.acct) (hstart : ∀ s, (start s rt).acct = s.acct) :
    AcctInv (s'.restartAccount rt cls stop start) ∧
      (s'.restartAccount rt cls stop start).core.acct = s.core.acct := by
  rw [← hq.acct] at hc ⊢
  exact (h.quiet hq).restartAccount hc hstop hstart

theorem AcctInv.fpMigrateTask (h : AcctInv s) (hc : (s.core.acct rt).cls = .fp) (cpu : ℕ) :
    AcctInv (s.fpMigrateTask c rt cpu) ∧ (s.fpMigrateTask c rt cpu).core.acct = s.core.acct := by
  unfold AcctState.fpMigrateTask
  dsimp only
  refine h.restartQuiet (.on ?_ acct_migrateTask') hc (fun _ => rfl) fun _ => acct_fpStartAccount
  split
  · split
    · refine ((Quiet.on (.refl s) ?_).on acct_setCpu).on ?_
      · exact acct_unlink _
      · exact acct_enqueueTaskAt _
    · exact Quiet.on (.refl s) acct_setCpu
  · exact .refl s

theorem AcctInv.edfMigrateTask (h : AcctInv s) (hc : (s.core.acct rt).cls = .edf) (cpu : ℕ) :
    AcctInv (s.edfMigrateTask c rt cpu) ∧ (s.edfMigrateTask c rt cpu).core.acct = s.core.acct := by
  have hmove : ∀ {s₁}, Quiet s s₁ → AcctInv s₁ ∧ s₁.core.acct = s.core.acct :=
    fun hq => ⟨h.quiet hq, hq.acct⟩
  unfold AcctState.edfMigrateTask
  dsimp only
  split
  swap
  · exact hmove (Quiet.on (.refl s) acct_migrateTask')
  split
  swap
  · exact hmove (Quiet.on (.refl s) (acct_migrateTask'.trans acct_setCpu))
  have hlast : ∀ {s₁ : AcctState} {f : State → State}, (∀ s, (f s).acct = s.acct) →
      AcctInv s₁ ∧ s₁.core.acct = s.core.acct →
      AcctInv (s₁.on f) ∧ (s₁.on f).core.acct = s.core.acct :=
    fun hf hs₁ => ⟨hs₁.1.on (hf _), (hf _).trans hs₁.2⟩
  refine hlast (fun _ => acct_ifSome fun s q => ?_)
    (h.restartQuiet ?_ hc (fun _ => rfl) fun _ => rfl)
  · split <;> rfl
  · refine ((((Quiet.on (.refl s) ?_).on acct_setCpu).on acct_edfEnqueueTask).on ?_).on
      acct_migrateTask'
    · exact acct_unlink _
    · exact acct_ifSome fun _ _ => acct_wakeUpProcess

theorem AcctInv.deadlineMigrateTask (h : AcctInv s) (hc : (s.core.acct rt).cls = .deadline)
    (cpu : ℕ) : AcctInv (s.deadlineMigrateTask c rt cpu) ∧
      (s.deadlineMigrateTask c rt cpu).core.acct = s.core.acct := by
  have hmove : ∀ {s₁}, Quiet s s₁ → AcctInv s₁ ∧ s₁.core.acct = s.core.acct :=
    fun hq => ⟨h.quiet hq, hq.acct⟩
  unfold AcctState.deadlineMigrateTask
  dsimp only
  split
  swap
  · exact hmove (Quiet.on (.refl s) acct_migrateTask')
  split
  swap
  · exact hmove (Quiet.on (.refl s) (acct_migrateTask'.trans acct_setCpu))
  refine h.restartQuiet ?_ hc (fun _ => rfl) fun _ => acct_deadlineStartAccount
  refine ((Quiet.on (.on (.refl s) ?_) acct_setCpu).on ?_).on acct_migrateTask'
  · exact acct_unlink _
  · exact acct_enqueueTaskAt _

theorem AcctInv.migrateTask (h : AcctInv s) (rt cpu : ℕ) :
    AcctInv (s.migrateTask c rt cpu) ∧ (s.migrateTask c rt cpu).core.acct = s.core.acct := by
  unfold AcctState.migrateTask
  split
  · exact ⟨h, rfl⟩
  · rename_i hc
    exact h.fpMigrateTask hc cpu
  · rename_i hc
    exact h.edfMigrateTask hc cpu
  · rename_i hc
    exact h.deadlineMigrateTask hc cpu

/-- The class of a task that is accounting is not changed. -/
def PluginCall.Steady (c : Config) (s : State) : PluginCall → Prop
  | setScheduler rt policy _ => s.isAccounting rt = true → (c.policyClass policy).2 = (s.task rt).cls
  | migrateTask _ _ => True

theorem PluginCall.Steady.kept {s s' : State} {x : PluginCall} (h : x.Steady c s)
    (hk : (s.acct x.task).Kept (s'.acct x.task)) : x.Steady c s' := by
  cases x with
  | setScheduler rt policy prio =>
    intro ha
    have hacc : (s.acct rt).accounting = true := hk.accounting.symm.trans ha
    exact (h hacc).trans (congrArg AcctView.cls (hk.same hacc)).symm
  | migrateTask rt cpu => trivial

theorem acctKept_setPolicy {s : State} {policy : ℤ}
    (h : s.isAccounting rt = true → (c.policyClass policy).2 = (s.task rt).cls) :
    AcctKept s (setPolicy c s rt policy) := by
  unfold setPolicy
  split
  swap
  · exact .of_eq rfl
  intro q
  by_cases hq : q = rt
  · subst hq
    rw [acct_update rfl, Function.update_self]
    refine ⟨rfl, rfl, fun ha => ?_⟩
    show AcctView.mk _ _ _ _ = AcctView.mk _ _ _ _
    rw [h ha]
  · rw [acct_update rfl, Function.update_of_ne hq]
    exact .refl _

theorem AcctInv.pluginCall (h : AcctInv s) {x : PluginCall} (hx : x.Steady c s.core) :
    AcctInv (s.pluginCall c k x) ∧ AcctKept s.core (s.pluginCall c k x).core := by
  cases x with
  | setScheduler rt policy prio =>
    have hk : AcctKept s.core (setScheduler c k s.core rt policy prio).1 := by
      intro q
      rw [acct_setScheduler]
      exact acctKept_setPolicy hx q
    exact ⟨h.congr rfl hk, hk⟩
  | migrateTask rt cpu =>
    obtain ⟨hi, hs⟩ := h.migrateTask (c := c) rt cpu
    exact ⟨hi, .of_eq hs⟩

/-- **What a function of the plugin does**: accounting goes on for every task. -/
theorem AcctInv.plugin (h : AcctInv s) {calls : List PluginCall}
    (hc : ∀ x ∈ calls, x.Steady c s.core) :
    AcctInv (s.plugin c k calls) ∧ AcctKept s.core (s.plugin c k calls).core := by
  unfold AcctState.plugin
  induction calls generalizing s with
  | nil => exact ⟨h, .of_eq rfl⟩
  | cons x calls ih =>
    obtain ⟨hi, hk⟩ := h.pluginCall (k := k) (hc x (by simp))
    obtain ⟨hi', hk'⟩ := ih hi fun y hy => (hc y (by simp [hy])).kept (hk y.task)
    exact ⟨hi', fun q => (hk q).trans (hk' q)⟩

/-! ## Jobs and reserves -/

/-- Accounting goes on for every task but `rt`. -/
structure AcctKeptBut (rt : ℕ) (s s' : State) : Prop where
  attached : ∀ q, (s'.acct q).attached = (s.acct q).attached
  kept : ∀ q, q ≠ rt → (s.acct q).Kept (s'.acct q)

theorem AcctKept.but {s s' : State} (h : AcctKept s s') : AcctKeptBut rt s s' :=
  ⟨fun q => (h q).attached, fun q _ => h q⟩

theorem AcctKeptBut.trans {s s₁ s₂ : State} (h : AcctKeptBut rt s s₁) (h' : AcctKeptBut rt s₁ s₂) :
    AcctKeptBut rt s s₂ :=
  ⟨fun q => (h'.attached q).trans (h.attached q), fun q hq => (h.kept q hq).trans (h'.kept q hq)⟩

theorem AcctKeptBut.of_update {s s' : State} {v : AcctView} (hs : s'.acct = Function.update s.acct rt v)
    (hv : v.attached = (s.acct rt).attached) : AcctKeptBut rt s s' := by
  refine ⟨fun q => ?_, fun q hq => ?_⟩
  · rw [hs]
    by_cases hq : q = rt
    · subst hq
      rw [Function.update_self, hv]
    · rw [Function.update_of_ne hq]
  · rw [hs, Function.update_of_ne hq]
    exact .refl _

theorem acctKeptBut_stopAccount (c : Config) (s : AcctState) (rt : ℕ) :
    AcctKeptBut rt s.core (s.stopAccount c rt).core := .of_update acct_stopAccount rfl

theorem AcctInv.jobStart (h : AcctInv s) (k : Kernel) (hatt : (s.core.acct rt).attached = true)
    {calls : List PluginCall} (hc : ∀ x ∈ calls, x.Steady c s.core) :
    AcctInv (s.jobStart c k rt calls) ∧
      ∀ q, ((s.jobStart c k rt calls).core.acct q).attached = (s.core.acct q).attached := by
  unfold AcctState.jobStart
  dsimp only
  have hq : Quiet s (s.on fun s => classJobStart s rt) := (Quiet.refl s).on acct_classJobStart
  generalize s.on (fun s => classJobStart s rt) = s₁ at hq ⊢
  have hk₁ : AcctKept s.core s₁.core := .of_eq hq.acct
  obtain ⟨hi, hk⟩ := (h.quiet hq).plugin (k := k) fun x hx => (hc x hx).kept (hk₁ x.task)
  have hk₂ : AcctKept s.core (s₁.plugin c k calls).core := fun q => (hk₁ q).trans (hk q)
  split
  · rename_i hres
    have hstart : AcctKeptBut rt _ ((s₁.plugin c k calls).startAccount c rt).core :=
      .of_update acct_startAccount rfl
    refine ⟨hi.startAccount (of_decide_eq_true hres) ?_, fun q => ?_⟩
    · exact (hk₂ rt).attached.trans hatt
    · exact (hstart.attached q).trans (hk₂ q).attached
  · exact ⟨hi, fun q => (hk₂ q).attached⟩

/-- `job_complete` ends accounting for the task at most. -/
theorem AcctInv.jobComplete (h : AcctInv s) (k : Kernel) (rt : ℕ) {calls : List PluginCall}
    (hc : ∀ x ∈ calls, x.Steady c s.core) :
    AcctInv (s.jobComplete c k rt calls) ∧
      AcctKeptBut rt s.core (s.jobComplete c k rt calls).core := by
  unfold AcctState.jobComplete
  dsimp only
  have hq : Quiet s (s.on fun s =>
      if (s.task rt).wcetFixed = false ∧ (s.task rt).wcet < c.jiffiesToUsecs (execTime c s rt) then
        s.setTask rt fun t => { t with wcet := c.jiffiesToUsecs (execTime c s rt) } else s) := by
    refine (Quiet.refl s).on ?_
    split
    · exact acct_setTask rfl
    · rfl
  generalize s.on _ = s₁ at hq ⊢
  have hk₁ : AcctKept s.core s₁.core := .of_eq hq.acct
  obtain ⟨hi, hk⟩ := (h.quiet hq).plugin (k := k) fun x hx => (hc x hx).kept (hk₁ x.task)
  have hk₂ : AcctKeptBut rt s.core (s₁.plugin c k calls).core := hk₁.but.trans hk.but
  generalize s₁.plugin c k calls = s₂ at hi hk₂ ⊢
  have hq₃ : Quiet s₂ (s₂.on fun s => classJobComplete s rt) :=
    (Quiet.refl s₂).on acct_classJobComplete
  generalize s₂.on (fun s => classJobComplete s rt) = s₃ at hq₃ ⊢
  have hi₃ := hi.quiet hq₃
  have hk₃ : AcctKeptBut rt s.core s₃.core := hk₂.trans (AcctKept.of_eq hq₃.acct).but
  split
  · refine ⟨(hi₃.stopAccount c rt).on acct_reserveReplenish,
      hk₃.trans ((acctKeptBut_stopAccount c s₃ rt).trans ?_)⟩
    exact (AcctKept.of_eq acct_reserveReplenish).but
  · exact ⟨hi₃, hk₃⟩

/-- A task that is not accounting gets another reserve. -/
theorem acctKept_reserveTime (s : State) (rt n : ℕ) (f : Task → Task)
    (ha : (s.acct rt).accounting = false)
    (hf : (f (s.task rt)).acct (decide (s.Attached rt)) = { s.acct rt with reserveTime := n }) :
    AcctKept s (s.setTask rt f) ∧ ((s.setTask rt f).acct rt).reserveTime = n := by
  rw [AcctKept, acct_update hf, Function.update_self]
  refine ⟨fun q => ?_, rfl⟩
  by_cases hq : q = rt
  · subst hq
    rw [Function.update_self]
    refine ⟨rfl, rfl, fun h => ?_⟩
    rw [ha] at h
    cases h
  · rw [Function.update_of_ne hq]
    exact .refl _

/-- `reserve_stop` ends accounting for the task. -/
theorem AcctInv.reserveStop (h : AcctInv s) (c : Config) (rt : ℕ) :
    AcctInv (s.reserveStop c rt) ∧ AcctKeptBut rt s.core (s.reserveStop c rt).core ∧
      ((s.reserveStop c rt).core.acct rt).accounting = false := by
  unfold AcctState.reserveStop
  dsimp only
  have hq : Quiet s (s.on fun s => s.setTask rt fun t => { t with replenishTimer := none }) :=
    (Quiet.refl s).on (acct_setTask rfl)
  generalize s.on _ = s₁ at hq ⊢
  have hi := (h.quiet hq).stopAccount c rt
  have hk : AcctKeptBut rt s.core (s₁.stopAccount c rt).core :=
    (AcctKept.of_eq hq.acct).but.trans (acctKeptBut_stopAccount c s₁ rt)
  have ha : ((s₁.stopAccount c rt).core.acct rt).accounting = false := by
    rw [acct_stopAccount, Function.update_self]
  generalize s₁.stopAccount c rt = s₂ at hi hk ha ⊢
  have hk₂ : AcctKept s₂.core (s₂.core.setTask rt fun t => { t with reserveTime := 0 }) :=
    (acctKept_reserveTime _ rt 0 _ ha rfl).1
  have ha₂ := (hk₂ rt).accounting.trans ha
  refine ⟨(hi.onKept hk₂).record ?_ ?_, hk.trans hk₂.but, ha₂⟩
  · intro q cls he
    cases he
  · rintro q rfl
    exact ha₂

theorem AcctInv.reserveStart (h : AcctInv s) (hres : s.core.hasReserve rt = false)
    (hatt : (s.core.acct rt).attached = true) {cputime : ℕ} {xcpu : Bool}
    (hpos : 0 < c.msecsToJiffies cputime) : AcctInv (s.reserveStart c rt cputime xcpu) := by
  have ha : (s.core.acct rt).accounting = false := by
    by_contra ha
    have hpos := (h.reserved rt (eq_true_of_ne_false ha)).1
    rw [State.hasReserve, decide_eq_false_iff_not] at hres
    exact hres hpos
  unfold AcctState.reserveStart
  dsimp only
  obtain ⟨hk, htime⟩ := acctKept_reserveTime s.core rt (c.msecsToJiffies cputime) (fun t => { t with
    replenishTimer := none, reserveTime := c.msecsToJiffies cputime, xcpu := xcpu }) ha rfl
  refine (h.onKept hk).startAccount ?_ ?_
  · exact lt_of_lt_of_eq hpos htime.symm
  · exact (hk rt).attached.trans hatt

theorem AcctInv.apiReserveExpire (h : AcctInv s) (hatt : (s.core.acct rt).attached = true) :
    AcctInv (s.apiReserveExpire c k rt) := by
  unfold AcctState.apiReserveExpire
  split
  · exact h
  rename_i hres
  simp only [Bool.not_eq_true', Bool.not_eq_false] at hres
  generalize hs₁ : (if s.core.isAccounting rt = true then s.stopAccount c rt else s) = s₁
  have hi : AcctInv s₁ ∧ (s₁.core.acct rt).reserveTime = (s.core.acct rt).reserveTime ∧
      (s₁.core.acct rt).attached = (s.core.acct rt).attached := by
    rw [← hs₁]
    split
    · refine ⟨h.stopAccount c rt, ?_, (acctKeptBut_stopAccount c s rt).attached rt⟩
      rw [acct_stopAccount, Function.update_self]
    · exact ⟨h, rfl, rfl⟩
  obtain ⟨hi, htime, hatt₁⟩ := hi
  dsimp only
  split
  · have hq : Quiet s₁ (s₁.on fun s => classReserveReplenish c k s rt (s.task rt).reserveTime) :=
      (Quiet.refl s₁).on (acct_classReserveReplenish _)
    refine (hi.quiet hq).startAccount ?_ ?_
    · rw [hq.acct, htime]
      exact of_decide_eq_true hres
    · rw [hq.acct, hatt₁]
      exact hatt
  · refine (hi.on acct_classReserveExpire).on ?_
    exact acct_setTask rfl

/-- `api_exit`: the task is not accounting when its id is given back. -/
theorem AcctInv.apiExit (h : AcctInv s) {calls : PluginCalls}
    (hc : s.core.isActive rt = true → ∀ x ∈ calls.jobComplete, x.Steady c s.core)
    (hc' : ∀ x ∈ calls.taskExit, x.task = rt ∨ x.Steady c s.core) :
    AcctInv (s.apiExit c k rt calls) ∧ ((s.apiExit c k rt calls).core.acct rt).accounting = false ∧
      ∀ q, ((s.apiExit c k rt calls).core.acct q).attached = (s.core.acct q).attached := by
  unfold AcctState.apiExit
  -- in the order of `api_exit`: the job, the reserve, the list of tasks, the plugin, the policy
  generalize hs₁ : (if s.core.isActive rt = true then s.jobComplete c k rt calls.jobComplete else s) =
    s₁
  have h₁ : AcctInv s₁ ∧ AcctKeptBut rt s.core s₁.core := by
    rw [← hs₁]
    split
    · rename_i ha
      exact h.jobComplete k rt (hc ha)
    · exact ⟨h, (AcctKept.of_eq rfl).but⟩
  obtain ⟨hi₁, hk₁⟩ := h₁
  dsimp only
  generalize hs₂ : (if s₁.core.hasReserve rt = true then s₁.reserveStop c rt else s₁) = s₂
  have h₂ : AcctInv s₂ ∧ AcctKeptBut rt s.core s₂.core ∧ (s₂.core.acct rt).accounting = false := by
    rw [← hs₂]
    split
    · obtain ⟨hi, hk, ha⟩ := hi₁.reserveStop c rt
      exact ⟨hi, hk₁.trans hk, ha⟩
    · rename_i hres
      refine ⟨hi₁, hk₁, ?_⟩
      -- a task that is accounted has a reserve
      by_contra ha
      exact hres (decide_eq_true (hi₁.reserved rt (eq_true_of_ne_false ha)).1)
  obtain ⟨hi₂, hk₂, ha₂⟩ := h₂
  have hq : Quiet s₂ (s₂.on fun s => if s.isManaged rt then globalListRemove s rt else s) := by
    refine (Quiet.refl s₂).on ?_
    split
    · exact acct_globalListRemove
    · rfl
  generalize s₂.on _ = s₃ at hq ⊢
  have hk₃ : AcctKept s₂.core s₃.core := .of_eq hq.acct
  have hsteady : ∀ x ∈ calls.taskExit, x.Steady c s₃.core := by
    intro x hx
    by_cases hxrt : x.task = rt
    · -- the reserve of the task has been stopped, its class may change
      refine PluginCall.Steady.kept ?_ (hk₃ x.task)
      cases x with
      | setScheduler q policy prio =>
        cases hxrt
        intro ha
        exact absurd (ha.symm.trans ha₂) (by simp)
      | migrateTask => trivial
    · exact ((hc' x hx).resolve_left hxrt).kept ((hk₂.kept _ hxrt).trans (hk₃ _))
  obtain ⟨hi₄, hk₄⟩ := (hi₂.quiet hq).plugin (k := k) hsteady
  generalize s₃.plugin c k calls.taskExit = s₄ at hi₄ hk₄ ⊢
  have ha₄ : (s₄.core.acct rt).accounting = false :=
    ((hk₃ rt).trans (hk₄ rt)).accounting.trans ha₂
  -- the accounting has stopped, so that the class can change
  have hexit : AcctKept s₄.core (apiExitPolicy c k (apiExitClear s₄.core rt) rt) := by
    have hclear : (apiExitClear s₄.core rt).acct = s₄.core.acct := rfl
    intro q
    rw [← hclear]
    unfold apiExitPolicy
    split
    · rw [acct_setScheduler]
      refine acctKept_setPolicy (fun ha => ?_) q
      exact absurd (ha.symm.trans ha₄) (by simp)
    · exact .refl _
  refine ⟨((hi₄.on rfl).record ?_ ?_).onKept hexit, (hexit rt).accounting.trans ha₄, fun q => ?_⟩
  · intro q cls he
    cases he
  · rintro q rfl
    exact ha₄
  · exact (hexit q).attached.trans (((hk₃ q).trans (hk₄ q)).attached.trans (hk₂.attached q))

theorem AcctInv.apiRun (h : AcctInv s) (k : Kernel) (rt timeout : ℕ) {calls : List PluginCall}
    (hc : ∀ x ∈ calls, x.Steady c s.core) :
    AcctInv (s.apiRun c k rt timeout calls) ∧
      ∀ q, ((s.apiRun c k rt timeout calls).core.acct q).attached = (s.core.acct q).attached := by
  unfold AcctState.apiRun
  dsimp only
  have hq : Quiet s (s.on fun s => globalListInsert s rt) := (Quiet.refl s).on acct_globalListInsert
  generalize s.on (fun s => globalListInsert s rt) = s₁ at hq ⊢
  have hk₁ : AcctKept s.core s₁.core := .of_eq hq.acct
  obtain ⟨hi, hk⟩ := (h.quiet hq).plugin (k := k) fun x hx => (hc x hx).kept (hk₁ x.task)
  generalize s₁.plugin c k calls = s₂ at hi hk ⊢
  have hlast : ∀ s : State, (jobReleaseWait
      (if (s.task rt).policy = reschSchedFair then globalListRemove s rt else s) rt
      ((if (s.task rt).policy = reschSchedFair then globalListRemove s rt else s).jiffies +
        c.msecsToJiffies timeout)).acct = s.acct := by
    intro s
    rw [acct_jobReleaseWait]
    split
    · exact acct_globalListRemove
    · rfl
  refine ⟨hi.on (hlast _), fun q => ?_⟩
  exact ((AcctKept.of_eq (hlast _)) q).attached.trans ((hk₁ q).trans (hk q)).attached

theorem AcctInv.waitFor (h : AcctInv s) (k : Kernel) (rt : ℕ) (release : State → ℕ)
    {calls : List PluginCall} (hc : ∀ x ∈ calls, x.Steady c s.core) :
    AcctInv (s.waitFor c k rt calls release) ∧
      ∀ q, ((s.waitFor c k rt calls release).core.acct q).attached = (s.core.acct q).attached := by
  unfold AcctState.waitFor
  dsimp only
  have hq : Quiet s (s.on fun s => (deadlineMiss s rt).1) := (Quiet.refl s).on acct_deadlineMiss
  generalize s.on (fun s => (deadlineMiss s rt).1) = s₁ at hq ⊢
  have hk₁ : AcctKept s.core s₁.core := .of_eq hq.acct
  obtain ⟨hi, hk⟩ := (h.quiet hq).jobComplete k rt fun x hx =>
    (hc x hx).kept (hk₁ x.task)
  refine ⟨hi.on (acct_jobReleaseWait _), fun q => ?_⟩
  exact ((AcctKept.of_eq (acct_jobReleaseWait _)) q).attached.trans
    ((hk.attached q).trans (hk₁ q).attached)

theorem AcctInv.jobRelease (h : AcctInv s) (hatt : (s.core.acct rt).attached = true)
    {calls : List PluginCall} (hc : ∀ x ∈ calls, x.Steady c s.core) {s' : AcctState}
    (hs : s.jobRelease c k rt calls = some s') :
    AcctInv s' ∧ ∀ q, (s'.core.acct q).attached = (s.core.acct q).attached := by
  obtain ⟨core, hcore, rfl⟩ := Option.map_eq_some_iff.1 hs
  rw [jobReleaseDone_eq hcore]
  have hq : Quiet s (s.on fun s => releasedState s rt) := (Quiet.refl s).on acct_releasedState
  have hk : AcctKept s.core (releasedState s.core rt) := .of_eq hq.acct
  obtain ⟨hi, ha⟩ := (h.quiet hq).jobStart k
    ((hk rt).attached.trans hatt) fun x hx => (hc x hx).kept (hk x.task)
  exact ⟨hi, fun q => (ha q).trans (hk q).attached⟩

end Plugin

/-! ## Steps -/

/-- **The condition on a step.** No class is changed while its task is accounting, by a call or by
the plugin, and no reserve of no time is started. -/
def ApiOp.Steady (c : Config) (s : State) (calls : PluginCalls) : ApiOp → Prop
  | exit rt => (s.isActive rt = true → ∀ x ∈ calls.jobComplete, x.Steady c s) ∧
      ∀ x ∈ calls.taskExit, x.task = rt ∨ x.Steady c s
  | run _ _ => ∀ x ∈ calls.taskRun, x.Steady c s
  | release _ => ∀ x ∈ calls.jobStart, x.Steady c s
  | waitForPeriod _ | waitForInterval _ _ => ∀ x ∈ calls.jobComplete, x.Steady c s
  | setScheduler rt policy =>
    s.isAccounting rt = true → (c.policyClass policy).2 = (s.task rt).cls
  | reserveStart rt cputime _ => s.hasReserve rt = false → 0 < c.msecsToJiffies cputime
  | _ => True

section Step

variable {s s' : AcctState}

/-- The process of an attached task goes on to another point. -/
theorem AcctInv.setPoint (h : AcctInv s) (hatt : (s.core.acct rt).attached = true) {p : Point}
    (hp : p ≠ .detached) : AcctInv (s.on fun s => s.setPoint rt p) :=
  h.on (acct_setPoint hatt hp)

/-- Only the descriptor of a task that is not accounting is changed. -/
theorem AcctInv.other (h : AcctInv s) (he : s'.events = s.events)
    (ha : (s.core.acct rt).accounting = false) (ha' : (s'.core.acct rt).accounting = false)
    (hq : ∀ q, q ≠ rt → s'.core.acct q = s.core.acct q) : AcctInv s' := by
  have hne : ∀ {t : AcctState}, (t.core.acct rt).accounting = false → ∀ q,
      (t.core.acct q).accounting = true → q ≠ rt := by
    rintro t hrt q hacc rfl
    rw [hrt] at hacc
    cases hacc
  refine ⟨?_, fun q cls hs => ?_, fun q hacc => ?_⟩
  · rw [he]
    exact h.paired
  · rw [he] at hs
    have hv := h.started q cls hs
    rw [hq q (hne ha q hv.1)]
    exact hv
  · have hqrt := hne ha' q hacc
    rw [hq q hqrt] at hacc ⊢
    exact h.reserved q hacc

theorem acct_setPoint_of_ne {s : State} {p : Point} (hq : q ≠ rt) :
    (s.setPoint rt p).acct q = s.acct q := by
  have hatt : (s.setPoint rt p).Attached q ↔ s.Attached q := by
    unfold State.Attached
    rw [point_setPoint_of_ne p hq]
  unfold State.acct
  rw [decide_eq_decide.2 hatt]
  rfl

/-- The process leaves. -/
theorem AcctInv.leave (h : AcctInv s) (ha : (s.core.acct rt).accounting = false) :
    AcctInv (s.on fun s => s.setPoint rt .detached) :=
  h.other rfl ha ha fun _ hq => acct_setPoint_of_ne hq

/-- `api_init` takes a descriptor that is not in use. -/
theorem AcctInv.init (h : AcctInv s) {current : ℕ} (hp : s.core.point rt = .detached) :
    AcctInv (s.on fun s => (reschTaskInit c k s rt current).setPoint rt .user) := by
  obtain ⟨t, proc, heq, ht, -⟩ := reschTaskInit_eq c k s.core rt current
  have hnot : (s.core.acct rt).accounting = false := by
    by_contra ha
    exact of_decide_eq_true (h.reserved rt (eq_true_of_ne_false ha)).2 hp
  refine h.other rfl hnot ?_ fun q hq => (acct_setPoint_of_ne hq).trans ?_
  · show ((reschTaskInit c k s.core rt current).task rt).accounting = false
    rw [heq]
    dsimp only
    rw [Function.update_self]
    exact ht.accounting
  · rw [heq]
    unfold State.acct
    dsimp only
    rw [Function.update_of_ne hq]
    rfl

/-- **The step lemma.** -/
theorem AcctInv.step (h : AcctInv s) {a : ApiOp × PluginCalls × Kernel}
    (hc : a.1.Steady c s.core a.2.1) (hs : acctStep c s a = some s') : AcctInv s' := by
  obtain ⟨op, calls, k⟩ := a
  unfold acctStep at hs
  dsimp only at hs hc
  split at hs
  swap
  · cases hs
  rename_i hen
  have attached : ∀ {rt p}, decide (s.core.point rt = p) = true → p ≠ .detached →
      (s.core.acct rt).attached = true := fun hp => attached_of_point (of_decide_eq_true hp)
  -- the calls that do not touch the accounting
  by_cases hq : op.quiet = true
  · have hexec : ((op.exec c k s.core).map fun core => { s with core }) = some s' := by
      cases op with
      | exit | run | waitForPeriod | waitForInterval | release | reserveStart | reserveStop
      | reserveExpire | migrate | setScheduler | init => cases hq
      | _ => exact hs
    obtain ⟨core, hcore, rfl⟩ := Option.map_eq_some_iff.1 hexec
    exact h.congr rfl (.of_eq (acct_exec hq hen hcore))
  cases op with
  | init rt current =>
    cases hs
    exact h.init (of_decide_eq_true hen)
  | exit rt =>
    cases hs
    obtain ⟨hi, ha, -⟩ := h.apiExit (k := k) hc.1 hc.2
    exact hi.leave ha
  | run rt timeout =>
    cases hs
    obtain ⟨hi, ha⟩ := h.apiRun k rt timeout hc
    exact hi.setPoint ((ha rt).trans (attached hen (by decide))) (by decide)
  | waitForPeriod rt =>
    cases hs
    obtain ⟨hi, ha⟩ := h.waitFor k rt
      (fun s => (s.task rt).releaseTime + (s.task rt).period) hc
    exact hi.setPoint ((ha rt).trans (attached hen (by decide))) (by decide)
  | waitForInterval rt period =>
    cases hs
    obtain ⟨hi, ha⟩ := h.waitFor k rt (fun s => s.jiffies + period) hc
    exact hi.setPoint ((ha rt).trans (attached hen (by decide))) (by decide)
  | release rt =>
    obtain ⟨s₁, hs₁, rfl⟩ := Option.map_eq_some_iff.1 hs
    have hatt := attached hen (by decide)
    obtain ⟨hi, ha⟩ := h.jobRelease hatt hc hs₁
    exact hi.setPoint ((ha rt).trans hatt) (by decide)
  | setScheduler rt policy =>
    cases hs
    refine h.congr rfl ?_
    show AcctKept s.core (apiSetScheduler c k s.core rt policy).1
    by_cases hne : policy ≠ (s.core.task rt).policy
    · intro q
      rw [apiSetScheduler_of_ne hne, acct_setScheduler]
      exact acctKept_setPolicy hc q
    · unfold apiSetScheduler
      rw [if_neg hne]
      exact .of_eq rfl
  | reserveStart rt cputime xcpu =>
    cases hs
    unfold AcctState.apiReserveStart
    split
    · exact h
    · rename_i hres
      have hres := eq_false_of_ne_true hres
      exact h.reserveStart hres (attached hen (by decide)) (hc hres)
  | reserveStop rt =>
    cases hs
    unfold AcctState.apiReserveStop
    split
    · exact (h.reserveStop c rt).1
    · exact h
  | reserveExpire rt =>
    cases hs
    exact h.apiReserveExpire (attached hen (by decide))
  | migrate rt cpu =>
    cases hs
    exact (h.migrateTask rt cpu).1
  | _ => exact absurd rfl hq

end Step

/-! ## Runs -/

theorem acctInit_inv (jiffies : ℕ) (proc : ℕ → Proc) : AcctInv (acctInit jiffies proc) := by
  refine ⟨paired_nil, fun rt cls hs => ?_, fun rt ha => ?_⟩
  · obtain ⟨later, before, heq, -⟩ := hs
    cases later <;> cases heq
  · cases ha

/-- **The hooks pair up** in every run whose steps are steady. -/
theorem hooks_paired (c : Config) (jiffies : ℕ) (proc : ℕ → Proc)
    (run : List (ApiOp × PluginCalls × Kernel))
    (h : Each (acctStep c) (fun s a => a.1.Steady c s.core a.2.1) (acctInit jiffies proc) run) :
    Always (acctStep c) (fun s => Paired s.events) (acctInit jiffies proc) run := by
  have hinv := Always.of_each (P := AcctInv) (fun s a s' hi hc hs => hi.step hc hs) run _
    (acctInit_inv jiffies proc) h
  exact hinv.mono (fun s hs => hs.paired) run _

/-- A build in which a task reserves time and leaves. -/
theorem hooks_paired_reserve :
    Always (acctStep (.small false)) (fun s => Paired s.events) (acctInit 0 fun _ => .fair)
      [(.init 0 1, .default, .accepting), (.reserveStart 0 10 false, .default, .accepting),
        (.reserveStop 0, .default, .accepting), (.setScheduler 0 reschSchedFair, .default, .accepting),
        (.exit 0, .default, .accepting)] := by
  refine hooks_paired (.small false) 0 (fun _ => .fair) _ ?_
  refine Each.cons rfl trivial (Each.cons rfl ?_ (Each.cons rfl trivial (Each.cons rfl ?_
    (Each.cons rfl ?_ trivial))))
  · intro _
    decide
  · intro ha
    exact absurd ha (by decide +kernel)
  · refine ⟨fun _ x hx => ?_, fun x hx => ?_⟩ <;> cases hx

/-- A task starts a reserve under FP and stops it under FAIR; a task starts a reserve of no time
and leaves. -/
theorem hooks_not_paired :
    ¬ Always (acctStep (.small false)) (fun s => Paired s.events) (acctInit 0 fun _ => .fair)
        [(.init 0 1, .default, .accepting), (.reserveStart 0 10 false, .default, .accepting),
          (.setScheduler 0 reschSchedFair, .default, .accepting),
          (.reserveStop 0, .default, .accepting)] ∧
      ¬ Always (acctStep (.small false)) (fun s => Paired s.events) (acctInit 0 fun _ => .fair)
        [(.init 0 1, .default, .accepting), (.reserveStart 0 0 false, .default, .accepting),
          (.exit 0, .default, .accepting)] := by
  constructor
  · intro h
    obtain ⟨s, hs, he⟩ := h.final_test
      (fun s => decide (s.events = [.reserveStop 0, .stop 0 .fair, .start 0 .fp])) (by decide +kernel)
    rw [of_decide_eq_true he] at hs
    have := hs [] (.reserveStop 0) [.stop 0 .fair] 0 .fp [] rfl rfl
    simp at this
  · intro h
    obtain ⟨s, hs, he⟩ := h.final_test
      (fun s => decide (s.events = [.detach 0, .start 0 .fp])) (by decide +kernel)
    rw [of_decide_eq_true he] at hs
    have := hs [] (.detach 0) [] 0 .fp [] rfl rfl
    simp at this

end Resch
