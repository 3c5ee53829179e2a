import Mathlib.Logic.Relation
import Resch.Proof.Queue
import Resch.Proof.Fields

/-!
# What the hooks of a task are made of

`Update rt s s'` is one assignment made on behalf of `rt`: to data of its descriptor, to
a process, or to its links in the global list and in the active queues, where it is only
enqueued while it is inactive. Each hook is a sequence of them, so what one update
keeps, every hook keeps:

* `Updates.task_of_ne`: the descriptors of other tasks;
* `Updates.same`: of the descriptor of `rt`, process, class, policy and component entry;
* `Updates.wellLinked`, `Updates.globalOk`: the active queues and the global list stay
  well formed.
-/

namespace Resch

open Lib

/-- The part of a descriptor that updates of its data leave alone. -/
structure Task.Keeps (t t' : Task) : Prop where
  task : t'.task = t.task
  cls : t'.cls = t.cls
  policy : t'.policy = t.policy
  component : t'.componentEntry = t.componentEntry
  active : t'.activeEntry = t.activeEntry
  global : t'.globalEntry = t.globalEntry

/-- One assignment on behalf of `rt`. -/
inductive Update (rt : ℕ) : State → State → Prop
  | data (s : State) (f : Task → Task) (hf : (s.task rt).Keeps (f (s.task rt))) :
      Update rt s (s.setTask rt f)
  | proc (s : State) (p : ℕ) (f : Proc → Proc) : Update rt s (s.setProc p f)
  | rcu (s : State) (n : ℕ) : Update rt s { s with rcu := n }
  | link (s : State) (cpu : ℕ) (idx : ℤ) (ins : List ℕ → List ℕ) (hi : s.isActive rt = false)
      (hins : AddsOnce ins rt) : Update rt s (s.link rt cpu idx ins)
  | unlink (s : State) (cpu : ℕ) (idx : ℤ) : Update rt s (s.unlink rt cpu idx)
  | insert (s : State) : Update rt s (globalListInsert s rt)
  | remove (s : State) : Update rt s (globalListRemove s rt)

/-- A sequence of assignments on behalf of `rt`. -/
def Updates (rt : ℕ) : State → State → Prop := Relation.ReflTransGen (Update rt)

variable {c : Config} {k : Kernel} {s s' : State} {rt q cpu p : ℕ} {idx prio : ℤ}
  {ins : List ℕ → List ℕ}

theorem Updates.refl (s : State) : Updates rt s s := Relation.ReflTransGen.refl

section Append

variable (h : Updates rt s s')

include h

theorem Updates.setTask {f : Task → Task} (hf : (s'.task rt).Keeps (f (s'.task rt))) :
    Updates rt s (s'.setTask rt f) := h.tail (.data s' f hf)

theorem Updates.setPrio : Updates rt s (s'.setPrio rt prio) :=
  h.setTask ⟨rfl, rfl, rfl, rfl, rfl, rfl⟩

theorem Updates.setCpu : Updates rt s (s'.setCpu rt cpu) :=
  h.setTask ⟨rfl, rfl, rfl, rfl, rfl, rfl⟩

theorem Updates.setProc {f : Proc → Proc} : Updates rt s (s'.setProc p f) := h.tail (.proc s' p f)

theorem Updates.rcuReadLock : Updates rt s s'.rcuReadLock := h.tail (.rcu s' _)

theorem Updates.rcuReadUnlock : Updates rt s s'.rcuReadUnlock := h.tail (.rcu s' _)

theorem Updates.link (hi : s'.isActive rt = false) (hins : AddsOnce ins rt) :
    Updates rt s (s'.link rt cpu idx ins) := h.tail (.link s' cpu idx ins hi hins)

theorem Updates.unlink : Updates rt s (s'.unlink rt cpu idx) := h.tail (.unlink s' cpu idx)

omit h

theorem Updates.ite {P : Prop} [Decidable P] {a b : State} (ha : P → Updates rt s a)
    (hb : ¬P → Updates rt s b) : Updates rt s (if P then a else b) := by
  split
  · exact ha ‹_›
  · exact hb ‹_›

theorem Updates.ifSome {o : Option ℕ} {f : State → ℕ → State} (h : Updates rt s s')
    (hf : ∀ q, Updates rt s (f s' q)) : Updates rt s (ifSome s' o f) := by
  cases o with
  | none => exact h
  | some q => exact hf q

end Append

/-! ## What is kept -/

theorem Update.task_of_ne (h : Update rt s s') (hq : q ≠ rt) : s'.task q = s.task q := by
  cases h with
  | data f _ => exact task_setTask_of_ne f hq
  | proc p f => rfl
  | rcu n => rfl
  | link cpu idx ins _ _ => exact task_link_of_ne hq
  | unlink cpu idx => exact task_unlink_of_ne hq
  | insert => unfold globalListInsert; split <;> simp [hq]
  | remove => unfold globalListRemove; split <;> simp [hq]

theorem Updates.task_of_ne (h : Updates rt s s') (hq : q ≠ rt) : s'.task q = s.task q := by
  induction h with
  | refl => rfl
  | tail _ h ih => exact (h.task_of_ne hq).trans ih

/-- The parts of the state that no hook writes. -/
theorem Update.rest (h : Update rt s s') :
    s'.point = s.point ∧ s'.pidMap = s.pidMap ∧ s'.component = s.component := by
  cases h with
  | data | proc | rcu | link | unlink => exact ⟨rfl, rfl, rfl⟩
  | insert => exact ⟨globalListInsert_only.point, globalListInsert_only.pidMap,
      globalListInsert_only.component⟩
  | remove => exact ⟨globalListRemove_only.point, globalListRemove_only.pidMap,
      globalListRemove_only.component⟩

theorem Updates.rest (h : Updates rt s s') :
    s'.point = s.point ∧ s'.pidMap = s.pidMap ∧ s'.component = s.component := by
  induction h with
  | refl => exact ⟨rfl, rfl, rfl⟩
  | tail _ h ih =>
    obtain ⟨h1, h2, h3⟩ := h.rest
    exact ⟨h1.trans ih.1, h2.trans ih.2.1, h3.trans ih.2.2⟩

/-- Process, class, policy and component entry of the descriptor. -/
structure Task.Same (t t' : Task) : Prop where
  task : t'.task = t.task
  cls : t'.cls = t.cls
  policy : t'.policy = t.policy
  component : t'.componentEntry = t.componentEntry

theorem Task.Same.trans {t₁ t₂ t₃ : Task} (h : t₁.Same t₂) (h' : t₂.Same t₃) : t₁.Same t₃ :=
  ⟨h'.task.trans h.task, h'.cls.trans h.cls, h'.policy.trans h.policy,
    h'.component.trans h.component⟩

theorem GlobalOnly.same (h : GlobalOnly s s') (q : ℕ) : (s.task q).Same (s'.task q) := by
  obtain ⟨b, hb⟩ := h.task q
  rw [hb]; exact ⟨rfl, rfl, rfl, rfl⟩

theorem Update.same (h : Update rt s s') : (s.task rt).Same (s'.task rt) := by
  cases h with
  | data f hf => rw [task_setTask_self]; exact ⟨hf.task, hf.cls, hf.policy, hf.component⟩
  | proc | rcu => exact ⟨rfl, rfl, rfl, rfl⟩
  | link => rw [task_link_self]; exact ⟨rfl, rfl, rfl, rfl⟩
  | unlink => rw [task_unlink_self]; exact ⟨rfl, rfl, rfl, rfl⟩
  | insert => exact globalListInsert_only.same rt
  | remove => exact globalListRemove_only.same rt

theorem Updates.same (h : Updates rt s s') : (s.task rt).Same (s'.task rt) := by
  induction h with
  | refl => exact ⟨rfl, rfl, rfl, rfl⟩
  | tail _ h ih => exact ih.trans h.same

/-- The lists of the active queues are well formed. -/
def WellLinked (s : State) : Prop := ∃ place, Linked s place

theorem Linked.congr {place : ℕ → Option (ℕ × ℤ)} (h : Linked s place) (hlo : s'.lo = s.lo)
    (hact : ∀ q, s'.isActive q = s.isActive q) : Linked s' place := by
  refine ⟨?_, fun q => by rw [hact, h.active]⟩
  have : s'.levels = s.levels := by unfold State.levels; rw [hlo]
  rw [this]; exact h.placed

theorem GlobalOnly.isActive (h : GlobalOnly s s') (q : ℕ) : s'.isActive q = s.isActive q := by
  obtain ⟨b, hb⟩ := h.task q
  unfold State.isActive
  rw [hb]

theorem Update.wellLinked (h : Update rt s s') (hs : WellLinked s) : WellLinked s' := by
  obtain ⟨place, hs⟩ := hs
  cases h with
  | data f hf =>
    exact ⟨place, hs.congr rfl fun q => setTask_field (·.activeEntry) hf.active q⟩
  | proc | rcu => exact ⟨place, hs.congr rfl fun _ => rfl⟩
  | link cpu idx ins hi hins => exact ⟨_, hs.link hins (hs.inactive.1 hi)⟩
  | unlink cpu idx => exact ⟨_, hs.unlink⟩
  | insert => exact ⟨place, hs.congr globalListInsert_only.lo globalListInsert_only.isActive⟩
  | remove => exact ⟨place, hs.congr globalListRemove_only.lo globalListRemove_only.isActive⟩

theorem Updates.wellLinked (h : Updates rt s s') (hs : WellLinked s) : WellLinked s' := by
  induction h with
  | refl => exact hs
  | tail _ h ih => exact h.wellLinked ih

/-- The global list holds each managed task once and no other. -/
structure GlobalOk (s : State) : Prop where
  nodup : s.taskList.Nodup
  mem : ∀ q, q ∈ s.taskList ↔ s.isManaged q = true

theorem GlobalOk.congr (h : GlobalOk s) (hl : s'.taskList = s.taskList)
    (hm : ∀ q, s'.isManaged q = s.isManaged q) : GlobalOk s' :=
  ⟨by rw [hl]; exact h.nodup, fun q => by rw [hl, hm]; exact h.mem q⟩

theorem GlobalOk.insert (h : GlobalOk s) : GlobalOk (globalListInsert s rt) := by
  unfold globalListInsert
  split
  · exact h
  rename_i hm
  have hn : rt ∉ s.taskList := fun hrt => hm ((h.mem rt).1 hrt)
  refine ⟨?_, fun q => ?_⟩
  · exact (insertBefore_perm _ rt _).nodup_iff.2 (List.nodup_cons.2 ⟨hn, h.nodup⟩)
  · by_cases hq : q = rt
    · subst hq; simp [State.isManaged]
    · simp [State.isManaged, hq]
      exact h.mem q

theorem GlobalOk.remove (h : GlobalOk s) : GlobalOk (globalListRemove s rt) := by
  unfold globalListRemove
  split
  swap
  · exact h
  refine ⟨h.nodup.filter _, fun q => ?_⟩
  by_cases hq : q = rt
  · subst hq; simp [State.isManaged]
  · simp [State.isManaged, hq]
    exact h.mem q

theorem isManaged_link : (s.link rt cpu idx ins).isManaged q = s.isManaged q := by
  by_cases hq : q = rt
  · subst hq; simp [State.isManaged]
  · simp [State.isManaged, task_link_of_ne hq]

theorem isManaged_unlink : (s.unlink rt cpu idx).isManaged q = s.isManaged q := by
  by_cases hq : q = rt
  · subst hq; simp [State.isManaged]
  · simp [State.isManaged, task_unlink_of_ne hq]

theorem Update.globalOk (h : Update rt s s') (hs : GlobalOk s) : GlobalOk s' := by
  cases h with
  | data f hf => exact hs.congr rfl fun q => setTask_field (·.globalEntry) hf.global q
  | proc | rcu => exact hs.congr rfl fun _ => rfl
  | link cpu idx ins hi hins => exact hs.congr rfl fun _ => isManaged_link
  | unlink cpu idx => exact hs.congr rfl fun _ => isManaged_unlink
  | insert => exact hs.insert
  | remove => exact hs.remove

theorem Updates.globalOk (h : Updates rt s s') (hs : GlobalOk s) : GlobalOk s' := by
  induction h with
  | refl => exact hs
  | tail _ h ih => exact h.globalOk ih

end Resch
