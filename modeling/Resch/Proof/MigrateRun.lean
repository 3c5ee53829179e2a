import Resch.Lib.Runs
import Resch.Lib.Waits
import Resch.Spec.Api
import Resch.Spec.MigrateRun

/-!
# Migrations that wait for each other

`active_queue_double_lock` takes the lock of the source first and the one of the destination
second, whatever their order. While a call is between the two, it is an edge from its source
to its destination, and calls wait for each other in a cycle iff the edges have one. Only the
first lock adds an edge, so that step decides (`migrateStep_iff`).

`migrateTask_eq` puts the parts of a call together again.
-/

namespace Resch

open Lib Relation

variable {c : Config} {s s' : MigrateState} {i : ℕ} {x : Option (MigratePhase × MigrateCall)}

/-- **A call that nothing comes between** is `migrate_task`. -/
theorem migrateTask_eq (c : Config) (s : State) (rt cpuDst : ℕ) :
    let m : MigrateCall := ⟨(s.task rt).cls, rt, (s.task rt).cpuId, cpuDst, false, none, none⟩
    migrateTask c s rt cpuDst =
      if m.cls = .fair ∨ m.cpuSrc = m.cpuDst then migrateFinish c s m
      else migrateFinish c (migrateMove s m).1 (migrateMove s m).2 := by
  dsimp only
  unfold migrateTask migrateFinish migrateMove
  by_cases hcpu : (s.task rt).cpuId = cpuDst
  · -- on the same CPU, no class moves the task
    rw [if_pos (Or.inr hcpu)]
    cases (s.task rt).cls with
    | fair => rfl
    | fp =>
      show fpMigrateTask c s rt cpuDst = _
      unfold fpMigrateTask
      dsimp only
      rw [if_neg (not_not.2 hcpu)]
      rfl
    | edf => exact if_neg (not_not.2 hcpu)
    | deadline => exact if_neg (not_not.2 hcpu)
  · -- the three classes with lists dequeue, write the CPU and enqueue again
    cases (s.task rt).cls with
    | fair => rfl
    | fp =>
      rw [if_neg (by simp [hcpu])]
      dsimp only
      unfold fpMigrateTask fpMove
      dsimp only
      rw [if_pos hcpu]
      by_cases ha : s.isActive rt = true
      · rw [if_pos ha, if_pos ha]
        rfl
      · rw [if_neg ha, if_neg ha]
        rfl
    | edf =>
      rw [if_neg (by simp [hcpu])]
      dsimp only
      unfold Edf.edfMigrateTask Edf.edfMove
      dsimp only
      rw [if_pos hcpu]
      by_cases ha : s.isActive rt = true
      · rw [if_pos ha, if_pos ha]
        rfl
      · rw [if_neg ha, if_neg ha]
        rfl
    | deadline =>
      rw [if_neg (by simp [hcpu])]
      dsimp only
      unfold Deadline.edfMigrateTask Deadline.edfMove
      dsimp only
      rw [if_pos hcpu]
      by_cases ha : s.isActive rt = true
      · rw [if_pos ha, if_pos ha]
        rfl
      · rw [if_neg ha, if_neg ha]
        rfl

/-- Moving the task does not change where the locks are. -/
theorem migrateMove_cpus (s : State) (m : MigrateCall) :
    (migrateMove s m).2.cpuSrc = m.cpuSrc ∧ (migrateMove s m).2.cpuDst = m.cpuDst := by
  unfold migrateMove fpMove Edf.edfMove Deadline.edfMove
  cases m.cls <;> dsimp only <;> (try split) <;> exact ⟨rfl, rfl⟩

/-- A call in this phase holds the lock of `cpu`. -/
def Holds (cpu : ℕ) : Option (MigratePhase × MigrateCall) → Prop
  | some (.lockSecond, m) | some (.unlockFirst, m) => cpu = m.cpuSrc
  | some (.move, m) | some (.unlockSecond, m) => cpu = m.cpuSrc ∨ cpu = m.cpuDst
  | some (.lockFirst, _) | some (.finish, _) | none => False

/-- Locks are held by calls that have taken them. -/
def LockInv (s : MigrateState) : Prop := ∀ cpu i, s.lock cpu = some i → Holds cpu (s.call i)

/-- The calls that hold their first lock and wait for the second, as edges between queues. -/
abbrev MigrateState.Edge (s : MigrateState) : ℕ → ℕ → Prop := LockEdge s.lock s.wants

/-- No migrations wait for each other in a cycle. -/
def NoDeadlock (s : MigrateState) : Prop := Acyclic (WaitsFor s.lock s.wants)

/-- A call that takes its first lock closes no cycle: no chain of calls that hold their first
lock leads from its second queue back to its first. -/
def MigrateOp.Orderly (s : MigrateState) : MigrateOp → Prop
  | .start _ _ _ => True
  | .next i => ∀ m, s.call i = some (.lockFirst, m) → ¬ ReflTransGen s.Edge m.cpuDst m.cpuSrc

/-! ## One step -/

/-- What a step of call `i` may do to the locks and the calls. -/
structure StepOf (i : ℕ) (x : Option (MigratePhase × MigrateCall)) (s s' : MigrateState) : Prop where
  call : s'.call = Function.update s.call i x
  other : ∀ cpu j, j ≠ i → s'.lock cpu = some j → s.lock cpu = some j
  own : ∀ cpu, s'.lock cpu = some i → Holds cpu x

theorem StepOf.inv (h : StepOf i x s s') (hi : LockInv s) : LockInv s' := by
  intro cpu j hj
  rw [h.call]
  by_cases hji : j = i
  · subst hji
    rw [Function.update_self]
    exact h.own cpu hj
  · rw [Function.update_of_ne hji]
    exact hi cpu j (h.other cpu j hji hj)

theorem StepOf.wants_self (h : StepOf i x s s') : s'.wants i = wantedLock x := by
  unfold MigrateState.wants
  rw [h.call, Function.update_self]

theorem StepOf.wants_of_ne (h : StepOf i x s s') {j : ℕ} (hj : j ≠ i) : s'.wants j = s.wants j := by
  unfold MigrateState.wants
  rw [h.call, Function.update_of_ne hj]

/-- A call that holds a lock and waits for one is between its two locks. -/
theorem holds_wanted {a b : ℕ} (hh : Holds a x) (hw : wantedLock x = some b) :
    ∃ m, x = some (.lockSecond, m) ∧ a = m.cpuSrc ∧ b = m.cpuDst := by
  rcases x with _ | ⟨phase, m⟩
  · cases hw
  · cases phase with
    | lockSecond => exact ⟨m, rfl, hh, (Option.some.inj hw).symm⟩
    | lockFirst | finish => exact hh.elim
    | move | unlockSecond | unlockFirst => cases hw

/-- The edges after a step are those before it, and the one of the call if it holds its first
lock now. -/
theorem StepOf.edge (h : StepOf i x s s') {a b : ℕ} (he : s'.Edge a b) :
    s.Edge a b ∨ ∃ m, x = some (.lockSecond, m) ∧ a = m.cpuSrc ∧ b = m.cpuDst := by
  obtain ⟨j, hl, hw⟩ := he
  by_cases hj : j = i
  · subst hj
    right
    rw [h.wants_self] at hw
    exact holds_wanted (h.own a hl) hw
  · rw [h.wants_of_ne hj] at hw
    exact Or.inl ⟨j, h.other a j hj hl, hw⟩

theorem lock_setLock (s : MigrateState) (cpu a : ℕ) (h : Option ℕ) :
    ((s.setLock cpu h).setCall i x).lock a = if a = cpu then h else s.lock a :=
  Function.update_apply ..

theorem StepOf.take {l : ℕ} (hl : Holds l x)
    (hown : ∀ cpu, s.lock cpu = some i → cpu ≠ l → Holds cpu x) :
    StepOf i x s ((s.setLock l (some i)).setCall i x) := by
  refine ⟨rfl, fun cpu j hj h => ?_, fun cpu h => ?_⟩ <;> rw [lock_setLock] at h <;> split at h
  · exact absurd (Option.some.inj h).symm hj
  · exact h
  · rename_i e
    rw [e]
    exact hl
  · exact hown cpu h ‹_›

theorem StepOf.release {l : ℕ} (hown : ∀ cpu, s.lock cpu = some i → cpu ≠ l → Holds cpu x) :
    StepOf i x s ((s.setLock l none).setCall i x) := by
  refine ⟨rfl, fun cpu j hj h => ?_, fun cpu h => ?_⟩ <;> rw [lock_setLock] at h <;> split at h
  · cases h
  · exact h
  · cases h
  · exact hown cpu h ‹_›

/-- The step that takes the first lock, and the others. -/
theorem next_cases (hi : LockInv s) (hs : s.next i c = some s') :
    (∃ m, s.call i = some (.lockFirst, m) ∧ StepOf i (some (.lockSecond, m)) s s' ∧
        s'.lock m.cpuSrc = some i ∧ ∀ cpu j, s.lock cpu = some j → s'.lock cpu = some j) ∨
      ((∀ m, s.call i ≠ some (.lockFirst, m)) ∧
        ∃ x, (∀ m, x ≠ some (.lockSecond, m)) ∧ StepOf i x s s') := by
  have hown : ∀ cpu, s.lock cpu = some i → Holds cpu (s.call i) := fun cpu h => hi cpu i h
  unfold MigrateState.next at hs
  split at hs
  · cases hs
  · -- the first lock, which nobody holds
    rename_i m hc
    rw [hc] at hown
    split at hs
    · rw [Option.some.injEq] at hs
      subst hs
      rename_i hfree
      refine Or.inl ⟨m, hc, StepOf.take rfl fun cpu h _ => (hown cpu h).elim, ?_, ?_⟩
      · rw [lock_setLock, if_pos rfl]
      · intro cpu j hj
        have hne : cpu ≠ m.cpuSrc := by
          rintro rfl
          rw [hfree] at hj
          cases hj
        rw [lock_setLock, if_neg hne]
        exact hj
    · cases hs
  · -- the second lock
    rename_i m hc
    rw [hc] at hown
    split at hs
    · rw [Option.some.injEq] at hs
      subst hs
      exact Or.inr ⟨by simp [hc], some (.move, m), by simp,
        StepOf.take (Or.inr rfl) fun cpu h _ => Or.inl (hown cpu h)⟩
    · cases hs
  · -- the move, under both locks
    rename_i m hc
    rw [hc] at hown
    rw [Option.some.injEq] at hs
    subst hs
    refine Or.inr ⟨by simp [hc], some (.unlockSecond, (migrateMove s.core m).2), by simp, rfl,
      fun cpu j _ h => h, fun cpu h => ?_⟩
    obtain ⟨hsrc, hdst⟩ := migrateMove_cpus s.core m
    show cpu = (migrateMove s.core m).2.cpuSrc ∨ cpu = (migrateMove s.core m).2.cpuDst
    rw [hsrc, hdst]
    exact hown cpu h
  · -- the second lock goes, then the first
    rename_i m hc
    rw [hc] at hown
    rw [Option.some.injEq] at hs
    subst hs
    refine Or.inr ⟨by simp [hc], some (.unlockFirst, m), by simp, StepOf.release fun cpu h hne => ?_⟩
    exact (hown cpu h).resolve_right hne
  · rename_i m hc
    rw [hc] at hown
    rw [Option.some.injEq] at hs
    subst hs
    refine Or.inr ⟨by simp [hc], some (.finish, m), by simp, StepOf.release fun cpu h hne => ?_⟩
    exact absurd (hown cpu h) hne
  · -- the end of the call, without a lock
    rename_i m hc
    rw [hc] at hown
    rw [Option.some.injEq] at hs
    subst hs
    exact Or.inr ⟨by simp [hc], none, by simp, rfl, fun cpu j _ h => h, hown⟩

/-- A call that is being made holds no lock yet. -/
theorem start_step (hi : LockInv s) (hc : s.call i = none) (rt cpuDst : ℕ) :
    ∃ x, (∀ m, x ≠ some (.lockSecond, m)) ∧ StepOf i x s (s.start i rt cpuDst) := by
  have hown : ∀ cpu, s.lock cpu ≠ some i := by
    intro cpu h
    have := hi cpu i h
    rw [hc] at this
    exact this
  unfold MigrateState.start
  dsimp only
  split
  · exact ⟨_, by simp, rfl, fun cpu j _ h => h, fun cpu h => absurd h (hown cpu)⟩
  · exact ⟨_, by simp, rfl, fun cpu j _ h => h, fun cpu h => absurd h (hown cpu)⟩

/-- Steps that do not take a first lock add no edge. -/
theorem StepOf.noDeadlock (h : StepOf i x s s') (hx : ∀ m, x ≠ some (.lockSecond, m))
    (hn : NoDeadlock s) : NoDeadlock s' := by
  unfold NoDeadlock at hn ⊢
  rw [deadlock_iff] at hn ⊢
  refine hn.mono fun a b he => ?_
  rcases h.edge he with he | ⟨m, hm, -⟩
  · exact he
  · exact absurd hm (hx m)

/-- Taking the first lock adds the edge of the call. -/
theorem StepOf.noDeadlock_iff {m : MigrateCall} (h : StepOf i (some (.lockSecond, m)) s s')
    (hi : LockInv s) (hc : s.call i = some (.lockFirst, m)) (hl : s'.lock m.cpuSrc = some i)
    (hkeep : ∀ cpu j, s.lock cpu = some j → s'.lock cpu = some j) (hn : NoDeadlock s) :
    NoDeadlock s' ↔ ¬ ReflTransGen s.Edge m.cpuDst m.cpuSrc := by
  have hown : ∀ cpu, s.lock cpu ≠ some i := by
    intro cpu hcpu
    have := hi cpu i hcpu
    rw [hc] at this
    exact this
  have hedge : s'.Edge = fun a b => s.Edge a b ∨ (a = m.cpuSrc ∧ b = m.cpuDst) := by
    funext a b
    refine propext ⟨fun he => ?_, fun he => ?_⟩
    · rcases h.edge he with he | ⟨m', hm, ha, hb⟩
      · exact Or.inl he
      · cases hm
        exact Or.inr ⟨ha, hb⟩
    · rcases he with ⟨j, hj, hw⟩ | ⟨rfl, rfl⟩
      · have hji : j ≠ i := fun e => hown a (e ▸ hj)
        exact ⟨j, hkeep a j hj, (h.wants_of_ne hji).trans hw⟩
      · exact ⟨i, hl, h.wants_self⟩
  unfold NoDeadlock at hn ⊢
  rw [deadlock_iff] at hn ⊢
  rw [show LockEdge s'.lock s'.wants = _ from hedge]
  exact acyclic_insert_iff hn _ _

/-- **The step lemma.** -/
theorem migrateStep_iff (op : MigrateOp) (hi : LockInv s) (hn : NoDeadlock s)
    (hs : migrateStep c s op = some s') : LockInv s' ∧ (NoDeadlock s' ↔ op.Orderly s) := by
  cases op with
  | start i rt cpuDst =>
    rw [migrateStep] at hs
    split at hs
    · rw [Option.some.injEq] at hs
      subst hs
      obtain ⟨x, hx, hstep⟩ := start_step hi ‹_› rt cpuDst
      exact ⟨hstep.inv hi, fun _ => trivial, fun _ => hstep.noDeadlock hx hn⟩
    · cases hs
  | next i =>
    rcases next_cases hi hs with ⟨m, hc, hstep, hl, hkeep⟩ | ⟨hc, x, hx, hstep⟩
    · refine ⟨hstep.inv hi, (hstep.noDeadlock_iff hi hc hl hkeep hn).trans ?_⟩
      constructor
      · intro h m' hm'
        rw [hc] at hm'
        cases hm'
        exact h
      · exact fun h => h m hc
    · exact ⟨hstep.inv hi, fun _ m hm => absurd hm (hc m), fun _ => hstep.noDeadlock hx hn⟩

/-- **Deadlock of migrations.** In every interleaving of any number of `migrate_task` calls, no
migrations come to wait for each other in a cycle iff no call takes its first lock while a chain
of calls leads from its second queue back to its first. -/
theorem migrateStep_noDeadlock_iff (c : Config) (core : State) (ops : List MigrateOp) :
    Always (migrateStep c) NoDeadlock (migrateInit core) ops ↔
      Each (migrateStep c) (fun s op => op.Orderly s) (migrateInit core) ops := by
  have hi : LockInv (migrateInit core) := fun cpu i h => by cases h
  have hn : NoDeadlock (migrateInit core) := by
    unfold NoDeadlock
    rw [deadlock_iff]
    intro a ha
    obtain ⟨_, ⟨i, hl, -⟩, -⟩ := TransGen.head'_iff.1 ha
    cases hl
  refine always_iff_each (fun s op s' hi hn hs _ => ?_) (fun s op s' hi hn hs => ?_) ops _ hi hn
  · exact (migrateStep_iff op hi hn hs).1
  · exact (migrateStep_iff op hi hn hs).2

/-- Two tasks of the FP class, on CPUs 0 and 1. -/
def crossing : State :=
  ((schedInit 0 fun _ => Proc.fair).setTask 0 fun t => { t with cls := .fp, cpuId := 0 }).setTask 1
    fun t => { t with cls := .fp, cpuId := 1 }

theorem migrateStep_deadlock : ¬ ∀ (c : Config) (core : State) (ops : List MigrateOp),
    Always (migrateStep c) NoDeadlock (migrateInit core) ops := by
  intro hall
  -- each task goes to the CPU of the other, and both take their first lock
  obtain ⟨s, hn, ht⟩ := (hall (Config.small false) crossing
    [.start 0 0 1, .start 1 1 0, .next 0, .next 1]).final_test
    (fun s => decide (s.lock 0 = some 0 ∧ s.lock 1 = some 1 ∧ s.wants 0 = some 1 ∧ s.wants 1 = some 0))
    (by decide +kernel)
  obtain ⟨hl0, hl1, hw0, hw1⟩ := of_decide_eq_true ht
  have h01 : WaitsFor s.lock s.wants 0 1 := ⟨1, hw0, hl1⟩
  have h10 : WaitsFor s.lock s.wants 1 0 := ⟨0, hw1, hl0⟩
  exact hn 0 (TransGen.head h01 (.single h10))

end Resch
