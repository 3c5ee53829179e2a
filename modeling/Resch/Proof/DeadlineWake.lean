import Resch.Lib.Checked
import Resch.Spec.DeadlineWake

/-!
# Wake-ups in a build with `SCHED_DEADLINE`

For a process under `SCHED_DEADLINE`, `gdev_sched_wakeup` goes to `cpu_wq_wakeup` with
`reschg_global_spinlock` held.

* `gdevSchedWakeup_held`: a call with that lock held stops.
* `gdevSchedWakeup_deadline`: with the process asleep in `cpu_wq_sleep` the call stops at the lock, and
  otherwise returns with it.
* `wakes_iff`: the wake-up is right iff the entity has no process, or one under another policy.
-/

namespace Resch

open Lib

namespace WaitEntity

variable {se se' : WaitEntity} {later : RunState} {clock : ℤ} {depth : ℕ}

/-- **A wake-up is right**: the call returns, at some depth of calls and so without a second lock, it
holds no lock, and a process asleep has been woken and is not the entity's any more. -/
def Wakes (se : WaitEntity) : Prop :=
  ∀ later clock, ∃ depth se' ret, gdevSchedWakeup later clock depth se.unlocked = .ok (se', ret) ∧
    (∀ l, se'.held l = false) ∧
    (se.task = .process → se.proc.state = .interruptible →
      se'.proc.state = .running ∧ se'.task = .null)

theorem lock_free {l : GpuLock} (h : se.held l = false) :
    se.lock l = .ok { se with held := Function.update se.held l true } := by
  unfold lock
  rw [h]
  exact if_neg Bool.false_ne_true

theorem lock_held {l : GpuLock} (h : se.held l = true) : se.lock l = .error (.deadlock l) := if_pos h

/-- The release lock does not affect the other one. -/
theorem held_lock_release (h : se.held .global = true) (hl : se.lock .release = .ok se') :
    se'.held .global = true := by
  unfold lock at hl
  split at hl
  · cases hl
  · cases hl
    simpa using h

theorem held_unlock_release : (se.unlock .release).held .global = se.held .global := by
  unfold unlock
  simp

/-- A call with `reschg_global_spinlock` held never returns. -/
theorem gdevSchedWakeup_held (se : WaitEntity) (later : RunState) (clock : ℤ) (depth : ℕ)
    (h : se.held .global = true) :
    ∃ e, gdevSchedWakeup later clock depth se = .error e := by
  cases depth with
  | zero => exact ⟨_, rfl⟩
  | succ depth =>
    refine ⟨.deadlock .global, ?_⟩
    unfold gdevSchedWakeup
    rw [lock_held h]
    rfl

/-- `cpu_wq_wakeup` with that lock held returns only where it wakes nobody, and does not unlock. -/
theorem cpuWqWakeup_held (h : se.held .global = true)
    (hok : se.cpuWqWakeup clock (gdevSchedWakeup later clock depth) = .ok se') :
    se'.held .global = true := by
  unfold cpuWqWakeup at hok
  obtain ⟨se₁, h₁, hok⟩ := bind_eq_ok.1 hok
  have hheld := held_lock_release h h₁
  split at hok
  · -- the process is asleep: `gdev_sched_wakeup` once more, with the lock held
    obtain ⟨r, hr, -⟩ := bind_eq_ok.1 hok
    obtain ⟨e, he⟩ := gdevSchedWakeup_held (se₁.dlRuntimeReverse clock) later clock
      depth hheld
    rw [he] at hr
    cases hr
  · cases hok
    rw [held_unlock_release]
    exact hheld

/-- With `SCHED_DEADLINE` no call returns without the lock. -/
theorem gdevSchedWakeup_deadline (se : WaitEntity) {ret : ℤ} (ht : se.task = .process)
    (hp : se.proc.policy = .deadline) (hf : se.held .global = false)
    (hok : gdevSchedWakeup later clock depth se = .ok (se', ret)) : se'.held .global = true := by
  cases depth with
  | zero => cases hok
  | succ depth =>
    unfold gdevSchedWakeup at hok
    rw [lock_free hf] at hok
    obtain ⟨se₁, h₁, hok⟩ := bind_eq_ok.1 hok
    cases h₁
    dsimp only at hok
    rw [ht] at hok
    dsimp only at hok
    rw [if_pos hp] at hok
    obtain ⟨se₂, h₂, hok⟩ := bind_eq_ok.1 hok
    cases hok
    exact cpuWqWakeup_held (by simp) h₂

/-- The marker is no task. -/
theorem gdevSchedWakeup_dead (se : WaitEntity) (later : RunState) (clock : ℤ) (depth : ℕ)
    (ht : se.task = .dead) :
    ∃ e, gdevSchedWakeup later clock depth se = .error e := by
  cases depth with
  | zero => exact ⟨_, rfl⟩
  | succ depth =>
    unfold gdevSchedWakeup
    cases hf : se.held .global
    · rw [lock_free hf]
      refine ⟨.badPointer, ?_⟩
      dsimp only [bind, Except.bind]
      rw [ht]
      rfl
    · rw [lock_held hf]
      exact ⟨_, rfl⟩

/-- Without a process the marker is left. -/
theorem gdevSchedWakeup_null (se : WaitEntity) (ht : se.task = .null) (hf : se.held .global = false) :
    gdevSchedWakeup later clock (depth + 1) se =
      .ok ({ se with task := .dead, held := Function.update se.held .global false }, -22) := by
  unfold gdevSchedWakeup
  rw [lock_free hf]
  dsimp only [bind, Except.bind]
  rw [ht]
  unfold unlock
  dsimp only
  rw [Function.update_idem]
  rfl

/-- A process under another policy: it is woken at once if it sleeps, and a jiffy later otherwise, in
both cases without the lock. -/
theorem gdevSchedWakeup_process (se : WaitEntity) (later : RunState) (clock : ℤ) (depth : ℕ)
    (ht : se.task = .process) (hp : se.proc.policy ≠ .deadline)
    (hf : ∀ l, se.held l = false) :
    ∃ se' ret, gdevSchedWakeup later clock (depth + 1) se = .ok (se', ret) ∧
      (∀ l, se'.held l = false) ∧
      (se.proc.state = .interruptible → se'.proc.state = .running ∧ se'.task = .null) := by
  have hcall : gdevSchedWakeup later clock (depth + 1) se =
      let se₁ := ({ se with held := Function.update se.held .global true }.unlock .global)
      if se₁.wakeUpProcess.2 then .ok ({ se₁.wakeUpProcess.1 with task := .null }, 1)
      else
        let se₂ := { se₁.wakeUpProcess.1 with proc := { se₁.wakeUpProcess.1.proc with state := later } }
        if se₂.wakeUpProcess.2 then .ok ({ se₂.wakeUpProcess.1 with task := .null }, 1)
        else .ok (se₂.wakeUpProcess.1, -22) := by
    unfold gdevSchedWakeup
    rw [lock_free (hf .global)]
    dsimp only [bind, Except.bind]
    rw [ht]
    exact if_neg hp
  have hheld : ({ se with held := Function.update se.held .global true }.unlock .global) = se := by
    unfold unlock
    dsimp only
    rw [Function.update_idem, Function.update_eq_self_iff.2 (hf .global).symm]
  rw [hcall, hheld]
  dsimp only
  by_cases hs : se.proc.state = .interruptible
  · have hw : se.wakeUpProcess = ({ se with proc := { se.proc with state := .running } }, true) :=
      if_pos (Or.inl hs)
    rw [hw, if_pos rfl]
    exact ⟨_, _, rfl, hf, fun _ => ⟨rfl, rfl⟩⟩
  · have hfree : ∀ se₁ : WaitEntity, se₁.wakeUpProcess.1.held = se₁.held := by
      intro se₁
      unfold wakeUpProcess
      split <;> rfl
    have hfree' : ∀ l, se.wakeUpProcess.1.held l = false := by
      intro l
      rw [hfree]
      exact hf l
    split
    · exact ⟨_, _, rfl, hfree', fun h => absurd h hs⟩
    · split
      · refine ⟨_, _, rfl, fun l => ?_, fun h => absurd h hs⟩
        dsimp only
        rw [hfree]
        exact hfree' l
      · refine ⟨_, _, rfl, fun l => ?_, fun h => absurd h hs⟩
        rw [hfree]
        exact hfree' l

/-- **A wake-up is right** iff the entity has no process, or one that is not under
`SCHED_DEADLINE`. -/
theorem wakes_iff (se : WaitEntity) :
    se.Wakes ↔ se.task = .null ∨ se.task = .process ∧ se.proc.policy ≠ .deadline := by
  constructor
  · intro h
    obtain ⟨depth, se', ret, hok, hfree, -⟩ := h .running 0
    cases ht : se.task with
    | null => exact Or.inl rfl
    | dead =>
      obtain ⟨e, he⟩ := gdevSchedWakeup_dead se.unlocked .running 0 depth ht
      rw [he] at hok
      cases hok
    | process =>
      refine Or.inr ⟨rfl, fun hp => ?_⟩
      have hheld := gdevSchedWakeup_deadline se.unlocked ht hp rfl hok
      rw [hfree] at hheld
      cases hheld
  · rintro (ht | ⟨ht, hp⟩) later clock
    · refine ⟨1, _, _, gdevSchedWakeup_null se.unlocked ht rfl, fun l => ?_, fun h => ?_⟩
      · unfold unlocked
        dsimp only
        rw [Function.update_eq_self_iff.2 rfl]
      · rw [ht] at h
        cases h
    · obtain ⟨se', ret, hok, hfree, hwoken⟩ := gdevSchedWakeup_process se.unlocked later clock 0
        ht hp fun _ => rfl
      exact ⟨1, se', ret, hok, hfree, fun _ => hwoken⟩

/-- A process under `SCHED_DEADLINE`, asleep in `gdev_sched_sleep`. -/
def deadlineSleeper (waitCond : ℕ) : WaitEntity where
  task := .process
  waitCond := waitCond
  waitTime := 0
  proc := ⟨.interruptible, .deadline, 0⟩
  held := fun _ => false

/-- The call returns with the lock and wakes nobody; marked as asleep, the process makes it stop at
the lock. -/
theorem wakes_not :
    (∃ se, gdevSchedWakeup .running 0 2 (deadlineSleeper 0) = .ok (se, 1) ∧
      se.held .global = true ∧ se.proc.state = .interruptible) ∧
    gdevSchedWakeup .running 0 2 (deadlineSleeper 0xCAFE) = .error (.deadlock .global) ∧
    ¬ ∀ se : WaitEntity, se.task ≠ .dead → se.Wakes := by
  refine ⟨⟨_, rfl, rfl, rfl⟩, rfl, fun h => ?_⟩
  obtain ⟨depth, se', ret, hok, hfree, -⟩ := h (deadlineSleeper 0) (by decide) .running 0
  have hheld := gdevSchedWakeup_deadline (deadlineSleeper 0).unlocked rfl rfl rfl hok
  rw [hfree] at hheld
  cases hheld

end WaitEntity

end Resch
