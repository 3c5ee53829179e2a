import Resch.Spec.GpuWake

/-!
# The sleep and wake-up handshake

What can go wrong is named by `HandshakeOp.Safe`: a marker left in this pass is overwritten
when the band scheduler stores the task, a wake-up of this pass makes its second
`wake_up_process` before the context has set its state, a wake-up finds the marker, or the
field is cleared while the handshake rests on it.

* `handshakeStep_inv`: every other step keeps `HandshakeInv`.
* `handshake_ok`: in a run of such steps no wake-up is lost and the marker is not used.
-/

namespace Resch

open Lib

variable {s s' : Handshake}

/-- The context is past its sleep, or will not stop in `schedule()`. -/
def Handshake.Up (s : Handshake) : Prop :=
  s.point = .outside ∨ ((s.point = .schedule ∨ s.point = .blocked) ∧ s.interruptible = false)

/-- A wake-up of this pass has left the marker, and the context has yet to look for it. -/
def Handshake.Marked (s : Handshake) : Prop :=
  (s.point = .store ∨ s.point = .sleep) ∧ s.task = .dead s.pass

def TaskField.isDead : TaskField → Bool
  | dead _ => true
  | null | task _ => false

/-- The context has not come to set its state in this pass. -/
def Handshake.Early (s : Handshake) : Prop :=
  s.point = .store ∨ s.point = .sleep ∨ s.point = .setState

/-- The next step of a waker is none of those that can break the handshake. -/
def WakePoint.Safe (s : Handshake) : WakePoint → Prop
  | lock _ => s.task.isDead = false
  | retry p => p = s.pass → ¬ s.Early
  | clear _ => ¬ s.Marked ∧ s.point ≠ .setState ∧ s.interruptible = false
  | idle | wake _ | fault => True

/-- None of the four steps that can break the handshake. -/
def HandshakeOp.Safe (s : Handshake) : HandshakeOp → Prop
  | enqueue _ | issue _ => True
  | context => s.point = .store → s.task ≠ .dead s.pass
  | waker i => (s.waker i).Safe s

instance : Decidable s.Marked := inferInstanceAs (Decidable ((_ ∨ _) ∧ _))
instance : Decidable s.Early := inferInstanceAs (Decidable (_ ∨ _ ∨ _))

instance : (w : WakePoint) → Decidable (w.Safe s)
  | .lock _ => inferInstanceAs (Decidable (_ = _))
  | .retry _ => inferInstanceAs (Decidable (_ → _))
  | .clear _ => inferInstanceAs (Decidable (_ ∧ _ ∧ _))
  | .idle | .wake _ | .fault => inferInstanceAs (Decidable True)

instance : (op : HandshakeOp) → Decidable (op.Safe s)
  | .enqueue _ | .issue _ => inferInstanceAs (Decidable True)
  | .context => inferInstanceAs (Decidable (_ → _))
  | .waker i => inferInstanceAs (Decidable ((s.waker i).Safe s))

/-- A wake-up was issued in this pass or before, and one that is about to clear the field
has woken the context. -/
def WakePoint.Ok (s : Handshake) : WakePoint → Prop
  | idle | fault => True
  | lock p | wake p | retry p => p ≤ s.pass
  | clear p => p ≤ s.pass ∧ (p = s.pass → s.Up)

structure HandshakeInv (s : Handshake) : Prop where
  asleep : s.interruptible = true → s.point = .schedule ∨ s.point = .blocked
  stored : s.point = .setState ∨ s.interruptible = true → s.task = .task s.pass
  wakers : ∀ i, (s.waker i).Ok s
  returned : s.returned = true → s.Marked ∨ s.Up
  usedDead : s.usedDead = false

theorem Handshake.Up.awake (hi : HandshakeInv s) (hu : s.Up) : s.interruptible = false := by
  rcases hu with ho | ⟨-, ha⟩
  · by_contra ha
    rcases hi.asleep (by simpa using ha) with h | h <;> rw [ho] at h <;> cases h
  · exact ha

/-- A context that is awake and has set its state is up. -/
theorem Handshake.up_of_awake (ha : s.interruptible = false) (he : ¬ s.Early) : s.Up := by
  unfold Handshake.Early at he
  unfold Handshake.Up
  cases hp : s.point with
  | outside => exact Or.inl rfl
  | store | sleep | setState => simp [hp] at he
  | schedule => exact Or.inr ⟨Or.inl rfl, ha⟩
  | blocked => exact Or.inr ⟨Or.inr rfl, ha⟩

theorem HandshakeInv.ok (hi : HandshakeInv s) : HandshakeOk s := by
  refine ⟨fun hb ha => ?_, hi.usedDead⟩
  by_contra hr
  rcases hi.returned (by simpa using hr) with ⟨hm, -⟩ | hu
  · rcases hm with hm | hm <;> rw [hb] at hm <;> cases hm
  · rw [hu.awake hi] at ha
    cases ha

/-- A waker keeps its part when the pass is the same and the context does not fall asleep. -/
theorem WakePoint.Ok.mono {w : WakePoint} (h : w.Ok s) (hp : s'.pass = s.pass)
    (hu : s.Up → s'.Up) : w.Ok s' := by
  cases w with
  | idle | fault => trivial
  | lock p | wake p | retry p => exact le_of_le_of_eq h hp.symm
  | clear p =>
    obtain ⟨hle, hw⟩ := h
    exact ⟨le_of_le_of_eq hle hp.symm, fun e => hu (hw (e.trans hp))⟩

/-- What the other wakers keep when waker `i` goes on to `w`. -/
theorem wakers_update {i : ℕ} {w : WakePoint} (h : ∀ j, (s.waker j).Ok s)
    (hs : s'.waker = Function.update s.waker i w) (hp : s'.pass = s.pass) (hu : s.Up → s'.Up)
    (hw : w.Ok s') : ∀ j, (s'.waker j).Ok s' := by
  intro j
  rw [hs]
  by_cases hj : j = i
  · rw [hj, Function.update_self]
    exact hw
  · rw [Function.update_of_ne hj]
    exact (h j).mono hp hu

/-! ## The context -/

theorem enqueue_inv {band : Bool} (hi : HandshakeInv s) (hs : s.enqueue band = some s') :
    HandshakeInv s' := by
  unfold Handshake.enqueue at hs
  split at hs
  · rename_i ho
    rw [Option.some.injEq] at hs
    have ha : s.interruptible = false := Handshake.Up.awake hi (Or.inl ho)
    have hpoint : s'.point = .store ∨ s'.point = .sleep := by
      subst hs
      cases band with
      | true => exact Or.inl rfl
      | false => exact Or.inr rfl
    have ha' : s'.interruptible = false := by rw [← hs]; exact ha
    refine ⟨fun h => ?_, fun h => ?_, fun i => ?_, fun h => ?_, ?_⟩
    · rw [ha'] at h
      cases h
    · rw [ha'] at h
      rcases hpoint with hp | hp <;> simp [hp] at h
    · -- a wake-up of an earlier pass does not count in the new one
      have hw : (s.waker i).Ok s := hi.wakers i
      have hwaker : s'.waker i = s.waker i := by rw [← hs]
      have hpass : s'.pass = s.pass + 1 := by rw [← hs]
      rw [hwaker]
      cases hc : s.waker i with
      | idle | fault => trivial
      | lock p | wake p | retry p =>
        rw [hc] at hw
        have hw : p ≤ s.pass := hw
        show p ≤ s'.pass
        omega
      | clear p =>
        rw [hc] at hw
        have hle : p ≤ s.pass := hw.1
        exact ⟨by omega, fun e => by omega⟩
    · rw [← hs] at h
      cases h
    · rw [← hs]
      exact hi.usedDead
  · cases hs

theorem context_inv (hi : HandshakeInv s) (hsafe : s.point = .store → s.task ≠ .dead s.pass)
    (hs : s.context = some s') : HandshakeInv s' := by
  have hawake : s.Early → s.interruptible = false := by
    intro he
    by_contra ha
    rcases hi.asleep (by simpa using ha) with h | h <;> simp [Handshake.Early, h] at he
  unfold Handshake.context at hs
  cases hp : s.point with
  | outside => simp [hp] at hs
  | store =>
    simp only [hp, Option.some.injEq] at hs
    have ha := hawake (Or.inl hp)
    have hnu : ¬ s.Up := by simp [Handshake.Up, hp]
    subst hs
    refine ⟨fun h => ?_, fun h => ?_, fun i => (hi.wakers i).mono rfl fun h => absurd h hnu,
      fun h => ?_, hi.usedDead⟩
    · rw [ha] at h; cases h
    · simp [ha] at h
    · rcases hi.returned h with ⟨-, hm⟩ | hu
      · exact absurd hm (hsafe hp)
      · exact absurd hu hnu
  | sleep =>
    have ha := hawake (Or.inr (Or.inl hp))
    have hnu : ¬ s.Up := by simp [Handshake.Up, hp]
    -- the marker ends the sleep, and only a marker answers a wake-up that has returned
    cases ht : s.task with
    | dead p =>
      simp only [hp, ht, Option.some.injEq] at hs
      subst hs
      refine ⟨fun h => ?_, fun h => ?_, fun i => (hi.wakers i).mono rfl fun _ => Or.inl rfl,
        fun _ => Or.inr (Or.inl rfl), hi.usedDead⟩
      · rw [ha] at h; cases h
      · simp [ha] at h
    | null | task p =>
      simp only [hp, ht, Option.some.injEq] at hs
      subst hs
      refine ⟨fun h => ?_, fun _ => rfl, fun i => (hi.wakers i).mono rfl fun h => absurd h hnu,
        fun h => ?_, hi.usedDead⟩
      · rw [ha] at h; cases h
      · rcases hi.returned h with ⟨-, hm⟩ | hu
        · rw [ht] at hm; cases hm
        · exact absurd hu hnu
  | setState =>
    simp only [hp, Option.some.injEq] at hs
    have hnu : ¬ s.Up := by simp [Handshake.Up, hp]
    have hnm : ¬ s.Marked := by simp [Handshake.Marked, hp]
    subst hs
    refine ⟨fun _ => Or.inl rfl, fun _ => hi.stored (Or.inl hp),
      fun i => (hi.wakers i).mono rfl fun h => absurd h hnu, fun h => ?_, hi.usedDead⟩
    rcases hi.returned h with hm | hu
    · exact absurd hm hnm
    · exact absurd hu hnu
  | schedule =>
    simp only [hp, Option.some.injEq] at hs
    have hnm : ¬ s.Marked := by simp [Handshake.Marked, hp]
    by_cases ha : s.interruptible = true
    · rw [if_pos ha] at hs
      have hnu : ¬ s.Up := by simp [Handshake.Up, hp, ha]
      subst hs
      refine ⟨fun _ => Or.inr rfl, fun _ => hi.stored (Or.inr ha),
        fun i => (hi.wakers i).mono rfl fun h => absurd h hnu, fun h => ?_, hi.usedDead⟩
      rcases hi.returned h with hm | hu
      · exact absurd hm hnm
      · exact absurd hu hnu
    · rw [if_neg ha] at hs
      subst hs
      refine ⟨fun h => absurd h ha, fun h => ?_,
        fun i => (hi.wakers i).mono rfl fun _ => Or.inl rfl, fun _ => Or.inr (Or.inl rfl),
        hi.usedDead⟩
      rcases h with h | h
      · cases h
      · exact absurd h ha
  | blocked =>
    simp only [hp] at hs
    split at hs
    · cases hs
    · rename_i ha
      rw [Option.some.injEq] at hs
      subst hs
      refine ⟨fun h => absurd h ha, fun h => ?_,
        fun i => (hi.wakers i).mono rfl fun _ => Or.inl rfl, fun _ => Or.inr (Or.inl rfl),
        hi.usedDead⟩
      rcases h with h | h
      · cases h
      · exact absurd h ha

/-! ## The wakers -/

theorem issue_inv {i : ℕ} (hi : HandshakeInv s) (hs : s.issue i = some s') : HandshakeInv s' := by
  unfold Handshake.issue at hs
  split at hs
  · rw [Option.some.injEq] at hs
    subst hs
    exact ⟨hi.asleep, hi.stored, wakers_update hi.wakers rfl rfl id (Nat.le_refl _), hi.returned,
      hi.usedDead⟩
  · cases hs

/-- A wake-up of this pass that returns must leave the marker or a context that is up. -/
theorem returns_inv {i p : ℕ} (hi : HandshakeInv s) (hu : p = s.pass → s.Marked ∨ s.Up) :
    HandshakeInv (s.wakeupReturns i p) := by
  refine ⟨hi.asleep, hi.stored, wakers_update hi.wakers rfl rfl id trivial, fun h => ?_, hi.usedDead⟩
  have h : (s.returned || p == s.pass) = true := h
  rw [Bool.or_eq_true, beq_iff_eq] at h
  rcases h with h | h
  · exact hi.returned h
  · exact hu h

theorem wakeUpProcess_inv {i p : ℕ} {failed : Handshake} (hi : HandshakeInv s) (hp : p ≤ s.pass)
    (hf : s.interruptible = false → HandshakeInv failed) :
    HandshakeInv (s.wakeUpProcess i p failed) := by
  unfold Handshake.wakeUpProcess
  split
  · -- the context is woken, whatever pass the wake-up is of
    rename_i ha
    have hpoint := hi.asleep ha
    have hup : ({ s.setWaker i (.clear p) with interruptible := false } : Handshake).Up :=
      Or.inr ⟨hpoint, rfl⟩
    refine ⟨fun h => ?_, fun h => ?_, ?_, fun _ => Or.inr hup, hi.usedDead⟩
    · cases h
    · exact hi.stored (Or.inr ha)
    · exact wakers_update hi.wakers rfl rfl (fun _ => hup) ⟨hp, fun _ => hup⟩
  · rename_i ha
    exact hf (by simpa using ha)

theorem waker_inv {i : ℕ} (hi : HandshakeInv s) (hsafe : (HandshakeOp.waker i).Safe s)
    (hs : s.gdevSchedWakeup i = some s') : HandshakeInv s' := by
  have hw : (s.waker i).Ok s := hi.wakers i
  unfold Handshake.gdevSchedWakeup at hs
  have hsafe : (s.waker i).Safe s := hsafe
  cases hc : s.waker i with
  | idle | fault => simp [hc] at hs
  | lock p =>
    rw [hc] at hw hsafe
    have hw : p ≤ s.pass := hw
    have hsafe : s.task.isDead = false := hsafe
    simp only [hc] at hs
    cases ht : s.task with
    | null =>
      simp only [ht, Option.some.injEq] at hs
      subst hs
      -- no task was stored, so no caller can have set its state yet
      have hnset : ¬ (s.point = .setState ∨ s.interruptible = true) := by
        intro h
        have := hi.stored h
        rw [ht] at this
        cases this
      have hup : s.Up → Handshake.Up { s with task := .dead p } := id
      refine returns_inv (s := { s with task := .dead p }) ?_ ?_
      · refine ⟨hi.asleep, fun h => absurd h hnset, fun j => (hi.wakers j).mono rfl hup,
          fun h => ?_, hi.usedDead⟩
        rcases hi.returned h with ⟨-, hm⟩ | hu
        · rw [ht] at hm; cases hm
        · exact Or.inr hu
      · intro hp
        by_cases he : s.Early
        · refine Or.inl ⟨?_, by rw [hp]⟩
          rcases he with h | h | h
          · exact Or.inl h
          · exact Or.inr h
          · exact absurd (Or.inl h) hnset
        · exact Or.inr (Handshake.up_of_awake (by simpa using fun h => hnset (Or.inr h)) he)
    -- the dead task that `Safe` keeps out
    | dead q => simp [ht, TaskField.isDead] at hsafe
    | task q =>
      simp only [ht, Option.some.injEq] at hs
      subst hs
      exact ⟨hi.asleep, hi.stored, wakers_update hi.wakers rfl rfl id hw, hi.returned, hi.usedDead⟩
  | wake p =>
    rw [hc] at hw
    simp only [hc, Option.some.injEq] at hs
    subst hs
    refine wakeUpProcess_inv hi hw fun _ => ?_
    exact ⟨hi.asleep, hi.stored, wakers_update hi.wakers rfl rfl id hw, hi.returned, hi.usedDead⟩
  | retry p =>
    rw [hc] at hw hsafe
    simp only [hc, Option.some.injEq] at hs
    subst hs
    refine wakeUpProcess_inv hi hw fun ha => ?_
    exact returns_inv hi fun hp => Or.inr (Handshake.up_of_awake ha (hsafe hp))
  | clear p =>
    rw [hc] at hw hsafe
    simp only [hc, Option.some.injEq] at hs
    obtain ⟨hnm, hnset, ha⟩ := hsafe
    subst hs
    have hup : s.Up → Handshake.Up { s with task := .null } := id
    refine returns_inv (s := { s with task := .null }) ?_ fun hp => Or.inr (hup (hw.2 hp))
    -- taking the task out cannot lose a caller: none has stored one, or it is awake
    refine ⟨hi.asleep, fun h => ?_, fun j => (hi.wakers j).mono rfl hup, fun h => ?_, hi.usedDead⟩
    · rcases h with h | h
      · exact absurd h hnset
      · have h : s.interruptible = true := h
        rw [ha] at h; cases h
    · rcases hi.returned h with hm | hu
      · exact absurd hm hnm
      · exact Or.inr hu

/-! ## Runs -/

theorem handshakeStep_inv (op : HandshakeOp) (hi : HandshakeInv s) (hsafe : op.Safe s)
    (hs : handshakeStep s op = some s') : HandshakeInv s' := by
  cases op with
  | enqueue band => exact enqueue_inv hi hs
  | context => exact context_inv hi hsafe hs
  | issue i => exact issue_inv hi hs
  | waker i => exact waker_inv hi hsafe hs

theorem Handshake.init_inv : HandshakeInv Handshake.init := by
  refine ⟨fun h => ?_, fun h => ?_, fun _ => trivial, fun h => ?_, rfl⟩
  · cases h
  · rcases h with h | h <;> cases h
  · cases h

/-- **The handshake in runs.** However the context and the wakers interleave, if none of the
steps is one of the four that `Safe` excludes, a wake-up that has returned never leaves the
context of its pass asleep, and the marker is never used as a task. -/
theorem handshake_ok (ops : List HandshakeOp)
    (he : Each handshakeStep (fun s op => op.Safe s) .init ops) :
    Always handshakeStep HandshakeOk .init ops := by
  have hall := Always.of_each (fun s op s' hi hsafe hs => handshakeStep_inv op hi hsafe hs) ops _
    Handshake.init_inv he
  exact hall.mono (fun _ hi => hi.ok) ops _

/-- The context has gone to sleep before the wake-up is issued. -/
def sleepThenWake : List HandshakeOp :=
  [.enqueue true, .context, .context, .context, .context, .issue 0, .waker 0, .waker 0, .context,
    .waker 0]

theorem handshake_ok_sleepThenWake : Always handshakeStep HandshakeOk .init sleepThenWake :=
  handshake_ok sleepThenWake
    (Each.of_check (fun _ _ => of_decide_eq_true) (by decide +kernel))

/-- The wake-up comes between the insertion and `se->task = current`, which overwrites its
marker. All of it has returned when the context is asleep. -/
def overwrittenMarker : List HandshakeOp :=
  [.enqueue true, .issue 0, .waker 0, .context, .context, .context, .context]

/-- The second wake-up finds the marker of the first. -/
def secondWakeup : List HandshakeOp :=
  [.enqueue false, .issue 0, .waker 0, .issue 0, .waker 0]

theorem handshake_not_ok :
    (¬ ∀ ops, Always handshakeStep
      (fun s => s.point = .blocked → s.interruptible = true → s.returned = false) .init ops) ∧
    ¬ ∀ ops, Always handshakeStep (fun s => s.usedDead = false) .init ops := by
  constructor
  · intro hall
    obtain ⟨s, hok, ht⟩ := (hall overwrittenMarker).final_test
      (fun s => decide (s.point = .blocked ∧ s.interruptible = true ∧ s.returned = true))
      (by decide +kernel)
    obtain ⟨hb, ha, hr⟩ := of_decide_eq_true ht
    rw [hok hb ha] at hr
    cases hr
  · intro hall
    obtain ⟨s, hok, ht⟩ := (hall secondWakeup).final_test (fun s => s.usedDead) (by decide +kernel)
    rw [hok] at ht
    cases ht

end Resch
