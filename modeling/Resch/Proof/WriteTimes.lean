import Resch.Spec.WriteTimes
import Resch.Proof.AcctView

/-!
# Times are converted once

`write()` passes jiffies on. `api_set_period` stores them as they are, while `api_run` and
`reserve_start` take them for milliseconds.

* `Converted`: the three calls store the same number of jiffies for a timespec.
* `msecsToJiffies_eq_self`: when the jiffies of `j` milliseconds are `j`.
* `converted_iff`: they do iff the timespec is of no jiffy, or the ticks are no more than those of a
  millisecond and the timespec is too short for a difference to show.
-/

namespace Resch

variable {c : Config} {hz : ℕ} {s : State} {rt : ℕ}

/-- The three calls store the jiffies of the microseconds of the timespec. -/
structure Converted (c : Config) (hz : ℕ) (s : State) (rt : ℕ) (ts : Timespec) : Prop where
  run : ((writeTime c hz s rt ts .run).task rt).releaseTime =
    s.jiffies + usecsToJiffies hz (timespecToUsecs ts)
  reserve : ∀ xcpu, s.hasReserve rt = false →
    ((writeTime c hz s rt ts (.reserveStart xcpu)).task rt).reserveTime =
      usecsToJiffies hz (timespecToUsecs ts)
  period : ((writeTime c hz s rt ts .setPeriod).task rt).period =
    usecsToJiffies hz (timespecToUsecs ts)

/-! ## What the calls store -/

theorem releaseTime_jobReleaseWait (s : State) (rt t : ℕ) :
    ((jobReleaseWait s rt t).task rt).releaseTime = t := by
  have h : ((s.setTask rt fun q => { q with releaseTime := t }).task rt).releaseTime = t := by
    rw [task_setTask_self]
  unfold jobReleaseWait
  dsimp only
  split
  · exact h
  · split
    · exact h
    · exact h
  · split
    · exact h
    · exact h
  · exact h

theorem jiffies_globalListInsert : (globalListInsert s rt).jiffies = s.jiffies := by
  unfold globalListInsert
  split <;> rfl

theorem jiffies_globalListRemove : (globalListRemove s rt).jiffies = s.jiffies := by
  unfold globalListRemove
  split <;> rfl

theorem releaseTime_apiRunHz (timeout : ℕ) :
    ((apiRunHz hz s rt timeout).task rt).releaseTime = s.jiffies + msecsToJiffies hz timeout := by
  unfold apiRunHz
  dsimp only
  rw [releaseTime_jobReleaseWait]
  -- neither list operation moves the clock
  split
  · rw [jiffies_globalListRemove, jiffies_globalListInsert]
  · rw [jiffies_globalListInsert]

theorem reserveTime_startAccount :
    ((startAccount c s rt).task rt).reserveTime = (s.task rt).reserveTime := by
  unfold startAccount
  split
  · rfl
  · dsimp only
    rw [task_setTask_self]
    have h := congrFun (@acct_classStartAccount c
      (s.setTask rt fun t => { t with budget := budgetLeft c s rt }) rt) rt
    refine (congrArg AcctView.reserveTime h).trans ?_
    show ((s.setTask rt fun t => { t with budget := budgetLeft c s rt }).task rt).reserveTime = _
    rw [task_setTask_self]

theorem reserveTime_reserveStartHz (cputime : ℕ) (xcpu : Bool) :
    ((reserveStartHz c hz s rt cputime xcpu).task rt).reserveTime = msecsToJiffies hz cputime := by
  unfold reserveStartHz
  rw [reserveTime_startAccount, task_setTask_self]

/-! ## Converting once more -/

/-- **`j` milliseconds are `j` jiffies** iff `j` is zero, or the tick is no shorter than a
millisecond and `j` of the differences are not a second. -/
theorem msecsToJiffies_eq_self (hz j : ℕ) :
    msecsToJiffies hz j = j ↔ j = 0 ∨ hz ≤ 1000 ∧ j * (1000 - hz) < 1000 := by
  unfold msecsToJiffies
  rcases Nat.eq_zero_or_pos j with rfl | hj
  · simp
  have h : (j * hz + 999) / 1000 = j ↔ j * hz ≤ j * 1000 ∧ j * 1000 < j * hz + 1000 := by omega
  rw [h, Nat.mul_le_mul_left_iff hj]
  constructor
  · rintro ⟨hle, hlt⟩
    have := Nat.mul_le_mul_left j hle
    refine Or.inr ⟨hle, ?_⟩
    rw [Nat.mul_sub]
    omega
  · rintro (h0 | ⟨hle, hlt⟩)
    · omega
    · have := Nat.mul_le_mul_left j hle
      rw [Nat.mul_sub] at hlt
      exact ⟨hle, by omega⟩

/-! ## The conversions of the other modules -/

theorem ceil_le_iff (x n : ℕ) {m : ℕ} (hm : 0 < m) : (x + m - 1) / m ≤ n ↔ x ≤ m * n := by
  rw [Nat.div_le_iff_le_mul_add_pred hm]
  omega

/-- With ticks of a whole number of microseconds, `usecs_to_jiffies` is that of the build. -/
theorem usecsToJiffies_eq (h : c.usecPerTick * hz = 1000000) (us : ℕ) :
    usecsToJiffies hz us = c.jiffies us := by
  unfold usecsToJiffies Config.jiffies Config.usecsToJiffies
  have hz₀ : 0 < hz := by
    rcases Nat.eq_zero_or_pos hz with rfl | h0
    · omega
    · exact h0
  refine eq_of_forall_ge_iff fun n => ?_
  rw [ceil_le_iff _ _ c.tick_pos, show 999999 = 1000000 - 1 from rfl,
    ← Nat.add_sub_assoc (by decide), ceil_le_iff _ _ (by decide), ← h]
  rw [mul_right_comm, Nat.mul_le_mul_right_iff hz₀]

/-- With such ticks, `api_run` is that of `sched.c`'s module. -/
theorem msecsToJiffies_eq (h : c.usecPerTick * hz = 1000000) (ms : ℕ) :
    msecsToJiffies hz ms = c.msecsToJiffies ms := by
  unfold msecsToJiffies Config.msecsToJiffies Config.usecsToJiffies
  have hz₀ : 0 < hz := by
    rcases Nat.eq_zero_or_pos hz with rfl | h0
    · omega
    · exact h0
  refine eq_of_forall_ge_iff fun n => ?_
  rw [ceil_le_iff _ _ c.tick_pos, show 999 = 1000 - 1 from rfl,
    ← Nat.add_sub_assoc (by decide), ceil_le_iff _ _ (by decide)]
  have hn : 1000 * ms ≤ c.usecPerTick * n ↔ 1000 * ms * hz ≤ c.usecPerTick * n * hz :=
    (Nat.mul_le_mul_right_iff hz₀).symm
  rw [hn, mul_right_comm c.usecPerTick, h, mul_assoc]
  omega

theorem apiRunHz_eq (h : c.usecPerTick * hz = 1000000) (timeout : ℕ) :
    apiRunHz hz s rt timeout = apiRun c s rt timeout := by
  unfold apiRunHz apiRun
  rw [msecsToJiffies_eq h]

theorem apiReserveStartHz_eq (h : c.usecPerTick * hz = 1000000) (cputime : ℕ) (xcpu : Bool) :
    apiReserveStartHz c hz s rt cputime xcpu = apiReserveStart c s rt cputime xcpu := by
  unfold apiReserveStartHz apiReserveStart reserveStartHz reserveStart
  rw [msecsToJiffies_eq h]

/-! ## The three calls -/

/-- **Times are converted once** iff the timespec is of no jiffy, or the tick is no shorter than a
millisecond and the timespec is too short for the difference to be a jiffy. -/
theorem converted_iff (c : Config) (hz : ℕ) (s : State) (rt : ℕ) (ts : Timespec) :
    Converted c hz s rt ts ↔
      usecsToJiffies hz (timespecToUsecs ts) = 0 ∨
        hz ≤ 1000 ∧ usecsToJiffies hz (timespecToUsecs ts) * (1000 - hz) < 1000 := by
  rw [← msecsToJiffies_eq_self]
  have hrun : ((writeTime c hz s rt ts .run).task rt).releaseTime =
      s.jiffies + msecsToJiffies hz (usecsToJiffies hz (timespecToUsecs ts)) :=
    releaseTime_apiRunHz _
  constructor
  · intro h
    have := h.run
    omega
  · intro h
    refine ⟨by omega, ?_, ?_⟩
    · intro xcpu hr
      unfold writeTime apiReserveStartHz
      dsimp only
      rw [hr, if_neg Bool.false_ne_true, reserveTime_reserveStartHz, h]
    · unfold writeTime apiSetPeriod
      dsimp only
      rw [task_setTask_self]

/-- A second at 250 ticks a second, which comes to 63 jiffies. -/
theorem converted_not :
    ¬ Converted (.small false) 250
      (apiInit (.small false) .accepting (schedInit 0 fun _ => .fair) 0).1 0 ⟨1, 0⟩ := by
  intro h
  have := h.run
  revert this
  decide +kernel

end Resch
