import Mathlib.Data.BitVec
import Resch.Proof.Hooks
import Resch.Spec.Clock

/-!
# The clock and the decisions

* `decisions_shift_iff`: moving the clock and all times by `k` leaves every decision as it is iff
  `k` separates no two times that are compared.
* `ofState_deadlineMiss`, `ofState_edfEnqueueTask`, `ofState_reserveReplenish`,
  `ofState_apiReserveExpire`: while no time has wrapped around, the decisions on words are those
  of the model with natural numbers.
-/

namespace Resch

open Lib

namespace ClockState

variable {w : ℕ} {s : ClockState w} {k : BitVec w} {rt : ℕ} {queue : List ℕ}

/-- `k` separates no two times that are compared. A comparison counts only if the code comes to
it: the deadlines of the level are looked at up to the first one that is later. -/
structure Stable (s : ClockState w) (k : BitVec w) (rt : ℕ) (queue : List ℕ) : Prop where
  miss : 0 < (s.task rt).deadline → Together k (s.task rt).deadlineTime s.jiffies
  wait : Together k s.jiffies (s.task rt).releaseTime
  place : ∀ p ∈ looked (fun p => decide ((s.task rt).deadlineTime < (s.task p).deadlineTime)) queue,
    Together k (s.task rt).deadlineTime (s.task p).deadlineTime
  expire : (s.task rt).reserveTime ≠ 0 →
    Together k ((s.task rt).releaseTime + (s.task rt).period) s.jiffies
  replenish : (s.task rt).replenishTimer = true →
    Together k s.jiffies ((s.task rt).releaseTime + (s.task rt).period)

/-! ## One decision each -/

theorem deadlineMiss_shift : (s.shift k).deadlineMiss rt = s.deadlineMiss rt ↔
    (0 < (s.task rt).deadline → Together k (s.task rt).deadlineTime s.jiffies) := by
  unfold deadlineMiss
  rw [decide_eq_decide, ← add_lt_add_iff]
  exact and_congr_right_iff

theorem waitPeriod_shift {state : Option RunState} :
    (s.shift k).waitPeriod rt state = s.waitPeriod rt state ↔
      Together k s.jiffies (s.task rt).releaseTime := by
  have hint : (s.task rt).releaseTime + k - (s.jiffies + k) = (s.task rt).releaseTime - s.jiffies :=
    add_sub_add_right_eq_sub ..
  rw [← add_lt_add_iff]
  unfold waitPeriod shift
  dsimp only
  -- if the branch is the same, so is the interval
  rw [hint]
  by_cases h₁ : s.jiffies + k < (s.task rt).releaseTime + k <;>
    by_cases h₂ : s.jiffies < (s.task rt).releaseTime <;> simp [h₁, h₂]

theorem edfEnqueueTask_shift : (s.shift k).edfEnqueueTask rt queue = s.edfEnqueueTask rt queue ↔
    ∀ p ∈ looked (fun p => decide ((s.task rt).deadlineTime < (s.task p).deadlineTime)) queue,
      Together k (s.task rt).deadlineTime (s.task p).deadlineTime := by
  unfold edfEnqueueTask
  rw [findIdx_eq_findIdx_iff]
  refine forall₂_congr fun p _ => ?_
  rw [← add_lt_add_iff, decide_eq_true_iff, decide_eq_true_iff]
  exact Iff.rfl

/-- The next replenishment moves with the release time. -/
theorem next_shift : ((s.shift k).task rt).releaseTime + ((s.shift k).task rt).period =
    (s.task rt).releaseTime + (s.task rt).period + k :=
  add_right_comm ..

theorem apiReserveExpire_shift : (s.shift k).apiReserveExpire rt = s.apiReserveExpire rt ↔
    ((s.task rt).reserveTime ≠ 0 →
      Together k ((s.task rt).releaseTime + (s.task rt).period) s.jiffies) := by
  have hres : ((s.shift k).task rt).reserveTime = (s.task rt).reserveTime := rfl
  have hclock : (s.shift k).jiffies = s.jiffies + k := rfl
  unfold apiReserveExpire
  rw [next_shift, hres, hclock, ← add_le_add_iff]
  by_cases h : (s.task rt).reserveTime = 0
  · simp [h]
  · rw [if_neg h, if_neg h, imp_iff_right h]
    by_cases h₁ : (s.task rt).releaseTime + (s.task rt).period + k ≤ s.jiffies + k <;>
      by_cases h₂ : (s.task rt).releaseTime + (s.task rt).period ≤ s.jiffies <;> simp [h₁, h₂]

theorem reserveReplenish_shift : (s.shift k).reserveReplenish rt = s.reserveReplenish rt ↔
    ((s.task rt).replenishTimer = true →
      Together k s.jiffies ((s.task rt).releaseTime + (s.task rt).period)) := by
  have htimer : ((s.shift k).task rt).replenishTimer = (s.task rt).replenishTimer := rfl
  have hclock : (s.shift k).jiffies = s.jiffies + k := rfl
  unfold reserveReplenish
  rw [next_shift, htimer, hclock, ← add_lt_add_iff]
  cases (s.task rt).replenishTimer
  · simp
  · simp [decide_eq_decide]

/-- **The clock and the decisions.** Moving the clock and all times by `k` leaves what is decided
for a task as it is iff `k` separates no two times that are compared. -/
theorem decisions_shift_iff (w : ℕ) (s : ClockState w) (k : BitVec w) (rt : ℕ) (queue : List ℕ) :
    (s.shift k).decisions rt queue = s.decisions rt queue ↔ s.Stable k rt queue := by
  unfold decisions
  rw [Decisions.mk.injEq, deadlineMiss_shift, edfEnqueueTask_shift, apiReserveExpire_shift,
    reserveReplenish_shift]
  unfold fpWaitPeriod edfWaitPeriod
  rw [waitPeriod_shift, waitPeriod_shift]
  constructor
  · rintro ⟨hm, hw, -, hp, he, hr⟩
    exact ⟨hm, hw, hp, he, hr⟩
  · rintro ⟨hm, hw, hp, he, hr⟩
    exact ⟨hm, hw, hw, hp, he, hr⟩

/-! ## Before the clock wraps around -/

/-- No time of the state has wrapped around. -/
structure Fits (w : ℕ) (s : State) : Prop where
  jiffies : s.jiffies < 2 ^ w
  next : ∀ p, (s.task p).releaseTime + (s.task p).period < 2 ^ w
  deadlineTime : ∀ p, (s.task p).deadlineTime < 2 ^ w
  deadline : ∀ p, (s.task p).deadline < 2 ^ w
  reserveTime : ∀ p, (s.task p).reserveTime < 2 ^ w

theorem ofNat_lt_ofNat {a b : ℕ} (ha : a < 2 ^ w) (hb : b < 2 ^ w) :
    BitVec.ofNat w a < BitVec.ofNat w b ↔ a < b := by
  rw [BitVec.lt_def, BitVec.toNat_ofNat, BitVec.toNat_ofNat, Nat.mod_eq_of_lt ha,
    Nat.mod_eq_of_lt hb]

section

variable {s : State} {rt : ℕ}

theorem ofState_deadlineMiss (h : Fits w s) (rt : ℕ) :
    (ofState w s).deadlineMiss rt = (Resch.deadlineMiss s rt).2 := by
  unfold deadlineMiss Resch.deadlineMiss
  rw [decide_eq_decide]
  refine and_congr ?_ (ofNat_lt_ofNat (h.deadlineTime rt) h.jiffies)
  exact ofNat_lt_ofNat (a := 0) (Nat.two_pow_pos w) (h.deadline rt)

theorem ofState_edfEnqueueTask (h : Fits w s) (rt : ℕ) (queue : List ℕ) :
    deadlineInsert s rt queue = queue.insertIdx ((ofState w s).edfEnqueueTask rt queue) rt := by
  unfold deadlineInsert edfEnqueueTask
  rw [insertBefore_eq_insertIdx]
  refine congrArg (fun p => queue.insertIdx (queue.findIdx p) rt) (funext fun p => ?_)
  rw [decide_eq_decide]
  exact (ofNat_lt_ofNat (h.deadlineTime rt) (h.deadlineTime p)).symm

theorem ofState_next : ((ofState w s).task rt).releaseTime + ((ofState w s).task rt).period =
    BitVec.ofNat w ((s.task rt).releaseTime + (s.task rt).period) :=
  (BitVec.ofNat_add ..).symm

theorem ofState_reserveReplenish (h : Fits w s) (c : Config) (kn : Kernel) (rt : ℕ) :
    Resch.reserveReplenish c kn s rt =
      (if (ofState w s).reserveReplenish rt = true then
        classReserveReplenish c kn s rt (s.task rt).reserveTime else s).setTask rt
          fun t => { t with replenishTimer := none } := by
  have hcond : (ofState w s).reserveReplenish rt = true ↔
      s.jiffies < (s.task rt).releaseTime + (s.task rt).period ∨
        (s.task rt).replenishTimer = none := by
    unfold reserveReplenish
    rw [Bool.or_eq_true, decide_eq_true_iff, ofState_next]
    refine or_congr (ofNat_lt_ofNat h.jiffies (h.next rt)) ?_
    rw [Bool.not_eq_true']
    exact Option.isSome_eq_false_iff.trans Option.isNone_iff_eq_none
  unfold Resch.reserveReplenish
  dsimp only
  rw [if_congr hcond rfl rfl]

theorem ofState_apiReserveExpire (h : Fits w s) (c : Config) (kn : Kernel) (rt : ℕ) :
    Resch.apiReserveExpire c kn s rt =
      let s₁ := if s.isAccounting rt then stopAccount c s rt else s
      match (ofState w s).apiReserveExpire rt with
      | .noReserve => (s, resFault)
      | .replenish => (startAccount c (classReserveReplenish c kn s₁ rt (s₁.task rt).reserveTime) rt,
          resSuccess)
      | .expire => ((classReserveExpire c kn s₁ rt).setTask rt fun t =>
          { t with replenishTimer := some ((s.task rt).releaseTime + (s.task rt).period) },
          resSuccess) := by
  have hres : ((ofState w s).task rt).reserveTime = 0 ↔ (s.task rt).reserveTime = 0 := by
    rw [← BitVec.toNat_inj]
    change (s.task rt).reserveTime % 2 ^ w = 0 % 2 ^ w ↔ _
    rw [Nat.mod_eq_of_lt (h.reserveTime rt), Nat.zero_mod]
  have hnext : ((ofState w s).task rt).releaseTime + ((ofState w s).task rt).period ≤
      (ofState w s).jiffies ↔ (s.task rt).releaseTime + (s.task rt).period ≤ s.jiffies := by
    rw [ofState_next, ← not_iff_not, BitVec.not_le, Nat.not_le]
    exact ofNat_lt_ofNat h.jiffies (h.next rt)
  obtain ⟨hn, hj⟩ := stopAccount_next c s rt
  unfold Resch.apiReserveExpire apiReserveExpire State.hasReserve
  dsimp only
  by_cases hz : (s.task rt).reserveTime = 0
  · rw [if_pos (hres.2 hz), hz]
    rfl
  · rw [if_neg (mt hres.1 hz), decide_eq_true (Nat.pos_of_ne_zero hz), hn, hj]
    by_cases hle : (s.task rt).releaseTime + (s.task rt).period ≤ s.jiffies
    · rw [if_pos (hnext.2 hle), if_pos hle]
      rfl
    · rw [if_neg (mt hnext.1 hle), if_neg hle]
      rfl

end

end ClockState

/-! ## Around the wrap -/

def ClockState.times {w : ℕ} (s : ClockState w) (p : ℕ) : List (BitVec w) :=
  [s.jiffies, (s.task p).releaseTime, (s.task p).deadlineTime]

/-- Task 0 waits in the level, and task 1 has a deadline one tick before it; the clock is at the
last tick before the wrap. -/
def lastTick : ClockState 32 where
  jiffies := 0xffffffff#32
  task p :=
    { releaseTime := 0xfffffffd#32
      deadlineTime := if p = 0 then 0xffffffff#32 else 0xfffffffe#32
      deadline := 1#32
      period := 1#32
      reserveTime := 1#32
      replenishTimer := true }

theorem mem_times_lastTick {p : ℕ} {x : BitVec 32} (hx : x ∈ lastTick.times p) :
    x = 0xffffffff#32 ∨ x = 0xfffffffe#32 ∨ x = 0xfffffffd#32 := by
  unfold ClockState.times lastTick at hx
  dsimp only at hx
  split at hx <;> simp only [List.mem_cons, List.not_mem_nil, or_false] at hx ⊢ <;> tauto

/-- One tick later, with all times one tick later, every decision is another one. -/
theorem decisions_shift_lastTick :
    (∀ p q, ∀ x ∈ lastTick.times p, ∀ y ∈ lastTick.times q, Near x y) ∧
      (lastTick.shift 1#32).decisions 1 [0] ≠ lastTick.decisions 1 [0] ∧
      lastTick.decisions 1 [0] = ⟨true, .schedule, .schedule, 0, .replenish, false⟩ ∧
      (lastTick.shift 1#32).decisions 1 [0] =
        ⟨false, .sleepInterval none 0xfffffffe#32,
          .sleepInterval (some .uninterruptible) 0xfffffffe#32, 1, .expire, true⟩ := by
  have hvalues : lastTick.decisions 1 [0] = ⟨true, .schedule, .schedule, 0, .replenish, false⟩ ∧
      (lastTick.shift 1#32).decisions 1 [0] =
        ⟨false, .sleepInterval none 0xfffffffe#32,
          .sleepInterval (some .uninterruptible) 0xfffffffe#32, 1, .expire, true⟩ := by
    unfold ClockState.decisions
    rw [ClockState.Decisions.mk.injEq, ClockState.Decisions.mk.injEq]
    decide +kernel
  refine ⟨fun p q x hx y hy => ?_, ?_, hvalues⟩
  · rcases mem_times_lastTick hx with rfl | rfl | rfl <;>
      rcases mem_times_lastTick hy with rfl | rfl | rfl <;> decide
  · rw [hvalues.1, hvalues.2]
    simp

end Resch
