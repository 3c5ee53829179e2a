import Resch.Lib.Runs
import Resch.Spec.ComBandwidth
import Resch.Proof.GpuTime

/-!
# The measured bandwidth

With `T` the compute time and `E` the time elapsed since the last reset, a round is to find the
share of `T` in `E`, and to reset both after an update interval.

* `RoundOk`: what a round is to do.
* `RoundCond`: the clock has moved, a new second has come only with the interval, and `100 * T` fits
  in 32 bits or is cut to a number with the same share (`comRounds_iff`).
* `Ok`: the invariant; the elapsed time is right although the difference of the readings does not
  borrow, since the conversion to microseconds wraps around once more.
-/

namespace Resch

open Lib

variable {m : TimeMem} {ret x y : ℕ} {a b : GdevTime} {s s' : ComState} {now again tick : Timeval}

/-- `tv` as `gdev_time_stamp` stores it -/
def Timeval.time (tv : Timeval) : GdevTime := ⟨tv.sec, tv.usec, false⟩

/-- **A round is right**: it divides, by the time elapsed, and resets after the interval. -/
def RoundOk (s : ComState) : ComOp → Prop
  | .complete _ _ => True
  | .round now again => ∃ s', s.round now again = .ok s' ∧
      s'.comBwUsed = min 100 (100 * s.total / (now.us - s.since.us)) ∧
      (s'.wasReset = true ↔ gdevUpdateInterval ≤ now.us - s.since.us)

/-- What a 32-bit product leaves of `n` has the same share in `e`, up to a hundred. -/
def SameShare (n e : ℕ) : Prop :=
  n < 2 ^ 32 ∨ 100 * e ≤ n % 2 ^ 32 ∨ n / 2 ^ 32 * 2 ^ 32 + n % 2 ^ 32 % e < e

/-- The clock has moved since the last reset, a new second has come only with the interval, and the
compute time is short enough. -/
def RoundCond (s : ComState) : ComOp → Prop
  | .complete _ _ => True
  | .round now _ => s.since.us < now.us ∧
      (s.since.sec < now.sec → gdevUpdateInterval ≤ now.us - s.since.us) ∧
      SameShare (100 * s.total) (now.us - s.since.us)

/-! ## Times -/

theorem gdevTimeStamp_eq (tv : Timeval) : gdevTimeStamp m ret tv = Function.update m ret tv.time := by
  funext q
  by_cases hq : q = ret
  · subst hq
    simp [gdevTimeStamp, TimeMem.setSec, TimeMem.setUsec, TimeMem.setNeg, Timeval.time]
  · simp [gdevTimeStamp, TimeMem.setSec, TimeMem.setUsec, TimeMem.setNeg, hq]

theorem gdevTimeUs_eq (us : ℕ) : gdevTimeUs m ret us = Function.update m ret ⟨0, us, false⟩ := by
  funext q
  by_cases hq : q = ret
  · subst hq
    simp [gdevTimeUs, TimeMem.setSec, TimeMem.setUsec, TimeMem.setNeg]
  · simp [gdevTimeUs, TimeMem.setSec, TimeMem.setUsec, TimeMem.setNeg, hq]

/-- Two readings are subtracted field by field. -/
theorem gdevTimeSub_readings {tv tv' : Timeval} (hx : m x = tv.time) (hy : m y = tv'.time)
    (hrx : ret ≠ x) (hry : ret ≠ y) :
    gdevTimeSub m ret x y = Function.update m ret (subPos tv.time tv'.time) := by
  obtain ⟨m₁, hm₁, hne, h₁x, h₁y, -⟩ := cleared (y := y) m fun h => absurd h hry
  have hnx : (m₁ x).neg = false := by rw [h₁x, hx]; rfl
  have hny : (m₁ y).neg = false := by rw [h₁y, hy]; rfl
  unfold gdevTimeSub
  rw [hm₁]
  dsimp only
  simp only [hnx, hny, Bool.false_eq_true, and_false, and_true, and_self, if_false]
  rw [gdevTimeSubPos_eq (by rw [h₁x, hx]; exact tv.usec_lt) (by rw [h₁y, hy]; exact tv'.usec_lt)
    hnx hny, h₁x, h₁y, hx, hy]
  funext q
  by_cases hq : q = ret
  · subst hq
    rw [Function.update_self, Function.update_self]
  · rw [Function.update_of_ne hq, Function.update_of_ne hq, hne q hq]

/-- The difference has a second too many where it did not borrow, and the conversion to microseconds
takes it off again. -/
theorem toUs_subPos {tv tv' : Timeval} (h : tv'.us ≤ tv.us)
    (hm : m ret = subPos tv.time tv'.time) : gdevTimeToUs m ret = tv.us - tv'.us := by
  have hs := tv.sec_lt
  have hu := tv.usec_lt
  have hu' := tv'.usec_lt
  have hlt : ¬ (tv.time.mag < tv'.time.mag) := Nat.not_lt.2 h
  unfold gdevTimeToUs
  rw [hm]
  unfold subPos
  rw [if_neg hlt]
  unfold Timeval.time u64Add u64Sub usec1Sec Timeval.us at *
  dsimp only
  omega

/-- The elapsed time is at least the interval for the code iff the seconds differ. -/
theorem ge_interval {tv tv' : Timeval} (h : tv'.us ≤ tv.us) (hm : m x = subPos tv.time tv'.time)
    (hi : m y = ⟨0, gdevUpdateInterval, false⟩) :
    gdevTimeGe m x y = true ↔ tv'.sec < tv.sec := by
  have hs := tv.sec_lt
  have hu := tv.usec_lt
  have hu' := tv'.usec_lt
  have hlt : ¬ (tv.time.mag < tv'.time.mag) := Nat.not_lt.2 h
  unfold gdevTimeGe gdevTimeEq gdevTimeGt
  rw [hm, hi]
  unfold subPos
  rw [if_neg hlt]
  unfold Timeval.time u64Sub usec1Sec gdevUpdateInterval Timeval.us at *
  dsimp only
  -- within a second the difference is less than the interval
  simp only [Bool.false_eq_true, and_false, false_and, and_self, if_false]
  split
  · rename_i heq
    rw [Bool.and_eq_true, decide_eq_true_iff, decide_eq_true_iff] at heq
    omega
  · split <;> rw [decide_eq_true_iff] <;> omega

/-! ## Shares -/

/-- A number cut to 32 bits has the same share exactly when it is short, or both shares are full, or
there is no multiple of the divisor between the two. -/
theorem sameShare_iff {n e : ℕ} (he : 0 < e) :
    min 100 (n % 2 ^ 32 / e) = min 100 (n / e) ↔ SameShare n e := by
  have hn : n = n / 2 ^ 32 * 2 ^ 32 + n % 2 ^ 32 := (Nat.div_add_mod' n (2 ^ 32)).symm
  have hr : n % 2 ^ 32 = e * (n % 2 ^ 32 / e) + n % 2 ^ 32 % e := (Nat.div_add_mod _ e).symm
  have hmod : n % 2 ^ 32 % e < e := Nat.mod_lt _ he
  have hle : n % 2 ^ 32 / e ≤ n / e := Nat.div_le_div_right (Nat.mod_le _ _)
  unfold SameShare
  by_cases hfull : 100 * e ≤ n % 2 ^ 32
  · have h100 : 100 ≤ n % 2 ^ 32 / e := (Nat.le_div_iff_mul_le he).2 hfull
    simp only [hfull, true_or, or_true, iff_true]
    omega
  have h100 : n % 2 ^ 32 / e < 100 := (Nat.div_lt_iff_lt_mul he).2 (by omega)
  have hshare : min 100 (n % 2 ^ 32 / e) = min 100 (n / e) ↔ n / e = n % 2 ^ 32 / e := by omega
  -- the quotients agree iff what the cut takes off fits below the next multiple
  have hquot : n / e = n % 2 ^ 32 / e ↔ n / 2 ^ 32 * 2 ^ 32 + n % 2 ^ 32 % e < e := by
    generalize hq : n % 2 ^ 32 / e = q at *
    rw [Nat.div_eq_iff he]
    have hqe : e * (q + 1) = e * q + e := Nat.mul_succ e q
    rw [Nat.mul_comm q e]
    omega
  rw [hshare, hquot]
  constructor
  · intro h
    exact Or.inr (Or.inr h)
  · rintro (h | h | h)
    · have h0 : n / 2 ^ 32 = 0 := Nat.div_eq_of_lt h
      rw [h0]
      omega
    · exact absurd h hfull
    · exact h

/-! ## The invariant -/

/-- **The invariant of a run**: `last` and `interval` are as they were set, and `com_time` is the
compute time cut to 32 bits. -/
structure ComState.Ok (s : ComState) : Prop where
  last : s.mem ComObj.last = s.since.time
  interval : s.mem ComObj.interval = ⟨0, gdevUpdateInterval, false⟩
  comTime : s.comTime = s.total % 2 ^ 32
  since : s.since.us ≤ s.clock

theorem comStart_ok (first : Timeval) : (comStart first).Ok := by
  refine ⟨?_, ?_, rfl, le_rfl⟩
  · unfold comStart
    dsimp only
    rw [gdevTimeStamp_eq, Function.update_self]
  · unfold comStart
    dsimp only
    rw [gdevTimeStamp_eq, Function.update_of_ne (by decide), gdevTimeUs_eq, Function.update_self]

theorem ComState.Ok.complete (h : s.Ok) (ht : tick.us ≤ now.us) (hc : s.clock ≤ now.us) :
    (s.complete tick now).Ok := by
  have hmem : (s.complete tick now).mem =
      Function.update (Function.update (Function.update s.mem ComObj.lastTickCom tick.time)
        ComObj.endTime now.time) ComObj.exec (subPos now.time tick.time) := by
    unfold ComState.complete
    dsimp only
    rw [gdevTimeStamp_eq, gdevTimeStamp_eq]
    refine gdevTimeSub_readings ?_ ?_ (by decide) (by decide)
    · rw [Function.update_self]
    · rw [Function.update_of_ne (by decide), Function.update_self]
  have hother : ∀ p < ComObj.endTime, (s.complete tick now).mem p = s.mem p := by
    intro p hp
    unfold ComObj.endTime at hp
    rw [hmem, Function.update_of_ne (by unfold ComObj.exec; omega),
      Function.update_of_ne (by unfold ComObj.endTime; omega),
      Function.update_of_ne (by unfold ComObj.lastTickCom; omega)]
  refine ⟨(hother _ (by decide)).trans h.last, (hother _ (by decide)).trans h.interval, ?_,
    h.since.trans hc⟩
  have hus : gdevTimeToUs (s.complete tick now).mem ComObj.exec = now.us - tick.us :=
    toUs_subPos ht (by rw [hmem, Function.update_self])
  show (s.comTime + gdevTimeToUs (s.complete tick now).mem ComObj.exec) % 2 ^ 32 =
    (s.total + (now.us - tick.us)) % 2 ^ 32
  rw [hus, h.comTime, Nat.mod_add_mod]

/-- The memory of a round before the division. -/
def roundMem (m : TimeMem) (now : Timeval) : TimeMem :=
  gdevTimeSub (gdevTimeStamp m ComObj.now now) ComObj.elapse ComObj.now ComObj.last

theorem ComState.Ok.roundMem_eq (h : s.Ok) (now : Timeval) : roundMem s.mem now =
    Function.update (Function.update s.mem ComObj.now now.time) ComObj.elapse
      (subPos now.time s.since.time) := by
  unfold roundMem
  rw [gdevTimeStamp_eq]
  refine gdevTimeSub_readings ?_ ?_ (by decide) (by decide)
  · rw [Function.update_self]
  · rw [Function.update_of_ne (by decide), h.last]

/-- **What a round does**: it divides by the elapsed time, and resets when the seconds differ. -/
theorem ComState.Ok.round (h : s.Ok) (hc : s.clock ≤ now.us) (again : Timeval) :
    if now.us = s.since.us then s.round now again = .error .divideByZero
    else ∃ s', s.round now again = .ok s' ∧ s'.Ok ∧
      s'.comBwUsed = min 100 (100 * s.total % 2 ^ 32 / (now.us - s.since.us)) ∧
      (s'.wasReset = true ↔ s.since.sec < now.sec) := by
  have hle : s.since.us ≤ now.us := h.since.trans hc
  have hmem := h.roundMem_eq now
  have hel : roundMem s.mem now ComObj.elapse = subPos now.time s.since.time := by
    rw [hmem, Function.update_self]
  have hother : ∀ p, p ≠ ComObj.now → p ≠ ComObj.elapse → roundMem s.mem now p = s.mem p := by
    intro p hp hp'
    rw [hmem, Function.update_of_ne hp', Function.update_of_ne hp]
  have hlast := (hother ComObj.last (by decide) (by decide)).trans h.last
  have hint := (hother ComObj.interval (by decide) (by decide)).trans h.interval
  have hus : gdevTimeToUs (roundMem s.mem now) ComObj.elapse = now.us - s.since.us := toUs_subPos hle hel
  have hge := ge_interval hle hel hint
  have hprod : s.comTime * 100 % 2 ^ 32 = 100 * s.total % 2 ^ 32 := by
    rw [h.comTime, Nat.mod_mul_mod, Nat.mul_comm]
  -- the round once the loads have been replaced
  have hround : s.round now again =
      (div (100 * s.total % 2 ^ 32) (now.us - s.since.us)).bind fun used =>
        if gdevTimeGe (roundMem s.mem now) ComObj.elapse ComObj.interval then
          .ok { s with
            mem := gdevTimeStamp (roundMem s.mem now) ComObj.last again
            comTime := 0
            comBwUsed := if 100 < used then 100 else used
            clock := again.us
            total := 0
            since := again
            wasReset := true }
        else
          .ok { s with
            mem := roundMem s.mem now
            comBwUsed := if 100 < used then 100 else used
            clock := now.us
            wasReset := false } := by
    rw [← hprod, ← hus]
    rfl
  rw [hround]
  -- an interval of no microseconds is divided by
  by_cases hz : now.us = s.since.us
  · rw [if_pos hz, hz, Nat.sub_self]
    rfl
  · rw [if_neg hz, div_of_ne (by omega)]
    have hmin : ∀ u : ℕ, (if 100 < u then 100 else u) = min 100 u := by
      intro u
      split <;> omega
    -- the counters start again after a second
    by_cases hsec : s.since.sec < now.sec
    · rw [Except.bind, if_pos (hge.2 hsec)]
      refine ⟨_, rfl, ⟨?_, ?_, rfl, le_rfl⟩, hmin _, by simp [hsec]⟩
      · dsimp only
        rw [gdevTimeStamp_eq, Function.update_self]
      · dsimp only
        rw [gdevTimeStamp_eq, Function.update_of_ne (by decide), hint]
    · rw [Except.bind, if_neg (fun hg => hsec (hge.1 hg))]
      exact ⟨_, rfl, ⟨hlast, hint, h.comTime, hle⟩, hmin _, by simp [hsec]⟩

/-! ## Runs -/

theorem comStep_eq_some {op : ComOp} (h : comStep s op = some s') :
    s.enabled op = true ∧ s' = s.exec op := by
  unfold comStep at h
  split at h
  · rename_i hen
    exact ⟨hen.2, (Option.some.inj h).symm⟩
  · cases h

theorem ComState.exec_eq (s : ComState) (op : ComOp) : s.exec op = match op with
    | .complete tick now => s.complete tick now
    | .round now again => match s.round now again with
      | .ok s' => s'
      | .error _ => { s with halted := true } := rfl

/-- Stated for any functions: with those of `exec`, the kernel would carry out the division. -/
theorem match_round (f g : Timeval → Timeval → ComState) : (match ComOp.round now again with
    | .complete tick now => f tick now
    | .round now again => g now again) = g now again := rfl

theorem exec_round (s : ComState) (now again : Timeval) :
    s.exec (.round now again) = match s.round now again with
      | .ok s' => s'
      | .error _ => { s with halted := true } :=
  (s.exec_eq _).trans (match_round s.complete fun now again => match s.round now again with
    | .ok s' => s'
    | .error _ => { s with halted := true })

theorem exec_round_ok (h : s.round now again = .ok s') : s.exec (.round now again) = s' := by
  rw [exec_round, h]

theorem exec_round_error {e : Fault} (h : s.round now again = .error e) :
    s.exec (.round now again) = { s with halted := true } := by
  rw [exec_round, h]

theorem ComState.Ok.step {op : ComOp} (h : s.Ok) (hs : comStep s op = some s') : s'.Ok := by
  obtain ⟨hen, rfl⟩ := comStep_eq_some hs
  cases op with
  | complete tick now =>
    simp only [ComState.enabled, Bool.and_eq_true, decide_eq_true_iff] at hen
    exact h.complete hen.1 hen.2
  | round now again =>
    simp only [ComState.enabled, Bool.and_eq_true, decide_eq_true_iff] at hen
    have hround := h.round hen.1 again
    split at hround
    · -- the thread halts, with everything as it was
      rw [exec_round_error hround]
      exact ⟨h.last, h.interval, h.comTime, h.since⟩
    · obtain ⟨s', hs', hok, -⟩ := hround
      rw [exec_round_ok hs']
      exact hok

/-- A step with the condition is right, and no other one is. -/
theorem ComState.Ok.roundOk_iff {op : ComOp} (h : s.Ok) (hs : comStep s op = some s') :
    RoundOk s op ↔ RoundCond s op := by
  obtain ⟨hen, -⟩ := comStep_eq_some hs
  cases op with
  | complete tick now => exact Iff.rfl
  | round now again =>
    simp only [ComState.enabled, Bool.and_eq_true, decide_eq_true_iff] at hen
    have hle : s.since.us ≤ now.us := h.since.trans hen.1
    have hround := h.round hen.1 again
    unfold RoundOk RoundCond
    dsimp only
    split at hround
    · rename_i hz
      rw [hround]
      constructor
      · rintro ⟨s', hs', -⟩
        cases hs'
      · rintro ⟨hlt, -⟩
        omega
    · rename_i hz
      obtain ⟨s', hs', -, hbw, hreset⟩ := hround
      have he : 0 < now.us - s.since.us := by omega
      have hsecs : (s.since.sec < now.sec ↔ gdevUpdateInterval ≤ now.us - s.since.us) ↔
          (s.since.sec < now.sec → gdevUpdateInterval ≤ now.us - s.since.us) := by
        have hu := now.usec_lt
        unfold gdevUpdateInterval Timeval.us usec1Sec at *
        omega
      rw [← sameShare_iff he, ← hsecs, ← hbw, ← hreset]
      constructor
      · rintro ⟨s'', hs'', hbw', hreset'⟩
        cases hs'.symm.trans hs''
        exact ⟨by omega, hreset', hbw'⟩
      · rintro ⟨-, hreset', hbw'⟩
        exact ⟨s', hs', hbw', hreset'⟩

/-- **Every round of a run is right** iff at every round the clock has moved since the last reset, a
new second has come only with the interval, and the compute time is short enough for its share. -/
theorem comRounds_iff (first : Timeval) (ops : List ComOp) :
    Each comStep RoundOk (comStart first) ops ↔ Each comStep RoundCond (comStart first) ops :=
  Each.iff_of_inv (fun _ _ _ h hs => h.step hs) (fun _ _ _ h hs => h.roundOk_iff hs) ops
    (comStart first) (comStart_ok first)

/-- Five microseconds before a second begins, and after. -/
def beforeSecond : Timeval := ⟨9, 999995, by decide, by decide⟩
def afterSecond : Timeval := ⟨10, 5, by decide, by decide⟩

/-- Ten microseconds after the start, in the next second: the round resets. -/
theorem comRounds_not : ¬ ∀ (first : Timeval) (ops : List ComOp),
    Each comStep RoundOk (comStart first) ops := by
  intro h
  have hs : comStep (comStart beforeSecond) (.round afterSecond afterSecond) =
      some ((comStart beforeSecond).exec (.round afterSecond afterSecond)) := if_pos ⟨rfl, by decide⟩
  have hok := (h beforeSecond [.round afterSecond afterSecond] _ hs).1
  have hcond := ((comStart_ok beforeSecond).roundOk_iff hs).1 hok
  exact absurd (hcond.2.1 (by decide)) (by decide)

end Resch
