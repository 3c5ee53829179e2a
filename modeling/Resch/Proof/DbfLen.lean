import Mathlib.Algebra.BigOperators.Group.List.Basic
import Resch.Lib.Stride
import Resch.Proof.Faults

/-!
# The test length of EDF-FF

`u` are the utilisations in percent of the tasks that `dbf_len` counts (`counted`).

* `dbfLen_eq`: without wrap-around, `dbf_len` is `testLen`.
* `dbfTest_ends`: `dbf_test` ends if each of its loops comes to a value beyond the test length.
* `dbf_len_exact`: the length is exact and the loops come to their ends iff no deadline is longer
  than the period, the sum of `dbf_len` is in range, and the length is not so near to the end of
  the `unsigned long`s that the values of a loop never exceed it.
-/

namespace Resch.Checked.EdfFf

open Lib

variable {c : Config} {s : TaskSet} {rt cpu L Lmax period : ℕ} {u : ℕ → ℕ}

/-- The tasks that `dbf_len` counts -/
def counted (s : TaskSet) (rt cpu : ℕ) : List ℕ := s.list.filter (s.taskIsOnCpu · cpu) ++ [rt]

/-- What a task adds to the sum of `dbf_len` -/
def slack (s : TaskSet) (u : ℕ → ℕ) (p : ℕ) : ℕ := ((s.task p).period - (s.task p).deadline) * u p

/-- The longest deadline -/
def maxDeadline (s : TaskSet) (ps : List ℕ) : ℕ := (ps.map fun p => (s.task p).deadline).foldr max 0

/-- What `dbf_len` is to be. -/
def testLen (s : TaskSet) (u : ℕ → ℕ) (ps : List ℕ) : ℕ :=
  max ((ps.map (slack s u)).sum / (100 - (ps.map u).sum)) (maxDeadline s ps)

/-- No value that `dbf_len` computes wraps; `x` and `v` are the sums so far. -/
def WrapFree (s : TaskSet) (u : ℕ → ℕ) : ℕ → ℕ → List ℕ → Prop
  | _, _, [] => True
  | x, v, p :: ps =>
    (s.task p).deadline ≤ (s.task p).period ∧ slack s u p < 2 ^ 64 ∧ x + slack s u p < 2 ^ 64 ∧
      v + u p < 2 ^ 64 ∧ WrapFree s u (x + slack s u p) (v + u p) ps

/-- The values of `L` in the loop of `dbf_test` over the deadlines of a task -/
def loopValue (s : TaskSet) (p n : ℕ) : ℕ :=
  (fun L : ℕ => ulong (L + (s.task p).period))^[n] (s.task p).deadline

/-- What is to hold of the test length. -/
structure LenExact (c : Config) (s : TaskSet) (rt cpu : ℕ) (u : ℕ → ℕ) : Prop where
  wrapFree : WrapFree s u 0 0 (counted s rt cpu)
  value : dbfLen c s rt cpu = .ok (testLen s u (counted s rt cpu))
  leaves : ∀ p ∈ counted s rt cpu, ∃ n, testLen s u (counted s rt cpu) < loopValue s p n
  ends : ∃ fuel, dbfTest c s rt cpu fuel ≠ .error .outOfFuel

/-! ## The length -/

theorem wrapFree_iff : ∀ (ps : List ℕ) (x v : ℕ), x < 2 ^ 64 → v + (ps.map u).sum < 2 ^ 64 →
    (WrapFree s u x v ps ↔ (∀ p ∈ ps, (s.task p).deadline ≤ (s.task p).period) ∧
      x + (ps.map (slack s u)).sum < 2 ^ 64) := by
  intro ps
  induction ps with
  | nil =>
    intro x v hx _
    exact ⟨fun _ => ⟨fun p hp => absurd hp List.not_mem_nil, hx⟩, fun _ => trivial⟩
  | cons p ps ih =>
    intro x v hx hv
    rw [List.map_cons, List.sum_cons] at hv
    rw [List.forall_mem_cons, List.map_cons, List.sum_cons, WrapFree]
    constructor
    · rintro ⟨hle, -, hadd, -, h⟩
      obtain ⟨hps, hsum⟩ := (ih _ _ hadd (by omega)).1 h
      exact ⟨⟨hle, hps⟩, by omega⟩
    · rintro ⟨⟨hle, hps⟩, hsum⟩
      refine ⟨hle, by omega, by omega, by omega, ?_⟩
      exact (ih _ _ (by omega) (by omega)).2 ⟨hps, by omega⟩

/-- The sums of `dbf_len` -/
theorem foldl_dbfLenAdd (hsize : ∀ p, (s.task p).period < 2 ^ 64) : ∀ (ps : List ℕ) (x v d : ℕ),
    WrapFree s u x v ps →
      ps.foldl (fun sums p => EdfWm.dbfLenAdd sums (s.task p).period (s.task p).deadline (u p))
        (x, v, d) =
      (x + (ps.map (slack s u)).sum, v + (ps.map u).sum, max d (maxDeadline s ps)) := by
  intro ps
  induction ps with
  | nil =>
    intro x v d _
    rw [List.foldl_nil, List.map_nil, List.map_nil, maxDeadline, List.map_nil, List.foldr_nil,
      Nat.max_zero]
    rfl
  | cons p ps ih =>
    intro x v d h
    obtain ⟨hle, hslack, hadd, hu, h⟩ := h
    have hstep : EdfWm.dbfLenAdd (x, v, d) (s.task p).period (s.task p).deadline (u p) =
        (x + slack s u p, v + u p, max d (s.task p).deadline) := by
      have hdiff : ulong (((s.task p).period : ℤ) - (s.task p).deadline) =
          (s.task p).period - (s.task p).deadline := by
        rw [ulong_of_lt (by omega) (by have := hsize p; omega)]
        omega
      have hmul : ulong ((((s.task p).period - (s.task p).deadline : ℕ) : ℤ) * (u p : ℤ)) =
          slack s u p := by
        rw [← Nat.cast_mul]
        exact ulong_natCast hslack
      unfold EdfWm.dbfLenAdd
      dsimp only
      rw [hdiff, hmul, ← Nat.cast_add, ← Nat.cast_add, ulong_natCast hadd, ulong_natCast hu]
    rw [List.foldl_cons, hstep, ih _ _ _ h, List.map_cons, List.sum_cons, List.map_cons,
      List.sum_cons, maxDeadline, maxDeadline, List.map_cons, List.foldr_cons, Nat.add_assoc,
      Nat.add_assoc, Nat.max_assoc]

/-- The loop over the global list and the step for `rt` -/
theorem dbfLen_eq_foldl (hu : ∀ p ∈ counted s rt cpu, util c s p = .ok (u p)) :
    dbfLen c s rt cpu =
      let (x, v, d) := (counted s rt cpu).foldl (fun sums p =>
        EdfWm.dbfLenAdd sums (s.task p).period (s.task p).deadline (u p)) (0, 0, 0)
      if 100 ≤ v then .ok d else (div x (100 - v)).map (max · d) := by
  have hstep : ∀ p ∈ counted s rt cpu, ∀ sums, dbfLenTask c s p sums =
      .ok (EdfWm.dbfLenAdd sums (s.task p).period (s.task p).deadline (u p)) := by
    intro p hp sums
    unfold dbfLenTask
    rw [hu p hp]
    rfl
  have hlist : s.list.foldlM (fun sums p =>
      if s.taskIsOnCpu p cpu then dbfLenTask c s p sums else pure sums) (0, 0, 0) =
      .ok ((s.list.filter (s.taskIsOnCpu · cpu)).foldl (fun sums p =>
        EdfWm.dbfLenAdd sums (s.task p).period (s.task p).deadline (u p)) (0, 0, 0)) := by
    rw [List.foldl_filter]
    refine foldlM_eq_ok (fun p hp sums => ?_) _
    by_cases hcpu : s.taskIsOnCpu p cpu = true
    · rw [if_pos hcpu, if_pos hcpu]
      exact hstep p (List.mem_append_left _ (List.mem_filter.2 ⟨hp, hcpu⟩)) sums
    · rw [if_neg hcpu, if_neg hcpu]
      rfl
  have hrt := hstep rt (List.mem_append_right _ (List.mem_singleton.2 rfl))
  unfold dbfLen counted
  rw [hlist, List.foldl_append]
  generalize (s.list.filter (s.taskIsOnCpu · cpu)).foldl _ (0, 0, 0) = sums
  show (dbfLenTask c s rt sums >>= _) = _
  rw [hrt sums, List.foldl_cons, List.foldl_nil]
  generalize EdfWm.dbfLenAdd sums _ _ _ = r
  obtain ⟨x, v, d⟩ := r
  show (if 100 ≤ v then pure d else div x (100 - v) >>= _) = _
  dsimp only
  split
  · rfl
  · cases div x (100 - v) with
    | error e => rfl
    | ok q => rfl

/-- **The test length** without wrap-around -/
theorem dbfLen_eq (hu : ∀ p ∈ counted s rt cpu, util c s p = .ok (u p))
    (hsum : ((counted s rt cpu).map u).sum < 100) (hsize : ∀ p, (s.task p).period < 2 ^ 64)
    (h : WrapFree s u 0 0 (counted s rt cpu)) :
    dbfLen c s rt cpu = .ok (testLen s u (counted s rt cpu)) := by
  rw [dbfLen_eq_foldl hu, foldl_dbfLenAdd hsize _ _ _ _ h]
  dsimp only
  rw [Nat.zero_add, Nat.zero_add, Nat.zero_max, if_neg (by omega), div_of_ne (by omega)]
  rfl

/-! ## The loops -/

theorem fits_ends (c : Config) (s : TaskSet) (rt cpu L : ℕ) :
    Avoids .outOfFuel (fits c s rt cpu L) :=
  fits_avoids (fun h => nomatch h) fun h => nomatch h

/-- A loop comes to its end in the turn in which `L` exceeds the length, unless it has done so
before. -/
theorem testDeadlines_ends {n : ℕ} : ∀ {L : ℕ},
    Lmax < (fun L : ℕ => ulong (L + period))^[n] L → ∀ fuel, n < fuel →
      Avoids .outOfFuel (testDeadlines c s rt cpu Lmax period fuel L) := by
  induction n with
  | zero =>
    intro L h fuel hf
    obtain ⟨fuel, rfl⟩ := Nat.exists_eq_add_of_lt hf
    rw [testDeadlines]
    exact .ite (fun hle => absurd h (not_lt.2 hle)) fun _ => .pure _
  | succ n ih =>
    intro L h fuel hf
    obtain ⟨fuel, rfl⟩ : ∃ k, fuel = k + 1 := ⟨fuel - 1, by omega⟩
    rw [testDeadlines]
    refine .ite (fun _ => (fits_ends c s rt cpu L).bind fun b _ => ?_) fun _ => .pure _
    refine .ite (fun _ => ?_) fun _ => .pure _
    exact ih (by rw [← Function.iterate_succ_apply]; exact h) fuel (by omega)

/-- The loops for the tasks on the CPU -/
theorem testTasks_ends : ∀ (ps : List ℕ),
    (∀ p ∈ ps, s.taskIsOnCpu p cpu = true → ∃ n, Lmax < loopValue s p n) →
      ∃ N, ∀ fuel, N < fuel → Avoids .outOfFuel (testTasks c s rt cpu fuel Lmax ps) := by
  intro ps
  induction ps with
  | nil => exact fun _ => ⟨0, fun fuel _ => .pure _⟩
  | cons p ps ih =>
    intro h
    rw [List.forall_mem_cons] at h
    obtain ⟨N, hN⟩ := ih h.2
    by_cases hcpu : s.taskIsOnCpu p cpu = true
    · obtain ⟨n, hn⟩ := h.1 hcpu
      refine ⟨max n N, fun fuel hf => ?_⟩
      rw [testTasks, if_pos hcpu]
      refine (testDeadlines_ends hn fuel (by omega)).bind fun b _ => ?_
      exact .ite (fun _ => hN fuel (by omega)) fun _ => .pure _
    · refine ⟨N, fun fuel hf => ?_⟩
      rw [testTasks, if_neg hcpu]
      exact hN fuel hf

/-- **The end of `dbf_test`** -/
theorem dbfTest_ends (hlen : dbfLen c s rt cpu = .ok Lmax)
    (h : ∀ p ∈ counted s rt cpu, ∃ n, Lmax < loopValue s p n) :
    ∃ fuel, dbfTest c s rt cpu fuel ≠ .error .outOfFuel := by
  have htasks : ∃ N, ∀ fuel, N < fuel → Avoids .outOfFuel (testTasks c s rt cpu fuel Lmax s.list) :=
    testTasks_ends s.list fun p hp hcpu =>
      h p (List.mem_append_left _ (List.mem_filter.2 ⟨hp, hcpu⟩))
  obtain ⟨N, hN⟩ := htasks
  obtain ⟨n, hn⟩ := h rt (List.mem_append_right _ (List.mem_singleton.2 rfl))
  refine ⟨max n N + 1, ?_⟩
  show Avoids .outOfFuel (dbfTest c s rt cpu (max n N + 1))
  unfold dbfTest
  refine .ite (fun _ => .pure _) fun _ => ?_
  rw [hlen]
  refine (Avoids.ok _).bind fun len he => ?_
  cases he
  refine (hN _ (by omega)).bind fun b _ => ?_
  exact .ite (fun _ => testDeadlines_ends hn _ (by omega)) fun _ => .pure _

/-- A loop has values beyond the bound. -/
theorem exists_loopValue_iff {p B : ℕ} (hd : (s.task p).deadline < 2 ^ 64)
    (hp : 0 < (s.task p).period) (hsize : (s.task p).period < 2 ^ 64) :
    (∃ n, B < loopValue s p n) ↔
      B < 2 ^ 64 - Nat.gcd (s.task p).period (2 ^ 64) +
        (s.task p).deadline % Nat.gcd (s.task p).period (2 ^ 64) := by
  have hfun : (fun L : ℕ => ulong (L + (s.task p).period)) =
      fun L => (L + (s.task p).period) % 2 ^ 64 := by
    funext L
    unfold ulong
    omega
  rw [← stride_exceeds_iff hp hsize]
  refine exists_congr fun n => ?_
  unfold loopValue
  rw [hfun, iterate_stride hd]

theorem deadline_le_maxDeadline {ps : List ℕ} {p : ℕ} (hp : p ∈ ps) :
    (s.task p).deadline ≤ maxDeadline s ps := by
  unfold maxDeadline
  induction ps with
  | nil => cases hp
  | cons q ps ih =>
    rw [List.map_cons, List.foldr_cons]
    rcases List.mem_cons.1 hp with rfl | hp
    · exact le_max_left _ _
    · exact (ih hp).trans (le_max_right _ _)

/-- **The test length is exact**, and the loops end, iff no deadline is longer than the period, the
sum of `dbf_len` is in range, and each loop has values beyond the length. -/
theorem dbf_len_exact (c : Config) (s : TaskSet) (rt cpu : ℕ) (u : ℕ → ℕ)
    (hsize : ∀ p, (s.task p).period < 2 ^ 64)
    (hu : ∀ p ∈ counted s rt cpu, util c s p = .ok (u p))
    (hsum : ((counted s rt cpu).map u).sum < 100)
    (hfit : testLen s u (counted s rt cpu) < 2 ^ 64) :
    LenExact c s rt cpu u ↔
      (∀ p ∈ counted s rt cpu, (s.task p).deadline ≤ (s.task p).period) ∧
      ((counted s rt cpu).map (slack s u)).sum < 2 ^ 64 ∧
      ∀ p ∈ counted s rt cpu, testLen s u (counted s rt cpu) <
        2 ^ 64 - Nat.gcd (s.task p).period (2 ^ 64) +
          (s.task p).deadline % Nat.gcd (s.task p).period (2 ^ 64) := by
  have hwrap := wrapFree_iff (s := s) (u := u) (counted s rt cpu) 0 0 (by decide) (by omega)
  rw [Nat.zero_add] at hwrap
  have hloops : (∀ p ∈ counted s rt cpu, ∃ n, testLen s u (counted s rt cpu) < loopValue s p n) ↔
      ∀ p ∈ counted s rt cpu, testLen s u (counted s rt cpu) <
        2 ^ 64 - Nat.gcd (s.task p).period (2 ^ 64) +
          (s.task p).deadline % Nat.gcd (s.task p).period (2 ^ 64) := by
    refine forall₂_congr fun p hp => exists_loopValue_iff ?_ ?_ (hsize p)
    · exact ((deadline_le_maxDeadline hp).trans (le_max_right _ _)).trans_lt hfit
    · refine Nat.pos_of_ne_zero (period_ne_zero (c := c) fun h0 => ?_)
      have hok := hu p hp
      unfold util Lib.div at hok
      rw [if_pos h0] at hok
      cases hok
  rw [← hloops, ← and_assoc, ← hwrap]
  constructor
  · exact fun h => ⟨h.wrapFree, h.leaves⟩
  · rintro ⟨h, hleaves⟩
    have hvalue := dbfLen_eq hu hsum hsize h
    exact ⟨h, hvalue, hleaves, dbfTest_ends hvalue hleaves⟩

/-- Task 1 on CPU 0, with a deadline of 10 jiffies, and task 0 with a deadline of 15 -/
def twoDeadlines (period : ℕ) : TaskSet where
  list := [1]
  task i := if i = 0 then ⟨period, 15, 1000, 1000, 1, 1, false⟩ else ⟨10, 10, 4000, 4000, 2, 0, false⟩
  switchCost := 0
  releaseCost := 0
  migrationCost := 0

theorem dbf_len_exact_twenty :
    LenExact (Config.small false) (twoDeadlines 20) 0 0 (fun p => if p = 0 then 5 else 40) ↔
      (∀ p ∈ counted (twoDeadlines 20) 0 0,
        ((twoDeadlines 20).task p).deadline ≤ ((twoDeadlines 20).task p).period) ∧
      ((counted (twoDeadlines 20) 0 0).map
        (slack (twoDeadlines 20) fun p => if p = 0 then 5 else 40)).sum < 2 ^ 64 ∧
      ∀ p ∈ counted (twoDeadlines 20) 0 0,
        testLen (twoDeadlines 20) (fun p => if p = 0 then 5 else 40) (counted (twoDeadlines 20) 0 0) <
          2 ^ 64 - Nat.gcd ((twoDeadlines 20).task p).period (2 ^ 64) +
            ((twoDeadlines 20).task p).deadline % Nat.gcd ((twoDeadlines 20).task p).period (2 ^ 64) := by
  refine dbf_len_exact (Config.small false) (twoDeadlines 20) 0 0 _ (fun p => ?_) ?_ ?_ ?_
  · unfold twoDeadlines
    dsimp only
    split <;> decide
  · decide +kernel
  · decide +kernel
  · decide +kernel

/-- With a period of 10 jiffies, 5 less than the deadline, the length is more than `2 ^ 58`. -/
theorem dbf_len_not_exact : ¬ ∀ (c : Config) (s : TaskSet) (rt cpu : ℕ) (u : ℕ → ℕ),
    (∀ p, (s.task p).period < 2 ^ 64) → (∀ p ∈ counted s rt cpu, util c s p = .ok (u p)) →
      ((counted s rt cpu).map u).sum < 100 → testLen s u (counted s rt cpu) < 2 ^ 64 →
        LenExact c s rt cpu u := by
  intro hall
  have h := hall (Config.small false) (twoDeadlines 10) 0 0 (fun p => if p = 0 then 10 else 40)
    (fun p => by unfold twoDeadlines; dsimp only; split <;> decide) (by decide +kernel)
    (by decide +kernel) (by decide +kernel)
  have hvalue := h.value
  revert hvalue
  decide +kernel

end Resch.Checked.EdfFf
