import Resch.Proof.EdfTest
import Resch.Proof.Overhead
import Resch.Spec.EdfWm

/-!
# EDF-WM with and without wrap-around

The functions of `edf-wm.c` in `unsigned long`s, with checked divisions, against those in exact
arithmetic.

* `dbfCpu_le`: the demand that is computed is at most the exact one.
* `utilCpu_eq`: the utilisation of a CPU is the sum of the percents, modulo `2 ^ 64`.
* `dbfLen_eq`: the test length that is computed is `testLen`, a closed form in the parameters.
-/

namespace Resch

/-- The percents and the gap of a task, as `unsigned long`s -/
def Resident.ulongPercent (c : Config) (r : Resident) : ℕ :=
  ulong (100 * (r.amount : ℤ)) / c.usecs r.period

def Resident.ulongGap (r : Resident) : ℕ := ulong ((r.period : ℤ) - r.deadline)

/-- The length of the test for tasks on a CPU -/
def testLen (c : Config) (rs : List Resident) : ℕ :=
  let u := (rs.map (Resident.ulongPercent c)).sum % 2 ^ 64
  let x := (rs.map fun r => r.ulongGap * r.ulongPercent c).sum % 2 ^ 64
  if 100 = u then residentsDeadline c rs
  else if 100 < u then 0
  else max (x / (100 - u)) (residentsDeadline c rs)

/-- It is made of the percents, the gaps and the deadlines. -/
theorem testLen_map (c : Config) (f g : ℕ → Resident) (l : List ℕ) (h : ∀ p ∈ l,
    (f p).ulongPercent c = (g p).ulongPercent c ∧ (f p).ulongGap = (g p).ulongGap ∧
      (f p).deadline = (g p).deadline) : testLen c (l.map f) = testLen c (l.map g) := by
  have hdead : residentsDeadline c (l.map f) = residentsDeadline c (l.map g) := by
    unfold residentsDeadline Lib.maxDeadline
    induction l with
    | nil => rfl
    | cons p l ih =>
      rw [List.forall_mem_cons] at h
      rw [List.map_cons, List.map_cons, List.map_cons, List.map_cons, List.foldr_cons,
        List.foldr_cons, ih h.2]
      show max (f p).deadline _ = max (g p).deadline _
      rw [h.1.2.2]
  unfold testLen
  rw [hdead, List.map_map, List.map_map, List.map_map, List.map_map,
    List.map_congr_left fun p hp => show (Resident.ulongPercent c ∘ f) p =
      (Resident.ulongPercent c ∘ g) p from (h p hp).1,
    List.map_congr_left fun p hp => show ((fun r => r.ulongGap * r.ulongPercent c) ∘ f) p =
      ((fun r => r.ulongGap * r.ulongPercent c) ∘ g) p by
        dsimp only [Function.comp_apply]
        rw [(h p hp).1, (h p hp).2.1]]

theorem dbfSum_cons (c : Config) (r : Resident) (rs : List Resident) (L : ℕ) :
    dbfSum c (r :: rs) L = r.dbfTask c L + dbfSum c rs L := by
  rw [← List.singleton_append, dbfSum_append]
  unfold dbfSum
  rw [List.foldl_cons, List.foldl_nil, Nat.zero_add]

namespace Checked.EdfWm

open Lib

variable {c : Config} {s : EdfWm} {rt cpu p L : ℕ}

/-- `edf_wm_task_is_on_cpu` -/
def onCpu (s : EdfWm) (cpu p : ℕ) : Bool := s.taskIsOnCpu p cpu || s.splitIsOnCpu p cpu

theorem residents_eq (c : Config) (s : EdfWm) (cpu : ℕ) :
    s.residents c cpu = (s.list.filter (onCpu s cpu)).map (s.resident c cpu) := rfl

/-- What is read of a task that has a share, and of one that has none -/
theorem resident_share (h : s.splitIsOnCpu p cpu = true) : s.resident c cpu p =
    ⟨(s.task p).period, (s.edfWmTask p).deadline, (s.edfWmTask p).runtime cpu, true⟩ := if_pos h

theorem resident_whole (h : ¬ s.splitIsOnCpu p cpu = true) : s.resident c cpu p =
    ⟨(s.task p).period, (s.task p).deadline, (s.task p).C c, false⟩ := if_neg h

/-! ## The demand -/

theorem ulong_le (n : ℕ) : ulong n ≤ n := by
  unfold ulong
  omega

theorem jiffies_le (c : Config) {us us' : ℕ} (h : us ≤ us') : c.jiffies us ≤ c.usecsToJiffies us' := by
  unfold Config.jiffies Config.usecsToJiffies
  refine Nat.div_le_div_right ?_
  have := Nat.mod_le us (2 ^ 32)
  omega

/-- What `dbf_task` computes from a task on the CPU -/
theorem dbfTask_eq (c : Config) (s : EdfWm) (cpu p L : ℕ) : dbfTask c s cpu p L =
    let r := s.resident c cpu p
    if L < r.deadline then .ok 0
    else div (L - r.deadline) r.period >>= fun q =>
      let db := ulong ((ulong ((q : ℤ) + 1) : ℕ) * (r.amount : ℤ))
      .ok (if r.share then db else c.jiffies db) := by
  unfold dbfTask
  by_cases hsplit : s.splitIsOnCpu p cpu = true
  · rw [if_pos hsplit, resident_share hsplit]
    dsimp only
    split <;> rfl
  · rw [if_neg hsplit, resident_whole hsplit]
    dsimp only
    split <;> rfl

/-- A task whose deadline is in the interval has a period, and its demand is at most the exact one. -/
theorem dbfTask_le {t : ℕ} (h : dbfTask c s cpu p L = .ok t) :
    ((s.resident c cpu p).deadline ≤ L → 0 < (s.resident c cpu p).period) ∧
      t ≤ (s.resident c cpu p).dbfTask c L := by
  rw [dbfTask_eq] at h
  generalize s.resident c cpu p = r at h ⊢
  unfold Resident.dbfTask
  dsimp only at h
  split at h
  · rename_i hL
    cases h
    exact ⟨fun hle => absurd hle (not_le.2 hL), Nat.zero_le _⟩
  · rename_i hL
    obtain ⟨q, hq, h⟩ := bind_eq_ok.1 h
    cases h
    obtain ⟨hT, rfl⟩ := div_eq_ok.1 hq
    have hdb : ulong ((ulong ((((L - r.deadline) / r.period : ℕ) : ℤ) + 1) : ℕ) * (r.amount : ℤ)) ≤
        ((L - r.deadline) / r.period + 1) * r.amount := by
      rw [← Nat.cast_one, ← Nat.cast_add, ← Nat.cast_mul]
      exact (ulong_le _).trans (Nat.mul_le_mul_right _ (ulong_le _))
    refine ⟨fun _ => Nat.pos_of_ne_zero hT, ?_⟩
    rw [if_neg hL]
    split
    · exact hdb
    · exact jiffies_le c hdb

theorem dbfCpu_le {v : ℕ} (h : dbfCpu c s cpu L = .ok v) :
    (∀ r ∈ s.residents c cpu, r.deadline ≤ L → 0 < r.period) ∧ v ≤ s.dbfCpu c cpu L := by
  have hloop : ∀ (l : List ℕ) (sum v : ℕ), l.foldlM (fun sum p => do
        if s.taskIsOnCpu p cpu || s.splitIsOnCpu p cpu then
          return ulong (sum + (← dbfTask c s cpu p L))
        else return sum) sum = Except.ok (ε := Fault) v →
      (∀ r ∈ (l.filter (onCpu s cpu)).map (s.resident c cpu), r.deadline ≤ L → 0 < r.period) ∧
        v ≤ sum + dbfSum c ((l.filter (onCpu s cpu)).map (s.resident c cpu)) L := by
    intro l
    induction l with
    | nil =>
      intro sum v h
      cases h
      exact ⟨fun r hr => absurd hr List.not_mem_nil, Nat.le_add_right _ _⟩
    | cons p l ih =>
      intro sum v h
      rw [List.foldlM_cons] at h
      obtain ⟨sum', hstep, h⟩ := bind_eq_ok.1 h
      obtain ⟨hpos, hle⟩ := ih sum' v h
      by_cases hon : (s.taskIsOnCpu p cpu || s.splitIsOnCpu p cpu) = true
      · rw [if_pos hon] at hstep
        obtain ⟨t, ht, hstep⟩ := bind_eq_ok.1 hstep
        cases hstep
        obtain ⟨hT, htle⟩ := dbfTask_le ht
        have hadd : ulong ((sum : ℤ) + t) ≤ sum + t := by
          rw [← Nat.cast_add]
          exact ulong_le _
        rw [List.filter_cons_of_pos (p := onCpu s cpu) hon, List.map_cons, dbfSum_cons]
        refine ⟨fun r hr => ?_, by omega⟩
        rcases List.mem_cons.1 hr with rfl | hr
        · exact hT
        · exact hpos r hr
      · rw [if_neg hon] at hstep
        cases hstep
        rw [List.filter_cons_of_neg (p := onCpu s cpu) hon]
        exact ⟨hpos, hle⟩
  have h' := hloop s.list 0 v h
  rw [Nat.zero_add] at h'
  exact h'

/-- A turn of a loop over the tasks of a CPU: a share or a whole task on it, or nothing -/
theorem turn_cases {γ : Type} {share whole : Except Fault γ} {r r' : γ}
    (h : (if s.splitIsOnCpu p cpu then share else if s.taskIsOnCpu p cpu then whole
      else pure r) = .ok r') :
    (onCpu s cpu p = true ∧ (if s.splitIsOnCpu p cpu then share else whole) = .ok r') ∨
      (onCpu s cpu p = false ∧ r' = r) := by
  unfold onCpu
  by_cases hsplit : s.splitIsOnCpu p cpu = true
  · rw [if_pos hsplit] at h ⊢
    exact Or.inl ⟨by rw [hsplit, Bool.or_true], h⟩
  rw [if_neg hsplit] at h ⊢
  by_cases hcpu : s.taskIsOnCpu p cpu = true
  · rw [if_pos hcpu] at h
    exact Or.inl ⟨by rw [hcpu, Bool.true_or], h⟩
  · rw [if_neg hcpu] at h
    cases h
    refine Or.inr ⟨?_, rfl⟩
    rw [Bool.or_eq_false_iff]
    exact ⟨eq_false_of_ne_true hcpu, eq_false_of_ne_true hsplit⟩

/-! ## The percents -/

theorem utilCpu_eq {u : ℕ} (h : utilCpu c s cpu = .ok u) :
    u = ((s.residents c cpu).map (Resident.ulongPercent c)).sum % 2 ^ 64 := by
  have hloop : u = s.list.foldl (fun u p => if onCpu s cpu p then
      ulong ((u : ℤ) + ((s.resident c cpu p).ulongPercent c % 2 ^ 64 : ℕ)) else u) 0 := by
    refine foldlM_ok_eq (fun p _ u u' hstep => ?_) h
    have hadd : ∀ v, ulong ((u : ℤ) + (v : ℕ)) = ulong ((u : ℤ) + (v % 2 ^ 64 : ℕ)) := by
      intro v
      unfold ulong
      omega
    rcases turn_cases hstep with ⟨hon, hstep⟩ | ⟨hoff, rfl⟩
    · rw [if_pos hon, ← hadd]
      by_cases hsplit : s.splitIsOnCpu p cpu = true
      · rw [if_pos hsplit] at hstep
        obtain ⟨v, hv, hstep⟩ := bind_eq_ok.1 hstep
        cases hstep
        rw [resident_share hsplit, (div_eq_ok.1 hv).2]
        rfl
      · rw [if_neg hsplit] at hstep
        obtain ⟨v, hv, hstep⟩ := bind_eq_ok.1 hstep
        cases hstep
        rw [resident_whole hsplit, (div_eq_ok.1 hv).2]
        rfl
    · rw [if_neg (by simp [hoff])]
  have hsum := foldl_ulong_add (fun p => (s.resident c cpu p).ulongPercent c) (onCpu s cpu) s.list 0
  rw [Nat.zero_mod, Nat.zero_add] at hsum
  rw [hloop, hsum, residents_eq, List.map_map]
  rfl

/-! ## The length of the test -/

/-- What a task adds to the sums of `dbf_len` -/
theorem dbfLenAdd_eq (x u d : ℕ) (r : Resident) :
    dbfLenAdd (x % 2 ^ 64, u % 2 ^ 64, d) r.period r.deadline (r.ulongPercent c) =
      ((x + r.ulongGap * r.ulongPercent c) % 2 ^ 64, (u + r.ulongPercent c) % 2 ^ 64,
        max d r.deadline) := by
  unfold dbfLenAdd Resident.ulongGap
  rw [← Nat.cast_mul]
  generalize ulong ((r.period : ℤ) - r.deadline) * r.ulongPercent c = y
  unfold ulong
  refine Prod.ext ?_ (Prod.ext ?_ rfl)
  · dsimp only
    omega
  · dsimp only
    omega

theorem dbfLenStep_eq {sums sums' : ℕ × ℕ × ℕ} (h : (if s.splitIsOnCpu p cpu then
      dbfLenShare c s cpu p sums else dbfLenTask c s p sums) = .ok sums') :
    sums' = dbfLenAdd sums (s.resident c cpu p).period (s.resident c cpu p).deadline
      ((s.resident c cpu p).ulongPercent c) := by
  split at h
  · rename_i hsplit
    obtain ⟨u, hu, h⟩ := bind_eq_ok.1 h
    cases h
    rw [resident_share hsplit, (div_eq_ok.1 hu).2]
    rfl
  · rename_i hsplit
    obtain ⟨u, hu, h⟩ := bind_eq_ok.1 h
    cases h
    rw [resident_whole hsplit, (div_eq_ok.1 hu).2]
    rfl

/-- The sums of `dbf_len` as `unsigned long`s -/
theorem foldl_dbfLenAdd_eq (c : Config) : ∀ (rs : List Resident) (x u d : ℕ),
    rs.foldl (fun sums r => dbfLenAdd sums r.period r.deadline (r.ulongPercent c))
      (x % 2 ^ 64, u % 2 ^ 64, d) =
    ((x + (rs.map fun r => r.ulongGap * r.ulongPercent c).sum) % 2 ^ 64,
      (u + (rs.map (Resident.ulongPercent c)).sum) % 2 ^ 64, max d (residentsDeadline c rs)) := by
  intro rs
  induction rs with
  | nil => exact fun x u d => congrArg _ (congrArg _ (Nat.max_zero d).symm)
  | cons r rs ih =>
    intro x u d
    rw [List.foldl_cons, dbfLenAdd_eq, ih]
    unfold residentsDeadline maxDeadline
    rw [List.map_cons, List.map_cons, List.map_cons, List.sum_cons, List.sum_cons, List.foldr_cons,
      ← Nat.add_assoc, ← Nat.add_assoc, ← max_assoc]
    rfl

/-- The loop of `dbf_len` goes over the tasks on the CPU, and `rt` comes last. -/
theorem dbfLenSums_eq {sums sums' : ℕ × ℕ × ℕ}
    (h : s.list.foldlM (fun sums p => if s.splitIsOnCpu p cpu then dbfLenShare c s cpu p sums
      else if s.taskIsOnCpu p cpu then dbfLenTask c s p sums else pure sums) (0, 0, 0) = .ok sums)
    (hlast : (if s.splitIsOnCpu rt cpu then dbfLenShare c s cpu rt sums
      else dbfLenTask c s rt sums) = .ok sums') :
    sums' = (s.candidates c cpu rt).foldl
      (fun sums r => dbfLenAdd sums r.period r.deadline (r.ulongPercent c)) (0, 0, 0) := by
  unfold EdfWm.candidates
  rw [List.foldl_append, residents_eq, List.foldl_map, List.foldl_filter, dbfLenStep_eq hlast]
  congr 1
  refine foldlM_ok_eq (fun p _ sums sums' hstep => ?_) h
  rcases turn_cases hstep with ⟨hon, hstep⟩ | ⟨hoff, rfl⟩
  · rw [if_pos hon]
    exact dbfLenStep_eq hstep
  · rw [if_neg (by simp [hoff])]

theorem dbfLen_eq {len : ℕ} (h : dbfLen c s rt cpu = .ok len) :
    len = testLen c (s.candidates c cpu rt) := by
  unfold dbfLen at h
  obtain ⟨sums, hsums, h⟩ := bind_eq_ok.1 h
  have hbind : ((if s.splitIsOnCpu rt cpu then dbfLenShare c s cpu rt sums
      else dbfLenTask c s rt sums) >>= fun t => if 100 = t.2.1 then pure t.2.2
        else if 100 < t.2.1 then pure 0
        else div t.1 (100 - t.2.1) >>= fun q => pure (max q t.2.2)) = Except.ok len := by
    by_cases hsplit : s.splitIsOnCpu rt cpu = true
    · rw [if_pos hsplit] at h ⊢
      exact h
    · rw [if_neg hsplit] at h ⊢
      exact h
  obtain ⟨⟨x, u, d⟩, hlast, hlen⟩ := bind_eq_ok.1 hbind
  have hend := (dbfLenSums_eq hsums hlast).trans (foldl_dbfLenAdd_eq c _ 0 0 0)
  rw [Nat.zero_add, Nat.zero_add, Nat.zero_max, Prod.mk.injEq, Prod.mk.injEq] at hend
  obtain ⟨rfl, rfl, rfl⟩ := hend
  unfold testLen
  dsimp only at hlen ⊢
  split at hlen
  · rename_i h100
    cases hlen
    rw [if_pos h100]
  · rename_i h100
    rw [if_neg h100]
    split at hlen
    · rename_i hmore
      cases hlen
      rw [if_pos hmore]
    · rename_i hmore
      obtain ⟨q, hq, hlen⟩ := bind_eq_ok.1 hlen
      cases hlen
      rw [if_neg hmore, (div_eq_ok.1 hq).2]

end Checked.EdfWm

end Resch
