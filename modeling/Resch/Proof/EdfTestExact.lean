import Resch.Proof.DbfLen
import Resch.Proof.EdfWmExact
import Resch.Proof.Overhead

/-!
# The demand-bound tests with and without wrap-around

The tests of EDF-FF and EDF-WM in `unsigned long`s and with checked divisions, against those in
exact arithmetic.

* `LenInRange`, `DemandInRange`: nothing wraps in `dbf_len`, or at the deadlines that are tested.
* `testDeadlines_eq`, `testTasks_eq`: the loops, if they compare alike.
* `Checked.EdfFf.dbfTest_exact`, `Checked.EdfWm.dbfTest_exact`: in this range, a test that ends says
  what the exact one says.
-/

namespace Resch

open Lib

variable {c : Config} {rs : List Resident} {r : Resident} {us : ℕ → ℕ} {L Lmax period : ℕ} {b : Bool}

/-- Nothing that `dbf_len` computes from the tasks wraps. -/
structure LenInRange (c : Config) (rs : List Resident) : Prop where
  deadline_le : ∀ r ∈ rs, r.deadline ≤ r.period
  periodUs_lt : ∀ r ∈ rs, c.jiffiesToUsecs r.period < 2 ^ 32
  amount_lt : ∀ r ∈ rs, 100 * r.amount < 2 ^ 64
  percents_lt : percents c rs < 2 ^ 64
  gaps_lt : percentGaps c rs < 2 ^ 64

/-- Nothing that the test computes up to `Lmax` wraps. `us` is the overhead, in microseconds. -/
structure DemandInRange (c : Config) (rs : List Resident) (us : ℕ → ℕ) (Lmax : ℕ) : Prop where
  next_lt : ∀ r ∈ rs, Lmax + r.period < 2 ^ 64
  work_lt : ∀ L ≤ Lmax, ∀ r ∈ rs, ((L - r.deadline) / r.period + 1) * r.amount < 2 ^ 32
  us_lt : ∀ L ≤ Lmax, us L < 2 ^ 32
  demand_lt : ∀ L ≤ Lmax, dbfSum c rs L + c.usecsToJiffies (us L) < 2 ^ 64

/-! ## The length -/

theorem LenInRange.usecs_eq (h : LenInRange c rs) (hr : r ∈ rs) :
    c.usecs r.period = c.jiffiesToUsecs r.period := Nat.mod_eq_of_lt (h.periodUs_lt r hr)

theorem LenInRange.ulongPercent_eq (h : LenInRange c rs) (hr : r ∈ rs) :
    r.ulongPercent c = r.percent c := by
  unfold Resident.ulongPercent Resident.percent
  rw [h.usecs_eq hr]
  congr 1
  exact ulong_natCast (h.amount_lt r hr)

theorem LenInRange.ulongGap_eq (h : LenInRange c rs) (hr : r ∈ rs) :
    r.ulongGap = r.period - r.deadline := by
  have hperiod : r.period ≤ c.jiffiesToUsecs r.period := Nat.le_mul_of_pos_left _ c.tick_pos
  have hlt := h.periodUs_lt r hr
  have hle := h.deadline_le r hr
  unfold Resident.ulongGap
  rw [ulong_of_lt (by omega) (by omega)]
  omega

theorem LenInRange.percents_eq (h : LenInRange c rs) :
    (rs.map (Resident.ulongPercent c)).sum % 2 ^ 64 = percents c rs := by
  rw [List.map_congr_left fun r hr => h.ulongPercent_eq hr]
  exact Nat.mod_eq_of_lt h.percents_lt

theorem LenInRange.gaps_eq (h : LenInRange c rs) :
    (rs.map fun r => r.ulongGap * r.ulongPercent c).sum % 2 ^ 64 = percentGaps c rs := by
  have hgaps : (rs.map fun r => r.ulongGap * r.ulongPercent c) =
      rs.map fun r => (r.period - r.deadline) * r.percent c := by
    refine List.map_congr_left fun r hr => ?_
    rw [h.ulongPercent_eq hr, h.ulongGap_eq hr]
  rw [hgaps]
  exact Nat.mod_eq_of_lt h.gaps_lt

/-- With periods, the sums of `dbf_len` have values. -/
theorem dbfLenSum_of_pos : ∀ (rs : List Resident) (x u d : ℕ), (∀ r ∈ rs, 0 < r.period) →
    dbfLenSum c rs (x, u, d) = some (x + percentGaps c rs, u + percents c rs,
      max d (residentsDeadline c rs)) := by
  intro rs
  have hsome : ∀ (rs : List Resident) (sums : ℕ × ℕ × ℕ), (∀ r ∈ rs, 0 < r.period) →
      ∃ sums', dbfLenSum c rs sums = some sums' := by
    intro rs
    induction rs with
    | nil => exact fun sums _ => ⟨sums, rfl⟩
    | cons r rs ih =>
      rintro ⟨x, u, d⟩ h
      rw [List.forall_mem_cons] at h
      unfold dbfLenSum Resident.util
      rw [if_neg h.1.ne', Option.bind_some]
      exact ih _ h.2
  intro x u d h
  obtain ⟨sums, hsums⟩ := hsome rs (x, u, d) h
  rw [hsums, (dbfLenSum_eq hsums).2]

/-! ## The demand -/

/-- `dbf_task` as the processor computes it -/
def Resident.checkedDbf (c : Config) (r : Resident) (L : ℕ) : Except Fault ℕ :=
  if L < r.deadline then .ok 0
  else div (L - r.deadline) r.period >>= fun q =>
    let db := ulong ((ulong ((q : ℤ) + 1) : ℕ) * (r.amount : ℤ))
    .ok (if r.share then db else c.jiffies db)

/-- If it is in range and the period is not zero, it is exact. -/
theorem Resident.checkedDbf_eq {t : ℕ}
    (hwork : ((L - r.deadline) / r.period + 1) * r.amount < 2 ^ 32)
    (h : r.checkedDbf c L = .ok t) : t = r.dbfTask c L := by
  unfold checkedDbf at h
  unfold dbfTask
  split at h
  · rename_i hL
    rw [if_pos hL]
    exact (Except.ok.inj h).symm
  · rename_i hL
    obtain ⟨q, hq, h⟩ := bind_eq_ok.1 h
    obtain ⟨-, rfl⟩ := div_eq_ok.1 hq
    rw [if_neg hL]
    generalize (L - r.deadline) / r.period = n at h hwork ⊢
    have hdb : ulong ((ulong ((n : ℤ) + 1) : ℕ) * (r.amount : ℤ)) = (n + 1) * r.amount := by
      rcases Nat.eq_zero_or_pos r.amount with hzero | hpos
      · rw [hzero, Nat.cast_zero, mul_zero, Nat.mul_zero]
        rfl
      · have hn : n + 1 ≤ (n + 1) * r.amount := Nat.le_mul_of_pos_right _ hpos
        rw [← Nat.cast_one, ← Nat.cast_add, ulong_natCast (by omega), ← Nat.cast_mul,
          ulong_natCast (by omega)]
    dsimp only at h ⊢
    rw [hdb] at h
    rw [← Except.ok.inj h]
    split
    · rfl
    · exact congrArg c.usecsToJiffies (Nat.mod_eq_of_lt hwork)

/-- The loop of `dbf_cpu` over the list, of which `q` selects the tasks on the CPU -/
theorem foldlM_checkedDbf {q : ℕ → Bool} {resident : ℕ → Resident} : ∀ (l : List ℕ) {o v : ℕ},
    (∀ r ∈ (l.filter q).map resident, ((L - r.deadline) / r.period + 1) * r.amount < 2 ^ 32) →
    o + dbfSum c ((l.filter q).map resident) L < 2 ^ 64 →
    l.foldlM (fun sum p => if q p then (resident p).checkedDbf c L >>= fun t =>
      .ok (ulong ((sum : ℤ) + t)) else .ok sum) o = .ok v →
      v = o + dbfSum c ((l.filter q).map resident) L := by
  intro l
  induction l with
  | nil => exact fun _ _ h => (Except.ok.inj h).symm
  | cons p l ih =>
    intro o v hwork hlt h
    rw [List.foldlM_cons] at h
    obtain ⟨o', hturn, h⟩ := bind_eq_ok.1 h
    by_cases hq : q p = true
    · rw [List.filter_cons_of_pos hq, List.map_cons] at hwork hlt ⊢
      rw [dbfSum_cons] at hlt ⊢
      rw [if_pos hq] at hturn
      obtain ⟨t, ht, hturn⟩ := bind_eq_ok.1 hturn
      rw [List.forall_mem_cons] at hwork
      have htask := Resident.checkedDbf_eq hwork.1 ht
      have ho' : o' = o + (resident p).dbfTask c L := by
        rw [← Except.ok.inj hturn, ← htask, ← Nat.cast_add, ulong_natCast (by omega)]
      rw [ih hwork.2 (by omega) h, ho', Nat.add_assoc]
    · rw [List.filter_cons_of_neg hq] at hwork hlt ⊢
      rw [if_neg hq] at hturn
      rw [Except.ok.inj hturn]
      exact ih hwork (by rw [← Except.ok.inj hturn]; exact hlt) h

/-! ## The loops -/

section Loops

variable {check : ℕ → Except Fault Bool} {fits : ℕ → Bool}

/-- The loop of a test over the deadlines of a task, if its comparison is the exact one. The exact
loop has turns enough to get beyond `Lmax`. -/
theorem testDeadlines_eq {g : ℕ → ℕ → Except Fault Bool}
    (hzero : ∀ L, g 0 L = .error .outOfFuel)
    (hsucc : ∀ n L, g (n + 1) L = if L ≤ Lmax then check L >>= fun b =>
      if b = true then g n (ulong ((L : ℤ) + period)) else .ok false else .ok true)
    (hcheck : ∀ L ≤ Lmax, ∀ b, check L = .ok b → b = fits L) (hnext : Lmax + period < 2 ^ 64)
    (hperiod : 0 < period) : ∀ fuel {L n : ℕ}, g fuel L = .ok b → Lmax < L + n →
      b = testDeadlines fits Lmax period n L := by
  intro fuel
  induction fuel with
  | zero =>
    intro L n h
    rw [hzero] at h
    cases h
  | succ fuel ih =>
    intro L n h hn
    rw [hsucc] at h
    split at h
    · rename_i hL
      obtain ⟨fit, hfit, h⟩ := bind_eq_ok.1 h
      obtain ⟨n, rfl⟩ : ∃ m, n = m + 1 := ⟨n - 1, by omega⟩
      unfold testDeadlines
      rw [if_pos hL, ← hcheck L hL fit hfit]
      split at h
      · rename_i hfits
        rw [← Nat.cast_add, ulong_natCast (by omega)] at h
        rw [hfits, Bool.true_and]
        exact ih h (by omega)
      · rename_i hfits
        rw [Bool.not_eq_true] at hfits
        rw [hfits, Bool.false_and]
        exact (Except.ok.inj h).symm
    · rename_i hL
      rw [← Except.ok.inj h]
      cases n with
      | zero => rfl
      | succ n =>
        unfold testDeadlines
        rw [if_neg hL]

/-- The loop of a test over the tasks -/
theorem testTasks_eq {g : List ℕ → Except Fault Bool} {loop : ℕ → Except Fault Bool}
    {q : ℕ → Bool} {resident : ℕ → Resident} (hnil : g [] = .ok true)
    (hcons : ∀ p ps, g (p :: ps) = if q p then loop p >>= fun b =>
      if b = true then g ps else .ok false else g ps) :
    ∀ (ps : List ℕ), (∀ p ∈ ps, q p = true → ∀ b, loop p = .ok b →
      b = testDeadlines fits Lmax (resident p).period (Lmax + 1) (resident p).deadline) →
      ∀ {b : Bool}, g ps = .ok b → b = testResidents fits Lmax ((ps.filter q).map resident) := by
  intro ps
  induction ps with
  | nil =>
    intro _ b h
    rw [hnil] at h
    exact (Except.ok.inj h).symm
  | cons p ps ih =>
    intro hloop b h
    rw [List.forall_mem_cons] at hloop
    rw [hcons] at h
    split at h
    · rename_i hq
      obtain ⟨b', hb', h⟩ := bind_eq_ok.1 h
      have htest := hloop.1 hq b' hb'
      rw [List.filter_cons_of_pos hq, List.map_cons]
      unfold testResidents
      rw [List.all_cons, ← htest]
      split at h
      · rename_i hgoes
        rw [hgoes, Bool.true_and]
        exact ih hloop.2 h
      · rename_i hstops
        rw [Bool.not_eq_true] at hstops
        rw [hstops, Bool.false_and]
        exact (Except.ok.inj h).symm
    · rename_i hq
      rw [List.filter_cons_of_neg hq]
      exact ih hloop.2 h

end Loops

/-! ## The comparison -/

/-- The two overheads of the core, in microseconds -/
def TaskSet.overheadUs (c : Config) (s : TaskSet) (rt cpu L : ℕ) : ℕ :=
  s.schedOverheadCpu c cpu L + s.schedOverheadTask c rt L

theorem Checked.overheadAt_exact {s : TaskSet} {rt cpu o : ℕ}
    (h : overheadAt c s rt cpu L = .ok o) (hus : s.overheadUs c rt cpu L < 2 ^ 32) :
    o = s.overhead c rt L cpu := by
  obtain ⟨oc, hoc, h⟩ := bind_eq_ok.1 h
  obtain ⟨ot, hot, h⟩ := bind_eq_ok.1 h
  rw [← Except.ok.inj h, schedOverheadCpu_value hoc, schedOverheadTask_value hot]
  have hulong : ulong ((s.schedOverheadCpu c cpu L + s.schedOverheadTask c rt L : ℕ) : ℤ) =
      s.schedOverheadCpu c cpu L + s.schedOverheadTask c rt L :=
    ulong_natCast (lt_trans hus (by norm_num))
  show c.jiffies (ulong _) = _
  rw [hulong]
  exact congrArg c.usecsToJiffies (Nat.mod_eq_of_lt hus)

/-- The comparison at a deadline, with the demand of the tasks there, of the new task, and the
overhead -/
theorem DemandInRange.fits_eq {x y z : Except Fault ℕ} (h : DemandInRange c (rs ++ [r]) us Lmax)
    (hL : L ≤ Lmax) (hx : ∀ v, x = .ok v → v = dbfSum c rs L)
    (hy : ∀ v, y = .ok v → v = r.dbfTask c L)
    (hz : ∀ v, z = .ok v → v = c.usecsToJiffies (us L))
    (hb : (do let demand := (← x) + (← y) + (← z); return decide (ulong demand ≤ L)) = .ok b) :
    b = decide (dbfSum c rs L + r.dbfTask c L + c.usecsToJiffies (us L) ≤ L) := by
  obtain ⟨v, hv, hb⟩ := bind_eq_ok.1 hb
  obtain ⟨w, hw, hb⟩ := bind_eq_ok.1 hb
  obtain ⟨o, ho, hb⟩ := bind_eq_ok.1 hb
  have hlt := h.demand_lt L hL
  rw [dbfSum_concat, ← hx v hv, ← hy w hw, ← hz o ho] at hlt
  rw [← Except.ok.inj hb, ← hx v hv, ← hy w hw, ← hz o ho]
  show decide (ulong ((v + w + o : ℕ) : ℤ) ≤ L) = _
  rw [ulong_natCast hlt]

/-! ## EDF-FF -/

namespace Checked.EdfFf

open Resch.EdfFf (candidates resident residents)

variable {s : TaskSet} {rt cpu p fuel : ℕ}

theorem dbfTask_checked (c : Config) (s : TaskSet) (p L : ℕ) :
    dbfTask c s p L = (resident s p).checkedDbf c L := by
  unfold dbfTask Resident.checkedDbf resident
  dsimp only
  split <;> rfl

theorem dbfCpu_exact {v : ℕ}
    (hwork : ∀ r ∈ residents s cpu, ((L - r.deadline) / r.period + 1) * r.amount < 2 ^ 32)
    (hlt : dbfSum c (residents s cpu) L < 2 ^ 64) (h : dbfCpu c s cpu L = .ok v) :
    v = dbfSum c (residents s cpu) L := by
  unfold dbfCpu at h
  simp only [dbfTask_checked] at h
  have hsum := foldlM_checkedDbf (q := (s.taskIsOnCpu · cpu)) s.list hwork
    (by rw [Nat.zero_add]; exact hlt) h
  rwa [Nat.zero_add] at hsum

theorem fits_exact (h : DemandInRange c (candidates s cpu rt) (s.overheadUs c rt cpu) Lmax)
    (hL : L ≤ Lmax) (hb : fits c s rt cpu L = .ok b) : b = Resch.EdfFf.fits c s cpu rt L := by
  have hlt := h.demand_lt L hL
  unfold candidates at h hlt
  rw [dbfSum_append] at hlt
  refine h.fits_eq hL (fun v hv => ?_) (fun v hv => ?_) (fun v hv => ?_) hb
  · exact dbfCpu_exact (fun r hr => h.work_lt L hL r (List.mem_append_left _ hr)) (by omega) hv
  · rw [dbfTask_checked] at hv
    exact Resident.checkedDbf_eq
      (h.work_lt L hL _ (List.mem_append_right _ (List.mem_singleton.2 rfl))) hv
  · exact overheadAt_exact hv (h.us_lt L hL)

/-- A length has been computed only if no utilisation has divided by zero. -/
theorem util_of_dbfLen {len : ℕ} (h : dbfLen c s rt cpu = .ok len) : ∀ p ∈ counted s rt cpu,
    c.usecs (s.task p).period ≠ 0 ∧ util c s p = .ok ((resident s p).ulongPercent c) := by
  have hturn : ∀ p sums t, dbfLenTask c s p sums = .ok t →
      c.usecs (s.task p).period ≠ 0 ∧ util c s p = .ok ((resident s p).ulongPercent c) := by
    intro p sums t ht
    obtain ⟨v, hv, -⟩ := bind_eq_ok.1 ht
    obtain ⟨hne, hval⟩ := div_eq_ok.1 hv
    exact ⟨hne, hv.trans (congrArg Except.ok hval)⟩
  obtain ⟨sums, hsums, h⟩ := bind_eq_ok.1 h
  obtain ⟨t, ht, -⟩ := bind_eq_ok.1 h
  intro p hp
  rcases List.mem_append.1 hp with hp | hp
  · obtain ⟨hp, hcpu⟩ := List.mem_filter.1 hp
    obtain ⟨a, b, hab⟩ := foldlM_ok_mem hsums hp
    rw [if_pos hcpu] at hab
    exact hturn p a b hab
  · rw [List.mem_singleton.1 hp]
    exact hturn rt sums t ht

theorem candidates_eq (s : TaskSet) (cpu rt : ℕ) :
    candidates s cpu rt = (counted s rt cpu).map (resident s) := by
  unfold candidates residents counted
  rw [List.map_append, List.map_singleton]

theorem dbfLen_exact (hlen : LenInRange c (candidates s cpu rt))
    (h : dbfLen c s rt cpu = .ok Lmax) :
    (∀ r ∈ candidates s cpu rt, 0 < r.period) ∧ Resch.EdfFf.dbfLen c s cpu rt = some Lmax := by
  have hutil := util_of_dbfLen h
  have hpos : ∀ r ∈ candidates s cpu rt, 0 < r.period := by
    intro r hr
    rw [candidates_eq] at hr
    obtain ⟨p, hp, rfl⟩ := List.mem_map.1 hr
    exact Nat.pos_of_ne_zero (period_ne_zero (hutil p hp).1)
  refine ⟨hpos, ?_⟩
  rw [dbfLen_eq_foldl fun p hp => (hutil p hp).2] at h
  have hfold : (counted s rt cpu).foldl (fun sums p => EdfWm.dbfLenAdd sums (s.task p).period
      (s.task p).deadline ((resident s p).ulongPercent c)) (0, 0, 0) =
      (percentGaps c (candidates s cpu rt), percents c (candidates s cpu rt),
        residentsDeadline c (candidates s cpu rt)) := by
    have hsums := EdfWm.foldl_dbfLenAdd_eq c (candidates s cpu rt) 0 0 0
    rw [Nat.zero_add, Nat.zero_add, Nat.zero_max, hlen.percents_eq, hlen.gaps_eq] at hsums
    rw [← hsums, candidates_eq, List.foldl_map]
    rfl
  rw [hfold] at h
  unfold Resch.EdfFf.dbfLen
  rw [show residents s cpu ++ [resident s rt] = candidates s cpu rt from rfl,
    dbfLenSum_of_pos _ 0 0 0 hpos, Nat.zero_add, Nat.zero_add, Nat.zero_max, Option.map_some]
  dsimp only at h ⊢
  split at h
  · rename_i hfull
    rw [if_pos hfull, Except.ok.inj h]
  · rename_i hfree
    rw [div_of_ne (by omega)] at h
    rw [if_neg hfree, ← Except.ok.inj h]

/-- **EDF-FF's test** says what the exact one says if nothing wraps. -/
theorem dbfTest_exact (hlen : LenInRange c (candidates s cpu rt))
    (hdemand : ∀ Lmax, Resch.EdfFf.dbfLen c s cpu rt = some Lmax →
      DemandInRange c (candidates s cpu rt) (s.overheadUs c rt cpu) Lmax)
    (h : dbfTest c s rt cpu fuel = .ok b) : Resch.EdfFf.dbfTest c s cpu rt = some b := by
  unfold dbfTest at h
  unfold Resch.EdfFf.dbfTest
  by_cases hw : (s.task rt).wcet = 0
  · rw [if_pos hw] at h ⊢
    exact congrArg some (Except.ok.inj h)
  · rw [if_neg hw] at h ⊢
    obtain ⟨Lmax, hLmax, h⟩ := bind_eq_ok.1 h
    obtain ⟨b', hb', h⟩ := bind_eq_ok.1 h
    obtain ⟨hpos, hexact⟩ := dbfLen_exact hlen hLmax
    have hd := hdemand Lmax hexact
    have hloop : ∀ p ∈ counted s rt cpu, ∀ b, testDeadlines c s rt cpu Lmax (s.task p).period fuel
        (s.task p).deadline = .ok b → b = Resch.testDeadlines (Resch.EdfFf.fits c s cpu rt) Lmax
          (s.task p).period (Lmax + 1) (s.task p).deadline := by
      intro p hp b hb
      have hr : resident s p ∈ candidates s cpu rt := by
        rw [candidates_eq]
        exact List.mem_map_of_mem hp
      exact testDeadlines_eq (fun _ => rfl) (fun _ _ => rfl) (fun L hL b hb => fits_exact hd hL hb)
        (hd.next_lt _ hr) (hpos _ hr) fuel hb (by omega)
    have htasks : b' = testResidents (Resch.EdfFf.fits c s cpu rt) Lmax (residents s cpu) :=
      testTasks_eq (q := (s.taskIsOnCpu · cpu)) rfl (fun _ _ => rfl) s.list
        (fun p hp hq => hloop p (List.mem_append_left _ (List.mem_filter.2 ⟨hp, hq⟩))) hb'
    rw [hexact, Option.map_some, ← htasks]
    cases b' with
    | true =>
      rw [Bool.true_and, ← hloop rt (List.mem_append_right _ (List.mem_singleton.2 rfl)) b h]
    | false =>
      rw [Bool.false_and]
      exact congrArg some (Except.ok.inj h)

end Checked.EdfFf

/-! ## EDF-WM -/

namespace Checked.EdfWm

variable {s : EdfWm} {rt cpu p fuel : ℕ}

theorem dbfTask_checked (c : Config) (s : EdfWm) (cpu p L : ℕ) :
    dbfTask c s cpu p L = (s.resident c cpu p).checkedDbf c L := dbfTask_eq c s cpu p L

theorem dbfCpu_exact {v : ℕ}
    (hwork : ∀ r ∈ s.residents c cpu, ((L - r.deadline) / r.period + 1) * r.amount < 2 ^ 32)
    (hlt : dbfSum c (s.residents c cpu) L < 2 ^ 64) (h : dbfCpu c s cpu L = .ok v) :
    v = dbfSum c (s.residents c cpu) L := by
  unfold dbfCpu at h
  simp only [dbfTask_checked] at h
  have hsum := foldlM_checkedDbf (q := onCpu s cpu) s.list hwork
    (by rw [Nat.zero_add]; exact hlt) h
  rwa [Nat.zero_add] at hsum

theorem fits_exact
    (h : DemandInRange c (s.candidates c cpu rt) (s.toTaskSet.overheadUs c rt cpu) Lmax)
    (hL : L ≤ Lmax) (hb : fits c s rt cpu L = .ok b) : b = s.fits c cpu rt L := by
  have hlt := h.demand_lt L hL
  unfold EdfWm.candidates at h hlt
  rw [dbfSum_append] at hlt
  refine h.fits_eq hL (fun v hv => ?_) (fun v hv => ?_) (fun v hv => ?_) hb
  · exact dbfCpu_exact (fun r hr => h.work_lt L hL r (List.mem_append_left _ hr)) (by omega) hv
  · rw [dbfTask_checked] at hv
    exact Resident.checkedDbf_eq
      (h.work_lt L hL _ (List.mem_append_right _ (List.mem_singleton.2 rfl))) hv
  · exact overheadAt_exact hv (h.us_lt L hL)

/-- A share has the period of its task. -/
theorem resident_period (c : Config) (s : EdfWm) (cpu p : ℕ) :
    (s.resident c cpu p).period = (s.task p).period := by
  by_cases hsplit : s.splitIsOnCpu p cpu = true
  · rw [resident_share hsplit]
  · rw [resident_whole hsplit]

/-- A length has been computed only if no utilisation has divided by zero. -/
theorem period_of_dbfLen {len : ℕ} (h : dbfLen c s rt cpu = .ok len) :
    ∀ r ∈ s.candidates c cpu rt, 0 < r.period := by
  have hshare : ∀ p sums t, dbfLenShare c s cpu p sums = .ok t → 0 < (s.task p).period := by
    intro p sums t ht
    obtain ⟨v, hv, -⟩ := bind_eq_ok.1 ht
    exact Nat.pos_of_ne_zero (period_ne_zero (div_eq_ok.1 hv).1)
  have htask : ∀ p sums t, dbfLenTask c s p sums = .ok t → 0 < (s.task p).period := by
    intro p sums t ht
    obtain ⟨v, hv, -⟩ := bind_eq_ok.1 ht
    exact Nat.pos_of_ne_zero (period_ne_zero (div_eq_ok.1 hv).1)
  obtain ⟨sums, hsums, h⟩ := bind_eq_ok.1 h
  intro r hr
  rcases List.mem_append.1 hr with hr | hr
  · obtain ⟨p, hp, rfl⟩ := List.mem_map.1 hr
    obtain ⟨hp, hon⟩ := List.mem_filter.1 hp
    obtain ⟨a, b, hab⟩ := foldlM_ok_mem hsums hp
    rw [resident_period]
    split at hab
    · exact hshare p a b hab
    · rename_i hsplit
      rw [Bool.or_eq_true] at hon
      rw [if_pos (hon.resolve_right hsplit)] at hab
      exact htask p a b hab
  · rw [List.mem_singleton.1 hr, resident_period]
    by_cases hsplit : s.splitIsOnCpu rt cpu = true
    · rw [if_pos hsplit] at h
      obtain ⟨t, ht, -⟩ := bind_eq_ok.1 h
      exact hshare rt sums t ht
    · rw [if_neg hsplit] at h
      obtain ⟨t, ht, -⟩ := bind_eq_ok.1 h
      exact htask rt sums t ht

theorem dbfLen_exact (hlen : LenInRange c (s.candidates c cpu rt))
    (h : dbfLen c s rt cpu = .ok Lmax) : s.dbfLen c cpu rt = some Lmax := by
  rw [dbfLen_eq h]
  unfold Resch.EdfWm.dbfLen testLen
  rw [show s.residents c cpu ++ [s.resident c cpu rt] = s.candidates c cpu rt from rfl,
    dbfLenSum_of_pos _ 0 0 0 (period_of_dbfLen h), Nat.zero_add, Nat.zero_add, Nat.zero_max,
    hlen.percents_eq, hlen.gaps_eq]
  rfl

/-- **EDF-WM's test** says what the exact one says if nothing wraps. -/
theorem dbfTest_exact (hlen : LenInRange c (s.candidates c cpu rt))
    (hdemand : ∀ Lmax, s.dbfLen c cpu rt = some Lmax →
      DemandInRange c (s.candidates c cpu rt) (s.toTaskSet.overheadUs c rt cpu) Lmax)
    (h : dbfTest c s rt cpu fuel = .ok b) : s.dbfTest c cpu rt = some b := by
  unfold dbfTest at h
  unfold Resch.EdfWm.dbfTest
  by_cases hw : (s.task rt).C c = 0
  · rw [if_pos hw] at h ⊢
    exact congrArg some (Except.ok.inj h)
  rw [if_neg hw] at h ⊢
  obtain ⟨Lmax, hLmax, h⟩ := bind_eq_ok.1 h
  have hexact := dbfLen_exact hlen hLmax
  have hd := hdemand Lmax hexact
  rw [hexact, Option.map_some]
  by_cases hzero : Lmax = 0
  · rw [if_pos hzero] at h ⊢
    exact congrArg some (Except.ok.inj h)
  rw [if_neg hzero] at h ⊢
  obtain ⟨b', hb', h⟩ := bind_eq_ok.1 h
  have hloop : ∀ r ∈ s.candidates c cpu rt, ∀ deadline b,
      testDeadlines c s rt cpu Lmax r.period fuel deadline = .ok b →
        b = Resch.testDeadlines (s.fits c cpu rt) Lmax r.period (Lmax + 1) deadline := by
    intro r hr deadline b hb
    exact testDeadlines_eq (fun _ => rfl) (fun _ _ => rfl) (fun L hL b hb => fits_exact hd hL hb)
      (hd.next_lt r hr) (period_of_dbfLen hLmax r hr) fuel hb (by omega)
  -- a task with a share on the CPU is tested at the deadlines of the share
  have hcons : ∀ p ps, testTasks c s rt cpu fuel Lmax (p :: ps) = if onCpu s cpu p then
      testDeadlines c s rt cpu Lmax (s.resident c cpu p).period fuel (s.resident c cpu p).deadline >>=
        fun b => if b = true then testTasks c s rt cpu fuel Lmax ps else .ok false
      else testTasks c s rt cpu fuel Lmax ps := by
    intro p ps
    rw [testTasks]
    unfold onCpu
    by_cases hsplit : s.splitIsOnCpu p cpu = true
    · rw [if_pos hsplit, hsplit, Bool.or_true, if_pos rfl, resident_share hsplit]
      rfl
    · rw [if_neg hsplit, resident_whole hsplit, Bool.eq_false_of_not_eq_true hsplit, Bool.or_false]
      rfl
  have htasks : b' = testResidents (s.fits c cpu rt) Lmax (s.residents c cpu) :=
    testTasks_eq rfl hcons s.list (fun p hp hq => hloop _ (List.mem_append_left _
      (List.mem_map_of_mem (List.mem_filter.2 ⟨hp, hq⟩))) _) hb'
  rw [← htasks]
  cases b' with
  | true =>
    have hown : s.resident c cpu rt ∈ s.candidates c cpu rt :=
      List.mem_append_right _ (List.mem_singleton.2 rfl)
    rw [Bool.true_and, ← resident_period c s cpu rt,
      ← hloop _ hown _ b (by rw [resident_period]; exact h)]
  | false =>
    rw [Bool.false_and]
    exact congrArg some (Except.ok.inj h)

end Checked.EdfWm

end Resch
