import Resch.Proof.EdfWmShare

/-!
# What the loops of `set_split_runtime` come to

As long as no sum goes out of range, the share is the least of what is left at the deadlines where
the loops look, and which ones these are can be told before the loops run.

* `looked`, `left`, `room`: the deadlines, what is left at each of them, and the least of it.
* `Exact`: no subtraction wraps, step by step of the loops. `WrapFree`: the same in the parameters.
* `InRange.loops_spec`: the loops take `looked` in turn.
* `InRange.setSplitRuntime_spec`: no subtraction wraps iff `WrapFree`, and then the share is `room`.
-/

namespace Resch.Checked.EdfWm

open Lib

variable {c : Config} {s s' : EdfWm} {rt cpu p k x N M E L T num fuel : ℕ} {b : Bool}
  {r r' r₁ : Share} {q : ℕ × ℕ} {qs : List (ℕ × ℕ)} {Ls Ls' : List ℕ}

/-! ## The deadlines -/

/-- The deadlines of a loop up to `M` -/
def upTo (M : ℕ) (q : ℕ × ℕ) : List ℕ :=
  if q.1 ≤ M then (List.range ((M - q.1) / q.2 + 1)).map (q.1 + · * q.2) else []

/-- The deadlines that loops come to which are to end at `N`, the first one not before `E` -/
def looked (N E : ℕ) : List (ℕ × ℕ) → List ℕ
  | [] => []
  | q :: qs => upTo (max N E) q ++ qs.flatMap (upTo N)

theorem upTo_cons (hT : 0 < T) (hL : L ≤ M) : upTo M (L, T) = L :: upTo M (L + T, T) := by
  unfold upTo
  rw [if_pos hL, List.range_succ_eq_map, List.map_cons, List.map_map, Nat.zero_mul, Nat.add_zero]
  congr 1
  by_cases hnext : L + T ≤ M
  · have hdiv : (M - L) / T = (M - (L + T)) / T + 1 := by
      rw [← Nat.add_div_right _ hT]
      congr 1
      omega
    rw [if_pos hnext, hdiv]
    refine List.map_congr_left fun n _ => ?_
    dsimp only [Function.comp_apply]
    rw [Nat.succ_mul]
    omega
  · rw [if_neg hnext, Nat.div_eq_of_lt (by dsimp only; omega)]
    rfl

theorem upTo_nil (hL : M < L) : upTo M (L, T) = [] := if_neg (not_le.2 hL)

theorem mem_upTo {n : ℕ} (hT : 0 < T) (h : L + n * T ≤ M) : L + n * T ∈ upTo M (L, T) := by
  unfold upTo
  rw [if_pos (by dsimp only; omega)]
  refine List.mem_map.2 ⟨n, List.mem_range.2 (Nat.lt_succ_of_le ?_), rfl⟩
  rw [Nat.le_div_iff_mul_le hT]
  dsimp only
  omega

/-- From beyond `E` on it does not matter. -/
theorem upTo_max (hE : E < L) : upTo (max N E) (L, T) = upTo N (L, T) := by
  rcases le_total N E with hle | hle
  · rw [max_eq_right hle, upTo_nil hE, upTo_nil (hle.trans_lt hE)]
  · rw [max_eq_left hle]

/-! ## What is left -/

/-- `util_cpu`, in the parameters -/
def percentsOn (c : Config) (s : EdfWm) (cpu : ℕ) : ℕ :=
  ((s.residents c cpu).map (Resident.ulongPercent c)).sum % 2 ^ 64

/-- `(100 - util_cpu) * period / 100` -/
def unused (c : Config) (s : EdfWm) (rt cpu : ℕ) : ℕ := firstRuntime s rt (percentsOn c s cpu)

/-- What the tasks on the CPU and the overhead take of `L` -/
def dueAt (c : Config) (s : EdfWm) (rt cpu L : ℕ) : ℕ :=
  match dbfCpu c s cpu L, overhead c s rt cpu L with
  | .ok v, .ok o => v + o
  | _, _ => 0

/-- What they leave, for each window in `L` -/
def left (c : Config) (s : EdfWm) (rt cpu L : ℕ) : ℕ :=
  (L - dueAt c s rt cpu L) / windows s rt L

/-- The least of `x` and what is left -/
def lowest (c : Config) (s : EdfWm) (rt cpu : ℕ) (x : ℕ) (Ls : List ℕ) : ℕ :=
  Ls.foldl (fun x L => min x (left c s rt cpu L)) x

/-- The deadlines where `set_split_runtime` looks. The loops are to end at the test length of a
share. -/
def lookedAt (c : Config) (s : EdfWm) (rt cpu E : ℕ) : List ℕ :=
  looked (lenOf c s rt cpu 1) E (loops s rt cpu)

/-- What a CPU has for the task -/
def room (c : Config) (s : EdfWm) (rt cpu E : ℕ) : ℕ :=
  lowest c s rt cpu (unused c s rt cpu) (lookedAt c s rt cpu E)

theorem lowest_append (x : ℕ) (Ls Ls' : List ℕ) : lowest c s rt cpu x (Ls ++ Ls') =
    lowest c s rt cpu (lowest c s rt cpu x Ls) Ls' :=
  List.foldl_append ..

theorem lowest_le (x : ℕ) (Ls : List ℕ) : lowest c s rt cpu x Ls ≤ x := by
  induction Ls generalizing x with
  | nil => exact le_rfl
  | cons L Ls ih => exact (ih _).trans (min_le_left _ _)

theorem lowest_zero (h : ∃ L ∈ Ls, left c s rt cpu L = 0) : lowest c s rt cpu x Ls = 0 := by
  obtain ⟨L, hL, h0⟩ := h
  obtain ⟨l, l', rfl⟩ := List.append_of_mem hL
  rw [lowest_append]
  exact Nat.eq_zero_of_le_zero ((lowest_le _ l').trans ((min_le_right _ _).trans h0.le))

/-! ## Subtractions -/

/-- Neither the window nor demand and overhead are more than `L`. -/
def LeftExact (c : Config) (s : EdfWm) (rt cpu L : ℕ) : Prop :=
  (s.edfWmTask rt).deadline ≤ L ∧
    ∀ v o, dbfCpu c s cpu L = .ok v → overhead c s rt cpu L = .ok o → ulong ((v : ℤ) + o) ≤ L

/-- No deadline that `dbf_len` takes from a period is longer than it. -/
def SlackExact (s : EdfWm) (rt cpu : ℕ) : Prop :=
  ∀ p, p = rt ∨ p ∈ s.list ∧ onCpu s cpu p = true →
    (if s.splitIsOnCpu p cpu then (s.edfWmTask p).deadline else (s.task p).deadline) ≤
      (s.task p).period

/-- The loop of `set_split_runtime` over the deadlines of one task -/
def DeadlinesExact (c : Config) (rt cpu period : ℕ) : ℕ → ℕ → Share → Prop
  | 0, _, _ => True
  | fuel + 1, L, r => L ≤ r.Lmax → LeftExact c r.s rt cpu L ∧
    ∀ runtime, windowRuntime c r.s rt cpu L = .ok runtime →
      if runtime ≤ r.runtimeMin then
        runtime ≠ 0 → SlackExact (setRuntime r.s rt cpu runtime) rt cpu ∧
          ∀ Lmax, dbfLen c (setRuntime r.s rt cpu runtime) rt cpu = .ok Lmax →
            DeadlinesExact c rt cpu period fuel (ulong (L + period))
              ⟨setRuntime r.s rt cpu 0, runtime, Lmax⟩
      else DeadlinesExact c rt cpu period fuel (ulong (L + period)) r

/-- The loop of `set_split_runtime` over the tasks -/
def TasksExact (c : Config) (rt cpu fuel : ℕ) : List ℕ → Share → Prop
  | [], _ => True
  | p :: ps, r =>
    if onCpu r.s cpu p then
      let L := if r.s.splitIsOnCpu p cpu then (r.s.edfWmTask rt).deadline else (r.s.task p).deadline
      DeadlinesExact c rt cpu (r.s.task p).period fuel L r ∧
        ∀ r', shareDeadlines c rt cpu (r.s.task p).period fuel L r = .ok (true, r') →
          TasksExact c rt cpu fuel ps r'
    else TasksExact c rt cpu fuel ps r

/-- `set_split_runtime` -/
def ShareExact (c : Config) (s : EdfWm) (rt cpu fuel : ℕ) : Prop :=
  ∀ u, utilCpu c s cpu = .ok u → u ≤ 100 ∧
    TasksExact c rt cpu fuel s.list ⟨s, firstRuntime s rt u, 2 ^ 64 - 1⟩ ∧
    ∀ r, shareTasks c rt cpu fuel s.list ⟨s, firstRuntime s rt u, 2 ^ 64 - 1⟩ = .ok (true, r) →
      DeadlinesExact c rt cpu (r.s.task rt).period fuel (r.s.edfWmTask rt).deadline r

/-- All calls of `set_split_runtime`, with up to `num` windows -/
def Exact (c : Config) (s : EdfWm) (rt fuel num : ℕ) : Prop :=
  ∀ n, 2 ≤ n → n ≤ num → ∀ cpu < c.nrRtCpus, ∀ s₁,
    (List.range cpu).foldlM (fun s cpu => setSplitRuntime c s rt cpu fuel) (withWindow s rt n) =
      .ok s₁ → ShareExact c s₁ rt cpu fuel

/-! ## Subtractions in the parameters -/

/-- Each deadline is past the window and not overloaded, up to the first one that leaves nothing. -/
def Sound (c : Config) (s : EdfWm) (rt cpu : ℕ) : List ℕ → Prop
  | [] => True
  | L :: Ls => ((s.edfWmTask rt).deadline ≤ L ∧ dueAt c s rt cpu L ≤ L) ∧
    (0 < left c s rt cpu L → Sound c s rt cpu Ls)

/-- Deadlines are not longer than periods on the CPU. -/
def Constrained (s : EdfWm) (rt cpu : ℕ) : Prop :=
  (s.edfWmTask rt).deadline ≤ (s.task rt).period ∧
    ∀ p ∈ s.list, p ≠ rt → onCpu s cpu p = true →
      (if s.splitIsOnCpu p cpu then (s.edfWmTask p).deadline else (s.task p).deadline) ≤
        (s.task p).period

/-- The CPU is not beyond a hundred percent, its deadlines are sound, and if a share is tried they
are constrained. -/
structure WrapFree (c : Config) (s : EdfWm) (rt cpu E : ℕ) : Prop where
  percents : percentsOn c s cpu ≤ 100
  sound : Sound c s rt cpu (lookedAt c s rt cpu E)
  constrained : 0 < left c s rt cpu E → Constrained s rt cpu

/-- `E` is the first deadline of the first loop that leaves no more than the percents do. -/
def Tightens (c : Config) (s : EdfWm) (rt cpu E : ℕ) : Prop :=
  ∃ q qs n, loops s rt cpu = q :: qs ∧ E = q.1 + n * q.2 ∧
    (∀ m < n, unused c s rt cpu < left c s rt cpu (q.1 + m * q.2)) ∧
      left c s rt cpu E ≤ unused c s rt cpu

/-- No sum of the loops goes out of range, and the test length is the same for all shares. -/
structure InRange (c : Config) (s : EdfWm) (rt cpu E : ℕ) : Prop where
  tightens : Tightens c s rt cpu E
  len : ∀ x, 0 < x → x ≤ unused c s rt cpu → lenOf c s rt cpu x = lenOf c s rt cpu 1
  steps : ∀ q ∈ loops s rt cpu, 0 < q.2 ∧ max (lenOf c s rt cpu 1) E + q.2 < 2 ^ 64
  sums : ∀ L ≤ max (lenOf c s rt cpu 1) E, dueAt c s rt cpu L < 2 ^ 64

theorem sound_append : Sound c s rt cpu (Ls ++ Ls') ↔ Sound c s rt cpu Ls ∧
    ((∀ L ∈ Ls, 0 < left c s rt cpu L) → Sound c s rt cpu Ls') := by
  induction Ls with
  | nil => exact ⟨fun h => ⟨trivial, fun _ => h⟩, fun h => h.2 fun L hL => absurd hL List.not_mem_nil⟩
  | cons L Ls ih =>
    rw [List.cons_append, Sound, Sound, ih, List.forall_mem_cons]
    exact ⟨fun h => ⟨⟨h.1, fun hL => (h.2 hL).1⟩, fun hall => (h.2 hall.1).2 hall.2⟩,
      fun h => ⟨h.1.1, fun hL => ⟨h.1.2 hL, fun hall => h.2 ⟨hL, hall⟩⟩⟩⟩

theorem slackExact_iff (hx : x ≠ 0) :
    SlackExact (setRuntime s rt cpu x) rt cpu ↔ Constrained s rt cpu := by
  have hrt : (setRuntime s rt cpu x).splitIsOnCpu rt cpu = true := by
    unfold EdfWm.splitIsOnCpu
    rw [runtime_setRuntime]
    exact decide_eq_true (Nat.pos_of_ne_zero hx)
  have hdead : ((setRuntime s rt cpu x).edfWmTask rt).deadline = (s.edfWmTask rt).deadline :=
    (setRuntime_same s rt cpu x).deadline
  have hother : ∀ p, p ≠ rt → (setRuntime s rt cpu x).edfWmTask p = s.edfWmTask p :=
    fun p hp => Function.update_of_ne hp ..
  constructor
  · intro h
    refine ⟨?_, fun p hp hne hon => ?_⟩
    · have hself := h rt (Or.inl rfl)
      rw [if_pos hrt, hdead] at hself
      exact hself
    · have hp' := h p (Or.inr ⟨hp, by
        unfold onCpu EdfWm.splitIsOnCpu at hon ⊢
        rw [hother p hne]
        exact hon⟩)
      unfold EdfWm.splitIsOnCpu at hp' ⊢
      rw [hother p hne] at hp'
      exact hp'
  · rintro ⟨hself, hall⟩ p hp
    by_cases hprt : p = rt
    · rw [hprt, if_pos hrt, hdead]
      exact hself
    · obtain ⟨hmem, hon⟩ := hp.resolve_left hprt
      unfold onCpu EdfWm.splitIsOnCpu at hon
      unfold EdfWm.splitIsOnCpu
      rw [hother p hprt] at hon ⊢
      exact hall p hmem hprt hon

/-- **The test length is the same for all shares** that take less than a percent of the period as
`util_split` has it, which divides jiffies by microseconds. -/
theorem lenOf_eq (hx : 0 < x) (h : 100 * x < c.usecs (s.task rt).period) :
    lenOf c s rt cpu x = lenOf c s rt cpu 1 := by
  have hsplit : ∀ {y}, 0 < y → (setRuntime s rt cpu y).splitIsOnCpu rt cpu = true := by
    intro y hy
    unfold EdfWm.splitIsOnCpu
    rw [runtime_setRuntime]
    exact decide_eq_true hy
  have hself : ∀ {y}, 0 < y → (setRuntime s rt cpu y).resident c cpu rt =
      ⟨(s.task rt).period, (s.edfWmTask rt).deadline, y, true⟩ := by
    intro y hy
    rw [resident_share (hsplit hy), runtime_setRuntime, (setRuntime_same s rt cpu y).deadline]
    rfl
  -- a share of less than a percent has no part in the length
  have hpercent : ∀ {y}, 0 < y → y ≤ x →
      ((setRuntime s rt cpu y).resident c cpu rt).ulongPercent c = 0 := by
    intro y hy hyx
    have hlt : c.usecs (s.task rt).period < 2 ^ 32 := Nat.mod_lt _ (by decide)
    rw [hself hy]
    unfold Resident.ulongPercent
    refine Nat.div_eq_of_lt ?_
    show ulong ((100 : ℕ) * (y : ℤ)) < _
    rw [← Nat.cast_mul, ulong_natCast (by omega)]
    dsimp only
    omega
  have hother : ∀ p ≠ rt, ∀ y, (setRuntime s rt cpu y).splitIsOnCpu p cpu = s.splitIsOnCpu p cpu ∧
      (setRuntime s rt cpu y).resident c cpu p = s.resident c cpu p := by
    intro p hp y
    have heq : (setRuntime s rt cpu y).edfWmTask p = s.edfWmTask p := Function.update_of_ne hp ..
    unfold EdfWm.resident EdfWm.splitIsOnCpu
    rw [heq]
    exact ⟨rfl, rfl⟩
  -- the same tasks are on the CPU with either share
  have hon : (setRuntime s rt cpu x).list.filter (onCpu (setRuntime s rt cpu x) cpu) =
      (setRuntime s rt cpu 1).list.filter (onCpu (setRuntime s rt cpu 1) cpu) := by
    refine List.filter_congr fun p _ => ?_
    unfold onCpu
    by_cases hp : p = rt
    · rw [hp, hsplit hx, hsplit Nat.one_pos]
      rfl
    · rw [(hother p hp x).1, (hother p hp 1).1]
      rfl
  have hcand : ∀ y, (setRuntime s rt cpu y).candidates c cpu rt =
      ((setRuntime s rt cpu y).list.filter (onCpu (setRuntime s rt cpu y) cpu) ++ [rt]).map
        ((setRuntime s rt cpu y).resident c cpu) := by
    intro y
    unfold EdfWm.candidates
    rw [List.map_append, residents_eq]
    rfl
  unfold lenOf
  rw [hcand, hcand, hon]
  refine testLen_map c _ _ _ fun p _ => ?_
  by_cases hp : p = rt
  · subst hp
    refine ⟨(hpercent hx le_rfl).trans (hpercent Nat.one_pos hx).symm, ?_, ?_⟩
    · rw [hself hx, hself Nat.one_pos]
      rfl
    · rw [hself hx, hself Nat.one_pos]
  · rw [(hother p hp x).2, (hother p hp 1).2]
    exact ⟨rfl, rfl, rfl⟩

/-! ## One deadline -/

theorem InRange.windows_lt (h : InRange c s rt cpu E) (hL : L ≤ max (lenOf c s rt cpu 1) E) :
    windows s rt L < 2 ^ 64 := by
  obtain ⟨hpos, hlt⟩ := h.steps _ (List.mem_append_right _ (List.mem_singleton.2 rfl))
  dsimp only at hpos hlt
  have := Nat.div_le_self (L - (s.edfWmTask rt).deadline) (s.task rt).period
  unfold windows
  omega

theorem InRange.leftExact_iff (h : InRange c s rt cpu E) (hL : L ≤ max (lenOf c s rt cpu 1) E) :
    LeftExact c s rt cpu L ↔ (s.edfWmTask rt).deadline ≤ L ∧ dueAt c s rt cpu L ≤ L := by
  have hlt := h.sums L hL
  refine and_congr_right fun _ => ?_
  unfold dueAt at hlt ⊢
  cases hv : dbfCpu c s cpu L with
  | error e => exact ⟨fun _ => Nat.zero_le L, fun _ v o hv _ => nomatch hv⟩
  | ok v =>
    cases ho : overhead c s rt cpu L with
    | error e => exact ⟨fun _ => Nat.zero_le L, fun _ v o _ ho => nomatch ho⟩
    | ok o =>
      rw [hv, ho] at hlt
      have hsum : ulong ((v : ℤ) + o) = v + o := by
        rw [← Nat.cast_add]
        exact ulong_natCast hlt
      refine ⟨fun h => hsum.symm.trans_le (h v o rfl rfl), ?_⟩
      rintro hle _ _ ⟨⟩ ⟨⟩
      exact hsum.trans_le hle

/-- What is computed there -/
theorem InRange.windowRuntime_eq_left (h : InRange c s rt cpu E)
    (hL : L ≤ max (lenOf c s rt cpu 1) E) (hlt : L < 2 ^ 64)
    (hfree : (s.edfWmTask rt).deadline ≤ L ∧ dueAt c s rt cpu L ≤ L)
    (hk : windowRuntime c s rt cpu L = .ok k) : k = left c s rt cpu L := by
  have hfits : Fits c s rt cpu 0 L := by
    intro v o hv ho
    have hle := hfree.2
    unfold dueAt at hle
    rw [hv, ho] at hle
    exact hle
  obtain ⟨v, o, hv, ho, -, hk⟩ := windowRuntime_eq hfree.1 hlt (h.windows_lt hL) hfits hk
  unfold left dueAt
  rw [hv, ho]
  exact hk

/-! ## The loops -/

/-- What loops that have looked at `Ls` have done to the share `x` -/
structure Ran (c : Config) (s : EdfWm) (rt cpu N x : ℕ) (Ls : List ℕ) (b : Bool) (r : Share) :
    Prop where
  runtimeMin : r.runtimeMin = lowest c s rt cpu x Ls
  goesOn : b = true → r = ⟨s, lowest c s rt cpu x Ls, N⟩ ∧ ∀ L ∈ Ls, 0 < left c s rt cpu L
  leaves : b = false → ∃ L ∈ Ls, left c s rt cpu L = 0

theorem Ran.append (h : Ran c s rt cpu N x Ls true r₁)
    (h' : Ran c s rt cpu N (lowest c s rt cpu x Ls) Ls' b r) : Ran c s rt cpu N x (Ls ++ Ls') b r := by
  refine ⟨?_, fun hb => ⟨?_, fun L hL => ?_⟩, fun hb => ?_⟩
  · rw [lowest_append]
    exact h'.runtimeMin
  · rw [lowest_append]
    exact (h'.goesOn hb).1
  · rcases List.mem_append.1 hL with hL | hL
    · exact (h.goesOn rfl).2 L hL
    · exact (h'.goesOn hb).2 L hL
  · obtain ⟨L, hL, h0⟩ := h'.leaves hb
    exact ⟨L, List.mem_append_right _ hL, h0⟩

/-- A loop that leaves is the last one. -/
theorem Ran.leave (h : Ran c s rt cpu N x Ls false r) : Ran c s rt cpu N x (Ls ++ Ls') false r := by
  obtain ⟨L, hL, h0⟩ := h.leaves rfl
  refine ⟨?_, nofun, fun _ => ⟨L, List.mem_append_left _ hL, h0⟩⟩
  rw [h.runtimeMin, lowest_zero ⟨L, hL, h0⟩, lowest_zero ⟨L, List.mem_append_left _ hL, h0⟩]

/-- The first deadline leaves nothing. -/
theorem Ran.zero (h0 : left c s rt cpu L = 0) :
    Ran c s rt cpu N x (L :: Ls) false ⟨s, 0, M⟩ :=
  ⟨(lowest_zero ⟨L, List.mem_cons_self, h0⟩).symm, nofun, fun _ => ⟨L, List.mem_cons_self, h0⟩⟩

/-- The first deadline leaves something. -/
theorem Ran.cons (h0 : 0 < left c s rt cpu L)
    (h : Ran c s rt cpu N (min x (left c s rt cpu L)) Ls b r) : Ran c s rt cpu N x (L :: Ls) b r := by
  refine ⟨h.runtimeMin, fun hb => ⟨(h.goesOn hb).1, ?_⟩, fun hb => ?_⟩
  · exact List.forall_mem_cons.2 ⟨h0, (h.goesOn hb).2⟩
  · obtain ⟨L', hL', h'⟩ := h.leaves hb
    exact ⟨L', List.mem_cons_of_mem _ hL', h'⟩

/-- A loop once a share has been tried -/
theorem InRange.shareDeadlines_spec (h : InRange c s rt cpu E)
    (hshare : (s.edfWmTask rt).runtime cpu = 0) (hT : 0 < T)
    (hlt : max (lenOf c s rt cpu 1) E + T < 2 ^ 64) : ∀ (fuel L x : ℕ),
      x ≤ unused c s rt cpu →
        shareDeadlines c rt cpu T fuel L ⟨s, x, lenOf c s rt cpu 1⟩ = .ok (b, r) →
          (Constrained s rt cpu →
            (DeadlinesExact c rt cpu T fuel L ⟨s, x, lenOf c s rt cpu 1⟩ ↔
              Sound c s rt cpu (upTo (lenOf c s rt cpu 1) (L, T)))) ∧
          (Sound c s rt cpu (upTo (lenOf c s rt cpu 1) (L, T)) →
            Ran c s rt cpu (lenOf c s rt cpu 1) x (upTo (lenOf c s rt cpu 1) (L, T)) b r) := by
  intro fuel
  induction fuel with
  | zero =>
    intro L x _ hrun
    cases hrun
  | succ fuel ih =>
    intro L x hx hrun
    rw [shareDeadlines] at hrun
    rw [DeadlinesExact]
    dsimp only at hrun ⊢
    by_cases hL : L ≤ lenOf c s rt cpu 1
    swap
    · -- the loop ends
      rw [if_neg hL] at hrun
      cases hrun
      rw [upTo_nil (not_le.1 hL)]
      refine ⟨fun _ => ⟨fun _ => trivial, fun _ h => absurd h hL⟩,
        fun _ => ⟨rfl, fun _ => ⟨rfl, fun L hL => absurd hL List.not_mem_nil⟩, fun hb => ?_⟩⟩
      cases hb
    have hM : L ≤ max (lenOf c s rt cpu 1) E := hL.trans (le_max_left _ _)
    have hnext : ulong ((L : ℤ) + T) = L + T := by
      rw [← Nat.cast_add, ulong_natCast (by omega)]
    rw [if_pos hL] at hrun
    obtain ⟨k, hk, hrun⟩ := bind_eq_ok.1 hrun
    rw [upTo_cons hT hL, Sound, h.leftExact_iff hM, hk]
    rw [hnext] at hrun ⊢
    -- the deadline after the window, and not overloaded
    by_cases hfree : (s.edfWmTask rt).deadline ≤ L ∧ dueAt c s rt cpu L ≤ L
    swap
    · exact ⟨fun _ => ⟨fun hd => absurd (hd hL).1 hfree, fun hs => absurd hs.1 hfree⟩,
        fun hs => absurd hs.1 hfree⟩
    obtain rfl := h.windowRuntime_eq_left hM (by omega) hfree hk
    simp only [hL, hfree, true_and, forall_const, Except.ok.injEq, forall_eq']
    by_cases hkx : left c s rt cpu L ≤ x
    · rw [if_pos hkx] at hrun ⊢
      rcases Nat.eq_zero_or_pos (left c s rt cpu L) with h0 | hpos
      · rw [if_pos h0] at hrun
        cases hrun
        exact ⟨fun _ => ⟨fun _ hpos => absurd h0 hpos.ne', fun _ hne => absurd h0 hne⟩,
          fun _ => .zero h0⟩
      · -- a new share
        rw [if_neg hpos.ne'] at hrun
        obtain ⟨len, hlen, hrun⟩ := bind_eq_ok.1 hrun
        have hN : len = lenOf c s rt cpu 1 := (dbfLen_eq hlen).trans (h.len _ hpos (hkx.trans hx))
        rw [setRuntime_zero hshare, hN] at hrun
        obtain ⟨hiff, hran⟩ := ih _ _ (hkx.trans hx) hrun
        refine ⟨fun hcon => ?_, fun hs => .cons hpos ?_⟩
        · rw [slackExact_iff hpos.ne', setRuntime_zero hshare, hlen, ← hiff hcon, hN]
          simp only [hpos.ne', hpos, hcon, true_and, forall_const, Except.ok.injEq, forall_eq', ne_eq,
            not_false_eq_true]
        · rw [min_eq_right hkx]
          exact hran (hs hpos)
    · -- the share stays
      have hxk := not_le.1 hkx
      rw [if_neg hkx] at hrun ⊢
      obtain ⟨hiff, hran⟩ := ih _ _ hx hrun
      refine ⟨fun hcon => ?_, fun hs => .cons (by omega) ?_⟩
      · rw [hiff hcon]
        exact ⟨fun hs _ => hs, fun hs => hs (by omega)⟩
      · rw [min_eq_left hxk.le]
        exact hran (hs (by omega))

/-- The first loop. It goes on to the deadline that leaves no more than the unused percents, which is
`i` periods on, and as a loop with a share from there. -/
theorem InRange.firstDeadlines_spec (h : InRange c s rt cpu E)
    (hshare : (s.edfWmTask rt).runtime cpu = 0) (hT : 0 < T)
    (hlt : max (lenOf c s rt cpu 1) E + T < 2 ^ 64)
    (hle : left c s rt cpu E ≤ unused c s rt cpu) : ∀ (fuel i L : ℕ), E = L + i * T →
      (∀ m < i, unused c s rt cpu < left c s rt cpu (L + m * T)) →
        shareDeadlines c rt cpu T fuel L ⟨s, unused c s rt cpu, 2 ^ 64 - 1⟩ = .ok (b, r) →
          (DeadlinesExact c rt cpu T fuel L ⟨s, unused c s rt cpu, 2 ^ 64 - 1⟩ ↔
            Sound c s rt cpu (upTo (max (lenOf c s rt cpu 1) E) (L, T)) ∧
              (0 < left c s rt cpu E → Constrained s rt cpu)) ∧
          (Sound c s rt cpu (upTo (max (lenOf c s rt cpu 1) E) (L, T)) →
            Ran c s rt cpu (lenOf c s rt cpu 1) (unused c s rt cpu)
              (upTo (max (lenOf c s rt cpu 1) E) (L, T)) b r) := by
  intro fuel
  induction fuel with
  | zero =>
    intro i L _ _ hrun
    cases hrun
  | succ fuel ih =>
    intro i L hi hbefore hrun
    have hM : L ≤ max (lenOf c s rt cpu 1) E := le_max_of_le_right (by omega)
    have hL : L ≤ 2 ^ 64 - 1 := by omega
    have hnext : ulong ((L : ℤ) + T) = L + T := by
      rw [← Nat.cast_add, ulong_natCast (by omega)]
    rw [shareDeadlines] at hrun
    rw [DeadlinesExact]
    dsimp only at hrun ⊢
    rw [if_pos hL] at hrun
    obtain ⟨k, hk, hrun⟩ := bind_eq_ok.1 hrun
    rw [upTo_cons hT hM, Sound, h.leftExact_iff hM, hk]
    rw [hnext] at hrun ⊢
    by_cases hfree : (s.edfWmTask rt).deadline ≤ L ∧ dueAt c s rt cpu L ≤ L
    swap
    · exact ⟨⟨fun hd => absurd (hd hL).1 hfree, fun hs => absurd hs.1.1 hfree⟩,
        fun hs => absurd hs.1 hfree⟩
    obtain rfl := h.windowRuntime_eq_left hM (by omega) hfree hk
    simp only [hL, hfree, true_and, forall_const, Except.ok.injEq, forall_eq']
    cases i with
    | zero =>
      -- the share is tried
      rw [Nat.zero_mul, Nat.add_zero] at hi
      subst hi
      rw [if_pos hle] at hrun ⊢
      rcases Nat.eq_zero_or_pos (left c s rt cpu E) with h0 | hpos
      · rw [if_pos h0] at hrun
        cases hrun
        exact ⟨⟨fun _ => ⟨fun hpos => absurd h0 hpos.ne', fun hpos => absurd h0 hpos.ne'⟩,
          fun _ hne => absurd h0 hne⟩, fun _ => .zero h0⟩
      · rw [if_neg hpos.ne'] at hrun
        obtain ⟨len, hlen, hrun⟩ := bind_eq_ok.1 hrun
        have hN : len = lenOf c s rt cpu 1 := (dbfLen_eq hlen).trans (h.len _ hpos hle)
        rw [setRuntime_zero hshare, hN] at hrun
        obtain ⟨hiff, hran⟩ := h.shareDeadlines_spec hshare hT hlt _ _ _ hle hrun
        rw [upTo_max (by omega)]
        refine ⟨?_, fun hs => .cons hpos ?_⟩
        · rw [slackExact_iff hpos.ne', setRuntime_zero hshare, hlen, hN]
          simp only [hpos.ne', hpos, forall_const, Except.ok.injEq, forall_eq', ne_eq,
            not_false_eq_true]
          rw [and_comm]
          exact and_congr_left hiff
        · rw [min_eq_right hle]
          exact hran (hs hpos)
    | succ i =>
      have hlow := hbefore 0 (Nat.succ_pos i)
      rw [Nat.zero_mul, Nat.add_zero] at hlow
      rw [if_neg (not_le.2 hlow)] at hrun ⊢
      obtain ⟨hiff, hran⟩ := ih i (L + T) (by rw [hi, Nat.succ_mul]; omega) (fun m hm => by
        have := hbefore (m + 1) (by omega)
        rwa [Nat.succ_mul, Nat.add_comm (m * T), ← Nat.add_assoc] at this) hrun
      refine ⟨?_, fun hs => .cons (by omega) ?_⟩
      · rw [hiff]
        exact and_congr_left fun _ => ⟨fun hs _ => hs, fun hs => hs (by omega)⟩
      · rw [min_eq_left hlow.le]
        exact hran (hs (by omega))

/-! ## The loops one after the other -/

/-- The loops of `set_split_runtime`, each with its first deadline and its step -/
def shareLoops (c : Config) (rt cpu fuel : ℕ) : List (ℕ × ℕ) → Share → Except Fault (Bool × Share)
  | [], r => return (true, r)
  | q :: qs, r => do
    match ← shareDeadlines c rt cpu q.2 fuel q.1 r with
    | (true, r) => shareLoops c rt cpu fuel qs r
    | (false, r) => return (false, r)

/-- No subtraction of theirs wraps. -/
def LoopsExact (c : Config) (rt cpu fuel : ℕ) : List (ℕ × ℕ) → Share → Prop
  | [], _ => True
  | q :: qs, r => DeadlinesExact c rt cpu q.2 fuel q.1 r ∧
    ∀ r', shareDeadlines c rt cpu q.2 fuel q.1 r = .ok (true, r') → LoopsExact c rt cpu fuel qs r'

/-- The loops leave the state as it is. -/
theorem shareDeadlines_state (hshare : (s.edfWmTask rt).runtime cpu = 0) : ∀ (fuel L : ℕ) (r : Share),
    r.s = s → shareDeadlines c rt cpu T fuel L r = .ok (b, r') → r'.s = s := by
  intro fuel
  induction fuel with
  | zero =>
    intro L r _ h
    cases h
  | succ fuel ih =>
    intro L r hr h
    rw [shareDeadlines] at h
    split at h
    · obtain ⟨k, -, h⟩ := bind_eq_ok.1 h
      split at h
      · split at h
        · cases h
          exact hr
        · obtain ⟨len, -, h⟩ := bind_eq_ok.1 h
          rw [hr, setRuntime_zero hshare] at h
          exact ih _ _ rfl h
      · exact ih _ _ hr h
    · cases h
      exact hr

theorem shareLoops_state (hshare : (s.edfWmTask rt).runtime cpu = 0) :
    ∀ (qs : List (ℕ × ℕ)) (r : Share), r.s = s →
      shareLoops c rt cpu fuel qs r = .ok (b, r') → r'.s = s := by
  intro qs
  induction qs with
  | nil =>
    intro r hr h
    cases h
    exact hr
  | cons q qs ih =>
    intro r hr h
    obtain ⟨⟨b₁, r₁⟩, h₁, h⟩ := bind_eq_ok.1 h
    have hr₁ := shareDeadlines_state hshare _ _ _ hr h₁
    cases b₁ with
    | true => exact ih r₁ hr₁ h
    | false =>
      cases h
      exact hr₁

theorem shareTasks_eq (hshare : (s.edfWmTask rt).runtime cpu = 0) : ∀ (l : List ℕ) (r : Share),
    r.s = s → shareTasks c rt cpu fuel l r = shareLoops c rt cpu fuel (taskLoops s rt cpu l) r ∧
      (TasksExact c rt cpu fuel l r ↔ LoopsExact c rt cpu fuel (taskLoops s rt cpu l) r) := by
  intro l
  induction l with
  | nil => exact fun r _ => ⟨rfl, Iff.rfl⟩
  | cons p l ih =>
    intro r hr
    rw [shareTasks, TasksExact, hr]
    unfold taskLoops at ih ⊢
    have hgo : ∀ L : ℕ, (shareDeadlines c rt cpu (s.task p).period fuel L r >>= fun
          | (true, r) => shareTasks c rt cpu fuel l r
          | (false, r) => pure (false, r)) =
        shareDeadlines c rt cpu (s.task p).period fuel L r >>= fun
          | (true, r) => shareLoops c rt cpu fuel ((l.filter (onCpu s cpu)).map fun p =>
            (if s.splitIsOnCpu p cpu then (s.edfWmTask rt).deadline else (s.task p).deadline,
              (s.task p).period)) r
          | (false, r) => pure (false, r) := by
      intro L
      cases hrun : shareDeadlines c rt cpu (s.task p).period fuel L r with
      | error e => rfl
      | ok br =>
        obtain ⟨b, r'⟩ := br
        cases b with
        | false => rfl
        | true => exact (ih r' (shareDeadlines_state hshare _ _ _ hr hrun)).1
    by_cases hon : onCpu s cpu p = true
    · rw [List.filter_cons_of_pos hon, List.map_cons, shareLoops, LoopsExact, if_pos hon]
      refine ⟨?_, and_congr_right fun _ => forall₂_congr fun r' hrun => ?_⟩
      · by_cases hsplit : s.splitIsOnCpu p cpu = true
        · rw [if_pos hsplit, if_pos hsplit]
          exact hgo _
        · have hcpu : s.taskIsOnCpu p cpu = true := by
            unfold onCpu at hon
            rw [Bool.or_eq_true] at hon
            exact hon.resolve_right hsplit
          rw [if_neg hsplit, if_pos hcpu, if_neg hsplit]
          exact hgo _
      · exact (ih r' (shareDeadlines_state hshare _ _ _ hr hrun)).2
    · have hoff : ¬ s.splitIsOnCpu p cpu = true ∧ ¬ s.taskIsOnCpu p cpu = true := by
        unfold onCpu at hon
        rw [Bool.or_eq_true, not_or] at hon
        exact hon.symm
      rw [List.filter_cons_of_neg hon, if_neg hoff.1, if_neg hoff.2, if_neg hon]
      exact ih r hr

theorem shareLoops_concat (qs : List (ℕ × ℕ)) (q : ℕ × ℕ) (r : Share) :
    shareLoops c rt cpu fuel (qs ++ [q]) r = (do
      match ← shareLoops c rt cpu fuel qs r with
      | (true, r) => shareDeadlines c rt cpu q.2 fuel q.1 r
      | (false, r) => return (false, r)) := by
  induction qs generalizing r with
  | nil =>
    show (shareDeadlines c rt cpu q.2 fuel q.1 r >>= fun
      | (true, r) => pure (true, r)
      | (false, r) => pure (false, r)) = shareDeadlines c rt cpu q.2 fuel q.1 r
    rcases shareDeadlines c rt cpu q.2 fuel q.1 r with e | ⟨_ | _, r'⟩
    · rfl
    · rfl
    · rfl
  | cons q' qs ih =>
    rw [List.cons_append, shareLoops, shareLoops]
    rcases shareDeadlines c rt cpu q'.2 fuel q'.1 r with e | ⟨_ | _, r'⟩
    · rfl
    · rfl
    · exact ih r'

theorem loopsExact_concat (qs : List (ℕ × ℕ)) (q : ℕ × ℕ) (r : Share) :
    LoopsExact c rt cpu fuel (qs ++ [q]) r ↔ LoopsExact c rt cpu fuel qs r ∧
      ∀ r', shareLoops c rt cpu fuel qs r = .ok (true, r') →
        DeadlinesExact c rt cpu q.2 fuel q.1 r' := by
  induction qs generalizing r with
  | nil =>
    refine ⟨fun h => ⟨trivial, fun r' hr => ?_⟩, fun h => ⟨h.2 r rfl, fun _ _ => trivial⟩⟩
    cases hr
    exact h.1
  | cons q' qs ih =>
    rw [List.cons_append, LoopsExact, LoopsExact, shareLoops]
    constructor
    · rintro ⟨hd, hrest⟩
      refine ⟨⟨hd, fun r' hr' => ((ih r').1 (hrest r' hr')).1⟩, fun r' hr' => ?_⟩
      obtain ⟨⟨b, r₁⟩, h₁, hr'⟩ := bind_eq_ok.1 hr'
      cases b with
      | false => cases hr'
      | true => exact ((ih r₁).1 (hrest r₁ h₁)).2 r' hr'
    · rintro ⟨⟨hd, hrest⟩, hlast⟩
      refine ⟨hd, fun r₁ h₁ => (ih r₁).2 ⟨hrest r₁ h₁, fun r' hr' => hlast r' ?_⟩⟩
      rw [h₁]
      exact hr'

/-- The loops after the first one -/
theorem InRange.shareLoops_spec (h : InRange c s rt cpu E)
    (hshare : (s.edfWmTask rt).runtime cpu = 0) :
    ∀ (qs : List (ℕ × ℕ)) (x : ℕ), qs ⊆ loops s rt cpu → x ≤ unused c s rt cpu →
      shareLoops c rt cpu fuel qs ⟨s, x, lenOf c s rt cpu 1⟩ = .ok (b, r) →
        (Constrained s rt cpu →
          (LoopsExact c rt cpu fuel qs ⟨s, x, lenOf c s rt cpu 1⟩ ↔
            Sound c s rt cpu (qs.flatMap (upTo (lenOf c s rt cpu 1))))) ∧
        (Sound c s rt cpu (qs.flatMap (upTo (lenOf c s rt cpu 1))) →
          Ran c s rt cpu (lenOf c s rt cpu 1) x (qs.flatMap (upTo (lenOf c s rt cpu 1))) b r) := by
  intro qs
  induction qs with
  | nil =>
    intro x _ _ hrun
    cases hrun
    exact ⟨fun _ => Iff.rfl, fun _ =>
      ⟨rfl, fun _ => ⟨rfl, fun L hL => absurd hL List.not_mem_nil⟩, nofun⟩⟩
  | cons q qs ih =>
    intro x hqs hx hrun
    obtain ⟨⟨b₁, r₁⟩, h₁, hrun⟩ := bind_eq_ok.1 hrun
    obtain ⟨hT, hlt⟩ := h.steps q (hqs List.mem_cons_self)
    obtain ⟨hiff, hran⟩ := h.shareDeadlines_spec hshare hT hlt _ _ _ hx h₁
    rw [List.flatMap_cons, sound_append, LoopsExact]
    cases b₁ with
    | false =>
      cases hrun
      refine ⟨fun hcon => ?_, fun hs => (hran hs.1).leave⟩
      rw [hiff hcon]
      refine ⟨fun hd => ⟨hd.1, fun hall => ?_⟩, fun hs => ⟨hs.1, fun r' hr' => ?_⟩⟩
      · obtain ⟨L, hL, h0⟩ := (hran hd.1).leaves rfl
        exact absurd h0 (hall L hL).ne'
      · rw [h₁] at hr'
        cases hr'
    | true =>
      have hrest : Sound c s rt cpu (upTo (lenOf c s rt cpu 1) (q.1, q.2)) →
          r₁ = ⟨s, lowest c s rt cpu x (upTo (lenOf c s rt cpu 1) (q.1, q.2)), lenOf c s rt cpu 1⟩ :=
        fun hs => ((hran hs).goesOn rfl).1
      have hle : lowest c s rt cpu x (upTo (lenOf c s rt cpu 1) (q.1, q.2)) ≤ unused c s rt cpu :=
        (lowest_le x _).trans hx
      refine ⟨fun hcon => ?_, fun hs => ?_⟩
      · rw [hiff hcon]
        refine and_congr_right fun hs => ?_
        have hrun' := hrun
        dsimp only at hrun'
        rw [hrest hs] at hrun'
        rw [h₁]
        simp only [Except.ok.injEq, Prod.mk.injEq, true_and, forall_eq']
        rw [hrest hs, (ih _ (List.subset_of_cons_subset hqs) hle hrun').1 hcon]
        exact ⟨fun hs' _ => hs', fun hs' => hs' ((hran hs).goesOn rfl).2⟩
      · have hpos := ((hran hs.1).goesOn rfl).2
        dsimp only at hrun
        rw [hrest hs.1] at hrun
        exact (hran hs.1).append ((ih _ (List.subset_of_cons_subset hqs) hle hrun).2 (hs.2 hpos))

/-- **The loops look where they are said to look.** -/
theorem InRange.loops_spec (h : InRange c s rt cpu E) (hshare : (s.edfWmTask rt).runtime cpu = 0)
    (hrun : shareLoops c rt cpu fuel (loops s rt cpu) ⟨s, unused c s rt cpu, 2 ^ 64 - 1⟩ =
      .ok (b, r)) :
    (LoopsExact c rt cpu fuel (loops s rt cpu) ⟨s, unused c s rt cpu, 2 ^ 64 - 1⟩ ↔
      Sound c s rt cpu (lookedAt c s rt cpu E) ∧ (0 < left c s rt cpu E → Constrained s rt cpu)) ∧
    (Sound c s rt cpu (lookedAt c s rt cpu E) → Ran c s rt cpu (lenOf c s rt cpu 1)
      (unused c s rt cpu) (lookedAt c s rt cpu E) b r) := by
  obtain ⟨q, qs, n, hloops, hE, hbefore, hle⟩ := h.tightens
  have hsub : q :: qs ⊆ loops s rt cpu := by
    rw [hloops]
    exact List.Subset.refl _
  unfold lookedAt
  rw [hloops] at hrun ⊢
  obtain ⟨⟨b₁, r₁⟩, h₁, hrun⟩ := bind_eq_ok.1 hrun
  obtain ⟨hT, hlt⟩ := h.steps q (hsub List.mem_cons_self)
  obtain ⟨hiff, hran⟩ := h.firstDeadlines_spec hshare hT hlt hle _ n q.1 hE hbefore h₁
  rw [looked, sound_append, LoopsExact, hiff]
  have hmem : E ∈ upTo (max (lenOf c s rt cpu 1) E) (q.1, q.2) :=
    hE ▸ mem_upTo hT (hE ▸ le_max_right _ _)
  -- the first loop either leaves with a share of 0, or the others go on
  cases b₁ with
  | false =>
    cases hrun
    refine ⟨⟨fun hd => ⟨⟨hd.1.1, fun hall => ?_⟩, hd.1.2⟩,
      fun hs => ⟨⟨hs.1.1, hs.2⟩, fun r' hr' => ?_⟩⟩, fun hs => (hran hs.1).leave⟩
    · obtain ⟨L, hL, h0⟩ := (hran hd.1.1).leaves rfl
      exact absurd h0 (hall L hL).ne'
    · rw [h₁] at hr'
      cases hr'
  | true =>
    dsimp only at hrun
    have hrest : Sound c s rt cpu (upTo (max (lenOf c s rt cpu 1) E) (q.1, q.2)) →
        (∀ L ∈ upTo (max (lenOf c s rt cpu 1) E) (q.1, q.2), 0 < left c s rt cpu L) ∧
        (Constrained s rt cpu → (LoopsExact c rt cpu fuel qs r₁ ↔
          Sound c s rt cpu (qs.flatMap (upTo (lenOf c s rt cpu 1))))) ∧
        (Sound c s rt cpu (qs.flatMap (upTo (lenOf c s rt cpu 1))) →
          Ran c s rt cpu (lenOf c s rt cpu 1) (lowest c s rt cpu (unused c s rt cpu)
            (upTo (max (lenOf c s rt cpu 1) E) (q.1, q.2)))
              (qs.flatMap (upTo (lenOf c s rt cpu 1))) b r) := by
      intro hs
      obtain ⟨rfl, hpos⟩ := (hran hs).goesOn rfl
      exact ⟨hpos, h.shareLoops_spec hshare qs _ (List.subset_of_cons_subset hsub) (lowest_le ..) hrun⟩
    rw [h₁]
    simp only [Except.ok.injEq, Prod.mk.injEq, true_and, forall_eq']
    constructor
    · constructor
      · rintro ⟨⟨hs, hcon⟩, hd⟩
        obtain ⟨hpos, hiff', -⟩ := hrest hs
        exact ⟨⟨hs, fun _ => (hiff' (hcon (hpos E hmem))).1 hd⟩, hcon⟩
      · rintro ⟨⟨hs, hs'⟩, hcon⟩
        obtain ⟨hpos, hiff', -⟩ := hrest hs
        exact ⟨⟨hs, hcon⟩, (hiff' (hcon (hpos E hmem))).2 (hs' hpos)⟩
    · rintro ⟨hs, hs'⟩
      obtain ⟨hpos, -, hran'⟩ := hrest hs
      exact (hran hs).append (hran' (hs' hpos))

/-- **The share that is set** is the room that the CPU has, if no subtraction wraps; and none does iff
the parameters say so. -/
theorem InRange.setSplitRuntime_spec (h : InRange c s rt cpu E)
    (hshare : (s.edfWmTask rt).runtime cpu = 0) (hrun : setSplitRuntime c s rt cpu fuel = .ok s') :
    (ShareExact c s rt cpu fuel ↔ WrapFree c s rt cpu E) ∧
      (WrapFree c s rt cpu E → (s'.edfWmTask rt).runtime cpu = room c s rt cpu E) := by
  unfold setSplitRuntime at hrun
  obtain ⟨u, hu, hrun⟩ := bind_eq_ok.1 hrun
  have hpercents : percentsOn c s cpu = u := (utilCpu_eq hu).symm
  have hfirst : firstRuntime s rt u = unused c s rt cpu := by
    unfold unused
    rw [hpercents]
  rw [show ulong ((ulong (100 - (u : ℤ)) : ℕ) * (s.task rt).period) / 100 = unused c s rt cpu from
    hfirst] at hrun
  obtain ⟨htasks, hexact⟩ := shareTasks_eq (c := c) hshare s.list
    ⟨s, unused c s rt cpu, 2 ^ 64 - 1⟩ rfl
  obtain ⟨⟨b₁, r₁⟩, h₁, hrun⟩ := bind_eq_ok.1 hrun
  rw [htasks] at h₁
  have hr₁ : r₁.s = s := shareLoops_state hshare _ _ rfl h₁
  have hloops : ∃ b r, shareLoops c rt cpu fuel (loops s rt cpu)
      ⟨s, unused c s rt cpu, 2 ^ 64 - 1⟩ = .ok (b, r) ∧
        (s'.edfWmTask rt).runtime cpu = r.runtimeMin := by
    unfold loops
    rw [shareLoops_concat, h₁]
    cases b₁ with
    | true =>
      obtain ⟨⟨b, r⟩, h₂, hrun⟩ := bind_eq_ok.1 hrun
      cases hrun
      rw [hr₁] at h₂
      exact ⟨b, r, h₂, runtime_setRuntime ..⟩
    | false =>
      cases hrun
      exact ⟨false, r₁, rfl, runtime_setRuntime ..⟩
  obtain ⟨b, r, hrun', hmin⟩ := hloops
  obtain ⟨hiff, hran⟩ := h.loops_spec hshare hrun'
  have hshareExact : ShareExact c s rt cpu fuel ↔ u ≤ 100 ∧
      LoopsExact c rt cpu fuel (loops s rt cpu) ⟨s, unused c s rt cpu, 2 ^ 64 - 1⟩ := by
    unfold ShareExact loops
    rw [hu, loopsExact_concat, ← hexact, ← htasks]
    simp only [Except.ok.injEq, forall_eq', hfirst]
    refine and_congr_right fun _ => and_congr_right fun _ => forall₂_congr fun r' hr' => ?_
    rw [shareLoops_state hshare _ _ rfl (htasks ▸ hr')]
  constructor
  · rw [hshareExact, hiff]
    exact ⟨fun hd => ⟨hpercents.trans_le hd.1, hd.2.1, hd.2.2⟩,
      fun hn => ⟨hpercents.symm.trans_le hn.percents, hn.sound, hn.constrained⟩⟩
  · intro hn
    rw [hmin, (hran hn.sound).runtimeMin]
    rfl

end Resch.Checked.EdfWm
