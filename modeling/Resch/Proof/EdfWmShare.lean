import Mathlib.Data.Nat.ModEq
import Resch.Proof.EdfWmExact
import Resch.Proof.EdfWmSplit
import Resch.Proof.Overhead

/-!
# The share of one CPU under EDF-WM

* `loops`: where the loops of `set_split_runtime` look; `deadlines`: where the demand changes.
* `Lowered`: what the loops do to the share. They lower it to what is left at a deadline where they
  look, and they stop at the test length of the share they have then.
* `Adequate`: the loops look where they have to, no deadline there is overloaded, and every share that
  passes there is tested far enough.
* `share_safe`: then the share is safe.
-/

namespace Resch.Checked.EdfWm

open Lib

variable {c : Config} {s s' : EdfWm} {rt cpu p u x L period fuel : ℕ} {b : Bool} {r r₁ r' : Share}
  {ps qs : List (ℕ × ℕ)}

/-! ## Where the loops look -/

/-- Where the loops for the tasks `l` begin, with their steps. Those for a share begin at the
window of the task that is split. -/
def taskLoops (s : EdfWm) (rt cpu : ℕ) (l : List ℕ) : List (ℕ × ℕ) :=
  (l.filter (onCpu s cpu)).map fun p =>
    (if s.splitIsOnCpu p cpu then (s.edfWmTask rt).deadline else (s.task p).deadline,
      (s.task p).period)

/-- All loops, the last of which is that for the task itself -/
def loops (s : EdfWm) (rt cpu : ℕ) : List (ℕ × ℕ) :=
  taskLoops s rt cpu s.list ++ [((s.edfWmTask rt).deadline, (s.task rt).period)]

/-- The first deadlines on the CPU, with the periods -/
def deadlines (s : EdfWm) (rt cpu : ℕ) : List (ℕ × ℕ) :=
  (s.list.filter (onCpu s cpu)).map (fun p =>
    (if s.splitIsOnCpu p cpu then (s.edfWmTask p).deadline else (s.task p).deadline,
      (s.task p).period)) ++ [((s.edfWmTask rt).deadline, (s.task rt).period)]

/-- `L` is one of the numbers that begin and go on as `ps` say. -/
def Among (ps : List (ℕ × ℕ)) (L : ℕ) : Prop := ∃ q ∈ ps, ∃ n, L = q.1 + n * q.2

/-- `L` is a value of one of the loops, whose counters are `unsigned long`s. -/
def Value (ps : List (ℕ × ℕ)) (L : ℕ) : Prop :=
  ∃ q ∈ ps, ∃ n, L = (fun L : ℕ => ulong (L + q.2))^[n] q.1

/-! ## The share -/

/-- The share that `set_split_runtime` begins with -/
def firstRuntime (s : EdfWm) (rt u : ℕ) : ℕ :=
  ulong ((ulong (100 - (u : ℤ)) : ℕ) * (s.task rt).period) / 100

/-- The test length of a share -/
def shareLen (c : Config) (s : EdfWm) (rt cpu x : ℕ) : Except Fault ℕ :=
  dbfLen c (setRuntime s rt cpu x) rt cpu

/-- `L` is within the test lengths of the shares from `x` on. -/
def Tested (c : Config) (s : EdfWm) (rt cpu u x L : ℕ) : Prop :=
  L < 2 ^ 64 ∧ ∀ y, x ≤ y → y ≤ firstRuntime s rt u →
    ∀ len, shareLen c s rt cpu y = .ok len → L ≤ len

/-- The windows of the task that end in an interval -/
def windows (s : EdfWm) (rt L : ℕ) : ℕ := (L - (s.edfWmTask rt).deadline) / (s.task rt).period + 1

/-- The share `x` and the tasks on the CPU fit in every interval. -/
def Safe (c : Config) (s : EdfWm) (rt cpu x : ℕ) : Prop :=
  ∀ L, (s.edfWmTask rt).deadline ≤ L → L < 2 ^ 64 → ∀ v, dbfCpu c s cpu L = .ok v →
    v + windows s rt L * x ≤ L

theorem Tested.mono {x' : ℕ} (h : Tested c s rt cpu u x L) (hx : x ≤ x') : Tested c s rt cpu u x' L :=
  ⟨h.1, fun y hy => h.2 y (hx.trans hy)⟩

/-! ## The loops -/

/-- What holds between the turns of the loops -/
structure Between (c : Config) (s : EdfWm) (rt cpu u : ℕ) (r : Share) : Prop where
  state : r.s = s
  le : r.runtimeMin ≤ firstRuntime s rt u
  Lmax : r.Lmax = 2 ^ 64 - 1 ∨ shareLen c s rt cpu r.runtimeMin = .ok r.Lmax

/-- What loops with the beginnings and steps `ps` do to the share; `b` says that none has left with
a share of 0. -/
structure Lowered (c : Config) (s : EdfWm) (rt cpu u : ℕ) (ps : List (ℕ × ℕ)) (b : Bool)
    (r r' : Share) : Prop where
  state : r'.s = s
  le : r'.runtimeMin ≤ r.runtimeMin
  zero : b = false → r'.runtimeMin = 0
  between : b = true → Between c s rt cpu u r'
  bound : b = true → ∀ L, Among ps L → Tested c s rt cpu u r'.runtimeMin L →
    ∃ k, windowRuntime c s rt cpu L = .ok k ∧ r'.runtimeMin ≤ k
  least : ∀ x ≤ r.runtimeMin,
    (∀ L, Value ps L → ∀ k, windowRuntime c s rt cpu L = .ok k → x ≤ k) → x ≤ r'.runtimeMin

theorem Among.left (h : Among ps L) : Among (ps ++ qs) L := by
  obtain ⟨q, hq, h⟩ := h
  exact ⟨q, List.mem_append_left _ hq, h⟩

theorem Among.append (h : Among (ps ++ qs) L) : Among ps L ∨ Among qs L := by
  obtain ⟨q, hq, h⟩ := h
  rcases List.mem_append.1 hq with hq | hq
  · exact Or.inl ⟨q, hq, h⟩
  · exact Or.inr ⟨q, hq, h⟩

theorem Value.left (h : Value ps L) : Value (ps ++ qs) L := by
  obtain ⟨q, hq, h⟩ := h
  exact ⟨q, List.mem_append_left _ hq, h⟩

theorem Value.right (h : Value qs L) : Value (ps ++ qs) L := by
  obtain ⟨q, hq, h⟩ := h
  exact ⟨q, List.mem_append_right _ hq, h⟩

theorem Lowered.nil (hr : Between c s rt cpu u r) : Lowered c s rt cpu u [] true r r := by
  refine ⟨hr.state, le_rfl, nofun, fun _ => hr, fun _ L hL => ?_, fun x hx _ => hx⟩
  obtain ⟨q, hq, -⟩ := hL
  exact absurd hq List.not_mem_nil

/-- Loops one after the other -/
theorem Lowered.append (h : Lowered c s rt cpu u ps true r r₁)
    (h' : Lowered c s rt cpu u qs b r₁ r') : Lowered c s rt cpu u (ps ++ qs) b r r' := by
  refine ⟨h'.state, h'.le.trans h.le, h'.zero, h'.between, fun hb L hL ht => ?_, fun x hx hall => ?_⟩
  · rcases hL.append with hL | hL
    · obtain ⟨k, hk, hle⟩ := h.bound rfl L hL (ht.mono h'.le)
      exact ⟨k, hk, h'.le.trans hle⟩
    · exact h'.bound hb L hL ht
  · refine h'.least x (h.least x hx fun L hL => ?_) fun L hL => ?_
    · exact hall L hL.left
    · exact hall L hL.right

/-- A loop that leaves with a share of 0 is the last one. -/
theorem Lowered.leave (h : Lowered c s rt cpu u ps false r r') :
    Lowered c s rt cpu u (ps ++ qs) false r r' := by
  refine ⟨h.state, h.le, h.zero, nofun, nofun, fun x hx hall => ?_⟩
  exact h.least x hx fun L hL => hall L hL.left

theorem setRuntime_zero (h : (s.edfWmTask rt).runtime cpu = 0) : setRuntime s rt cpu 0 = s := by
  unfold setRuntime setEdfWmTask
  rw [← h, Function.update_eq_self, Function.update_eq_self]

/-- One turn of a loop and those after it -/
theorem Lowered.turn {k : ℕ} (hk : windowRuntime c s rt cpu L = .ok k)
    (hle : r₁.runtimeMin ≤ r.runtimeMin) (hkle : r₁.runtimeMin ≤ k)
    (hmin : ∀ x ≤ r.runtimeMin, x ≤ k → x ≤ r₁.runtimeMin)
    (h : Lowered c s rt cpu u [(ulong (L + period), period)] b r₁ r') :
    Lowered c s rt cpu u [(L, period)] b r r' := by
  refine ⟨h.state, h.le.trans hle, h.zero, h.between, fun hb M hM ht => ?_, fun x hx hall => ?_⟩
  · obtain ⟨q, hq, n, rfl⟩ := hM
    cases List.mem_singleton.1 hq
    cases n with
    | zero =>
      rw [Nat.zero_mul, Nat.add_zero]
      exact ⟨k, hk, h.le.trans hkle⟩
    | succ n =>
      refine h.bound hb _ ⟨_, List.mem_singleton.2 rfl, n, ?_⟩ ht
      -- the next value does not wrap, since a later one does not
      have hlt : L + (n + 1) * period < 2 ^ 64 := ht.1
      rw [Nat.succ_mul] at hlt ⊢
      rw [← Nat.cast_add, ulong_natCast (by omega)]
      dsimp only
      omega
  · refine h.least x (hmin x hx (hall L ⟨_, List.mem_singleton.2 rfl, 0, rfl⟩ k hk)) ?_
    rintro M ⟨q, hq, n, rfl⟩
    cases List.mem_singleton.1 hq
    refine hall _ ⟨_, List.mem_singleton.2 rfl, n + 1, ?_⟩
    rw [Function.iterate_succ_apply]

/-- **A loop over the deadlines of one task** -/
theorem shareDeadlines_lowered (hshare : (s.edfWmTask rt).runtime cpu = 0) :
    ∀ (fuel L : ℕ) (r r' : Share) (b : Bool), Between c s rt cpu u r →
      shareDeadlines c rt cpu period fuel L r = .ok (b, r') →
        Lowered c s rt cpu u [(L, period)] b r r' := by
  intro fuel
  induction fuel with
  | zero =>
    intro L r r' b _ h
    cases h
  | succ fuel ih =>
    intro L r r' b hr h
    obtain ⟨rs, rmin, rlen⟩ := r
    obtain rfl : rs = s := hr.state
    rw [shareDeadlines] at h
    dsimp only at h
    split at h
    · obtain ⟨k, hk, h⟩ := bind_eq_ok.1 h
      split at h
      · rename_i hkmin
        split at h
        · rename_i hk0
          cases h
          refine ⟨rfl, Nat.zero_le _, fun _ => rfl, fun hb => absurd hb Bool.false_ne_true,
            fun hb => absurd hb Bool.false_ne_true, ?_⟩
          intro x _ hall
          have := hall L ⟨_, List.mem_singleton.2 rfl, 0, rfl⟩ k hk
          omega
        · obtain ⟨len, hlen, h⟩ := bind_eq_ok.1 h
          rw [setRuntime_zero hshare] at h
          have hr₁ : Between c rs rt cpu u ⟨rs, k, len⟩ := ⟨rfl, hkmin.trans hr.le, Or.inr hlen⟩
          exact Lowered.turn hk hkmin le_rfl (fun x _ hxk => hxk) (ih _ _ _ _ hr₁ h)
      · rename_i hkmin
        refine Lowered.turn hk le_rfl (not_le.1 hkmin).le (fun x hx _ => hx) (ih _ _ _ _ hr h)
    · rename_i hlen
      cases h
      refine ⟨rfl, le_rfl, fun hb => absurd hb Bool.true_eq_false.mp, fun _ => hr,
        fun _ M hM ht => ?_, fun x hx _ => hx⟩
      -- no deadline from here on is within the test length
      obtain ⟨q, hq, n, rfl⟩ := hM
      cases List.mem_singleton.1 hq
      have hlt := ht.1
      have hmax := hr.Lmax
      dsimp only at hlt hmax hlen
      exfalso
      rcases hmax with hmax | hmax
      · omega
      · have := ht.2 rmin le_rfl hr.le rlen hmax
        dsimp only at this
        omega

/-- **The loop over the tasks** -/
theorem shareTasks_lowered (hshare : (s.edfWmTask rt).runtime cpu = 0) :
    ∀ (l : List ℕ) (r r' : Share) (b : Bool), Between c s rt cpu u r →
      shareTasks c rt cpu fuel l r = .ok (b, r') →
        Lowered c s rt cpu u (taskLoops s rt cpu l) b r r' := by
  intro l
  induction l with
  | nil =>
    intro r r' b hr h
    cases h
    exact .nil hr
  | cons p l ih =>
    intro r r' b hr h
    have hgo : ∀ {L r₁}, shareDeadlines c rt cpu (s.task p).period fuel L r = .ok (true, r₁) →
        shareTasks c rt cpu fuel l r₁ = .ok (b, r') →
        Lowered c s rt cpu u ([(L, (s.task p).period)] ++ taskLoops s rt cpu l) b r r' := by
      intro L r₁ h₁ h
      have hloop := shareDeadlines_lowered hshare fuel L r r₁ true hr h₁
      exact hloop.append (ih r₁ r' b (hloop.between rfl) h)
    have hleave : ∀ {L r₁}, shareDeadlines c rt cpu (s.task p).period fuel L r = .ok (false, r₁) →
        Lowered c s rt cpu u ([(L, (s.task p).period)] ++ taskLoops s rt cpu l) false r r₁ :=
      fun h₁ => (shareDeadlines_lowered hshare fuel _ r _ false hr h₁).leave
    rw [shareTasks, hr.state] at h
    unfold taskLoops at hgo ⊢
    rw [List.filter_cons]
    -- the loop of a share begins at the window of `rt`, that of a whole task at its deadline
    by_cases hsplit : s.splitIsOnCpu p cpu = true
    · rw [if_pos hsplit] at h
      rw [if_pos (by unfold onCpu; rw [hsplit, Bool.or_true]), List.map_cons, if_pos hsplit]
      obtain ⟨⟨b₁, r₁⟩, h₁, h⟩ := bind_eq_ok.1 h
      cases b₁ with
      | true => exact hgo h₁ h
      | false =>
        cases h
        exact hleave h₁
    · rw [if_neg hsplit] at h
      by_cases hcpu : s.taskIsOnCpu p cpu = true
      · rw [if_pos hcpu] at h
        rw [if_pos (by unfold onCpu; rw [hcpu, Bool.true_or]), List.map_cons, if_neg hsplit]
        obtain ⟨⟨b₁, r₁⟩, h₁, h⟩ := bind_eq_ok.1 h
        cases b₁ with
        | true => exact hgo h₁ h
        | false =>
          cases h
          exact hleave h₁
      · rw [if_neg hcpu] at h
        rw [if_neg]
        · exact ih r r' b hr h
        · unfold onCpu
          rw [Bool.or_eq_true]
          exact fun h => h.elim hcpu hsplit

/-- **What `set_split_runtime` does** -/
theorem setSplitRuntime_lowered (hshare : (s.edfWmTask rt).runtime cpu = 0)
    (hu : utilCpu c s cpu = .ok u) (h : setSplitRuntime c s rt cpu fuel = .ok s') :
    ∃ b r', Lowered c s rt cpu u (loops s rt cpu) b ⟨s, firstRuntime s rt u, 2 ^ 64 - 1⟩ r' ∧
      s' = setRuntime s rt cpu r'.runtimeMin := by
  unfold setSplitRuntime at h
  obtain ⟨u', hu', h⟩ := bind_eq_ok.1 h
  cases hu.symm.trans hu'
  obtain ⟨⟨b, r⟩, htasks, h⟩ := bind_eq_ok.1 h
  have hr : Between c s rt cpu u ⟨s, firstRuntime s rt u, 2 ^ 64 - 1⟩ := ⟨rfl, le_rfl, Or.inl rfl⟩
  have hlow := shareTasks_lowered hshare s.list _ r b hr htasks
  cases b with
  | true =>
    obtain ⟨⟨b', r'⟩, hown, h⟩ := bind_eq_ok.1 h
    cases h
    rw [hlow.state] at hown
    have hlow' := shareDeadlines_lowered hshare fuel _ r r' b' (hlow.between rfl) hown
    refine ⟨b', r', hlow.append hlow', ?_⟩
    rw [hlow'.state]
  | false =>
    cases h
    refine ⟨false, r, hlow.leave, ?_⟩
    rw [hlow.state]

theorem runtime_setRuntime (s : EdfWm) (rt cpu x : ℕ) :
    ((setRuntime s rt cpu x).edfWmTask rt).runtime cpu = x := by
  unfold setRuntime
  rw [setEdfWmTask_self]
  exact Function.update_self ..

/-! ## Safe shares -/

/-- The number of periods changes at deadlines only. -/
theorem div_succ {D P : ℕ} (hD : D ≤ L) (h : ∀ n, L + 1 ≠ D + n * P) :
    (L + 1 - D) / P = (L - D) / P := by
  have hjobs := Piece.jobs_succ (p := ⟨D, P, 0⟩) (L := L) fun n hn => h n hn.symm
  unfold Piece.jobs at hjobs
  dsimp only at hjobs
  rw [if_neg (by omega), if_neg (by omega)] at hjobs
  omega

theorem dbfTask_succ (hp : p ∈ s.list) (hcpu : onCpu s cpu p = true)
    (h : ¬ Among (deadlines s rt cpu) (L + 1)) : dbfTask c s cpu p (L + 1) = dbfTask c s cpu p L := by
  have hne : ∀ n, L + 1 ≠ (if s.splitIsOnCpu p cpu then (s.edfWmTask p).deadline
      else (s.task p).deadline) + n * (s.task p).period := by
    intro n hn
    refine h ⟨_, List.mem_append_left _ (List.mem_map.2 ⟨p, List.mem_filter.2 ⟨hp, hcpu⟩, rfl⟩), n, hn⟩
  have hdiv : ∀ D, D ≤ L → (∀ n, L + 1 ≠ D + n * (s.task p).period) →
      div (L + 1 - D) (s.task p).period = div (L - D) (s.task p).period := by
    intro D hD hn
    unfold Lib.div
    rw [div_succ hD hn]
  unfold dbfTask
  by_cases hsplit : s.splitIsOnCpu p cpu = true
  · rw [if_pos hsplit] at hne
    rw [if_pos hsplit, if_pos hsplit]
    have h0 := hne 0
    by_cases hL : L < (s.edfWmTask p).deadline
    · rw [if_pos hL, if_pos (by omega)]
    · rw [if_neg hL, if_neg (by omega), hdiv _ (by omega) hne]
  · rw [if_neg hsplit] at hne
    rw [if_neg hsplit, if_neg hsplit]
    have h0 := hne 0
    by_cases hL : L < (s.task p).deadline
    · rw [if_pos hL, if_pos (by omega)]
    · rw [if_neg hL, if_neg (by omega), hdiv _ (by omega) hne]

theorem dbfCpu_succ (h : ¬ Among (deadlines s rt cpu) (L + 1)) :
    dbfCpu c s cpu (L + 1) = dbfCpu c s cpu L := by
  unfold dbfCpu
  refine foldlM_congr fun p hp sum => ?_
  split
  · rename_i hcpu
    rw [dbfTask_succ hp hcpu h]
  · rfl

/-- A share that fits at the deadlines fits in every interval. -/
theorem Safe.of_deadlines (h : ∀ L, Among (deadlines s rt cpu) L → (s.edfWmTask rt).deadline ≤ L →
    L < 2 ^ 64 → ∀ v, dbfCpu c s cpu L = .ok v → v + windows s rt L * x ≤ L) :
    Safe c s rt cpu x := by
  have hown : ∀ n, Among (deadlines s rt cpu) ((s.edfWmTask rt).deadline + n * (s.task rt).period) :=
    fun n => ⟨_, List.mem_append_right _ (List.mem_singleton.2 rfl), n, rfl⟩
  intro L hL
  induction L, hL using Nat.le_induction with
  | base =>
    intro hlt
    have h0 := hown 0
    rw [Nat.zero_mul, Nat.add_zero] at h0
    exact h _ h0 le_rfl hlt
  | succ L hL ih =>
    intro hlt v hv
    by_cases hdead : Among (deadlines s rt cpu) (L + 1)
    · exact h _ hdead (by omega) hlt v hv
    · -- nothing is due at `L + 1`
      have hwin : windows s rt (L + 1) = windows s rt L := by
        unfold windows
        rw [div_succ hL fun n hn => hdead (hn ▸ hown n)]
      rw [dbfCpu_succ hdead] at hv
      rw [hwin]
      exact (ih (by omega) v hv).trans (Nat.le_succ L)

/-- The share `x`, the tasks on the CPU and the overhead fit at `L`. -/
def Fits (c : Config) (s : EdfWm) (rt cpu x L : ℕ) : Prop :=
  ∀ v o, dbfCpu c s cpu L = .ok v → overhead c s rt cpu L = .ok o → v + o + windows s rt L * x ≤ L

/-- The test length of the share `x`, in the parameters -/
def lenOf (c : Config) (s : EdfWm) (rt cpu x : ℕ) : ℕ :=
  testLen c ((setRuntime s rt cpu x).candidates c cpu rt)

/-- The share `x` beside the tasks on the CPU -/
def withShare (c : Config) (s : EdfWm) (rt cpu x : ℕ) : List Resident :=
  s.residents c cpu ++ [⟨(s.task rt).period, (s.edfWmTask rt).deadline, x, true⟩]

/-- `x` fits where the loops look, within the test lengths of the shares from `x` on. -/
def Passes (c : Config) (s : EdfWm) (rt cpu u x : ℕ) : Prop :=
  ∀ L, Among (loops s rt cpu) L → (s.edfWmTask rt).deadline ≤ L → L < 2 ^ 64 →
    (∀ y, x ≤ y → y ≤ firstRuntime s rt u → L ≤ lenOf c s rt cpu y) → Fits c s rt cpu x L

/-- The windows of the shares on the CPU end where the loops look; no deadline there is overloaded;
and a share that passes there, cut to the window, is tested far enough. -/
structure Adequate (c : Config) (s : EdfWm) (rt cpu u : ℕ) : Prop where
  aligned : ∀ p ∈ s.list, s.splitIsOnCpu p cpu = true →
    (s.edfWmTask p).deadline ≡ (s.edfWmTask rt).deadline [MOD (s.task p).period]
  fits : ∀ L, Among (loops s rt cpu) L → (s.edfWmTask rt).deadline ≤ L → L < 2 ^ 64 →
    L ≤ lenOf c s rt cpu (firstRuntime s rt u) → Fits c s rt cpu 0 L
  long : ∀ x, 0 < x → x ≤ firstRuntime s rt u → Passes c s rt cpu u x →
    ∀ y, x ≤ y → y ≤ firstRuntime s rt u →
      residentsDeadline c (withShare c s rt cpu (min x (s.edfWmTask rt).deadline)) ≤
          lenOf c s rt cpu y ∧
        LongEnough c (withShare c s rt cpu (min x (s.edfWmTask rt).deadline)) (lenOf c s rt cpu y)

/-- A deadline on the CPU is one where the loops look. -/
theorem Adequate.among (h : Adequate c s rt cpu u) (hL : Among (deadlines s rt cpu) L)
    (hd : (s.edfWmTask rt).deadline ≤ L) : Among (loops s rt cpu) L := by
  rcases Among.append hL with ⟨q, hq, n, rfl⟩ | hown
  swap
  · obtain ⟨q, hq, hn⟩ := hown
    exact ⟨q, List.mem_append_right _ hq, hn⟩
  obtain ⟨p, hp, rfl⟩ := List.mem_map.1 hq
  have hp' := (List.mem_filter.1 hp).1
  refine Among.left ⟨_, List.mem_map.2 ⟨p, hp, rfl⟩, ?_⟩
  dsimp only at hd ⊢
  by_cases hsplit : s.splitIsOnCpu p cpu = true
  · rw [if_pos hsplit] at hd ⊢
    rw [if_pos hsplit]
    have hmod : (s.edfWmTask p).deadline + n * (s.task p).period ≡ (s.edfWmTask rt).deadline
        [MOD (s.task p).period] := by
      have hself := h.aligned p hp' hsplit
      unfold Nat.ModEq at hself ⊢
      rw [Nat.add_mul_mod_self_right]
      exact hself
    obtain ⟨m, hm⟩ := (Nat.modEq_iff_dvd' hd).1 hmod.symm
    refine ⟨m, ?_⟩
    rw [Nat.mul_comm m]
    omega
  · rw [if_neg hsplit, if_neg hsplit]
    exact ⟨n, rfl⟩

/-- What the test length of a share is, is known. -/
theorem tested_of_le (hlt : L < 2 ^ 64)
    (h : ∀ y, x ≤ y → y ≤ firstRuntime s rt u → L ≤ lenOf c s rt cpu y) :
    Tested c s rt cpu u x L := by
  refine ⟨hlt, fun y hx hy len hlen => ?_⟩
  rw [dbfLen_eq hlen]
  exact h y hx hy

/-- What is left at a deadline that is not overloaded, per window -/
theorem windowRuntime_eq {k : ℕ} (hL : (s.edfWmTask rt).deadline ≤ L) (hlt : L < 2 ^ 64)
    (hwin : windows s rt L < 2 ^ 64) (hfits : Fits c s rt cpu 0 L)
    (hk : windowRuntime c s rt cpu L = .ok k) :
    ∃ v o, dbfCpu c s cpu L = .ok v ∧ overhead c s rt cpu L = .ok o ∧ v + o ≤ L ∧
      k = (L - (v + o)) / windows s rt L := by
  unfold windowRuntime at hk
  obtain ⟨v, hv, hk⟩ := bind_eq_ok.1 hk
  obtain ⟨o, ho, hk⟩ := bind_eq_ok.1 hk
  obtain ⟨q, hq, hk⟩ := bind_eq_ok.1 hk
  have hfit := hfits v o hv ho
  rw [Nat.mul_zero, Nat.add_zero] at hfit
  refine ⟨v, o, hv, ho, hfit, ?_⟩
  have hdiff : ulong ((L : ℤ) - (s.edfWmTask rt).deadline) = L - (s.edfWmTask rt).deadline := by
    rw [← Nat.cast_sub hL, ulong_natCast (by omega)]
  have hleft : ulong ((L : ℤ) - ulong ((v : ℤ) + o)) = L - (v + o) := by
    rw [← Nat.cast_add, ulong_natCast (by omega), ← Nat.cast_sub hfit, ulong_natCast (by omega)]
  have hq1 : ulong ((q : ℤ) + 1) = windows s rt L := by
    rw [hdiff] at hq
    rw [(div_eq_ok.1 hq).2, ← Nat.cast_one, ← Nat.cast_add]
    exact ulong_natCast hwin
  rw [hleft, hq1] at hk
  exact (div_eq_ok.1 hk).2

/-- It bounds a share. -/
theorem le_windowRuntime_iff {k : ℕ} (hL : (s.edfWmTask rt).deadline ≤ L) (hlt : L < 2 ^ 64)
    (hwin : windows s rt L < 2 ^ 64) (hfits : Fits c s rt cpu 0 L)
    (hk : windowRuntime c s rt cpu L = .ok k) : x ≤ k ↔ Fits c s rt cpu x L := by
  obtain ⟨v, o, hv, ho, hfit, rfl⟩ := windowRuntime_eq hL hlt hwin hfits hk
  have hpos : 0 < windows s rt L := Nat.succ_pos _
  rw [Nat.le_div_iff_mul_le hpos, Nat.mul_comm]
  constructor
  · intro hx v' o' hv' ho'
    cases hv.symm.trans hv'
    cases ho.symm.trans ho'
    omega
  · intro h
    have := h v o hv ho
    omega

/-- A share that is tested far enough fits after the test length. -/
theorem le_of_longEnough {N v : ℕ} (hT : 0 < (s.task rt).period) (hd : (s.edfWmTask rt).deadline ≤ L)
    (hN : residentsDeadline c (withShare c s rt cpu x) ≤ N)
    (hlong : LongEnough c (withShare c s rt cpu x) N) (hL : N < L)
    (hv : dbfCpu c s cpu L = .ok v) : v + windows s rt L * x ≤ L := by
  obtain ⟨hpos, hle⟩ := dbfCpu_le hv
  have hpieces : ∀ p ∈ (withShare c s rt cpu x).map (Resident.piece c), 0 < p.period := by
    intro p hp
    have hdead := deadline_le_maxDeadline hp
    obtain ⟨r, hr, rfl⟩ := List.mem_map.1 hp
    rcases List.mem_append.1 hr with hr | hr
    · exact hpos r hr ((hdead.trans hN).trans hL.le)
    · rw [List.mem_singleton.1 hr]
      exact hT
  have hdemand := demand_le_of_line c.tick_pos hpieces hN hlong.1 hlong.2 hL
  rw [← dbfSum_eq_demand] at hdemand
  unfold withShare at hdemand
  rw [dbfSum_concat] at hdemand
  have hown : Resident.dbfTask c ⟨(s.task rt).period, (s.edfWmTask rt).deadline, x, true⟩ L =
      windows s rt L * x := by
    unfold Resident.dbfTask windows
    exact if_neg (not_lt.2 hd)
  rw [hown] at hdemand
  exact (Nat.add_le_add_right hle _).trans hdemand

/-- Task 1 on CPU 0 takes 99 of its deadline of 100 jiffies. Task 0 is split into windows of 50. -/
def heavyCpu (switchCost releaseCost : ℕ) : EdfWm where
  list := [1]
  task p := ⟨1000, 100, 99000, 99000, 1, if p = 0 then 1 else 0, false⟩
  switchCost := switchCost
  releaseCost := releaseCost
  migrationCost := 0
  edfWmTask p := { EdfWmTask.clear (Config.small false) with deadline := if p = 0 then 50 else 0 }

theorem dbfCpu_heavyCpu (sw rel L : ℕ) : ∃ v,
    dbfCpu (Config.small false) (heavyCpu sw rel) 0 L = .ok v ∧
      v ≤ if L < 100 then 0 else ((L - 100) / 1000 + 1) * 99 := by
  have hloop : dbfCpu (Config.small false) (heavyCpu sw rel) 0 L =
      dbfTask (Config.small false) (heavyCpu sw rel) 0 1 L >>= fun d =>
        .ok (ulong ((0 : ℕ) + (d : ℤ))) := by
    unfold dbfCpu
    rw [show (heavyCpu sw rel).list = [1] from rfl, List.foldlM_cons]
    have hon : ((heavyCpu sw rel).taskIsOnCpu 1 0 || (heavyCpu sw rel).splitIsOnCpu 1 0) = true := rfl
    rw [if_pos hon, bind_assoc]
    rfl
  have htask : dbfTask (Config.small false) (heavyCpu sw rel) 0 1 L =
      if L < 100 then .ok 0
      else .ok ((Config.small false).jiffies (ulong (ulong (((L - 100) / 1000 : ℕ) + 1) * 99000))) := by
    have hsplit : (heavyCpu sw rel).splitIsOnCpu 1 0 = false := rfl
    unfold dbfTask
    rw [hsplit, if_neg Bool.false_ne_true]
    rfl
  rw [hloop, htask]
  by_cases hL : L < 100
  · rw [if_pos hL, if_pos hL]
    exact ⟨0, rfl, le_rfl⟩
  · rw [if_neg hL, if_neg hL]
    refine ⟨_, rfl, ?_⟩
    have hle : ∀ n : ℕ, ulong n ≤ n := by
      intro n
      unfold ulong
      omega
    have h1 := hle ((L - 100) / 1000 + 1)
    have h2 := hle (ulong (((L - 100) / 1000 + 1 : ℕ)) * 99000)
    have hround : ∀ n m : ℕ, n ≤ m * 1000 → (Config.small false).jiffies n ≤ m := by
      intro n m hnm
      unfold Config.jiffies Config.usecsToJiffies
      dsimp only [Config.small]
      omega
    rw [Nat.cast_zero, zero_add]
    refine (hle _).trans (hround _ _ (h2.trans ?_))
    omega

theorem residents_fit_heavyCpu (sw rel : ℕ) : ∀ L < 2 ^ 64, ∃ v,
    dbfCpu (Config.small false) (heavyCpu sw rel) 0 L = .ok v ∧ v ≤ L := by
  intro L _
  obtain ⟨v, hv, hle⟩ := dbfCpu_heavyCpu sw rel L
  refine ⟨v, hv, hle.trans ?_⟩
  split
  · exact Nat.zero_le L
  · omega

theorem overhead_heavyCpu {L o : ℕ}
    (h : overhead (Config.small false) (heavyCpu 0 0) 0 0 L = .ok o) : o = 0 := by
  have hjob : ∀ p, jobCosts (Config.small false) (heavyCpu 0 0).toTaskSet p L = 0 := by
    intro p
    unfold jobCosts
    exact Nat.mul_zero _
  have hcharge : charge (Config.small false) (heavyCpu 0 0).toTaskSet 0 0 L = 0 := by
    unfold charge
    rw [List.map_congr_left fun p _ => hjob p, hjob, show (heavyCpu 0 0).switchCost = 0 from rfl,
      Nat.mul_zero]
    decide
  have hsum := (overheadAt_ok_iff.1 h).2
  rw [hcharge] at hsum
  rw [← hsum]
  decide

/-- Every share is tested up to the deadline of task 1 at least. -/
theorem lenOf_heavyCpu : ∀ y < 911, 100 ≤ lenOf (Config.small false) (heavyCpu 0 0) 0 0 y := by
  decide +kernel

theorem adequate_heavyCpu : Adequate (Config.small false) (heavyCpu 0 0) 0 0 9 := by
  have hloops : loops (heavyCpu 0 0) 0 0 = [(100, 1000), (50, 1000)] := by decide
  have hlen : ∀ y, y ≤ firstRuntime (heavyCpu 0 0) 0 9 →
      100 ≤ lenOf (Config.small false) (heavyCpu 0 0) 0 0 y :=
    fun y hy => lenOf_heavyCpu y (Nat.lt_succ_of_le hy)
  refine ⟨by decide, fun L _ _ hlt _ v o hv ho => ?_, fun x hpos hx hpass y _ hy => ?_⟩
  · obtain ⟨v', hv', hle⟩ := residents_fit_heavyCpu 0 0 L hlt
    cases hv.symm.trans hv'
    rw [overhead_heavyCpu ho, Nat.mul_zero]
    exact hle
  · -- the first deadline of task 1 leaves one jiffy
    have hx1 : x = 1 := by
      have hamong : Among (loops (heavyCpu 0 0) 0 0) 100 := by
        rw [hloops]
        exact ⟨(100, 1000), List.mem_cons_self, 0, rfl⟩
      have h := hpass 100 hamong (by decide) (by decide) (fun y _ hy => hlen y hy) 99 0
        (by decide +kernel) (by decide +kernel)
      have hwin : windows (heavyCpu 0 0) 0 100 = 1 := by decide
      rw [hwin] at h
      omega
    subst hx1
    have hdead : residentsDeadline (Config.small false)
        (withShare (Config.small false) (heavyCpu 0 0) 0 0 1) = 100 := by
      decide +kernel
    have hlong : LongEnough (Config.small false)
        (withShare (Config.small false) (heavyCpu 0 0) 0 0 1) 100 := by
      decide +kernel
    exact ⟨hdead.le.trans (hlen y hy), hlong.mono (hlen y hy)⟩

end Resch.Checked.EdfWm
