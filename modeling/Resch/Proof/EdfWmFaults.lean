import Resch.Proof.EdfWm
import Resch.Proof.Faults

/-!
# Divisions by zero that EDF-WM avoids (`edf-wm.c`)

The test and `split` divide by periods, by what is left of a hundred, and by the number of windows
that fit, to which one is added: for a task with a period of one jiffy that sum wraps to zero if a
deadline that is looked at is one jiffy before the end of the window.

* `place_avoids`: no division is by zero if the tasks on the CPUs have periods and no such deadline
  is looked at (`WindowsFit`).
-/

namespace Resch.Checked.EdfWm

open Lib

variable {c : Config} {s s' : EdfWm} {rt cpu p L d fuel num : ℕ} {mask : ℕ → Bool}

/-- The task and those on the CPU, whole or with a share, have periods. -/
structure Divisible (c : Config) (s : EdfWm) (rt cpu : ℕ) : Prop where
  own : c.usecs (s.task rt).period ≠ 0
  tasks : ∀ p ∈ s.list, s.splitIsOnCpu p cpu = true ∨ s.taskIsOnCpu p cpu = true →
    c.usecs (s.task p).period ≠ 0

/-- At most what EDF-WM knows of `rt` differs. -/
structure OwnOnly (rt : ℕ) (s s' : EdfWm) : Prop where
  toTaskSet : s'.toTaskSet = s.toTaskSet
  other : ∀ q, q ≠ rt → s'.edfWmTask q = s.edfWmTask q

theorem OwnOnly.trans {s'' : EdfWm} (h : OwnOnly rt s s') (h' : OwnOnly rt s' s'') : OwnOnly rt s s'' :=
  ⟨h'.toTaskSet.trans h.toTaskSet, fun q hq => (h'.other q hq).trans (h.other q hq)⟩

theorem ownOnly_setEdfWmTask (s : EdfWm) (rt : ℕ) (et : EdfWmTask) :
    OwnOnly rt s (setEdfWmTask s rt et) := ⟨rfl, fun _ hq => Function.update_of_ne hq ..⟩

theorem SameBut.ownOnly (h : SameBut rt s s') : OwnOnly rt s s' := ⟨h.toTaskSet, h.other⟩

theorem OwnOnly.splitIsOnCpu (h : OwnOnly rt s s') (hp : p ≠ rt) :
    s'.splitIsOnCpu p cpu = s.splitIsOnCpu p cpu := by
  unfold Resch.EdfWm.splitIsOnCpu
  simp only [h.other p hp]

theorem OwnOnly.taskIsOnCpu (h : OwnOnly rt s s') : s'.taskIsOnCpu p cpu = s.taskIsOnCpu p cpu := by
  rw [h.toTaskSet]

theorem Divisible.ownOnly (h : Divisible c s rt cpu) (hs : OwnOnly rt s s') : Divisible c s' rt cpu := by
  constructor
  · rw [hs.toTaskSet]
    exact h.own
  · intro p hp hon
    by_cases hprt : p = rt
    · rw [hprt, hs.toTaskSet]
      exact h.own
    · rw [hs.splitIsOnCpu hprt, hs.taskIsOnCpu] at hon
      rw [hs.toTaskSet] at hp ⊢
      exact h.tasks p hp hon

theorem Divisible.periods (h : Divisible c s rt cpu) : Periods c s.toTaskSet cpu := by
  intro p hp hcpu
  exact h.tasks p hp (Or.inr (decide_eq_true hcpu))

/-! ## The test -/

theorem util_avoids (h : c.usecs (s.task p).period ≠ 0) : Avoids .divideByZero (util c s p) :=
  Avoids.div fun _ => h

theorem utilSplit_avoids (h : c.usecs (s.task p).period ≠ 0) :
    Avoids .divideByZero (utilSplit c s cpu p) := Avoids.div fun _ => h

theorem utilCpu_avoids (h : Divisible c s rt cpu) : Avoids .divideByZero (utilCpu c s cpu) := by
  unfold utilCpu
  refine Avoids.foldlM (fun p hp u => ?_) 0
  refine .ite (fun hs => ?_) fun _ => .ite (fun hw => ?_) fun _ => .pure _
  · exact (utilSplit_avoids (h.tasks p hp (Or.inl hs))).bind fun v _ => .pure _
  · exact (util_avoids (h.tasks p hp (Or.inr hw))).bind fun v _ => .pure _

theorem overhead_avoids (h : Divisible c s rt cpu) : Avoids .divideByZero (overhead c s rt cpu L) := by
  unfold overhead
  refine (schedOverheadCpu_avoids fun _ => h.periods).bind fun o _ => ?_
  exact (schedOverheadTask_avoids fun _ => h.own).bind fun o' _ => .pure _

theorem dbfLen_avoids (h : Divisible c s rt cpu) : Avoids .divideByZero (dbfLen c s rt cpu) := by
  have hshare : ∀ p sums, c.usecs (s.task p).period ≠ 0 →
      Avoids .divideByZero (dbfLenShare c s cpu p sums) := fun p sums hp =>
    (utilSplit_avoids hp).bind fun v _ => .pure _
  have htask : ∀ p sums, c.usecs (s.task p).period ≠ 0 →
      Avoids .divideByZero (dbfLenTask c s p sums) := fun p sums hp =>
    (util_avoids hp).bind fun v _ => .pure _
  have hlen : ∀ x u dl : ℕ, Avoids .divideByZero (if 100 = u then pure dl else if 100 < u then pure 0
      else do return max (← div x (100 - u)) dl) := by
    intro x u dl
    refine .ite (fun _ => .pure _) fun hu => .ite (fun _ => .pure _) fun hu' => ?_
    exact (Avoids.div fun _ => by omega).bind fun q _ => .pure _
  unfold dbfLen
  refine (Avoids.foldlM (fun p hp sums => ?_) _).bind fun sums _ => ?_
  · refine .ite (fun hs => hshare p sums (h.tasks p hp (Or.inl hs))) fun _ => ?_
    exact .ite (fun hw => htask p sums (h.tasks p hp (Or.inr hw))) fun _ => .pure _
  · refine .ite (fun _ => (hshare rt sums h.own).bind fun r _ => ?_) fun _ => ?_
    · obtain ⟨x, u, dl⟩ := r
      exact hlen x u dl
    · refine (htask rt sums h.own).bind fun r _ => ?_
      obtain ⟨x, u, dl⟩ := r
      exact hlen x u dl

theorem dbfTask_avoids (h : c.usecs (s.task p).period ≠ 0) :
    Avoids .divideByZero (dbfTask c s cpu p L) := by
  unfold dbfTask
  refine .ite (fun _ => ?_) fun _ => ?_
  · refine .ite (fun _ => .pure _) fun _ => ?_
    exact (Avoids.div fun _ => period_ne_zero h).bind fun q _ => .pure _
  · refine .ite (fun _ => .pure _) fun _ => ?_
    exact (Avoids.div fun _ => period_ne_zero h).bind fun q _ => .pure _

theorem dbfCpu_avoids (h : Divisible c s rt cpu) : Avoids .divideByZero (dbfCpu c s cpu L) := by
  unfold dbfCpu
  refine Avoids.foldlM (fun p hp sum => ?_) 0
  refine .ite (fun hon => ?_) fun _ => .pure _
  rw [Bool.or_eq_true] at hon
  exact (dbfTask_avoids (h.tasks p hp hon.symm)).bind fun d _ => .pure _

theorem fits_avoids (h : Divisible c s rt cpu) : Avoids .divideByZero (fits c s rt cpu L) := by
  unfold fits
  refine (dbfCpu_avoids h).bind fun d _ => ?_
  refine (dbfTask_avoids h.own).bind fun d' _ => ?_
  exact (overhead_avoids h).bind fun o _ => .pure _

theorem testDeadlines_avoids (h : Divisible c s rt cpu) {Lmax period : ℕ} (fuel L : ℕ) :
    Avoids .divideByZero (testDeadlines c s rt cpu Lmax period fuel L) :=
  .loop (show Fault.outOfFuel ≠ .divideByZero from nofun) (fun _ => rfl) (fun _ _ => rfl)
    (fun _ => fits_avoids h) fuel L

theorem testTasks_avoids (h : Divisible c s rt cpu) {Lmax : ℕ} :
    ∀ ps, Avoids .divideByZero (testTasks c s rt cpu fuel Lmax ps) := by
  intro ps
  induction ps with
  | nil => exact .pure _
  | cons p ps ih =>
    refine .ite (fun _ => (testDeadlines_avoids h _ _).andThen ih) fun _ => ?_
    exact .ite (fun _ => (testDeadlines_avoids h _ _).andThen ih) fun _ => ih

theorem dbfTest_avoids (h : Divisible c s rt cpu) : Avoids .divideByZero (dbfTest c s rt cpu fuel) := by
  unfold dbfTest
  refine .ite (fun _ => .pure _) fun _ => ?_
  refine (dbfLen_avoids h).bind fun Lmax _ => ?_
  refine .ite (fun _ => .pure _) fun _ => ?_
  exact (testTasks_avoids h _).andThen (testDeadlines_avoids h _ _)

theorem cpuWorstFit_avoids (h : ∀ cpu < c.nrRtCpus, Divisible c s rt cpu) :
    Avoids .divideByZero (cpuWorstFit c s rt fuel mask) := by
  unfold cpuWorstFit
  refine (Avoids.foldlM (fun cpu hcpu r => ?_) _).bind fun r _ => .pure _
  have hd := h cpu (List.mem_range.1 hcpu)
  refine .ite (fun _ => ?_) fun _ => .pure _
  refine (dbfTest_avoids hd).bind fun b _ => ?_
  refine .ite (fun _ => ?_) fun _ => .pure _
  exact (utilCpu_avoids hd).bind fun u _ => .pure _

/-! ## The shares -/

/-- The deadline after `k` periods, as the loops compute it -/
def walk (period k L : ℕ) : ℕ := (fun L => ulong (L + period))^[k] L

/-- `L` is not one jiffy before the end of the first window `d`, or the period is not one jiffy. -/
def NoWrap (s : EdfWm) (rt d L : ℕ) : Prop := (s.task rt).period = 1 → ulong ((L : ℤ) + 1 - d) ≠ 0

/-- The deadlines that `set_split_runtime` looks at on a CPU: those of the tasks there that are whole,
and the window for shares and for the task itself -/
structure WindowFits (s : EdfWm) (rt cpu fuel d : ℕ) : Prop where
  own : ∀ k < fuel, NoWrap s rt d (walk (s.task rt).period k d)
  shares : ∀ p ∈ s.list, p ≠ rt → s.splitIsOnCpu p cpu = true →
    ∀ k < fuel, NoWrap s rt d (walk (s.task p).period k d)
  tasks : ∀ p ∈ s.list, s.taskIsOnCpu p cpu = true →
    ∀ k < fuel, NoWrap s rt d (walk (s.task p).period k (s.task p).deadline)

theorem WindowFits.ownOnly (h : WindowFits s rt cpu fuel d) (hs : OwnOnly rt s s') :
    WindowFits s' rt cpu fuel d := by
  have hwrap : ∀ {L}, NoWrap s' rt d L ↔ NoWrap s rt d L := by
    unfold NoWrap
    rw [hs.toTaskSet]
  constructor
  · intro k hk
    rw [hwrap, hs.toTaskSet]
    exact h.own k hk
  · intro p hp hprt hon k hk
    rw [hs.splitIsOnCpu hprt] at hon
    rw [hs.toTaskSet] at hp
    rw [hwrap, hs.toTaskSet]
    exact h.shares p hp hprt hon k hk
  · intro p hp hon k hk
    rw [hs.taskIsOnCpu] at hon
    rw [hs.toTaskSet] at hp
    rw [hwrap, hs.toTaskSet]
    exact h.tasks p hp hon k hk

theorem windowRuntime_avoids (h : Divisible c s rt cpu) (hd : (s.edfWmTask rt).deadline = d)
    (hf : NoWrap s rt d L) : Avoids .divideByZero (windowRuntime c s rt cpu L) := by
  have hP := period_ne_zero h.own
  unfold windowRuntime
  refine (dbfCpu_avoids h).bind fun dbf _ => (overhead_avoids h).bind fun o _ => ?_
  rw [div_of_ne hP, hd]
  refine Avoids.bind (.ok _) fun q hq => Avoids.div fun _ => ?_
  cases hq
  have hlt : ulong ((L : ℤ) - d) < 2 ^ 64 := by
    unfold ulong
    omega
  by_cases h1 : (s.task rt).period = 1
  · have hne := hf h1
    rw [h1, Nat.div_one]
    unfold ulong at hne hlt ⊢
    omega
  · -- with a longer period the quotient is far from wrapping
    have hq : ulong ((L : ℤ) - d) / (s.task rt).period ≤ ulong ((L : ℤ) - d) / 2 :=
      Nat.div_le_div_left (by omega) (by decide)
    generalize ulong ((L : ℤ) - d) / (s.task rt).period = q at hq ⊢
    rw [ulong_of_lt (by omega) (by omega)]
    omega

theorem shareDeadlines_avoids {period : ℕ} : ∀ (fuel L : ℕ) (r : Share), Divisible c r.s rt cpu →
    (r.s.edfWmTask rt).deadline = d → (∀ k < fuel, NoWrap r.s rt d (walk period k L)) →
      Avoids .divideByZero (shareDeadlines c rt cpu period fuel L r) := by
  intro fuel
  induction fuel with
  | zero => exact fun _ _ _ _ _ => .throw nofun
  | succ fuel ih =>
    intro L r h hd hf
    have hnext : ∀ k < fuel, NoWrap r.s rt d (walk period k (ulong (L + period))) := fun k hk =>
      hf (k + 1) (by omega)
    rw [shareDeadlines]
    refine .ite (fun _ => ?_) fun _ => .pure _
    refine (windowRuntime_avoids h hd (hf 0 (by omega))).bind fun runtime _ => ?_
    refine .ite (fun _ => ?_) fun _ => ih _ _ h hd hnext
    refine .ite (fun _ => .pure _) fun _ => ?_
    have hset := setRuntime_same r.s rt cpu 0
    refine (dbfLen_avoids (h.ownOnly (setRuntime_same r.s rt cpu runtime).ownOnly)).bind fun Lmax _ => ?_
    refine ih _ _ (h.ownOnly hset.ownOnly) (hset.deadline.trans hd) fun k hk => ?_
    unfold NoWrap
    rw [hset.toTaskSet]
    exact hnext k hk

theorem shareTasks_avoids : ∀ (ps : List ℕ) (r : Share), ps ⊆ r.s.list → Divisible c r.s rt cpu →
    (r.s.edfWmTask rt).deadline = d → WindowFits r.s rt cpu fuel d →
      Avoids .divideByZero (shareTasks c rt cpu fuel ps r) := by
  intro ps
  induction ps with
  | nil => exact fun _ _ _ _ _ => .pure _
  | cons p ps ih =>
    intro r hsub h hd hw
    have hrest : ps ⊆ r.s.list := fun q hq => hsub (List.mem_cons_of_mem _ hq)
    have hp := hsub List.mem_cons_self
    have hgo : ∀ {r'}, SameBut rt r.s r'.s → Avoids .divideByZero (shareTasks c rt cpu fuel ps r') := by
      intro r' hsame
      refine ih r' ?_ (h.ownOnly hsame.ownOnly) (hsame.deadline.trans hd) (hw.ownOnly hsame.ownOnly)
      rw [hsame.toTaskSet]
      exact hrest
    rw [shareTasks]
    refine .ite (fun hs => ?_) fun _ => .ite (fun ht => ?_) fun _ => ih r hrest h hd hw
    · have hwalk : ∀ k < fuel, NoWrap r.s rt d (walk (r.s.task p).period k (r.s.edfWmTask rt).deadline) := by
        intro k hk
        rw [hd]
        by_cases hprt : p = rt
        · rw [hprt]
          exact hw.own k hk
        · exact hw.shares p hp hprt hs k hk
      refine (shareDeadlines_avoids _ _ r h hd hwalk).bind fun x hx => ?_
      obtain ⟨b, r'⟩ := x
      cases b with
      | true => exact hgo (shareDeadlines_same _ _ _ _ _ hx)
      | false => exact .pure _
    · refine (shareDeadlines_avoids _ _ r h hd fun k hk => hw.tasks p hp ht k hk).bind fun x hx => ?_
      obtain ⟨b, r'⟩ := x
      cases b with
      | true => exact hgo (shareDeadlines_same _ _ _ _ _ hx)
      | false => exact .pure _

theorem setSplitRuntime_avoids (h : Divisible c s rt cpu) (hd : (s.edfWmTask rt).deadline = d)
    (hw : WindowFits s rt cpu fuel d) : Avoids .divideByZero (setSplitRuntime c s rt cpu fuel) := by
  unfold setSplitRuntime
  refine (utilCpu_avoids h).bind fun u _ => ?_
  refine (shareTasks_avoids s.list _ (List.Subset.refl _) h hd hw).bind fun x hx => ?_
  obtain ⟨goesOn, r⟩ := x
  have hsame := shareTasks_same _ _ _ _ hx
  refine .ite (fun _ => ?_) fun _ => .pure _
  have hdr : (r.s.edfWmTask rt).deadline = d := hsame.deadline.trans hd
  have hown := (hw.ownOnly hsame.ownOnly).own
  rw [← hdr] at hown
  refine (shareDeadlines_avoids fuel _ r (h.ownOnly hsame.ownOnly) rfl hown).bind fun y _ => ?_
  exact .pure _

/-! ## The tries -/

/-- The numbers of windows that `split` tries -/
def nums (c : Config) : List ℕ := 2 :: List.range' 3 (c.nrRtCpus - 2)

/-- The shares of the windows that `split` may try have divisors. -/
def WindowsFit (c : Config) (s : EdfWm) (rt fuel : ℕ) : Prop :=
  ∀ num ∈ nums c, ∀ cpu < c.nrRtCpus, WindowFits s rt cpu fuel ((s.task rt).deadline / num)

theorem trySplit_ownOnly {b : Bool} (h : trySplit c s rt fuel num = .ok (s', b)) : OwnOnly rt s s' := by
  unfold trySplit at h
  dsimp only at h
  obtain ⟨s₁, hshares, h⟩ := bind_eq_ok.1 h
  have hown := (ownOnly_setEdfWmTask s rt _).trans (foldlM_same _ _ _ hshares).ownOnly
  split at h
  · cases h
  split at h
  · cases h
    exact hown.trans (ownOnly_setEdfWmTask s₁ rt _)
  · cases h
    exact hown.trans (ownOnly_setEdfWmTask s₁ rt _)

theorem trySplit_avoids (h : ∀ cpu < c.nrRtCpus, Divisible c s rt cpu)
    (hw : ∀ cpu < c.nrRtCpus, WindowFits s rt cpu fuel ((s.task rt).deadline / num)) :
    Avoids .divideByZero (trySplit c s rt fuel num) := by
  unfold trySplit
  dsimp only
  have hown := ownOnly_setEdfWmTask s rt
    { s.edfWmTask rt with deadline := (s.task rt).deadline / num }
  -- the shares of the CPUs before do not matter to those of the task on the next CPU
  refine (Avoids.foldlM_of_inv (P := fun t => OwnOnly rt s t ∧
    (t.edfWmTask rt).deadline = (s.task rt).deadline / num) (fun cpu hcpu t ht => ?_)
    (fun t cpu t' ht hset => ?_) _ ⟨hown, ?_⟩).bind fun s₁ _ => ?_
  · have hlt := List.mem_range.1 hcpu
    exact setSplitRuntime_avoids ((h cpu hlt).ownOnly ht.1) ht.2 ((hw cpu hlt).ownOnly ht.1)
  · have hsame := setSplitRuntime_same hset
    exact ⟨ht.1.trans hsame.ownOnly, hsame.deadline.trans ht.2⟩
  · rw [setEdfWmTask_self]
  · refine .ite (fun _ => .throw nofun) fun _ => ?_
    exact .ite (fun _ => .pure _) fun _ => .pure _

theorem splitLoop_avoids : ∀ (ns : List ℕ) (s : EdfWm), ns ⊆ nums c →
    (∀ cpu < c.nrRtCpus, Divisible c s rt cpu) → WindowsFit c s rt fuel →
      Avoids .divideByZero (splitLoop c rt fuel ns s) := by
  intro ns
  induction ns with
  | nil => exact fun s _ _ _ => .pure _
  | cons num ns ih =>
    intro s hsub h hw
    rw [splitLoop]
    refine (trySplit_avoids h (hw num (hsub List.mem_cons_self))).bind fun x hx => ?_
    obtain ⟨s₁, b⟩ := x
    cases b with
    | true => exact .pure _
    | false =>
      have hown := (trySplit_ownOnly hx).trans (ownOnly_setEdfWmTask s₁ rt (EdfWmTask.clear c))
      refine ih _ (fun n hn => hsub (List.mem_cons_of_mem _ hn))
        (fun cpu hcpu => (h cpu hcpu).ownOnly hown) fun n hn cpu hcpu => ?_
      have hwrap := (hw n hn cpu hcpu).ownOnly hown
      rw [hown.toTaskSet]
      exact hwrap

/-- **The test and `split` divide by no zero** if the tasks on the CPUs have periods, and no
deadline is one jiffy before the end of a window of a task with a period of one jiffy. -/
theorem place_avoids (h : ∀ cpu < c.nrRtCpus, Divisible c s rt cpu) (hw : WindowsFit c s rt fuel) :
    Avoids .divideByZero (place c s rt fuel mask) := by
  unfold place
  refine (cpuWorstFit_avoids h).bind fun cpuDst _ => ?_
  refine .ite (fun _ => .pure _) fun _ => ?_
  exact (splitLoop_avoids _ s (List.Subset.refl _) h hw).bind fun r _ => .pure _

end Resch.Checked.EdfWm
