import Resch.Lib.Runs
import Resch.Proof.ApiHooks
import Resch.Proof.Bitops
import Resch.Spec.PidRun

/-!
# Who holds which id

`Exclusive` says that no two attached processes hold one id, and `PidOp.Undisturbing` that
a step leaves the descriptors alone whose ids other processes hold. Both rest on the pid
map: the bit of an id is set as long as a process holds it (`PidInv.marked`). Two places
clear bits too early. `api_exit` clears its own before it is done with the descriptor,
and `clear_dead_tasks` clears those of stopped processes, which may come back.

`PidOp.Orderly` is the condition on a step that neither matters: `PidInv.step` is the step
lemma, and `pidStep_exclusive` the result for runs.
-/

namespace Resch

open Lib

variable {c : Config} {k : Kernel} {s s' : PidState} {p q rid : ℕ}

/-- No two processes hold one id. -/
def Exclusive (s : PidState) : Prop :=
  ∀ p q rid, s.held p rid = true → s.held q rid = true → p = q

/-- The step writes no descriptor whose id is held by another process. -/
def PidOp.Undisturbing (c : Config) (k : Kernel) (s : PidState) (op : PidOp) : Prop :=
  ∀ q rid, q ≠ op.proc → s.held q rid = true →
    op.descriptor ≠ some rid ∧ (op.exec c k s).core.task rid = s.core.task rid

/-- The condition on a step: `api_init` on a full map finds no descriptor of a stopped
process, the id that it takes is not one that an `api_exit` is still busy with, and
`api_exit` is not called with an id that belongs to someone else. -/
def PidOp.Orderly (c : Config) (s : PidState) : PidOp → Prop
  | initTake _ =>
    let rid := reschFfz s.core.pidMap c.pidMapLong
    if rid < 0 then
      ∀ i, i < c.nrRtTasks → (s.core.task i).task ≠ 0 →
        (s.core.proc (s.core.task i).task).state ≠ .stopped
    else ∀ q, ¬ s.InExit q rid.toNat
  | exitDetach p rid => ∀ q, q ≠ p → s.held q rid = false
  | _ => True

/-- **The invariant.** The bit of an id that is held is set, except between the clearing and
the end of `api_exit`; a descriptor that is about to be initialised belongs to its process;
and nobody holds an id that another process is giving back. -/
structure PidInv (s : PidState) : Prop where
  exclusive : Exclusive s
  marked : ∀ p rid, s.held p rid = true → s.call p ≠ .exitPolicy rid →
    testBit rid s.core.pidMap = true
  fresh : ∀ p rid, s.call p = .initDesc rid → s.held p rid = true
  leaving : ∀ p rid, s.InExit p rid → ∀ q, q ≠ p → s.held q rid = false

/-! ## Taking an id -/

/-- Without stopped processes, `clear_dead_tasks` clears nothing. -/
theorem clearDeadTasks_eq {s : State} (h : ∀ i, i < c.nrRtTasks → (s.task i).task ≠ 0 →
    (s.proc (s.task i).task).state ≠ .stopped) : clearDeadTasks c s = s := by
  unfold clearDeadTasks
  have : ∀ l : List ℕ, (∀ i ∈ l, i < c.nrRtTasks) → l.foldl clearDeadTask s = s := by
    intro l hl
    induction l with
    | nil => rfl
    | cons i l ih =>
      have hi : clearDeadTask s i = s := by
        unfold clearDeadTask
        rw [if_neg]
        exact fun hc => h i (hl i (by simp)) hc.1 hc.2
      rw [List.foldl_cons, hi]
      exact ih fun j hj => hl j (by simp [hj])
  exact this _ fun i hi => List.mem_range.1 hi

/-- The id that `api_init` takes is free, and is marked afterwards. -/
theorem apiInitTake_free {s : State} (h : ¬ reschFfz s.pidMap c.pidMapLong < 0) :
    ∃ m : ℕ, apiInitTake c s = ({ s with pidMap := setBit m s.pidMap }, (m : ℤ)) ∧
      reschFfz s.pidMap c.pidMapLong = m ∧ testBit m s.pidMap = false := by
  obtain ⟨m, hm, -, hfree, -⟩ := (reschFfz_spec s.pidMap c.pidMapLong).of_nonneg h
  refine ⟨m, ?_, hm, by simpa using hfree⟩
  unfold apiInitTake
  rw [hm]
  simp

/-! ## The step lemma -/

theorem held_setHeld (s : PidState) (p rid q r : ℕ) (b : Bool) :
    (s.setHeld p rid b).held q r = if q = p ∧ r = rid then b else s.held q r := by
  unfold PidState.setHeld
  by_cases hq : q = p
  · subst hq
    by_cases hr : r = rid
    · subst hr; simp
    · simp [hr]
  · simp [hq]

theorem call_setCall (s : PidState) (p q : ℕ) (x : CallPoint) :
    (s.setCall p x).call q = if q = p then x else s.call q := by
  simp [PidState.setCall, Function.update_apply]

/-- `p` goes on within its call, and no bit is cleared. -/
theorem PidInv.goOn (h : PidInv s) {core : State} {x : CallPoint}
    (hmap : core.pidMap = s.core.pidMap) (hp : ∀ rid, s.call p ≠ .exitPolicy rid)
    (hfresh : ∀ rid, x ≠ .initDesc rid) (hpolicy : ∀ rid, x ≠ .exitPolicy rid)
    (hleave : ∀ rid, x = .exitClear rid → ∀ q, q ≠ p → s.held q rid = false) :
    PidInv ({ s with core := core }.setCall p x) := by
  refine ⟨h.exclusive, fun q rid hq hc => ?_, fun q rid hc => ?_, fun q rid hc => ?_⟩
  · rw [call_setCall] at hc
    show testBit rid core.pidMap = true
    rw [hmap]
    refine h.marked q rid hq fun hcall => ?_
    by_cases hqp : q = p
    · subst hqp; exact hp rid hcall
    · rw [if_neg hqp] at hc; exact hc hcall
  · rw [call_setCall] at hc
    split at hc
    · exact absurd hc (hfresh rid)
    · exact h.fresh q rid hc
  · unfold PidState.InExit at hc
    rw [call_setCall] at hc
    split at hc
    · rename_i hqp
      subst hqp
      exact hleave rid (hc.resolve_right (hpolicy rid))
    · exact h.leaving q rid hc

/-- A step that changes neither calls nor ids. -/
theorem PidInv.congr (h : PidInv s) {core : State} (hmap : core.pidMap = s.core.pidMap) :
    PidInv { s with core := core } :=
  ⟨h.exclusive, fun q rid hq hc => (congrArg (testBit (rid : ℤ)) hmap).trans (h.marked q rid hq hc),
    h.fresh, h.leaving⟩

/-- `api_init` takes a free id that nobody is giving back. -/
theorem PidInv.take (h : PidInv s) (hp : s.call p = .user) {m : ℕ}
    (hfree : testBit m s.core.pidMap = false) (hexit : ∀ q, ¬ s.InExit q m) :
    PidInv (({ s with core := { s.core with pidMap := setBit m s.core.pidMap } }.setCall p
      (.initDesc m)).setHeld p m true) := by
  have hnone : ∀ q, s.held q m = false := by
    intro q
    by_contra hq
    have := h.marked q m (by simpa using hq) fun hc => hexit q (Or.inr hc)
    rw [hfree] at this; cases this
  generalize hs' : (({ s with core := { s.core with pidMap := setBit m s.core.pidMap } }.setCall p
      (.initDesc m)).setHeld p m true) = s'
  have hheld : ∀ q rid, s'.held q rid = if q = p ∧ rid = m then true else s.held q rid := by
    intro q rid; rw [← hs', held_setHeld]; rfl
  have hcall : ∀ q, s'.call q = if q = p then .initDesc m else s.call q := by
    intro q; rw [← hs']; exact call_setCall _ p q _
  have hbit : ∀ rid : ℕ, testBit rid s'.core.pidMap = (decide (rid = m) || testBit rid s.core.pidMap) := by
    intro rid
    rw [← hs']
    refine (testBit_setBit (by decide) (Int.natCast_nonneg m) _).trans ?_
    simp only [Nat.cast_inj]
  refine ⟨fun q q' rid hq hq' => ?_, fun q rid hq hc => ?_, fun q rid hc => ?_,
    fun q rid hc q' hne => ?_⟩
  · have := h.exclusive q q' rid
    grind
  · have := h.marked q rid
    grind
  · have := h.fresh q rid
    grind
  · have := h.leaving q rid
    have := hexit q
    unfold PidState.InExit at *
    grind

/-- The bit of an id that `p` gives back is cleared. -/
theorem PidInv.clear (h : PidInv s) (hp : s.call p = .exitClear rid) :
    PidInv ({ s with core := apiExitClear s.core rid }.setCall p (.exitPolicy rid)) := by
  have hnone := h.leaving p rid (Or.inl hp)
  generalize hs' : { s with core := apiExitClear s.core rid }.setCall p (.exitPolicy rid) = s'
  have hheld : s'.held = s.held := by rw [← hs']; rfl
  have hcall : ∀ q, s'.call q = if q = p then .exitPolicy rid else s.call q := by
    intro q; rw [← hs']; exact call_setCall _ p q _
  have hbit : ∀ r : ℕ, testBit r s'.core.pidMap = (!decide (r = rid) && testBit r s.core.pidMap) := by
    intro r
    rw [← hs']
    refine (testBit_clearBit (by decide) (Int.natCast_nonneg rid) _).trans ?_
    simp only [Nat.cast_inj]
  refine ⟨?_, fun q r hq hc => ?_, fun q r hc => ?_, fun q r hc q' hne => ?_⟩
  · unfold Exclusive; rw [hheld]; exact h.exclusive
  · have := h.marked q r
    have := hnone q
    grind
  · rw [hheld]
    have := h.fresh q r
    grind
  · rw [hheld]
    have := fun hx => h.leaving q r hx q' hne
    have := hnone q'
    unfold PidState.InExit at *
    grind

/-- The end of `api_exit`. -/
theorem PidInv.finish (h : PidInv s) (hp : s.call p = .exitPolicy rid) {core : State}
    (hmap : core.pidMap = s.core.pidMap) :
    PidInv (({ s with core := core }.setCall p .user).setHeld p rid false) := by
  generalize hs' : ({ s with core := core }.setCall p .user).setHeld p rid false = s'
  have hheld : ∀ q r, s'.held q r = if q = p ∧ r = rid then false else s.held q r := by
    intro q r; rw [← hs', held_setHeld]; rfl
  have hcall : ∀ q, s'.call q = if q = p then .user else s.call q := by
    intro q; rw [← hs']; exact call_setCall _ p q _
  have hbit : s'.core.pidMap = s.core.pidMap := by rw [← hs']; exact hmap
  refine ⟨fun q q' r hq hq' => ?_, fun q r hq hc => ?_, fun q r hc => ?_, fun q r hc q' hne => ?_⟩
  · have := h.exclusive q q' r
    grind
  · rw [hbit]
    have := h.marked q r
    grind
  · have := h.fresh q r
    grind
  · have := fun hx => h.leaving q r hx q' hne
    unfold PidState.InExit at *
    grind

/-- **The step lemma.** -/
theorem PidInv.step (h : PidInv s) {op : PidOp} (hen : op.enabled s = true) (ho : op.Orderly c s) :
    PidInv (op.exec c k s) := by
  cases op with
  | initTake p =>
    have hp : s.call p = .user := by simp [PidOp.enabled] at hen; exact hen.2
    unfold PidOp.exec
    unfold PidOp.Orderly at ho
    dsimp only at ho ⊢
    by_cases hr : reschFfz s.core.pidMap c.pidMapLong < 0
    · rw [if_pos hr] at ho
      have : apiInitTake c s.core = (s.core, reschFfz s.core.pidMap c.pidMapLong) := by
        unfold apiInitTake
        simp [hr, clearDeadTasks_eq ho]
      rw [this]
      simpa [hr] using h
    · rw [if_neg hr] at ho
      obtain ⟨m, htake, hm, hfree⟩ := apiInitTake_free hr
      rw [hm] at ho
      rw [htake]
      have hneg : ¬ (m : ℤ) < 0 := by omega
      simpa [hneg] using h.take hp hfree (by simpa using ho)
  | initDesc p rid =>
    have hp : s.call p = .initDesc rid := by simp [PidOp.enabled] at hen; exact hen.2
    obtain ⟨t, proc, heq, -⟩ := reschTaskInit_eq c k s.core rid p
    refine h.goOn (by rw [heq]) ?_ ?_ ?_ ?_ <;> intro r hr <;> simp_all
  | exitDetach p rid =>
    have hp : s.call p = .user := by simp [PidOp.enabled] at hen; exact hen.2
    refine h.goOn (apiExitDetach_updates c k s.core rid).rest.2.1 ?_ ?_ ?_ ?_ <;> intro r hr
    · simp_all
    · cases hr
    · cases hr
    · cases hr; exact ho
  | exitClear p rid =>
    have hp : s.call p = .exitClear rid := by simp [PidOp.enabled] at hen; exact hen.2
    exact h.clear hp
  | exitPolicy p rid =>
    have hp : s.call p = .exitPolicy rid := by simp [PidOp.enabled] at hen; exact hen.2
    exact h.finish hp (apiExitPolicy_rest c k s.core rid).2
  | stop p => exact h.congr rfl
  | cont p => exact h.congr rfl

/-! ## What a step writes -/

theorem clearDeadTasks_only (c : Config) (s : State) :
    ∃ m, clearDeadTasks c s = { s with pidMap := m } := by
  unfold clearDeadTasks
  generalize List.range c.nrRtTasks = l
  induction l generalizing s with
  | nil => exact ⟨s.pidMap, rfl⟩
  | cons i l ih =>
    obtain ⟨m, hm⟩ := ih (clearDeadTask s i)
    refine ⟨m, ?_⟩
    rw [List.foldl_cons, hm]
    unfold clearDeadTask
    dsimp only
    split <;> rfl

/-- `api_init` changes the pid map only, up to the lock. -/
theorem apiInitTake_only (c : Config) (s : State) :
    ∃ m, (apiInitTake c s).1 = { s with pidMap := m } := by
  unfold apiInitTake
  dsimp only
  split
  · exact clearDeadTasks_only c s
  · exact ⟨_, rfl⟩

theorem PidOp.initTake_only (c : Config) (k : Kernel) (s : PidState) (p : ℕ) :
    ∃ m, ((PidOp.initTake p).exec c k s).core = { s.core with pidMap := m } := by
  obtain ⟨m, hm⟩ := apiInitTake_only c s.core
  refine ⟨m, ?_⟩
  rw [← hm]
  unfold PidOp.exec
  dsimp only
  split <;> rfl

/-- A step writes at most the one descriptor that it is said to write. -/
theorem PidOp.task_of_ne (c : Config) (k : Kernel) (s : PidState) {op : PidOp}
    (h : op.descriptor ≠ some rid) : (op.exec c k s).core.task rid = s.core.task rid := by
  cases op with
  | initTake p =>
    obtain ⟨m, hm⟩ := PidOp.initTake_only c k s p
    rw [hm]
  | initDesc p r =>
    have hne : rid ≠ r := fun h' => h (by rw [h']; rfl)
    obtain ⟨t, proc, heq, -⟩ := reschTaskInit_eq c k s.core r p
    show (reschTaskInit c k s.core r p).task rid = _
    rw [heq]
    exact Function.update_of_ne hne _ _
  | exitDetach p r =>
    have hne : rid ≠ r := fun h' => h (by rw [h']; rfl)
    exact (apiExitDetach_updates c k s.core r).task_of_ne hne
  | exitPolicy p r =>
    have hne : rid ≠ r := fun h' => h (by rw [h']; rfl)
    exact (apiExitPolicy_rest c k s.core r).1 rid hne
  | exitClear | stop | cont => rfl

/-- A step gives and takes no id of another process. -/
theorem PidOp.held_of_ne (c : Config) (k : Kernel) (s : PidState) {op : PidOp} (hq : q ≠ op.proc) :
    (op.exec c k s).held q = s.held q := by
  cases op with
  | initTake p =>
    unfold PidOp.exec
    dsimp only
    split
    · rfl
    · exact Function.update_of_ne hq _ _
  | exitPolicy p r => exact Function.update_of_ne hq _ _
  | initDesc | exitDetach | exitClear | stop | cont => rfl

theorem PidOp.call_of_ne (c : Config) (k : Kernel) (s : PidState) {op : PidOp} (hq : q ≠ op.proc) :
    (op.exec c k s).call q = s.call q := by
  cases op with
  | initTake p =>
    unfold PidOp.exec
    dsimp only
    split
    · rfl
    · exact Function.update_of_ne hq _ _
  | initDesc | exitDetach | exitClear | exitPolicy => exact Function.update_of_ne hq _ _
  | stop | cont => rfl

/-- An orderly step disturbs no other process. -/
theorem PidInv.undisturbing (h : PidInv s) {a : PidOp × Kernel} (hen : a.1.enabled s = true)
    (ho : a.1.Orderly c s) : a.1.Undisturbing c a.2 s := by
  intro q rid hq hheld
  have hne : a.1.descriptor ≠ some rid := by
    intro hd
    obtain ⟨op, k⟩ := a
    cases op with
    | initDesc p r =>
      cases hd
      have hp : s.call p = .initDesc rid := by simp [PidOp.enabled] at hen; exact hen.2
      exact hq (h.exclusive q p rid hheld (h.fresh p rid hp))
    | exitDetach p r =>
      cases hd
      rw [ho q hq] at hheld; cases hheld
    | exitPolicy p r =>
      cases hd
      have hp : s.call p = .exitPolicy rid := by simp [PidOp.enabled] at hen; exact hen.2
      rw [h.leaving p rid (Or.inr hp) q hq] at hheld; cases hheld
    | initTake | exitClear | stop | cont => cases hd
  exact ⟨hne, PidOp.task_of_ne c a.2 s hne⟩

/-! ## Runs -/

theorem pidInit_inv (jiffies : ℕ) (proc : ℕ → Proc) : PidInv (pidInit jiffies proc) := by
  refine ⟨fun p q rid hp => ?_, fun p rid hp => ?_, fun p rid hp => ?_, fun p rid hp => ?_⟩
  · cases hp
  · cases hp
  · cases hp
  · rcases hp with hp | hp <;> cases hp

/-- **No id is held twice, and no process writes the descriptor of another**, in every run
whose steps are orderly. -/
theorem pidStep_exclusive (c : Config) (jiffies : ℕ) (proc : ℕ → Proc)
    (run : List (PidOp × Kernel))
    (h : Each (pidStep c) (fun s a => a.1.Orderly c s) (pidInit jiffies proc) run) :
    Always (pidStep c) Exclusive (pidInit jiffies proc) run ∧
      Each (pidStep c) (fun s a => a.1.Undisturbing c a.2 s) (pidInit jiffies proc) run := by
  have hstep : ∀ s a s', PidInv s → a.1.Orderly c s → pidStep c s a = some s' →
      PidInv s' ∧ a.1.Undisturbing c a.2 s := by
    intro s a s' hi ho hs
    unfold pidStep at hs
    split at hs
    swap
    · cases hs
    rename_i hen
    cases hs
    exact ⟨hi.step hen ho, hi.undisturbing hen ho⟩
  have hinit := pidInit_inv jiffies proc
  refine ⟨?_, Each.of_inv hstep run _ hinit h⟩
  have hinv : Always (pidStep c) PidInv (pidInit jiffies proc) run :=
    Always.of_each (fun s a s' hi ho hs => (hstep s a s' hi ho hs).1) run _ hinit h
  exact Always.mono (fun s hs => hs.exclusive) run _ hinv

/-! ## Runs of given processes -/

/-- The processes outside of `ps` have made no call. -/
def PidState.Outside (s : PidState) (ps : List ℕ) : Prop :=
  ∀ q, q ∉ ps → s.call q = .user ∧ s.held q = fun _ => false

/-- The step is one of the processes `ps`, and it is orderly as far as these are concerned. -/
def PidOp.orderlyIn (c : Config) (ps : List ℕ) (s : PidState) (op : PidOp) : Bool :=
  ps.contains op.proc &&
    match op with
    | initTake _ =>
      let rid := reschFfz s.core.pidMap c.pidMapLong
      if rid < 0 then
        (List.range c.nrRtTasks).all fun i => decide ((s.core.task i).task ≠ 0 →
          (s.core.proc (s.core.task i).task).state ≠ .stopped)
      else ps.all fun q =>
        decide (s.call q ≠ .exitClear rid.toNat ∧ s.call q ≠ .exitPolicy rid.toNat)
    | exitDetach p rid => ps.all fun q => decide (q ≠ p → s.held q rid = false)
    | _ => true

theorem PidState.Outside.step {ps : List ℕ} (h : s.Outside ps) {op : PidOp} (hp : op.proc ∈ ps) :
    (op.exec c k s).Outside ps := by
  intro q hq
  have hne : q ≠ op.proc := fun he => hq (he ▸ hp)
  rw [PidOp.call_of_ne c k s hne, PidOp.held_of_ne c k s hne]
  exact h q hq

/-- Nothing is to be said about the other processes. -/
theorem PidState.Outside.orderly {ps : List ℕ} (h : s.Outside ps) {op : PidOp}
    (hop : op.orderlyIn c ps s = true) : op.Orderly c s := by
  unfold PidOp.orderlyIn at hop
  rw [Bool.and_eq_true] at hop
  replace hop := hop.2
  cases op with
  | initTake p =>
    unfold PidOp.Orderly
    dsimp only at hop ⊢
    split
    · rename_i hfull
      rw [if_pos hfull, List.all_eq_true] at hop
      exact fun i hi => of_decide_eq_true (hop i (List.mem_range.2 hi))
    · rename_i hfull
      rw [if_neg hfull, List.all_eq_true] at hop
      intro q hq
      by_cases hmem : q ∈ ps
      · obtain ⟨hclear, hpolicy⟩ := of_decide_eq_true (hop q hmem)
        exact hq.elim hclear hpolicy
      · rcases hq with hq | hq <;> rw [(h q hmem).1] at hq <;> cases hq
  | exitDetach p rid =>
    intro q hq
    by_cases hmem : q ∈ ps
    · exact of_decide_eq_true (List.all_eq_true.1 hop q hmem) hq
    · rw [(h q hmem).2]
  | initDesc | exitClear | exitPolicy | stop | cont => trivial

/-- Such runs are checked. -/
theorem each_orderly_of_check (ps : List ℕ) (jiffies : ℕ) (proc : ℕ → Proc)
    {run : List (PidOp × Kernel)}
    (h : checkEach (pidStep c) (fun s a => a.1.orderlyIn c ps s) (pidInit jiffies proc) run = true) :
    Each (pidStep c) (fun s a => a.1.Orderly c s) (pidInit jiffies proc) run := by
  refine Each.of_inv (I := (·.Outside ps)) (fun s a s' hi hop hs => ?_) run _ (fun _ _ => ⟨rfl, rfl⟩)
    (Each.of_check (fun _ _ => id) h)
  refine ⟨?_, hi.orderly hop⟩
  unfold pidStep at hs
  split at hs
  swap
  · cases hs
  cases hs
  unfold PidOp.orderlyIn at hop
  rw [Bool.and_eq_true] at hop
  exact hi.step (List.contains_iff_mem.1 hop.1)

/-- Two processes attach; while the second is stopped, the first detaches and attaches again. Then
the second detaches. -/
def twoAttached : List (PidOp × Kernel) :=
  [(.initTake 1, .accepting), (.initTake 2, .accepting), (.initDesc 2 1, .accepting),
    (.initDesc 1 0, .accepting), (.stop 2, .accepting), (.exitDetach 1 0, .accepting),
    (.exitClear 1 0, .accepting), (.exitPolicy 1 0, .accepting), (.initTake 1, .accepting),
    (.cont 2, .accepting), (.initDesc 1 0, .accepting), (.exitDetach 2 1, .accepting),
    (.exitClear 2 1, .accepting), (.exitPolicy 2 1, .accepting)]

/-- A build for two tasks -/
def Config.twoTasks : Config := { Config.small false with nrRtTasks := 2 }

/-- All steps are enabled, and the two never hold one id. -/
theorem pidStep_exclusive_pair :
    (final (pidStep .twoTasks) (pidInit 0 fun _ => .fair) twoAttached).isSome = true ∧
      Always (pidStep .twoTasks) Exclusive (pidInit 0 fun _ => .fair) twoAttached ∧
        Each (pidStep .twoTasks) (fun s a => a.1.Undisturbing .twoTasks a.2 s)
          (pidInit 0 fun _ => .fair) twoAttached :=
  ⟨by decide +kernel, pidStep_exclusive .twoTasks 0 (fun _ => .fair) twoAttached
    (each_orderly_of_check [1, 2] 0 (fun _ => .fair) (by decide +kernel))⟩

/-- A process takes the id of another that has cleared its bit and is still in `api_exit`. -/
theorem pidStep_not_exclusive :
    ¬ Always (pidStep (.small false)) Exclusive (pidInit 0 fun _ => .fair)
      [(.initTake 1, .accepting), (.initDesc 1 0, .accepting), (.exitDetach 1 0, .accepting),
        (.exitClear 1 0, .accepting), (.initTake 2, .accepting)] := by
  intro h
  obtain ⟨s, hs, ht⟩ := h.final_test
    (fun s => s.held 1 0 && s.held 2 0) (by decide +kernel)
  rw [Bool.and_eq_true] at ht
  have := hs 1 2 0 ht.1 ht.2
  omega

end Resch
