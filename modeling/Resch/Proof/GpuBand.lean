import Resch.Spec.GpuBand

/-!
# Waiting for a virtual GPU

The band scheduler tests `current_com` of the physical device before it takes the lock under
which it inserts the entity, and clears it while it yields.

* `band_handed`: when no scan finds nothing while a context is between such a test and its
  insertion or launch (`BandOp.Scans`), no entity waits while the GPU is free.
* `band_excluded`: when `current_com` of the physical device is not taken from a launch in
  flight, and a device is not switched while it has one (`BandOp.Owns`), one entity is in flight
  at a time, and `launch_instances` says which.
-/

namespace Resch

open Lib

variable {s s' : BandState} {e d : ℕ}

/-! ## The lists of entities -/

theorem mem_enqueueCompute {x : ℕ} (hx : x ∈ (s.enqueueCompute e).comList d) :
    x ∈ s.comList d ∨ x = e ∧ d = s.gdev e := by
  unfold BandState.enqueueCompute at hx
  split at hx
  · exact Or.inl hx
  · have hx : x ∈ Function.update s.comList (s.gdev e) (s.comList (s.gdev e) ++ [e]) d := hx
    by_cases hd : d = s.gdev e
    · rw [hd, Function.update_self, List.mem_append, List.mem_singleton] at hx
      rw [hd]
      exact hx.imp id fun hx => ⟨hx, rfl⟩
    · rw [Function.update_of_ne hd] at hx
      exact Or.inl hx

/-- Each list still has the entities of its own device. -/
theorem lists_enqueueCompute (h : ∀ d x, x ∈ s.comList d → s.gdev x = d) (d x : ℕ)
    (hx : x ∈ (s.enqueueCompute e).comList d) : s.gdev x = d := by
  rcases mem_enqueueCompute hx with hx | ⟨hxe, hd⟩
  · exact h d x hx
  · rw [hxe, hd]

theorem mem_dequeueCompute {x : ℕ} (hx : x ∈ (s.dequeueCompute e).comList d) : x ∈ s.comList d := by
  have hx : x ∈ Function.update s.comList (s.gdev e)
    ((s.comList (s.gdev e)).filter (· ≠ e)) d := hx
  by_cases hd : d = s.gdev e
  · rw [hd, Function.update_self] at hx
    rw [hd]
    exact (List.mem_filter.1 hx).1
  · rwa [Function.update_of_ne hd] at hx

/-! ## No entity waits for a free GPU -/

/-- No thread is inside a scheduler function, unless it is asleep there. -/
def BandState.Quiescent (s : BandState) : Prop :=
  (∀ e, s.ctx e = .outside ∨ s.ctx e = .asleep) ∧ ∀ d, s.com d = .idle

/-- No entity waits while the GPU is free. -/
def BandHanded (s : BandState) : Prop :=
  s.Quiescent → ∀ d, s.comList d ≠ [] → s.physCur ≠ none

/-- A thread has cleared `current_com` of the physical device and will set it again. -/
def BandState.InYield (s : BandState) : Prop :=
  (∃ e, s.ctx e = .yielding) ∨ ∃ d se old next, s.com d = .yielding se old next

/-- The physical device is taken, or it will be after a yield. -/
def BandState.Held (s : BandState) : Prop := s.physCur ≠ none ∨ s.InYield

/-- The context is past its test of the physical device, and has neither inserted itself nor been
let through. -/
def CtxPoint.PastTest (p : CtxPoint) : Prop := p = enqueue ∨ p = compute

/-- A scan that finds no waiting entity is not made while a context is past its test, apart from
yields. -/
def BandOp.Scans (s : BandState) : BandOp → Prop
  | com d _ _ =>
    match s.com d with
    | .scan _ _ => s.firstWaiting = none → (∀ e, ¬ (s.ctx e).PastTest) ∨ s.InYield
    | _ => True
  | ctx _ _ | schedule _ | wake _ | complete _ => True

structure HandInv (s : BandState) : Prop where
  inserting : ∀ e, (s.ctx e).PastTest → s.Held
  waiting : ∀ d, s.comList d ≠ [] → s.Held
  listed : ∀ e, s.gdev e ∈ s.devices
  lists : ∀ d e, e ∈ s.comList d → s.gdev e = d

theorem HandInv.handed (h : HandInv s) : BandHanded s := by
  rintro ⟨hctx, hcom⟩ d hd
  rcases h.waiting d hd with hp | ⟨e, he⟩ | ⟨x, se, old, next, hx⟩
  · exact hp
  · rcases hctx e with ho | ho <;> rw [ho] at he <;> cases he
  · rw [hcom x] at hx
    cases hx

/-- What a context does is not seen in the yields of the others. -/
theorem held_setCtx {p : CtxPoint} (h : s.Held) (he : s.ctx e ≠ .yielding) :
    (s.setCtx e p).Held := by
  rcases h with hp | ⟨x, hx⟩ | hd
  · exact Or.inl hp
  · refine Or.inr (Or.inl ⟨x, ?_⟩)
    have hne : x ≠ e := fun hxe => he (hxe ▸ hx)
    exact (Function.update_of_ne hne ..).trans hx
  · exact Or.inr (Or.inr hd)

theorem held_setCom {p : ComPoint} (h : s.Held) (hd : ∀ se old next, s.com d ≠ .yielding se old next) :
    (s.setCom d p).Held := by
  rcases h with hp | hx | ⟨x, se, old, next, hx⟩
  · exact Or.inl hp
  · exact Or.inr (Or.inl hx)
  · refine Or.inr (Or.inr ⟨x, se, old, next, ?_⟩)
    have hne : x ≠ d := fun hxd => hd se old next (hxd ▸ hx)
    exact (Function.update_of_ne hne ..).trans hx

/-- A state that differs in nothing that `HandInv` reads of the lists and the devices. -/
theorem HandInv.of_held (h : HandInv s) (hl : s'.comList = s.comList) (hg : s'.gdev = s.gdev)
    (hd : ∀ d, d ∈ s.devices → d ∈ s'.devices)
    (hin : ∀ e, (s'.ctx e).PastTest → s'.Held) (hh : s.Held → s'.Held) : HandInv s' := by
  refine ⟨hin, fun d hne => ?_, fun e => ?_, fun d e he => ?_⟩
  · rw [hl] at hne
    exact hh (h.waiting d hne)
  · rw [hg]
    exact hd _ (h.listed e)
  · rw [hl] at he
    rw [hg]
    exact h.lists d e he

/-- A context goes on, not past its test. -/
theorem HandInv.setCtx {p : CtxPoint} (h : HandInv s) (he : s.ctx e ≠ .yielding)
    (hp : ¬ p.PastTest) : HandInv (s.setCtx e p) := by
  refine h.of_held rfl rfl (fun _ => id) (fun x hx => ?_) (held_setCtx · he)
  have hx : (Function.update s.ctx e p x).PastTest := hx
  by_cases hxe : x = e
  · rw [hxe, Function.update_self] at hx
    exact absurd hx hp
  · rw [Function.update_of_ne hxe] at hx
    exact held_setCtx (h.inserting x hx) he

theorem HandInv.setCom {p : ComPoint} (h : HandInv s)
    (hd : ∀ se old next, s.com d ≠ .yielding se old next) : HandInv (s.setCom d p) :=
  h.of_held rfl rfl (fun _ => id) (fun x hx => held_setCom (h.inserting x hx) hd) (held_setCom · hd)

theorem HandInv.enqueueCompute (h : HandInv s) (hh : s.Held) : HandInv (s.enqueueCompute e) := by
  have hlists := lists_enqueueCompute (e := e) h.lists
  unfold BandState.enqueueCompute at hlists ⊢
  split
  · exact h
  · rename_i hne
    rw [if_neg hne] at hlists
    exact ⟨fun _ _ => hh, fun _ _ => hh, h.listed, hlists⟩

theorem HandInv.dequeueCompute (h : HandInv s) : HandInv (s.dequeueCompute e) := by
  refine ⟨h.inserting, fun d hne => ?_, h.listed, fun d x hx => h.lists d x (mem_dequeueCompute hx)⟩
  obtain ⟨x, hx⟩ := List.exists_mem_of_ne_nil _ hne
  exact h.waiting d (List.ne_nil_of_mem (mem_dequeueCompute hx))

theorem taken_held {x : ℕ} (h : s.physCur = some x) : s.Held := by
  refine Or.inl ?_
  rw [h]
  simp

/-- Somebody takes the physical device. -/
theorem HandInv.taken (h : HandInv s) {x : ℕ} (hp : s'.physCur = some x)
    (hl : s'.comList = s.comList) (hg : s'.gdev = s.gdev)
    (hd : ∀ d, d ∈ s.devices → d ∈ s'.devices) : HandInv s' :=
  h.of_held hl hg hd (fun _ _ => taken_held hp) fun _ => taken_held hp

theorem ctxStep_handed {overrun : Bool} (h : HandInv s)
    (hs : s.ctxStep e overrun = some s') : HandInv s' := by
  unfold BandState.ctxStep at hs
  cases hc : s.ctx e with
  | outside | asleep => simp [hc] at hs
  | resched =>
    simp only [hc, Option.some.injEq] at hs
    subst hs
    unfold BandState.bandResched
    split
    · -- the context has cleared the device, but comes back to it
      have hy : ((s.setPhysCur none).setCtx e .yielding).Held :=
        Or.inr (Or.inl ⟨e, Function.update_self ..⟩)
      exact h.of_held rfl rfl (fun _ => id) (fun _ _ => hy) fun _ => hy
    · exact h.setCtx (by rw [hc]; simp) (by simp [CtxPoint.PastTest])
  | yielding =>
    simp only [hc, Option.some.injEq] at hs
    subst hs
    unfold BandState.bandRegain
    split
    · exact h.taken (x := s.gdev e) rfl rfl rfl fun _ => id
    · rename_i hp
      obtain ⟨x, hx⟩ := Option.ne_none_iff_exists'.1 hp
      exact h.taken hx rfl rfl fun _ => id
  | check =>
    simp only [hc, Option.some.injEq] at hs
    subst hs
    unfold BandState.bandCheck
    split
    · rename_i ho
      -- the device is taken when the test fails
      obtain ⟨x, hx, -⟩ := (Option.any_eq_true ..).1 ho
      exact h.taken (x := x) hx rfl rfl fun _ => id
    · exact h.taken (x := s.gdev e) rfl rfl rfl fun _ => id
  | enqueue =>
    simp only [hc, Option.some.injEq] at hs
    subst hs
    have hk : (s.enqueueCompute e).ctx e = .enqueue := by
      unfold BandState.enqueueCompute
      split <;> exact hc
    exact (h.enqueueCompute (h.inserting e (Or.inl hc))).setCtx (by rw [hk]; simp)
      (by simp [CtxPoint.PastTest])
  | compute =>
    simp only [hc, Option.some.injEq] at hs
    subst hs
    unfold BandState.localCompute
    split
    · have hk : (s.enqueueCompute e).ctx e = .compute := by
        unfold BandState.enqueueCompute
        split <;> exact hc
      exact (h.enqueueCompute (h.inserting e (Or.inr hc))).setCtx (by rw [hk]; simp)
        (by simp [CtxPoint.PastTest])
    · have h₁ : HandInv (((s.addInstances e 1).setCur (s.gdev e) (some e)).setInFlight e true) :=
        ⟨h.inserting, h.waiting, h.listed, h.lists⟩
      have hk : (((s.addInstances e 1).setCur (s.gdev e) (some e)).setInFlight e true).ctx e =
          .compute := hc
      exact h₁.setCtx (by rw [hk]; simp) (by simp [CtxPoint.PastTest])
  | launch =>
    simp only [hc] at hs
    split at hs
    · rw [Option.some.injEq] at hs
      subst hs
      exact h.setCtx (by rw [hc]; simp) (by simp [CtxPoint.PastTest])
    · cases hs

/-- A scan that finds nothing has seen the lists of all devices. -/
theorem firstWaiting_none (h : ∀ e, s.gdev e ∈ s.devices) (hl : ∀ d e, e ∈ s.comList d → s.gdev e = d)
    (hn : s.firstWaiting = none) (d : ℕ) : s.comList d = [] := by
  by_contra hne
  obtain ⟨x, hx⟩ := List.exists_mem_of_ne_nil _ hne
  have hd := List.find?_eq_none.1 hn d (hl d x hx ▸ h x)
  simp [hne] at hd

/-- Moving a device in the list of devices keeps all that are in it. -/
theorem reinsert_eq (s : BandState) (d : ℕ) (exhausted : Bool) :
    ∃ devices, s.reinsert d exhausted = { s with devices := devices } ∧
      ∀ x, x ∈ s.devices → x ∈ devices := by
  cases exhausted with
  | false => exact ⟨s.devices, rfl, fun _ => id⟩
  | true =>
    refine ⟨s.devices.filter (· ≠ d) ++ [d], rfl, fun x hx => ?_⟩
    by_cases hxd : x = d
    · simp [hxd]
    · simp [hx, hxd]

theorem selectScan_handed {se : Option ℕ} {old : ℤ} {exhausted overrun : Bool} (h : HandInv s)
    (hc : ∀ se old next, s.com d ≠ .yielding se old next)
    (hin : s.firstWaiting = none → (∀ e, ¬ (s.ctx e).PastTest) ∨ s.InYield) :
    HandInv (s.selectScan d se old exhausted overrun) := by
  obtain ⟨devices, he, hdev⟩ := reinsert_eq s d exhausted
  unfold BandState.selectScan
  rw [he]
  have hr : HandInv { s with devices := devices } :=
    ⟨h.inserting, h.waiting, fun e => hdev _ (h.listed e), h.lists⟩
  dsimp only
  generalize hs : ({ s with devices := devices } : BandState) = r at hr ⊢
  have hctx : r.ctx = s.ctx := by rw [← hs]
  have hcom : r.com = s.com := by rw [← hs]
  cases hn : r.firstWaiting with
  | none =>
    have hempty := firstWaiting_none hr.listed hr.lists hn
    have hsn : s.firstWaiting = none := by
      refine List.find?_eq_none.2 fun x hx => ?_
      have hx' := hempty x
      rw [← hs] at hx'
      have hx' : s.comList x = [] := hx'
      simp [hx']
    -- with a yield going on the device will be taken again, else nobody is about to insert
    rcases hin hsn with hno | hy
    · refine ⟨fun x hx => ?_, fun x hx => absurd (hempty x) hx, hr.listed, hr.lists⟩
      have hx : (r.ctx x).PastTest := hx
      rw [hctx] at hx
      exact absurd hx (hno x)
    · have hy' : (r.setPhysCur none).Held := by
        refine Or.inr ?_
        unfold BandState.InYield at hy ⊢
        rw [← hctx, ← hcom] at hy
        exact hy
      have hk : ∀ se old next, (r.setPhysCur none).com d ≠ .yielding se old next := by
        rw [← hcom] at hc
        exact hc
      have hheld := held_setCom (p := .idle) hy' hk
      exact hr.of_held rfl rfl (fun _ => id) (fun _ _ => hheld) fun _ => hheld
  | some next =>
    dsimp only
    split
    · have hy : ((r.setPhysCur none).setCom d (.yielding se old next)).Held :=
        Or.inr (Or.inr ⟨d, se, old, next, Function.update_self ..⟩)
      exact hr.of_held rfl rfl (fun _ => id) (fun _ _ => hy) fun _ => hy
    · exact hr.taken (x := next) rfl rfl rfl fun _ => id

theorem selectSwitch_handed {se : Option ℕ} {old : ℤ} {next : ℕ} (h : HandInv s)
    (hc : ∀ se old next, s.com d ≠ .yielding se old next) :
    HandInv (s.selectSwitch d se old next) := by
  have hdeq : ∀ (t : BandState) (se : Option ℕ), HandInv t → t.com = s.com →
      HandInv ((se.elim t t.dequeueCompute).setCom d .idle) := by
    intro t se ht hcom
    cases se with
    | none =>
      refine ht.setCom ?_
      rw [hcom]
      exact hc
    | some x =>
      refine ht.dequeueCompute.setCom ?_
      show ∀ se old next, t.com d ≠ _
      rw [hcom]
      exact hc
  unfold BandState.selectSwitch
  split
  · have hi : HandInv (s.switchInstances d se old) ∧ (s.switchInstances d se old).com = s.com := by
      unfold BandState.switchInstances
      split
      · split
        · exact ⟨⟨h.inserting, h.waiting, h.listed, h.lists⟩, rfl⟩
        · exact ⟨h, rfl⟩
      · split
        · exact ⟨⟨h.inserting, h.waiting, h.listed, h.lists⟩, rfl⟩
        · exact ⟨h, rfl⟩
    exact hdeq _ _ ⟨hi.1.inserting, hi.1.waiting, hi.1.listed, hi.1.lists⟩ hi.2
  · exact hdeq s se h rfl

theorem selectStart_handed (h : HandInv s) (hc : ∀ se old next, s.com d ≠ .yielding se old next) :
    HandInv (s.selectStart e d) := by
  unfold BandState.selectStart
  split
  · exact h.setCom hc
  · rename_i x _
    have h₁ : HandInv (s.addInstances x (-1)) := ⟨h.inserting, h.waiting, h.listed, h.lists⟩
    dsimp only
    generalize ht : (if x = e then (s.addInstances x (-1)).setInFlight e false
      else s.addInstances x (-1)) = t
    have htc : t.com = s.com := by
      rw [← ht]
      split <;> rfl
    have h₂ : HandInv t := by
      rw [← ht]
      split
      · exact ⟨h.inserting, h.waiting, h.listed, h.lists⟩
      · exact h₁
    rw [← htc] at hc
    split
    · have h₃ : HandInv (t.setCur d (t.comList d).head?) :=
        ⟨h₂.inserting, h₂.waiting, h₂.listed, h₂.lists⟩
      exact h₃.setCom hc
    · exact h₂.setCom hc

theorem comStep_handed {exhausted overrun : Bool} (h : HandInv s)
    (hin : (BandOp.com d exhausted overrun).Scans s) (hs : s.comStep d exhausted overrun = some s') :
    HandInv s' := by
  unfold BandState.comStep at hs
  cases hc : s.com d with
  | idle => simp [hc] at hs
  | start e =>
    simp only [hc, Option.some.injEq] at hs
    subst hs
    exact selectStart_handed h (by rw [hc]; simp)
  | early se old | other se old =>
    simp only [hc, Option.some.injEq] at hs
    subst hs
    exact h.setCom (by rw [hc]; simp)
  | scan se old =>
    simp only [hc, Option.some.injEq] at hs
    subst hs
    simp only [BandOp.Scans, hc] at hin
    exact selectScan_handed h (by rw [hc]; simp) hin
  | yielding se old next =>
    simp only [hc, Option.some.injEq] at hs
    subst hs
    unfold BandState.selectRegain
    split
    · exact h.taken (x := next) rfl rfl rfl fun _ => id
    · rename_i hp
      exact h.taken hp rfl rfl fun _ => id
  | switch se old next =>
    simp only [hc, Option.some.injEq] at hs
    subst hs
    exact selectSwitch_handed h (by rw [hc]; simp)

theorem bandStep_handed (op : BandOp) (h : HandInv s) (hin : op.Scans s)
    (hs : bandStep s op = some s') : HandInv s' := by
  cases op with
  | schedule e | wake e =>
    unfold bandStep at hs
    dsimp only at hs
    split at hs
    · rename_i hc
      rw [Option.some.injEq] at hs
      subst hs
      exact h.setCtx (by rw [hc]; simp) (by simp [CtxPoint.PastTest])
    · cases hs
  | ctx e overrun => exact ctxStep_handed h hs
  | complete e =>
    unfold bandStep at hs
    dsimp only at hs
    split at hs
    · rename_i hc
      rw [Option.some.injEq] at hs
      subst hs
      exact h.setCom (by rw [hc.2.2]; simp)
    · cases hs
  | com d exhausted overrun => exact comStep_handed h hin hs

/-- **The hand-over in runs.** However contexts and devices interleave, if no scan finds nothing
while a context is past its test, no entity ever waits while the GPU is free. -/
theorem band_handed (devices : List ℕ) (gdev : ℕ → ℕ) (hg : ∀ e, gdev e ∈ devices)
    (ops : List BandOp)
    (he : Each bandStep (fun s op => op.Scans s) (bandInit devices gdev) ops) :
    Always bandStep BandHanded (bandInit devices gdev) ops := by
  have hinit : HandInv (bandInit devices gdev) := by
    refine ⟨fun e hc => ?_, fun d hd => absurd rfl hd, hg, fun d e hx => ?_⟩
    · rcases hc with hc | hc <;> cases hc
    · cases hx
  have hall := Always.of_each (fun s op s' hi hin hs => bandStep_handed op hi hin hs) ops _ hinit he
  exact hall.mono (fun _ hi => hi.handed) ops _

/-- Contexts with even numbers are on device 0, the others on device 1. -/
theorem parity_mem (e : ℕ) : e % 2 ∈ [0, 1] := by
  have := Nat.mod_lt e (y := 2) (by decide)
  simp
  omega

/-- Context 0 is in flight when context 1 goes to wait; the thread of device 0 hands over. -/
def handOver : List BandOp :=
  [.schedule 0, .ctx 0 false, .ctx 0 false, .ctx 0 false, .ctx 0 false,
    .schedule 1, .ctx 1 false, .ctx 1 false, .ctx 1 false,
    .complete 0, .com 0 false false, .com 0 false false, .com 0 false false, .com 0 false false,
    .wake 1, .ctx 1 false, .ctx 1 false, .ctx 1 false]

/-- A test that is enough for `Scans`. -/
def scansTest (s : BandState) : BandOp → Bool
  | .com _ _ _ => decide (s.firstWaiting ≠ none)
  | .ctx _ _ | .schedule _ | .wake _ | .complete _ => true

theorem scans_of_test (s : BandState) (op : BandOp) (h : scansTest s op = true) :
    op.Scans s := by
  cases op with
  | ctx e overrun | schedule e | wake e | complete e => trivial
  | com d exhausted overrun =>
    have h : s.firstWaiting ≠ none := of_decide_eq_true h
    unfold BandOp.Scans
    dsimp only
    split
    · exact fun hn => absurd hn h
    · trivial

theorem band_handed_handOver :
    Always bandStep BandHanded (bandInit [0, 1] (· % 2)) handOver :=
  band_handed [0, 1] (· % 2) parity_mem handOver
    (Each.of_check scans_of_test (by decide +kernel))

/-- Context 1 has tested that device 0 is current when the thread of device 0 finds nobody
waiting; then context 1 goes to wait. -/
def lostHandOver : List BandOp :=
  [.schedule 0, .ctx 0 false, .ctx 0 false, .ctx 0 false, .ctx 0 false,
    .schedule 1, .ctx 1 false, .ctx 1 false,
    .complete 0, .com 0 false false, .com 0 false false, .com 0 false false,
    .ctx 1 false]

theorem band_not_handed : ¬ ∀ (devices : List ℕ) (gdev : ℕ → ℕ), (∀ e, gdev e ∈ devices) →
    ∀ ops, Always bandStep BandHanded (bandInit devices gdev) ops := by
  intro hall
  have hlost : BandHanded _ := (hall [0, 1] (· % 2) parity_mem lostHandOver).final rfl
  refine hlost ⟨fun e => ?_, fun d => ?_⟩ 1 ?_ rfl
  · match e with
    | 0 => exact Or.inl rfl
    | 1 => exact Or.inr rfl
    | e + 2 => exact Or.inl rfl
  · match d with
    | 0 => rfl
    | d + 1 => rfl
  · decide

/-! ## One entity is in flight at a time -/

/-- Entities in flight are of one device, one of a device, and counted by `launch_instances`. -/
structure BandExcluded (s : BandState) : Prop where
  devices : ∀ e e', s.inFlight e = true → s.inFlight e' = true → s.gdev e = s.gdev e'
  single : ∀ e e', s.inFlight e = true → s.inFlight e' = true → s.gdev e = s.gdev e' → e = e'
  instances : ∀ e, s.instances e = if s.inFlight e then 1 else 0

/-- The context is in flight, or it has passed the test of the physical device. -/
def BandState.Passed (s : BandState) (e : ℕ) : Prop := s.inFlight e = true ∨ s.ctx e = .compute

/-- A yield before a launch and a scan do not take `current_com` of the physical device from a
context that has passed its test, and no device is switched while one of its entities is in
flight. -/
def BandOp.Owns (s : BandState) : BandOp → Prop
  | ctx e overrun =>
    s.ctx e = .resched → overrun = true → s.physCur = some (s.gdev e) → ∀ x, ¬ s.Passed x
  | com d exhausted overrun =>
    match s.com d with
    | .scan _ _ => ∀ x, s.Passed x →
        (s.reinsert d exhausted).firstWaiting = some (s.gdev x) ∧ (s.gdev x = d ∨ overrun = false)
    | .switch _ _ next => next ≠ d → ∀ x, s.gdev x = d → s.inFlight x = false
    | _ => True
  | schedule _ | wake _ | complete _ => True

/-- The `se` and `old_instance` that the thread of a device remembers. -/
def ComPoint.remembers : ComPoint → Option (Option ℕ × ℤ)
  | early se old | other se old | scan se old | yielding se old _ | switch se old _ => some (se, old)
  | idle | start _ => none

structure OwnInv (s : BandState) : Prop where
  owner : ∀ e, s.Passed e → s.physCur = some (s.gdev e)
  cur : ∀ e, s.inFlight e = true → s.cur (s.gdev e) = some e
  instances : ∀ e, s.instances e = if s.inFlight e then 1 else 0
  start : ∀ d e, s.com d = .start e → s.inFlight e = true ∧ s.gdev e = d
  entity : ∀ d x old, (s.com d).remembers = some (some x, old) → s.gdev x = d ∧ 0 ≤ old
  none : ∀ d old, (s.com d).remembers = some (none, old) →
    ∀ x, s.cur d = some x → s.inFlight x = true
  lists : ∀ d e, e ∈ s.comList d → s.gdev e = d
  curs : ∀ d e, s.cur d = some e → s.gdev e = d

theorem OwnInv.excluded (h : OwnInv s) : BandExcluded s := by
  refine ⟨fun e e' he he' => ?_, fun e e' he he' hd => ?_, h.instances⟩
  · have := h.owner e (Or.inl he)
    rw [h.owner e' (Or.inl he'), Option.some.injEq] at this
    exact this.symm
  · have := h.cur e he
    rw [hd, h.cur e' he', Option.some.injEq] at this
    exact this.symm

/-- A context goes on, not to the locked section of its device. -/
theorem OwnInv.setCtx {p : CtxPoint} (h : OwnInv s) (hp : p ≠ .compute) : OwnInv (s.setCtx e p) := by
  refine ⟨fun x hx => h.owner x ?_, h.cur, h.instances, h.start, h.entity, h.none, h.lists, h.curs⟩
  rcases hx with hx | hx
  · exact Or.inl hx
  · have hx : Function.update s.ctx e p x = .compute := hx
    by_cases hxe : x = e
    · rw [hxe, Function.update_self] at hx
      exact absurd hx hp
    · rw [Function.update_of_ne hxe] at hx
      exact Or.inr hx

/-- The thread of a device goes on with what it remembers, or forgets it. -/
theorem OwnInv.setCom {p : ComPoint} (h : OwnInv s) (hs : ∀ e, p ≠ .start e)
    (hr : ∀ m, p.remembers = some m → (s.com d).remembers = some m) : OwnInv (s.setCom d p) := by
  have hcom : ∀ x m, ((s.setCom d p).com x).remembers = some m → (s.com x).remembers = some m := by
    intro x m hm
    have hm : (Function.update s.com d p x).remembers = some m := hm
    by_cases hx : x = d
    · rw [hx, Function.update_self] at hm
      rw [hx]
      exact hr m hm
    · rwa [Function.update_of_ne hx] at hm
  refine ⟨h.owner, h.cur, h.instances, fun x e he => ?_, fun x y old hm => h.entity x y old (hcom x _ hm),
    fun x old hm => h.none x old (hcom x _ hm), h.lists, h.curs⟩
  have he : Function.update s.com d p x = .start e := he
  by_cases hx : x = d
  · rw [hx, Function.update_self] at he
    exact absurd he (hs e)
  · rw [Function.update_of_ne hx] at he
    exact h.start x e he

/-- The physical device gets another owner, which all that have passed the test are of. -/
theorem OwnInv.setPhysCur {v : Option ℕ} (h : OwnInv s)
    (hv : ∀ x, s.Passed x → v = some (s.gdev x)) : OwnInv (s.setPhysCur v) :=
  ⟨hv, h.cur, h.instances, h.start, h.entity, h.none, h.lists, h.curs⟩

theorem OwnInv.enqueueCompute (h : OwnInv s) : OwnInv (s.enqueueCompute e) := by
  have hlists := lists_enqueueCompute (e := e) h.lists
  unfold BandState.enqueueCompute at hlists ⊢
  split
  · exact h
  · rename_i hne
    rw [if_neg hne] at hlists
    exact ⟨h.owner, h.cur, h.instances, h.start, h.entity, h.none, hlists, h.curs⟩

theorem OwnInv.dequeueCompute (h : OwnInv s) : OwnInv (s.dequeueCompute e) :=
  ⟨h.owner, h.cur, h.instances, h.start, h.entity, h.none,
    fun d x hx => h.lists d x (mem_dequeueCompute hx), h.curs⟩

/-- An entity that need not wait is not in flight, and no other of its device is. -/
theorem OwnInv.free (h : OwnInv s) (hw : ¬ s.mustWait e = true) (x : ℕ)
    (hx : s.inFlight x = true) : s.gdev x ≠ s.gdev e := by
  intro hd
  unfold BandState.mustWait at hw
  rw [Bool.or_eq_true, not_or] at hw
  have hc := h.cur x hx
  rw [hd] at hc
  rw [hc] at hw
  have hxe : x = e := by
    by_contra hne
    exact hw.1 (by simp [hne])
  have hi := h.instances x
  rw [hxe] at hx hi
  simp [hx] at hi
  simp [hi, gdevInstancesLimit] at hw

theorem localCompute_excluded (h : OwnInv s) (hc : s.ctx e = .compute) :
    OwnInv (s.localCompute e) := by
  unfold BandState.localCompute
  split
  · exact h.enqueueCompute.setCtx (by simp)
  rename_i hw
  have hfree := h.free hw
  have he : s.inFlight e = false := by
    by_contra he
    exact hfree e (by simpa using he) rfl
  have hown := h.owner e (Or.inr hc)
  -- the entity becomes the current one of its device
  have hin : ∀ x, Function.update s.inFlight e true x = true ↔ x = e ∨ s.inFlight x = true := by
    intro x
    rw [Function.update_apply]
    split <;> simp [*]
  have h₁ : OwnInv (((s.addInstances e 1).setCur (s.gdev e) (some e)).setInFlight e true) := by
    refine ⟨fun x hx => ?_, fun x hx => ?_, fun x => ?_, fun d x hx => ?_, h.entity,
      fun d old hm x hx => ?_, h.lists, fun d x hx => ?_⟩
    · rcases hx with hx | hx
      · rcases (hin x).1 hx with hx | hx
        · rw [hx]
          exact hown
        · exact h.owner x (Or.inl hx)
      · exact h.owner x (Or.inr hx)
    · show Function.update s.cur (s.gdev e) (some e) (s.gdev x) = some x
      rcases (hin x).1 hx with hx | hx
      · rw [hx, Function.update_self]
      · rw [Function.update_of_ne (hfree x hx)]
        exact h.cur x hx
    · show Function.update s.instances e (s.instances e + 1) x =
        if Function.update s.inFlight e true x = true then 1 else 0
      by_cases hxe : x = e
      · rw [hxe, Function.update_self, Function.update_self, h.instances e, he]
        simp
      · rw [Function.update_of_ne hxe, Function.update_of_ne hxe]
        exact h.instances x
    · obtain ⟨hx, hd⟩ := h.start d x hx
      exact ⟨(hin x).2 (Or.inr hx), hd⟩
    · have hx : Function.update s.cur (s.gdev e) (some e) d = some x := hx
      by_cases hd : d = s.gdev e
      · rw [hd, Function.update_self, Option.some.injEq] at hx
        exact (hin x).2 (Or.inl hx.symm)
      · rw [Function.update_of_ne hd] at hx
        exact (hin x).2 (Or.inr (h.none d old hm x hx))
    · have hx : Function.update s.cur (s.gdev e) (some e) d = some x := hx
      by_cases hd : d = s.gdev e
      · rw [hd, Function.update_self, Option.some.injEq] at hx
        rw [hd, ← hx]
        rfl
      · rw [Function.update_of_ne hd] at hx
        exact h.curs d x hx
  exact h₁.setCtx (by simp)

theorem ctxStep_excluded {overrun : Bool} (h : OwnInv s) (hown : (BandOp.ctx e overrun).Owns s)
    (hs : s.ctxStep e overrun = some s') : OwnInv s' := by
  unfold BandState.ctxStep at hs
  cases hc : s.ctx e with
  | outside | asleep => simp [hc] at hs
  | resched =>
    simp only [hc, Option.some.injEq] at hs
    subst hs
    unfold BandState.bandResched
    split
    · rename_i hy
      have hno := hown hc hy.1 hy.2
      exact (h.setPhysCur fun x hx => absurd hx (hno x)).setCtx (by simp)
    · exact h.setCtx (by simp)
  | yielding =>
    simp only [hc, Option.some.injEq] at hs
    subst hs
    unfold BandState.bandRegain
    split
    · rename_i hp
      refine (h.setPhysCur fun x hx => ?_).setCtx (by simp)
      rw [h.owner x hx] at hp
      cases hp
    · exact h.setCtx (by simp)
  | check =>
    simp only [hc, Option.some.injEq] at hs
    subst hs
    unfold BandState.bandCheck
    split
    · exact h.setCtx (by simp)
    · rename_i ho
      -- the device was free or the context's own, so nobody of another device has passed
      have hdev : ∀ x, s.Passed x → s.gdev x = s.gdev e := by
        intro x hx
        by_contra hne
        refine ho ?_
        unfold BandState.otherIsCurrent
        rw [h.owner x hx]
        simp [hne]
      have h₁ : OwnInv (s.setPhysCur (some (s.gdev e))) :=
        h.setPhysCur fun x hx => by rw [hdev x hx]
      refine ⟨fun x hx => ?_, h₁.cur, h₁.instances, h₁.start, h₁.entity, h₁.none, h₁.lists, h₁.curs⟩
      by_cases hxe : x = e
      · rw [hxe]
        rfl
      · refine h₁.owner x (hx.imp id fun hx => ?_)
        exact (Function.update_of_ne hxe ..).symm.trans hx
  | enqueue =>
    simp only [hc, Option.some.injEq] at hs
    subst hs
    exact h.enqueueCompute.setCtx (by simp)
  | compute =>
    simp only [hc, Option.some.injEq] at hs
    subst hs
    exact localCompute_excluded h hc
  | launch =>
    simp only [hc] at hs
    split at hs
    · rw [Option.some.injEq] at hs
      subst hs
      exact h.setCtx (by simp)
    · cases hs

theorem selectStart_excluded (h : OwnInv s) (hc : s.com d = .start e) :
    OwnInv (s.selectStart e d) := by
  obtain ⟨he, hd⟩ := h.start d e hc
  have hcur : s.cur d = some e := by
    rw [← hd]
    exact h.cur e he
  have hone : s.instances e + -1 = 0 := by
    rw [h.instances e, he]
    simp
  have hout : ∀ x, Function.update s.inFlight e false x = true ↔ x ≠ e ∧ s.inFlight x = true := by
    intro x
    rw [Function.update_apply]
    split <;> simp [*]
  -- no other entity of the device is in flight
  have hother : ∀ x, x ≠ e → s.inFlight x = true → s.gdev x ≠ d := by
    intro x hx hfx hdx
    have := h.cur x hfx
    rw [hdx, hcur, Option.some.injEq] at this
    exact hx this.symm
  have hinst : ∀ x, Function.update s.instances e (s.instances e + -1) x =
      if Function.update s.inFlight e false x = true then 1 else 0 := by
    intro x
    by_cases hxe : x = e
    · rw [hxe, Function.update_self, Function.update_self, hone]
      simp
    · rw [Function.update_of_ne hxe, Function.update_of_ne hxe]
      exact h.instances x
  have hzero : ((s.addInstances e (-1)).setInFlight e false).instances e = 0 :=
    (Function.update_self ..).trans hone
  unfold BandState.selectStart
  rw [hcur]
  dsimp only
  rw [if_pos rfl, if_pos hzero]
  refine ⟨fun x hx => ?_, fun x hx => ?_, hinst, fun d' x hx => ?_, fun d' x old hm => ?_,
    fun d' old hm x hx => ?_, h.lists, fun d' x hx => ?_⟩
  · exact h.owner x (hx.imp (fun hx => ((hout x).1 hx).2) id)
  · obtain ⟨hxe, hfx⟩ := (hout x).1 hx
    show Function.update s.cur d _ (s.gdev x) = some x
    rw [Function.update_of_ne (hother x hxe hfx)]
    exact h.cur x hfx
  · have hx : Function.update s.com d _ d' = .start x := hx
    by_cases hdd : d' = d
    · rw [hdd, Function.update_self] at hx
      cases hx
    · rw [Function.update_of_ne hdd] at hx
      obtain ⟨hfx, hgx⟩ := h.start d' x hx
      refine ⟨(hout x).2 ⟨fun hxe => hdd ?_, hfx⟩, hgx⟩
      rw [← hgx, hxe, hd]
  · -- the thread remembers the head of its list
    have hm : (Function.update s.com d _ d').remembers = some (some x, old) := hm
    by_cases hdd : d' = d
    · rw [hdd, Function.update_self] at hm
      simp only [ComPoint.remembers, Option.some.injEq, Prod.mk.injEq] at hm
      obtain ⟨hx, ho⟩ := hm
      rw [hdd]
      refine ⟨h.lists d x (List.mem_of_mem_head? hx), ?_⟩
      rw [hx] at ho
      rw [← ho]
      show 0 ≤ Function.update s.instances e (s.instances e + -1) x
      rw [hinst x]
      split <;> omega
    · rw [Function.update_of_ne hdd] at hm
      exact h.entity d' x old hm
  · have hm : (Function.update s.com d _ d').remembers = some (none, old) := hm
    have hx : Function.update s.cur d (s.comList d).head? d' = some x := hx
    by_cases hdd : d' = d
    · rw [hdd, Function.update_self] at hm hx
      simp only [ComPoint.remembers, Option.some.injEq, Prod.mk.injEq] at hm
      have hnone : (s.comList d).head? = none := hm.1
      rw [hnone] at hx
      cases hx
    · rw [Function.update_of_ne hdd] at hm hx
      refine (hout x).2 ⟨fun hxe => hdd ?_, h.none d' old hm x hx⟩
      rw [← h.curs d' x hx, hxe, hd]
  · have hx : Function.update s.cur d (s.comList d).head? d' = some x := hx
    by_cases hdd : d' = d
    · rw [hdd, Function.update_self] at hx
      rw [hdd]
      exact h.lists d x (List.mem_of_mem_head? hx)
    · rw [Function.update_of_ne hdd] at hx
      exact h.curs d' x hx

theorem selectScan_excluded {se : Option ℕ} {old : ℤ} {exhausted overrun : Bool} (h : OwnInv s)
    (hc : (s.com d).remembers = some (se, old))
    (hown : ∀ x, s.Passed x → (s.reinsert d exhausted).firstWaiting = some (s.gdev x) ∧
      (s.gdev x = d ∨ overrun = false)) :
    OwnInv (s.selectScan d se old exhausted overrun) := by
  obtain ⟨devices, he, -⟩ := reinsert_eq s d exhausted
  unfold BandState.selectScan
  rw [he] at hown ⊢
  dsimp only
  have hr : OwnInv { s with devices := devices } :=
    ⟨h.owner, h.cur, h.instances, h.start, h.entity, h.none, h.lists, h.curs⟩
  have hkeep : ∀ m, ComPoint.idle.remembers = some m → (s.com d).remembers = some m := by
    intro m hm
    cases hm
  cases hn : BandState.firstWaiting { s with devices := devices } with
  | none =>
    refine OwnInv.setCom (hr.setPhysCur fun x hx => ?_) (by simp) hkeep
    have := (hown x hx).1
    rw [hn] at this
    cases this
  | some next =>
    have hnext : ∀ x, s.Passed x → next = s.gdev x ∧ (s.gdev x = d ∨ overrun = false) := by
      intro x hx
      obtain ⟨hf, ho⟩ := hown x hx
      rw [hn, Option.some.injEq] at hf
      exact ⟨hf, ho⟩
    dsimp only
    split
    · rename_i hy
      refine OwnInv.setCom (hr.setPhysCur fun x hx => ?_) (by simp) fun m hm => ?_
      · obtain ⟨hnx, ho⟩ := hnext x hx
        rcases ho with ho | ho
        · exact absurd (hnx.trans ho) hy.1
        · rw [ho] at hy
          cases hy.2
      · exact hc.trans hm
    · refine OwnInv.setCom (hr.setPhysCur fun x hx => ?_) (by simp) fun m hm => hc.trans hm
      rw [(hnext x hx).1]

theorem selectSwitch_excluded {se : Option ℕ} {old : ℤ} {next : ℕ} (h : OwnInv s)
    (hc : (s.com d).remembers = some (se, old))
    (hown : next ≠ d → ∀ x, s.gdev x = d → s.inFlight x = false) :
    OwnInv (s.selectSwitch d se old next) := by
  have hdeq : ∀ (t : BandState) (se : Option ℕ), OwnInv t →
      OwnInv ((se.elim t t.dequeueCompute).setCom d .idle) := by
    intro t se ht
    have hforget : ∀ (u : BandState) m, ComPoint.idle.remembers = some m →
        (u.com d).remembers = some m := by
      intro u m hm
      cases hm
    cases se with
    | none => exact ht.setCom (by simp) (hforget t)
    | some x => exact ht.dequeueCompute.setCom (by simp) (hforget _)
  unfold BandState.selectSwitch
  split
  · rename_i hne
    have hno := hown hne
    -- nothing is in flight, so `launch_instances` stay as they are
    have hsame : s.switchInstances d se old = s := by
      unfold BandState.switchInstances
      cases se with
      | some x =>
        obtain ⟨hx, h0⟩ := h.entity d x old hc
        have hi := h.instances x
        rw [hno x hx] at hi
        dsimp only
        rw [if_neg (by simp at hi; omega)]
      | none =>
        dsimp only
        cases hcur : s.cur d with
        | none => rfl
        | some x =>
          have hx := h.none d old hc x hcur
          rw [hno x (h.curs d x hcur)] at hx
          cases hx
    rw [hsame]
    refine hdeq _ _ ⟨h.owner, fun x hx => ?_, h.instances, h.start, h.entity, fun d' o hm x hx => ?_,
      h.lists, fun d' x hx => ?_⟩
    · show Function.update s.cur d none (s.gdev x) = some x
      rw [Function.update_of_ne, h.cur x hx]
      intro hdx
      have hx : s.inFlight x = true := hx
      rw [hno x hdx] at hx
      cases hx
    · have hx : Function.update s.cur d none d' = some x := hx
      rw [Function.update_apply] at hx
      split at hx
      · cases hx
      · exact h.none d' o hm x hx
    · have hx : Function.update s.cur d none d' = some x := hx
      rw [Function.update_apply] at hx
      split at hx
      · cases hx
      · exact h.curs d' x hx
  · exact hdeq s se h

theorem comStep_excluded {exhausted overrun : Bool} (h : OwnInv s)
    (hown : (BandOp.com d exhausted overrun).Owns s) (hs : s.comStep d exhausted overrun = some s') :
    OwnInv s' := by
  unfold BandState.comStep at hs
  cases hc : s.com d with
  | idle => simp [hc] at hs
  | start e =>
    simp only [hc, Option.some.injEq] at hs
    subst hs
    exact selectStart_excluded h hc
  | early se old =>
    simp only [hc, Option.some.injEq] at hs
    subst hs
    refine h.setCom (fun e => ?_) fun m hm => ?_
    · split <;> simp
    · rw [hc]
      split at hm <;> exact hm
  | other se old =>
    simp only [hc, Option.some.injEq] at hs
    subst hs
    refine h.setCom (fun e => ?_) fun m hm => ?_
    · cases s.physCur <;> simp
    · rw [hc]
      cases hp : s.physCur with
      | none => simp [hp, ComPoint.remembers] at hm
      | some next => simpa [hp, ComPoint.remembers] using hm
  | scan se old =>
    simp only [hc, Option.some.injEq] at hs
    subst hs
    simp only [BandOp.Owns, hc] at hown
    exact selectScan_excluded h (by rw [hc]; rfl) hown
  | yielding se old next =>
    simp only [hc, Option.some.injEq] at hs
    subst hs
    unfold BandState.selectRegain
    split
    · rename_i hp
      refine OwnInv.setCom (h.setPhysCur fun x hx => ?_) (by simp) fun m hm => ?_
      · rw [h.owner x hx] at hp
        cases hp
      · exact (congrArg ComPoint.remembers hc).trans hm
    · refine h.setCom (by simp) fun m hm => ?_
      exact (congrArg ComPoint.remembers hc).trans hm
  | switch se old next =>
    simp only [hc, Option.some.injEq] at hs
    subst hs
    simp only [BandOp.Owns, hc] at hown
    exact selectSwitch_excluded h (by rw [hc]; rfl) hown

theorem bandStep_excluded (op : BandOp) (h : OwnInv s) (hown : op.Owns s)
    (hs : bandStep s op = some s') : OwnInv s' := by
  cases op with
  | schedule e | wake e =>
    unfold bandStep at hs
    dsimp only at hs
    split at hs
    · rw [Option.some.injEq] at hs
      subst hs
      exact h.setCtx (by simp)
    · cases hs
  | ctx e overrun => exact ctxStep_excluded h hown hs
  | complete e =>
    unfold bandStep at hs
    dsimp only at hs
    split at hs
    · rename_i hc
      rw [Option.some.injEq] at hs
      subst hs
      refine ⟨h.owner, h.cur, h.instances, fun d x hx => ?_, fun d x old hm => ?_,
        fun d old hm => ?_, h.lists, h.curs⟩
      · have hx : Function.update s.com (s.gdev e) (.start e) d = .start x := hx
        by_cases hd : d = s.gdev e
        · rw [hd, Function.update_self, ComPoint.start.injEq] at hx
          rw [← hx, hd]
          exact ⟨hc.1, rfl⟩
        · rw [Function.update_of_ne hd] at hx
          exact h.start d x hx
      · have hm : (Function.update s.com (s.gdev e) (.start e) d).remembers = _ := hm
        rw [Function.update_apply] at hm
        split at hm
        · cases hm
        · exact h.entity d x old hm
      · have hm : (Function.update s.com (s.gdev e) (.start e) d).remembers = _ := hm
        rw [Function.update_apply] at hm
        split at hm
        · cases hm
        · exact h.none d old hm
    · cases hs
  | com d exhausted overrun => exact comStep_excluded h hown hs

/-- **Exclusion in runs.** However contexts and devices interleave, if `current_com` of the
physical device is not taken from a launch and no device is switched during one (`Owns`), one
entity is in flight at a time, and `launch_instances` is 1 for it and 0 for the others. -/
theorem band_excluded (devices : List ℕ) (gdev : ℕ → ℕ) (ops : List BandOp)
    (he : Each bandStep (fun s op => op.Owns s) (bandInit devices gdev) ops) :
    Always bandStep BandExcluded (bandInit devices gdev) ops := by
  have hinit : OwnInv (bandInit devices gdev) := by
    refine ⟨fun e hp => ?_, fun e hx => ?_, fun e => rfl, fun d e hx => ?_, fun d x old hm => ?_,
      fun d old hm => ?_, fun d e hx => ?_, fun d e hx => ?_⟩
    · rcases hp with hx | hx <;> cases hx
    · cases hx
    · cases hx
    · cases hm
    · cases hm
    · cases hx
    · cases hx
  have hall := Always.of_each (fun s op s' hi hown hs => bandStep_excluded op hi hown hs) ops _
    hinit he
  exact hall.mono (fun _ hi => hi.excluded) ops _

/-- A test that is enough for `Owns` at all steps but scans and switches. -/
def ownsTest (s : BandState) : BandOp → Bool
  | .ctx _ overrun => !overrun
  | .com d _ _ =>
    match s.com d with
    | .scan _ _ | .switch _ _ _ => false
    | _ => true
  | .schedule _ | .wake _ | .complete _ => true

theorem owns_of_test (s : BandState) (op : BandOp) (h : ownsTest s op = true) : op.Owns s := by
  cases op with
  | schedule e | wake e | complete e => trivial
  | ctx e overrun =>
    intro _ ho
    rw [ho] at h
    cases h
  | com d exhausted overrun =>
    unfold BandOp.Owns
    unfold ownsTest at h
    dsimp only at h ⊢
    split at h <;> simp_all

theorem owns_handOver :
    Each bandStep (fun s op => op.Owns s) (bandInit [0, 1] (· % 2)) handOver := by
  have h₁ : Each bandStep (fun s op => op.Owns s) (bandInit [0, 1] (· % 2)) (handOver.take 12) :=
    Each.of_check owns_of_test (by decide +kernel)
  refine Each.append h₁ rfl (Each.cons rfl ?_ (Each.cons rfl ?_ (Each.of_check owns_of_test ?_)))
  · rintro x (hx | hx) <;> match x with | 0 | 1 | x + 2 => cases hx
  · intro _ x _
    match x with
    | 0 | 1 | x + 2 => rfl
  · decide +kernel

theorem band_excluded_handOver :
    Always bandStep BandExcluded (bandInit [0, 1] (· % 2)) handOver :=
  band_excluded [0, 1] (· % 2) handOver owns_handOver

/-- Device 0 yields for context 2 while context 0 is in flight, and context 1 passes. -/
def stolenBand : List BandOp :=
  [.schedule 0, .ctx 0 false, .ctx 0 false, .ctx 0 false, .ctx 0 false,
    .schedule 2, .ctx 2 true,
    .schedule 1, .ctx 1 false, .ctx 1 false, .ctx 1 false]

theorem band_not_excluded : ¬ ∀ (devices : List ℕ) (gdev : ℕ → ℕ) (ops : List BandOp),
    Always bandStep BandExcluded (bandInit devices gdev) ops := by
  intro hall
  have hlost : BandExcluded _ := (hall [0, 1] (· % 2) stolenBand).final rfl
  have := hlost.devices 0 1 rfl rfl
  cases this
end Resch
