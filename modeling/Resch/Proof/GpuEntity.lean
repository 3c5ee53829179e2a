import Resch.Proof.GpuBand
import Resch.Spec.GpuEntity

/-!
# The entities that the GPU scheduler refers to

`gsched_close` frees an entity without a look at `current_com` and the lists of its device.

* `bandStep_refers`: a step of the band scheduler refers to no new entity, other than the
  context's own when it is put in a list or let through.
* `entities_open_iff`: all entities that are current or linked are of open contexts in a whole
  run iff no context is closed while its entity is current or linked, and none is put in a list
  or let through after its close (`EntityOp.Unused`).
-/

namespace Resch

open Lib

variable {b b' : BandState} {s s' : EntityState} {o : ℕ → Bool} {e d : ℕ}

/-- The entities that are current or linked are among `o`. -/
structure RefersIn (o : ℕ → Bool) (b : BandState) : Prop where
  cur : ∀ d e, b.cur d = some e → o e = true
  linked : ∀ d e, e ∈ b.comList d → o e = true

/-- Every entity that is current or linked is of an open context. -/
def EntitiesOpen (s : EntityState) : Prop := RefersIn s.opened s.band

/-- A context is closed when nothing refers to its entity, and its thread is not put in a list
or let through after that. -/
def EntityOp.Unused (s : EntityState) : EntityOp → Prop
  | close e => (∀ d, s.band.cur d ≠ some e) ∧ ∀ d, e ∉ s.band.comList d
  | ctx e _ => s.band.ctx e = .enqueue ∨ s.band.ctx e = .compute → s.opened e = true
  | ctxcreate _ | launch _ | sync _ | wake _ | com _ _ _ => True

/-! ## The band scheduler -/

theorem RefersIn.setCtx {p : CtxPoint} (h : RefersIn o b) : RefersIn o (b.setCtx e p) :=
  ⟨h.cur, h.linked⟩

theorem RefersIn.setCom {p : ComPoint} (h : RefersIn o b) : RefersIn o (b.setCom d p) :=
  ⟨h.cur, h.linked⟩

theorem RefersIn.setPhysCur {v : Option ℕ} (h : RefersIn o b) : RefersIn o (b.setPhysCur v) :=
  ⟨h.cur, h.linked⟩

theorem RefersIn.addInstances {n : ℤ} (h : RefersIn o b) : RefersIn o (b.addInstances e n) :=
  ⟨h.cur, h.linked⟩

theorem RefersIn.setInFlight {v : Bool} (h : RefersIn o b) : RefersIn o (b.setInFlight e v) :=
  ⟨h.cur, h.linked⟩

theorem RefersIn.setCur {v : Option ℕ} (h : RefersIn o b) (hv : ∀ e, v = some e → o e = true) :
    RefersIn o (b.setCur d v) := by
  refine ⟨fun d' x hx => ?_, h.linked⟩
  have hx : Function.update b.cur d v d' = some x := hx
  by_cases hd : d' = d
  · rw [hd, Function.update_self] at hx
    exact hv x hx
  · rw [Function.update_of_ne hd] at hx
    exact h.cur d' x hx

theorem RefersIn.enqueueCompute (h : RefersIn o b) (he : o e = true) :
    RefersIn o (b.enqueueCompute e) := by
  refine ⟨?_, fun d x hx => ?_⟩
  · unfold BandState.enqueueCompute
    split
    · exact h.cur
    · exact h.cur
  · rcases mem_enqueueCompute hx with hx | ⟨hxe, -⟩
    · exact h.linked d x hx
    · rw [hxe]
      exact he

theorem RefersIn.dequeueCompute (h : RefersIn o b) : RefersIn o (b.dequeueCompute e) :=
  ⟨h.cur, fun d x hx => h.linked d x (mem_dequeueCompute hx)⟩

/-- The head of a list is a linked entity. -/
theorem RefersIn.head (h : RefersIn o b) (x : ℕ) (hx : (b.comList d).head? = some x) : o x = true :=
  h.linked d x (List.mem_of_mem_head? hx)

theorem localCompute_refers (h : RefersIn o b) (he : o e = true) :
    RefersIn o (b.localCompute e) := by
  unfold BandState.localCompute
  split
  · exact (h.enqueueCompute he).setCtx
  · refine RefersIn.setCtx (RefersIn.setInFlight (h.addInstances.setCur ?_))
    intro x hx
    rw [← Option.some.inj hx]
    exact he

theorem ctxStep_refers {overrun : Bool} (h : RefersIn o b)
    (he : b.ctx e = .enqueue ∨ b.ctx e = .compute → o e = true)
    (hs : b.ctxStep e overrun = some b') : RefersIn o b' := by
  unfold BandState.ctxStep at hs
  cases hc : b.ctx e with
  | outside | asleep => simp [hc] at hs
  | resched =>
    simp only [hc, Option.some.injEq] at hs
    subst hs
    unfold BandState.bandResched
    split
    · exact h.setPhysCur.setCtx
    · exact h.setCtx
  | yielding =>
    simp only [hc, Option.some.injEq] at hs
    subst hs
    unfold BandState.bandRegain
    split
    · exact h.setPhysCur.setCtx
    · exact h.setCtx
  | check =>
    simp only [hc, Option.some.injEq] at hs
    subst hs
    unfold BandState.bandCheck
    split
    · exact h.setCtx
    · exact h.setPhysCur.setCtx
  | enqueue =>
    simp only [hc, Option.some.injEq] at hs
    subst hs
    exact (h.enqueueCompute (he (Or.inl hc))).setCtx
  | compute =>
    simp only [hc, Option.some.injEq] at hs
    subst hs
    exact localCompute_refers h (he (Or.inr hc))
  | launch =>
    simp only [hc] at hs
    split at hs
    · rw [Option.some.injEq] at hs
      subst hs
      exact h.setCtx
    · cases hs

/-- A context that goes to wait or is let through is referred to afterwards. -/
theorem ctxStep_referred {overrun : Bool} (h : RefersIn o b')
    (hc : b.ctx e = .enqueue ∨ b.ctx e = .compute) (hs : b.ctxStep e overrun = some b') :
    o e = true := by
  have hlisted : ∃ d, e ∈ (b.enqueueCompute e).comList d := by
    refine ⟨b.gdev e, ?_⟩
    unfold BandState.enqueueCompute
    split
    · assumption
    · show e ∈ Function.update b.comList (b.gdev e) (b.comList (b.gdev e) ++ [e]) (b.gdev e)
      rw [Function.update_self]
      simp
  obtain ⟨d, hd⟩ := hlisted
  unfold BandState.ctxStep at hs
  rcases hc with hc | hc
  · simp only [hc, Option.some.injEq] at hs
    subst hs
    exact h.linked d e hd
  · simp only [hc, Option.some.injEq] at hs
    subst hs
    unfold BandState.localCompute at h
    split at h
    · exact h.linked d e hd
    · refine h.cur (b.gdev e) e ?_
      show Function.update b.cur (b.gdev e) (some e) (b.gdev e) = some e
      rw [Function.update_self]

theorem selectStart_refers (h : RefersIn o b) : RefersIn o (b.selectStart e d) := by
  unfold BandState.selectStart
  cases b.cur d with
  | none => exact h.setCom
  | some x =>
    have h₁ : RefersIn o (b.addInstances x (-1)) := h.addInstances
    have h₂ : RefersIn o (if x = e then (b.addInstances x (-1)).setInFlight e false
        else b.addInstances x (-1)) := by
      split
      · exact h₁.setInFlight
      · exact h₁
    dsimp only
    generalize (if x = e then (b.addInstances x (-1)).setInFlight e false
      else b.addInstances x (-1)) = c at h₂ ⊢
    -- the entity made current is the head of the list
    split
    · exact (h₂.setCur h₂.head).setCom
    · exact h₂.setCom

theorem selectScan_refers {se : Option ℕ} {old : ℤ} {exhausted overrun : Bool} (h : RefersIn o b) :
    RefersIn o (b.selectScan d se old exhausted overrun) := by
  obtain ⟨devices, hr, -⟩ := reinsert_eq b d exhausted
  unfold BandState.selectScan
  rw [hr]
  have h₁ : RefersIn o { b with devices := devices } := ⟨h.cur, h.linked⟩
  dsimp only
  split
  · exact h₁.setPhysCur.setCom
  · split
    · exact h₁.setPhysCur.setCom
    · exact h₁.setPhysCur.setCom

theorem selectSwitch_refers {se : Option ℕ} {old : ℤ} {next : ℕ} (h : RefersIn o b) :
    RefersIn o (b.selectSwitch d se old next) := by
  have hdeq : ∀ (c : BandState) (se : Option ℕ), RefersIn o c →
      RefersIn o ((se.elim c c.dequeueCompute).setCom d .idle) := by
    intro c se hc
    cases se with
    | none => exact hc.setCom
    | some x => exact hc.dequeueCompute.setCom
  have hswitch : RefersIn o (b.switchInstances d se old) := by
    unfold BandState.switchInstances
    split
    · split
      · exact h.addInstances
      · exact h
    · split
      · exact h.addInstances
      · exact h
  unfold BandState.selectSwitch
  split
  · refine hdeq _ _ (hswitch.setCur ?_)
    intro x hx
    cases hx
  · exact hdeq b se h

theorem comStep_refers {exhausted overrun : Bool} (h : RefersIn o b)
    (hs : b.comStep d exhausted overrun = some b') : RefersIn o b' := by
  unfold BandState.comStep at hs
  cases hc : b.com d with
  | idle => simp [hc] at hs
  | start e =>
    simp only [hc, Option.some.injEq] at hs
    subst hs
    exact selectStart_refers h
  | early se old | other se old =>
    simp only [hc, Option.some.injEq] at hs
    subst hs
    exact h.setCom
  | scan se old =>
    simp only [hc, Option.some.injEq] at hs
    subst hs
    exact selectScan_refers h
  | yielding se old next =>
    simp only [hc, Option.some.injEq] at hs
    subst hs
    unfold BandState.selectRegain
    split
    · exact h.setPhysCur.setCom
    · exact h.setCom
  | switch se old next =>
    simp only [hc, Option.some.injEq] at hs
    subst hs
    exact selectSwitch_refers h

/-- A step of the band scheduler refers to no new entity, other than the context's own when it
is put in a list or let through. -/
theorem bandStep_refers (op : BandOp) (h : RefersIn o b)
    (ho : ∀ e overrun, op = .ctx e overrun → b.ctx e = .enqueue ∨ b.ctx e = .compute → o e = true)
    (hs : bandStep b op = some b') : RefersIn o b' := by
  cases op with
  | schedule e | wake e =>
    unfold bandStep at hs
    dsimp only at hs
    split at hs
    · rw [Option.some.injEq] at hs
      subst hs
      exact h.setCtx
    · cases hs
  | ctx e overrun => exact ctxStep_refers h (ho e overrun rfl) hs
  | complete e =>
    unfold bandStep at hs
    dsimp only at hs
    split at hs
    · rw [Option.some.injEq] at hs
      subst hs
      exact h.setCom
    · cases hs
  | com d exhausted overrun => exact comStep_refers h hs

/-! ## Contexts -/

theorem destroy_open (h : EntitiesOpen s) :
    EntitiesOpen (s.destroy e) ↔ (EntityOp.close e).Unused s := by
  have hclosed : ∀ x, Function.update s.opened e false x = true ↔ x ≠ e ∧ s.opened x = true := by
    intro x
    rw [Function.update_apply]
    split <;> simp [*]
  constructor
  · intro h'
    refine ⟨fun d hd => ?_, fun d hd => ?_⟩
    · exact ((hclosed e).1 (h'.cur d e hd)).1 rfl
    · exact ((hclosed e).1 (h'.linked d e hd)).1 rfl
  · rintro ⟨hcur, hlinked⟩
    refine ⟨fun d x hx => (hclosed x).2 ⟨?_, h.cur d x hx⟩,
      fun d x hx => (hclosed x).2 ⟨?_, h.linked d x hx⟩⟩
    · rintro rfl
      exact hcur d hx
    · rintro rfl
      exact hlinked d hx

theorem create_open (h : EntitiesOpen s) : EntitiesOpen (s.create e) := by
  have hopened : ∀ x, s.opened x = true → Function.update s.opened e true x = true := by
    intro x hx
    rw [Function.update_apply]
    split
    · rfl
    · exact hx
  exact ⟨fun d x hx => hopened x (h.cur d x hx), fun d x hx => hopened x (h.linked d x hx)⟩

theorem entityStep_open (op : EntityOp) (h : EntitiesOpen s) (hs : entityStep s op = some s') :
    EntitiesOpen s' ↔ op.Unused s := by
  -- a step of the band scheduler leaves the contexts as they are
  have hband : ∀ bop : BandOp,
      (∀ e overrun, bop = .ctx e overrun →
        s.band.ctx e = .enqueue ∨ s.band.ctx e = .compute → s.opened e = true) →
      (bandStep s.band bop).map (fun b => { s with band := b }) = some s' → EntitiesOpen s' := by
    intro bop ho hb
    obtain ⟨b', hb', rfl⟩ := Option.map_eq_some_iff.1 hb
    exact bandStep_refers bop h ho hb'
  cases op with
  | ctxcreate e =>
    unfold entityStep at hs
    dsimp only at hs
    split at hs
    · rw [Option.some.injEq] at hs
      subst hs
      exact iff_of_true (create_open h) trivial
    · cases hs
  | launch e =>
    unfold entityStep at hs
    dsimp only at hs
    split at hs
    · exact iff_of_true (hband _ (by simp) hs) trivial
    · cases hs
  | sync e =>
    unfold entityStep at hs
    dsimp only at hs
    split at hs
    · rw [Option.some.injEq] at hs
      subst hs
      exact iff_of_true (RefersIn.setCom h) trivial
    · cases hs
  | close e =>
    unfold entityStep at hs
    dsimp only at hs
    split at hs
    · rw [Option.some.injEq] at hs
      subst hs
      exact destroy_open h
    · cases hs
  | ctx e overrun =>
    constructor
    · intro h' hc
      obtain ⟨b', hb', rfl⟩ := Option.map_eq_some_iff.1 hs
      exact ctxStep_referred h' hc hb'
    · intro hu
      refine hband _ (fun x overrun' hx => ?_) hs
      rw [← (BandOp.ctx.inj hx).1]
      exact hu
  | wake e | com d exhausted overrun => exact iff_of_true (hband _ (by simp) hs) trivial

/-- **Open entities in runs.** In any order of creations, launches, syncs and closes, the
entities that are current or linked are of open contexts throughout iff no context is closed
while its entity is current or linked, and none is put in a list or let through after its
close (`Unused`). -/
theorem entities_open_iff (devices : List ℕ) (gdev : ℕ → ℕ) (ops : List EntityOp) :
    Always entityStep EntitiesOpen (entityInit devices gdev) ops ↔
      Each entityStep (fun s op => op.Unused s) (entityInit devices gdev) ops := by
  have hinit : EntitiesOpen (entityInit devices gdev) := by
    refine ⟨fun d e hd => ?_, fun d e hd => ?_⟩
    · cases hd
    · cases hd
  exact always_iff_each (I := fun _ => True) (fun _ _ _ _ _ _ _ => trivial)
    (fun s op s' _ h hs => entityStep_open op h hs) ops _ trivial hinit

/-- Context 0 is closed without a sync after its launch. -/
def closeCurrent : List EntityOp :=
  [.ctxcreate 0, .launch 0, .ctx 0 false, .ctx 0 false, .ctx 0 false, .ctx 0 false, .close 0]

theorem entities_not_open : ¬ ∀ (devices : List ℕ) (gdev : ℕ → ℕ) (ops : List EntityOp),
    Always entityStep EntitiesOpen (entityInit devices gdev) ops := by
  intro hall
  have hlast : EntitiesOpen _ := (hall [0, 1] (· % 2) closeCurrent).final rfl
  have hopen := hlast.cur 0 0 rfl
  cases hopen

end Resch
