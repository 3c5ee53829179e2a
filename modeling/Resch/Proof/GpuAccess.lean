import Resch.Spec.GpuAccess
import Mathlib.Data.List.Nodup
import Mathlib.Data.List.Perm.Subperm

/-!
# What the access counter counts

`gdev_access_end` comes before the test that a context is current, so a `sync` lowers the counter
also where no completion is handled.

* `ctxStep_frame`, `comStep_frame`: when a step of the scheduler begins or ends a launch.
* `AccessInv`: the counter, the contexts in flight and the threads in progress; a `sync` that waits
  for its device is that of the current context there.
* `access_counted`: the counter is right in runs in which each `sync` that is handled is of the
  context that is current on the device, and no context in flight is let through.
-/

namespace Resch

open Lib

variable {s s' : AccessState} {b b' : BandState} {e d : ℕ} {op : AccessOp}

/-! ## Launches that begin and end -/

/-- The local scheduler lets the context through. -/
def BandState.LetsThrough (b : BandState) (e : ℕ) : Prop :=
  b.ctx e = .compute ∧ b.mustWait e = false

theorem AccessState.letsThrough_iff : s.letsThrough e = true ↔ s.band.LetsThrough e := by
  unfold AccessState.letsThrough BandState.LetsThrough
  rw [Bool.and_eq_true, decide_eq_true_eq, Bool.not_eq_true']

/-- The rest of the scheduler's state when a context goes on to a point. -/
structure CtxFrame (b b' : BandState) (e : ℕ) : Prop where
  com : b'.com = b.com
  gdev : b'.gdev = b.gdev
  ctx : ∀ x, x ≠ e → b'.ctx x = b.ctx x

theorem CtxFrame.of_update {p : CtxPoint} (hcom : b'.com = b.com) (hgdev : b'.gdev = b.gdev)
    (hctx : b'.ctx = Function.update b.ctx e p) : CtxFrame b b' e :=
  ⟨hcom, hgdev, fun x hx => by rw [hctx, Function.update_of_ne hx]⟩

/-- A context that is not let through begins no launch. -/
theorem ctxStep_frame {overrun : Bool} (hno : ¬ b.LetsThrough e)
    (hs : b.ctxStep e overrun = some b') :
    CtxFrame b b' e ∧ b'.cur = b.cur ∧ b'.inFlight = b.inFlight := by
  unfold BandState.ctxStep at hs
  cases hc : b.ctx e with
  | outside | asleep => simp [hc] at hs
  | resched =>
    simp only [hc, Option.some.injEq] at hs
    subst hs
    unfold BandState.bandResched
    split <;> exact ⟨.of_update rfl rfl rfl, rfl, rfl⟩
  | yielding =>
    simp only [hc, Option.some.injEq] at hs
    subst hs
    unfold BandState.bandRegain
    split <;> exact ⟨.of_update rfl rfl rfl, rfl, rfl⟩
  | check =>
    simp only [hc, Option.some.injEq] at hs
    subst hs
    unfold BandState.bandCheck
    split <;> exact ⟨.of_update rfl rfl rfl, rfl, rfl⟩
  | enqueue =>
    simp only [hc, Option.some.injEq] at hs
    subst hs
    unfold BandState.enqueueCompute
    split <;> exact ⟨.of_update rfl rfl rfl, rfl, rfl⟩
  | compute =>
    simp only [hc, Option.some.injEq] at hs
    subst hs
    have hw : b.mustWait e = true := by
      by_contra hw
      exact hno ⟨hc, eq_false_of_ne_true hw⟩
    unfold BandState.localCompute BandState.enqueueCompute
    rw [if_pos hw]
    split <;> exact ⟨.of_update rfl rfl rfl, rfl, rfl⟩
  | launch =>
    simp only [hc] at hs
    split at hs
    · rw [Option.some.injEq] at hs
      subst hs
      exact ⟨.of_update rfl rfl rfl, rfl, rfl⟩
    · cases hs

/-- A context that is let through becomes the current one of its device, where no other was. -/
theorem ctxStep_launch {overrun : Bool} (hl : b.LetsThrough e)
    (hs : b.ctxStep e overrun = some b') :
    CtxFrame b b' e ∧ b'.ctx e = .launch ∧ b'.inFlight = Function.update b.inFlight e true ∧
      b'.cur = Function.update b.cur (b.gdev e) (some e) ∧
        ∀ x, b.cur (b.gdev e) = some x → x = e := by
  obtain ⟨hc, hw⟩ := hl
  unfold BandState.ctxStep at hs
  simp only [hc, Option.some.injEq] at hs
  subst hs
  unfold BandState.localCompute
  rw [hw]
  refine ⟨.of_update rfl rfl rfl, Function.update_self .., rfl, rfl, fun x hx => ?_⟩
  unfold BandState.mustWait at hw
  rw [Bool.or_eq_false_iff, hx] at hw
  simpa using hw.1

/-- The rest of the scheduler's state when the thread of a device goes on. -/
structure ComFrame (b b' : BandState) (d : ℕ) : Prop where
  ctx : b'.ctx = b.ctx
  gdev : b'.gdev = b.gdev
  com : ∀ x, x ≠ d → b'.com x = b.com x
  cur : ∀ x, x ≠ d → b'.cur x = b.cur x
  started : ∀ e, b'.com d ≠ .start e

theorem ComFrame.of_update {p : ComPoint} (hctx : b'.ctx = b.ctx) (hgdev : b'.gdev = b.gdev)
    (hcom : b'.com = Function.update b.com d p) (hcur : ∀ x, x ≠ d → b'.cur x = b.cur x)
    (hp : ∀ e, p ≠ .start e) : ComFrame b b' d := by
  refine ⟨hctx, hgdev, fun x hx => ?_, hcur, fun e he => ?_⟩
  · rw [hcom, Function.update_of_ne hx]
  · rw [hcom, Function.update_self] at he
    exact hp e he

/-- The first section ends the launch of the current context, if the thread is there for it. -/
theorem selectStart_frame : ComFrame b (b.selectStart e d) d ∧
    (b.cur d = some e → (b.selectStart e d).inFlight = Function.update b.inFlight e false) := by
  unfold BandState.selectStart
  split
  · rename_i hn
    refine ⟨.of_update rfl rfl rfl (fun _ _ => rfl) (by simp), fun h => ?_⟩
    rw [hn] at h
    cases h
  · rename_i x hx
    have hcur : ∀ v y, y ≠ d → Function.update b.cur d v y = b.cur y := fun v y hy =>
      Function.update_of_ne hy ..
    dsimp only
    by_cases hxe : x = e
    · rw [if_pos hxe]
      split
      · exact ⟨.of_update rfl rfl rfl (hcur _) (by simp), fun _ => rfl⟩
      · exact ⟨.of_update rfl rfl rfl (fun _ _ => rfl) (by simp), fun _ => rfl⟩
    · rw [if_neg hxe]
      have hne : b.cur d = some e → False := by
        intro h
        rw [hx, Option.some.injEq] at h
        exact hxe h
      split
      · exact ⟨.of_update rfl rfl rfl (hcur _) (by simp), fun h => (hne h).elim⟩
      · exact ⟨.of_update rfl rfl rfl (fun _ _ => rfl) (by simp), fun h => (hne h).elim⟩

theorem comStep_frame {exhausted overrun : Bool} (hs : b.comStep d exhausted overrun = some b') :
    ComFrame b b' d ∧ ((∀ e, b.com d ≠ .start e) → b'.inFlight = b.inFlight) ∧
      ∀ e, b.com d = .start e → b.cur d = some e →
        b'.inFlight = Function.update b.inFlight e false := by
  have hkeep : ∀ {c : BandState}, ComFrame b c d ∧ c.inFlight = b.inFlight →
      (∀ e, b.com d ≠ .start e) → ComFrame b c d ∧
        ((∀ e, b.com d ≠ .start e) → c.inFlight = b.inFlight) ∧
          ∀ e, b.com d = .start e → b.cur d = some e →
            c.inFlight = Function.update b.inFlight e false :=
    fun h hno => ⟨h.1, fun _ => h.2, fun e he => absurd he (hno e)⟩
  unfold BandState.comStep at hs
  cases hc : b.com d with
  | idle => simp [hc] at hs
  | start e =>
    simp only [hc, Option.some.injEq] at hs
    subst hs
    refine ⟨selectStart_frame.1, fun hno => absurd rfl (hno e), fun x hx hcur => ?_⟩
    cases hx
    exact selectStart_frame.2 hcur
  | early se old =>
    simp only [hc, Option.some.injEq] at hs
    subst hs
    rw [← hc]
    refine hkeep ⟨.of_update rfl rfl rfl (fun _ _ => rfl) ?_, rfl⟩ (by simp [hc])
    split <;> simp
  | other se old =>
    simp only [hc, Option.some.injEq] at hs
    subst hs
    rw [← hc]
    refine hkeep ⟨.of_update rfl rfl rfl (fun _ _ => rfl) ?_, rfl⟩ (by simp [hc])
    cases b.physCur <;> simp
  | scan se old =>
    simp only [hc, Option.some.injEq] at hs
    subst hs
    rw [← hc]
    refine hkeep ?_ (by simp [hc])
    unfold BandState.selectScan BandState.reinsert
    dsimp only
    split <;> split <;> first
      | exact ⟨.of_update rfl rfl rfl (fun _ _ => rfl) (by simp), rfl⟩
      | split <;> exact ⟨.of_update rfl rfl rfl (fun _ _ => rfl) (by simp), rfl⟩
  | yielding se old next =>
    simp only [hc, Option.some.injEq] at hs
    subst hs
    rw [← hc]
    refine hkeep ?_ (by simp [hc])
    unfold BandState.selectRegain
    split <;> exact ⟨.of_update rfl rfl rfl (fun _ _ => rfl) (by simp), rfl⟩
  | switch se old next =>
    simp only [hc, Option.some.injEq] at hs
    subst hs
    rw [← hc]
    refine hkeep ?_ (by simp [hc])
    have hi : (b.switchInstances d se old).ctx = b.ctx ∧ (b.switchInstances d se old).com = b.com ∧
        (b.switchInstances d se old).gdev = b.gdev ∧ (b.switchInstances d se old).cur = b.cur ∧
          (b.switchInstances d se old).inFlight = b.inFlight := by
      unfold BandState.switchInstances
      split <;> split <;> exact ⟨rfl, rfl, rfl, rfl, rfl⟩
    obtain ⟨hctx, hcom, hgdev, hcur, hfl⟩ := hi
    unfold BandState.selectSwitch
    split
    · have hcur' : ∀ x, x ≠ d → Function.update (b.switchInstances d se old).cur d none x =
          b.cur x := fun x hx => by rw [Function.update_of_ne hx, hcur]
      have hcom' : Function.update (b.switchInstances d se old).com d .idle =
          Function.update b.com d .idle := by rw [hcom]
      dsimp only
      cases (((b.switchInstances d se old).setCur d none).comList next).head? <;>
        exact ⟨.of_update hctx hgdev hcom' hcur' (by simp), hfl⟩
    · cases se <;> exact ⟨.of_update rfl rfl rfl (fun _ _ => rfl) (by simp), rfl⟩

/-! ## The contexts in flight -/

/-- Nothing is in progress. -/
def AccessState.AtRest (s : AccessState) : Prop :=
  (∀ e, s.band.ctx e = .outside ∨ s.band.ctx e = .asleep) ∧ ∀ d, s.band.com d = .idle

/-- The contexts that are let through and whose completion has not been handled -/
def BandState.FlightIs (b : BandState) (l : List ℕ) : Prop :=
  l.Nodup ∧ ∀ e, e ∈ l ↔ b.inFlight e = true

/-- At rest the counter is the number of contexts let through whose completion has not been
handled, and it is never negative. -/
def AccessCounted (s : AccessState) : Prop :=
  (s.AtRest → ∃ l, s.band.FlightIs l ∧ s.accessed = l.length) ∧ 0 ≤ s.accessed

/-- A `sync` that is handled is of a context in flight, and for its device, where it is current.
No context in flight is let through. -/
def AccessOp.Handled (s : AccessState) : AccessOp → Prop
  | sync e d =>
    s.users d = 0 ∨ s.band.gdev e = d ∧ s.band.cur d = some e ∧ s.band.inFlight e = true
  | ctx e _ => s.letsThrough e = true → s.band.inFlight e = false
  | launch _ | accessStart _ | wake _ | accessEnd _ | com _ _ _ => True

instance : (op : AccessOp) → Decidable (op.Handled s)
  | .sync _ _ => inferInstanceAs (Decidable (_ ∨ _ ∧ _ ∧ _))
  | .ctx _ _ => inferInstanceAs (Decidable (_ → _))
  | .launch _ | .accessStart _ | .wake _ | .accessEnd _ | .com _ _ _ =>
    inferInstanceAs (Decidable True)

theorem BandState.FlightIs.cons {l : List ℕ} (h : b.FlightIs l) (he : b.inFlight e = false)
    (hb : b'.inFlight = Function.update b.inFlight e true) : b'.FlightIs (e :: l) := by
  refine ⟨List.nodup_cons.2 ⟨fun hm => ?_, h.1⟩, fun x => ?_⟩
  · rw [(h.2 e).1 hm] at he
    cases he
  · rw [List.mem_cons, h.2 x, hb, Function.update_apply]
    split <;> simp [*]

theorem BandState.FlightIs.erase {l : List ℕ} (h : b.FlightIs l)
    (hb : b'.inFlight = Function.update b.inFlight e false) : b'.FlightIs (l.erase e) := by
  refine ⟨h.1.erase e, fun x => ?_⟩
  rw [h.1.mem_erase_iff, h.2 x, hb, Function.update_apply]
  split <;> simp [*]

/-- The thread of a device has been woken for the completion of the context that is current there
and in flight, and does not come to `gdev_access_start`. -/
def AccessState.Wakes (s : AccessState) (d e : ℕ) : Prop :=
  s.band.com d = .start e ∧ s.band.gdev e = d ∧ s.band.cur d = some e ∧
    s.band.inFlight e = true ∧ e ∉ s.starting

/-- **The invariant.** A context that comes to `gdev_access_start` is in flight but not counted yet,
and one whose device has been through `gdev_access_end` is in flight but not counted any more. -/
structure AccessInv (s : AccessState) : Prop where
  starting : ∀ e ∈ s.starting, s.band.ctx e = .launch ∧ s.band.inFlight e = true
  startingNodup : s.starting.Nodup
  woken : ∀ d ∈ s.ending ++ s.ended, ∃ e, s.Wakes d e
  wokenNodup : (s.ending ++ s.ended).Nodup
  start : ∀ d e, s.band.com d = .start e → d ∈ s.ending ++ s.ended
  counted : ∃ l, s.band.FlightIs l ∧
    s.accessed = (l.length : ℤ) - s.starting.length - s.ended.length

/-- The context that the thread of a device has been woken for -/
def BandState.wokenFor (b : BandState) (d : ℕ) : ℕ :=
  match b.com d with
  | .start e => e
  | _ => 0

theorem AccessInv.wokenFor_eq (h : AccessInv s) (hd : d ∈ s.ended) :
    s.Wakes d (s.band.wokenFor d) := by
  obtain ⟨e, he⟩ := h.woken d (List.mem_append_right _ hd)
  unfold BandState.wokenFor
  rw [he.1]
  exact he

/-- The contexts in flight that are not counted are different from each other. -/
theorem AccessInv.subperm (h : AccessInv s) {l : List ℕ} (hl : s.band.FlightIs l) :
    (s.starting ++ s.ended.map s.band.wokenFor).Subperm l := by
  refine List.Nodup.subperm (List.nodup_append'.2 ⟨h.startingNodup, ?_, ?_⟩) fun x hx => ?_
  · refine List.Nodup.map_on (fun d hd d' hd' heq => ?_) (List.nodup_append'.1 h.wokenNodup).2.1
    rw [← (h.wokenFor_eq hd).2.1, heq, (h.wokenFor_eq hd').2.1]
  · intro x hx hx'
    obtain ⟨d, hd, rfl⟩ := List.mem_map.1 hx'
    exact (h.wokenFor_eq hd).2.2.2.2 hx
  · rw [hl.2 x]
    rcases List.mem_append.1 hx with hx | hx
    · exact (h.starting x hx).2
    · obtain ⟨d, hd, rfl⟩ := List.mem_map.1 hx
      exact (h.wokenFor_eq hd).2.2.2.1

theorem AccessInv.accessCounted (h : AccessInv s) : AccessCounted s := by
  obtain ⟨l, hl, hacc⟩ := h.counted
  refine ⟨fun hr => ⟨l, hl, ?_⟩, ?_⟩
  · have hs : s.starting = [] := by
      refine List.eq_nil_iff_forall_not_mem.2 fun e he => ?_
      have hc := (h.starting e he).1
      rcases hr.1 e with ho | ho <;> rw [hc] at ho <;> cases ho
    have he : s.ended = [] := by
      refine List.eq_nil_iff_forall_not_mem.2 fun d hd => ?_
      have hc := (h.wokenFor_eq hd).1
      rw [hr.2 d] at hc
      cases hc
    rw [hacc, hs, he]
    simp
  · have hle := (h.subperm hl).length_le
    rw [List.length_append, List.length_map] at hle
    omega

/-! ## Steps -/

/-- The scheduler goes on, and no launch begins or ends. -/
theorem AccessInv.congr (h : AccessInv s) (hctx : ∀ e ∈ s.starting, b.ctx e = s.band.ctx e)
    (hcom : b.com = s.band.com) (hgdev : b.gdev = s.band.gdev) (hcur : b.cur = s.band.cur)
    (hfl : b.inFlight = s.band.inFlight) : AccessInv { s with band := b } := by
  refine ⟨fun e he => ?_, h.startingNodup, fun d hd => ?_, h.wokenNodup, fun d e he => ?_, ?_⟩
  · show b.ctx e = .launch ∧ b.inFlight e = true
    rw [hctx e he, hfl]
    exact h.starting e he
  · obtain ⟨e, he⟩ := h.woken d hd
    refine ⟨e, ?_⟩
    unfold AccessState.Wakes at he ⊢
    rw [hcom, hgdev, hcur, hfl]
    exact he
  · have he : b.com d = .start e := he
    rw [hcom] at he
    exact h.start d e he
  · obtain ⟨l, hl, hacc⟩ := h.counted
    refine ⟨l, ⟨hl.1, fun e => ?_⟩, hacc⟩
    show e ∈ l ↔ b.inFlight e = true
    rw [hfl]
    exact hl.2 e

theorem AccessInv.setCtx {p : CtxPoint} (h : AccessInv s) (he : s.band.ctx e ≠ .launch) :
    AccessInv { s with band := s.band.setCtx e p } := by
  refine h.congr (fun x hx => Function.update_of_ne ?_ ..) rfl rfl rfl rfl
  rintro rfl
  exact he (h.starting x hx).1

/-- A context is let through. -/
theorem AccessInv.launch {overrun : Bool} (h : AccessInv s) (he : e ∉ s.starting)
    (hl : s.band.LetsThrough e) (hf : s.band.inFlight e = false)
    (hs : s.band.ctxStep e overrun = some b) :
    AccessInv { s with band := b, starting := e :: s.starting } := by
  obtain ⟨hframe, hctx, hfl, hcur, hfree⟩ := ctxStep_launch hl hs
  have hne : ∀ x, s.band.inFlight x = true → x ≠ e := by
    rintro x hx rfl
    rw [hx] at hf
    cases hf
  have hkeep : ∀ x, s.band.inFlight x = true → b.inFlight x = true := by
    intro x hx
    rw [hfl, Function.update_of_ne (hne x hx)]
    exact hx
  refine ⟨fun x hx => ?_, List.nodup_cons.2 ⟨he, h.startingNodup⟩, fun d hd => ?_, h.wokenNodup,
    fun d x hx => ?_, ?_⟩
  · rcases List.mem_cons.1 hx with rfl | hx
    · exact ⟨hctx, by rw [hfl, Function.update_self]⟩
    · obtain ⟨hx, hfx⟩ := h.starting x hx
      exact ⟨(hframe.ctx x (hne x hfx)).trans hx, hkeep x hfx⟩
  · obtain ⟨x, hcom, hgdev, hcurx, hfx, hx⟩ := h.woken d hd
    refine ⟨x, (congrFun hframe.com d).trans hcom, (congrFun hframe.gdev x).trans hgdev, ?_,
      hkeep x hfx, ?_⟩
    · -- the device of the context had no other current one
      show b.cur d = some x
      have hd : d ≠ s.band.gdev e := by
        rintro rfl
        exact hne x hfx (hfree x hcurx)
      rw [hcur, Function.update_of_ne hd]
      exact hcurx
    · exact fun hm => (List.mem_cons.1 hm).elim (hne x hfx) hx
  · exact h.start d x ((congrFun hframe.com d).symm.trans hx)
  · obtain ⟨l, hl, hacc⟩ := h.counted
    refine ⟨e :: l, hl.cons hf hfl, ?_⟩
    show s.accessed = _
    rw [hacc]
    simp only [List.length_cons]
    omega

/-- A thread is woken for the current context of its device. -/
theorem AccessInv.sync (h : AccessInv s) (hctx : s.band.ctx e = .outside)
    (hcom : s.band.com d = .idle) (hgdev : s.band.gdev e = d) (hcur : s.band.cur d = some e)
    (hf : s.band.inFlight e = true) :
    AccessInv { s with band := s.band.setCom d (.start e), ending := d :: s.ending } := by
  have hd : d ∉ s.ending ++ s.ended := by
    intro hd
    obtain ⟨x, hx, -⟩ := h.woken d hd
    rw [hcom] at hx
    cases hx
  have hstart : (s.band.setCom d (.start e)).com d = .start e := Function.update_self ..
  have hother : ∀ x, x ≠ d → (s.band.setCom d (.start e)).com x = s.band.com x := fun x hx =>
    Function.update_of_ne hx ..
  refine ⟨h.starting, h.startingNodup, fun x hx => ?_, ?_, fun x y hy => ?_, h.counted⟩
  · by_cases hxd : x = d
    · rw [hxd]
      refine ⟨e, hstart, hgdev, hcur, hf, fun he => ?_⟩
      rw [(h.starting e he).1] at hctx
      cases hctx
    · rw [List.cons_append, List.mem_cons] at hx
      obtain ⟨y, hy, hrest⟩ := h.woken x (hx.resolve_left hxd)
      exact ⟨y, (hother x hxd).trans hy, hrest⟩
  · rw [List.cons_append]
    exact List.nodup_cons.2 ⟨hd, h.wokenNodup⟩
  · rw [List.cons_append, List.mem_cons]
    by_cases hxd : x = d
    · exact Or.inl hxd
    · exact Or.inr (h.start x y ((hother x hxd).symm.trans hy))

/-- The thread of a device goes on after `gdev_access_end`. -/
theorem AccessInv.com {exhausted overrun : Bool} (h : AccessInv s) (hd : d ∉ s.ending)
    (hs : s.band.comStep d exhausted overrun = some b) :
    AccessInv { s with band := b, ended := s.ended.erase d } := by
  obtain ⟨hframe, hsame, hends⟩ := comStep_frame hs
  have hnodup := (List.nodup_append'.1 h.wokenNodup).2.1
  have hmem : ∀ x, x ∈ s.ending ++ s.ended.erase d ↔ x ∈ s.ending ++ s.ended ∧ x ≠ d := by
    intro x
    rw [List.mem_append, List.mem_append, hnodup.mem_erase_iff]
    constructor
    · rintro (hx | ⟨hx, hxs⟩)
      · exact ⟨Or.inl hx, fun he => hd (he ▸ hx)⟩
      · exact ⟨Or.inr hxs, hx⟩
    · rintro ⟨hx | hx, hxd⟩
      · exact Or.inl hx
      · exact Or.inr ⟨hxd, hx⟩
  -- only the launch of the context that the thread has been woken for may end
  have hfl : ∀ x, s.band.inFlight x = true → (∀ e, s.Wakes d e → x ≠ e) → b.inFlight x = true := by
    intro x hx hne
    by_cases hde : d ∈ s.ended
    · have hw := h.wokenFor_eq hde
      rw [hends _ hw.1 hw.2.2.1, Function.update_of_ne (hne _ hw)]
      exact hx
    · rw [hsame fun e he => (List.mem_append.1 (h.start d e he)).elim hd hde]
      exact hx
  refine ⟨fun x hx => ?_, h.startingNodup, fun x hx => ?_, ?_, fun x y hy => ?_, ?_⟩
  · obtain ⟨hc, hf⟩ := h.starting x hx
    refine ⟨(congrFun hframe.ctx x).trans hc, hfl x hf fun e hw hxe => ?_⟩
    exact hw.2.2.2.2 (hxe ▸ hx)
  · obtain ⟨hx, hxd⟩ := (hmem x).1 hx
    obtain ⟨y, hcom, hgdev, hcur, hf, hy⟩ := h.woken x hx
    refine ⟨y, (hframe.com x hxd).trans hcom, (congrFun hframe.gdev y).trans hgdev,
      (hframe.cur x hxd).trans hcur, hfl y hf fun e hw hye => hxd ?_, hy⟩
    rw [← hgdev, hye, hw.2.1]
  · exact (List.Sublist.append_left List.erase_sublist _).nodup h.wokenNodup
  · have hxd : x ≠ d := by
      rintro rfl
      exact hframe.started y hy
    exact (hmem x).2 ⟨h.start x y ((hframe.com x hxd).symm.trans hy), hxd⟩
  · obtain ⟨l, hl, hacc⟩ := h.counted
    by_cases hde : d ∈ s.ended
    · have hw := h.wokenFor_eq hde
      refine ⟨_, hl.erase (hends _ hw.1 hw.2.2.1), ?_⟩
      have hin := (hl.2 _).2 hw.2.2.2.1
      have hpos := List.length_pos_of_mem hin
      have hpos' := List.length_pos_of_mem hde
      dsimp only
      rw [hacc, List.length_erase_of_mem hin, List.length_erase_of_mem hde]
      omega
    · refine ⟨l, ⟨hl.1, fun e => ?_⟩, ?_⟩
      · rw [hl.2 e, hsame fun e he => (List.mem_append.1 (h.start d e he)).elim hd hde]
      · show s.accessed = _
        rw [hacc, List.erase_of_not_mem hde]

theorem accessStep_inv (h : AccessInv s) (hop : op.Handled s) (hs : accessStep s op = some s') :
    AccessInv s' := by
  cases op with
  | launch e | wake e =>
    obtain ⟨b, hb, rfl⟩ := Option.map_eq_some_iff.1 hs
    simp only [bandStep] at hb
    split at hb
    · rename_i hc
      rw [Option.some.injEq] at hb
      subst hb
      exact h.setCtx (by rw [hc]; simp)
    · cases hb
  | ctx e overrun =>
    simp only [accessStep] at hs
    split at hs
    · cases hs
    rename_i he
    obtain ⟨b, hb, rfl⟩ := Option.map_eq_some_iff.1 hs
    split
    · -- the entity is let through: one more on its way
      rename_i hl
      exact h.launch he (AccessState.letsThrough_iff.1 hl) (hop hl) hb
    · rename_i hl
      obtain ⟨hframe, hcur, hfl⟩ := ctxStep_frame (mt AccessState.letsThrough_iff.2 hl) hb
      refine h.congr (fun x hx => hframe.ctx x ?_) hframe.com hframe.gdev hcur hfl
      rintro rfl
      exact he hx
  | accessStart e =>
    simp only [accessStep, AccessState.accessStart] at hs
    split at hs
    swap
    · cases hs
    rename_i he
    split at hs
    · cases hs
    rw [Option.some.injEq] at hs
    subst hs
    refine ⟨fun x hx => h.starting x (List.mem_of_mem_erase hx), h.startingNodup.erase e,
      fun d hd => ?_, h.wokenNodup, h.start, ?_⟩
    · obtain ⟨x, hcom, hgdev, hcur, hf, hx⟩ := h.woken d hd
      exact ⟨x, hcom, hgdev, hcur, hf, fun hm => hx (List.mem_of_mem_erase hm)⟩
    · -- one context less on the way, one more counted
      obtain ⟨l, hl, hacc⟩ := h.counted
      have hpos := List.length_pos_of_mem he
      refine ⟨l, hl, ?_⟩
      dsimp only
      rw [hacc, List.length_erase_of_mem he]
      omega
  | sync e d =>
    simp only [accessStep, AccessState.sync] at hs
    split at hs
    swap
    · cases hs
    rename_i hc
    rw [Option.some.injEq] at hs
    subst hs
    split
    · -- without users the device is not woken
      exact h
    · rename_i hu
      obtain ⟨hgdev, hcur, hf⟩ := hop.resolve_left hu
      exact h.sync hc.1 hc.2 hgdev hcur hf
  | accessEnd d =>
    simp only [accessStep] at hs
    split at hs
    swap
    · cases hs
    rename_i hd
    rw [Option.some.injEq] at hs
    subst hs
    -- the thread goes from one list to the other
    have hperm : (s.ending.erase d ++ d :: s.ended).Perm (s.ending ++ s.ended) :=
      List.perm_middle.trans ((List.perm_cons_erase hd).symm.append_right s.ended)
    refine ⟨h.starting, h.startingNodup, fun x hx => h.woken x (hperm.mem_iff.1 hx),
      hperm.nodup_iff.2 h.wokenNodup, fun x y hy => hperm.mem_iff.2 (h.start x y hy), ?_⟩
    obtain ⟨l, hl, hacc⟩ := h.counted
    refine ⟨l, hl, ?_⟩
    show s.accessed - 1 = _
    rw [hacc]
    simp only [AccessState.accessEnd, List.length_cons]
    omega
  -- the completions and the switches of `select_next_compute`
  | com d exhausted overrun =>
    simp only [accessStep] at hs
    split at hs
    · cases hs
    rename_i hd
    obtain ⟨b, hb, rfl⟩ := Option.map_eq_some_iff.1 hs
    exact h.com hd hb

/-! ## Runs -/

theorem accessInit_inv (devices : List ℕ) (gdev users : ℕ → ℕ) :
    AccessInv (accessInit devices gdev users) where
  starting e he := by cases he
  startingNodup := List.nodup_nil
  woken d hd := by cases hd
  wokenNodup := List.nodup_nil
  start d e he := by cases he
  counted := ⟨[], ⟨List.nodup_nil, fun e => ⟨nofun, nofun⟩⟩, rfl⟩

/-- **The counter is right** in every run in which each `sync` that is handled is of the context in
flight that is current on the device, and no context in flight is let through. -/
theorem access_counted (devices : List ℕ) (gdev users : ℕ → ℕ) (ops : List AccessOp)
    (he : Each accessStep (fun s op => op.Handled s) (accessInit devices gdev users) ops) :
    Always accessStep AccessCounted (accessInit devices gdev users) ops :=
  Always.mono (fun _ h => h.accessCounted) ops _
    (Always.of_each (fun _ _ _ h hop hs => accessStep_inv h hop hs) ops _
      (accessInit_inv devices gdev users) he)

/-- Contexts 0 and 1 launch on devices 0 and 1, one after the other, and sync. -/
def launchSync : List AccessOp :=
  [.launch 0, .ctx 0 false, .ctx 0 false, .ctx 0 false, .accessStart 0, .ctx 0 false,
    .launch 1, .ctx 1 false, .ctx 1 false, .ctx 1 false,
    .sync 0 0, .accessEnd 0, .com 0 false false, .com 0 false false, .com 0 false false,
    .com 0 false false,
    .wake 1, .ctx 1 false, .ctx 1 false, .ctx 1 false, .accessStart 1, .ctx 1 false,
    .sync 1 1, .accessEnd 1, .com 1 false false, .com 1 false false, .com 1 false false]

theorem access_counted_launchSync :
    (final accessStep (accessInit [0, 1] (· % 2) fun _ => 1) launchSync).isSome = true ∧
      Always accessStep AccessCounted (accessInit [0, 1] (· % 2) fun _ => 1) launchSync :=
  ⟨by decide +kernel, access_counted [0, 1] (· % 2) (fun _ => 1) launchSync
    (Each.of_check (fun _ _ => of_decide_eq_true) (by decide +kernel))⟩

/-- A `sync` without a launch takes the counter below 0. -/
theorem access_not_counted : ¬ ∀ (devices : List ℕ) (gdev users : ℕ → ℕ) (ops : List AccessOp),
    Always accessStep AccessCounted (accessInit devices gdev users) ops := by
  intro hall
  have hlast : AccessCounted _ := (hall [0] (fun _ => 0) (fun _ => 1)
    [.sync 0 0, .accessEnd 0, .com 0 false false]).final rfl
  have hneg : (0 : ℤ) ≤ -1 := hlast.2
  omega

/-- Context 0 launches on device 0 and names device 1 in its `sync`: the counter goes to 0 while the
context is in flight. -/
example : (final accessStep (accessInit [0, 1] (· % 2) fun _ => 1)
    [.launch 0, .ctx 0 false, .ctx 0 false, .ctx 0 false, .accessStart 0, .ctx 0 false,
      .sync 0 1, .accessEnd 1, .com 1 false false]).any
    (fun s => decide (s.accessed = 0) && s.band.inFlight 0) = true := by
  decide +kernel

end Resch
