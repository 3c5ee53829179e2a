import Resch.Proof.Bitops
import Resch.Spec.Component

/-!
# Components

`api_compose` has its test of the bitmap the wrong way round: it refuses the components there
are and takes a task into one that there is not. So as long as every call is right, no call has
put a task into a list (`ComponentInv`), and a call of `api_compose` is right only when it fails
for another reason (`ComponentOp.Refused`, `componentCall_ok_iff`). `component_ok_iff` is about
runs.
-/

namespace Resch

open Lib

variable {c : Config} {s : ComponentState}

/-- `api_compose` is not called, or it has a reason to fail other than the bit of the component:
the task is in a component, the component is beyond the array and not live, or its number is
negative and the memory before the bitmap has the bit set. -/
def ComponentOp.Refused (c : Config) (s : ComponentState) : ComponentOp → Prop
  | compose rid cid => s.listEmpty (.entry rid) = false ∨
      (c.nrRtComponents ≤ cid ∧ s.live cid = false) ∨ (cid < 0 ∧ s.before cid = true)
  | create | destroy _ | decompose _ => True

/-- All lists are empty, and the bitmap has the live components. -/
structure ComponentInv (c : Config) (s : ComponentState) : Prop where
  entries : ∀ rid, s.next (.entry rid) = some (.entry rid)
  heads : ∀ cid : ℤ, 0 ≤ cid → cid < c.nrRtComponents →
    s.next (.head cid) = none ∨ s.next (.head cid) = some (.head cid)
  liveHeads : ∀ cid, s.live cid = true → s.next (.head cid) = some (.head cid)
  bits : ∀ cid, 0 ≤ cid → s.live cid = testBit cid s.cidMap
  nonneg : ∀ cid, s.live cid = true → 0 ≤ cid

theorem ComponentInv.not_linked (h : ComponentInv c s) {cid : ℤ} (h0 : 0 ≤ cid)
    (hc : cid < c.nrRtComponents) (rid : ℕ) : ¬ s.Linked cid rid := by
  -- a walk from the head never leaves it
  have hwalk : ∀ n, Relation.TransGen (fun a b => s.next a = some b) (.head cid) n →
      n = .head cid := by
    intro n hn
    induction hn with
    | single hab =>
      rcases h.heads cid h0 hc with he | he <;> rw [he] at hab <;> cases hab
      rfl
    | tail _ hbc ih =>
      rw [ih] at hbc
      rcases h.heads cid h0 hc with he | he <;> rw [he] at hbc <;> cases hbc
      rfl
  intro hl
  cases hwalk _ hl

theorem ComponentInv.membersOk (h : ComponentInv c s) : s.MembersOk c :=
  fun _ rid h0 hc hl => absurd hl (h.not_linked h0 hc rid)

theorem ComponentInv.not_inComponent (h : ComponentInv c s) (rid : ℕ) : ¬ s.InComponent c rid := by
  rintro ⟨cid, h0, hc, hl⟩
  exact h.not_linked h0 hc rid hl

/-- The list of a live component is empty. -/
theorem ComponentInv.memberList_iff (h : ComponentInv c s) {cid : ℤ} (hl : s.live cid = true)
    (l : List ℕ) : s.MemberList cid l ↔ l = [] := by
  have hhead := h.liveHeads cid hl
  cases l with
  | nil => exact ⟨fun _ => rfl, fun _ => hhead⟩
  | cons rid l =>
    refine ⟨fun hm => ?_, fun hm => by cases hm⟩
    have hn : s.next (.head cid) = some (.entry rid) := hm.1
    rw [hhead] at hn
    cases hn

/-! ## The calls -/

theorem initListHead_next (cid : ℤ) (n : ListNode) :
    (s.initListHead (.head cid)).next n = if n = .head cid then some n else s.next n := by
  show Function.update s.next (.head cid) (some (.head cid)) n = _
  rw [Function.update_apply]
  split
  · rename_i hn
    rw [hn]
  · rfl

/-- Initialising one more head does no harm while the lists are empty. -/
theorem ComponentInv.initListHead (h : ComponentInv c s) (cid : ℤ) :
    ComponentInv c (s.initListHead (.head cid)) := by
  refine ⟨fun rid => ?_, fun x h0 hc => ?_, fun x hl => ?_, h.bits, h.nonneg⟩ <;>
    rw [initListHead_next]
  · rw [if_neg (by simp)]
    exact h.entries rid
  · split
    · exact Or.inr rfl
    · exact h.heads x h0 hc
  · split
    · rfl
    · exact h.liveHeads x hl

theorem create_inv (h : ComponentInv c s) : ComponentInv c (s.apiComponentCreate c).1 ∧
    ∀ cid, s.live cid = true → (s.apiComponentCreate c).1.live cid = true := by
  unfold ComponentState.apiComponentCreate
  dsimp only
  split
  · exact ⟨h.initListHead _, fun cid hl => hl⟩
  · rename_i hn
    generalize hm : reschFfz s.cidMap (bitsToLongs 64 c.nrRtComponents) = m at hn
    have h0 : 0 ≤ m := by omega
    refine ⟨⟨fun rid => ?_, fun x hx hc => ?_, fun x hl => ?_, fun x hx => ?_, fun x hl => ?_⟩,
      fun x hl => ?_⟩
    · rw [initListHead_next, if_neg (by simp)]
      exact h.entries rid
    · rw [initListHead_next]
      split
      · exact Or.inr rfl
      · exact h.heads x hx hc
    · rw [initListHead_next]
      split
      · rfl
      · rename_i hxm
        have hne : x ≠ m := fun e => hxm (by rw [e])
        have hl : Function.update s.live m true x = true := hl
        rw [Function.update_of_ne hne] at hl
        exact h.liveHeads x hl
    · show Function.update s.live m true x = testBit x (setBit m s.cidMap)
      rw [testBit_setBit (by omega) h0, Function.update_apply, h.bits x hx]
      split <;> simp [*]
    · by_cases hxm : x = m
      · omega
      · have hl : Function.update s.live m true x = true := hl
        rw [Function.update_of_ne hxm] at hl
        exact h.nonneg x hl
    · show Function.update s.live m true x = true
      rw [Function.update_apply]
      split
      · rfl
      · exact hl

theorem destroy_inv (h : ComponentInv c s) (cid : ℤ) :
    ComponentInv c (s.apiComponentDestroy cid).1 := by
  have hlive : ∀ x, (s.apiComponentDestroy cid).1.live x = true → x ≠ cid ∧ s.live x = true := by
    intro x hx
    have hx : Function.update s.live cid false x = true := hx
    rw [Function.update_apply] at hx
    split at hx
    · cases hx
    · exact ⟨‹_›, hx⟩
  refine ⟨h.entries, h.heads, fun x hl => h.liveHeads x (hlive x hl).2, fun x hx => ?_,
    fun x hl => h.nonneg x (hlive x hl).2⟩
  show Function.update s.live cid false x = testBit x (clearBit cid s.cidMap)
  rw [Function.update_apply, h.bits x hx]
  by_cases h0 : 0 ≤ cid
  · rw [testBit_clearBit (by omega) h0]
    split <;> simp [*]
  · rw [if_neg (by omega), clearBit, if_neg h0]

theorem ComponentInv.listEmpty (h : ComponentInv c s) (rid : ℕ) :
    s.listEmpty (.entry rid) = true := by
  unfold ComponentState.listEmpty
  rw [h.entries rid]
  simp

/-- With all tasks free, `api_compose` fails for a live component and does not for another. -/
theorem compose_result (h : ComponentInv c s) (rid : ℕ) (cid : ℤ) :
    ((s.apiCompose c rid cid).2 = some resFault ↔ c.nrRtComponents ≤ cid ∨ s.cidBit cid = true) ∧
      ((s.apiCompose c rid cid).2 = some resFault → (s.apiCompose c rid cid).1 = s) := by
  have hne : some resSuccess ≠ some resFault := by decide
  unfold ComponentState.apiCompose
  rw [h.listEmpty rid]
  by_cases hc : (c.nrRtComponents : ℤ) ≤ cid
  · simp [hc]
  · by_cases hb : s.cidBit cid = true
    · simp [hb]
    · rw [if_neg hc, if_neg hb]
      cases hok : (s.listAddTail (.entry rid) (.head cid)).2 <;> simp [hc, hb, hok, hne]

theorem compose_ok_iff (h : ComponentInv c s) (rid : ℕ) (cid : ℤ) :
    ((s.apiCompose c rid cid).2 ≠ none ∧
      ((s.apiCompose c rid cid).2 = some resSuccess ↔ s.live cid = true ∧ ¬ s.InComponent c rid)) ↔
      (ComponentOp.compose rid cid).Refused c s := by
  have hfree := h.not_inComponent rid
  have hempty := h.listEmpty rid
  obtain ⟨hres, -⟩ := compose_result h rid cid
  have hrange : (s.apiCompose c rid cid).2 = none ∨ (s.apiCompose c rid cid).2 = some resSuccess ∨
      (s.apiCompose c rid cid).2 = some resFault := by
    unfold ComponentState.apiCompose
    split
    · exact Or.inr (Or.inr rfl)
    · split
      · exact Or.inr (Or.inr rfl)
      · split
        · exact Or.inr (Or.inr rfl)
        · dsimp only
          split
          · exact Or.inr (Or.inl rfl)
          · exact Or.inl rfl
  have hne : some resFault ≠ some resSuccess := by decide
  -- the bit is set exactly for live components, and for negative numbers as it happens
  have hbit : s.cidBit cid = true ↔ s.live cid = true ∨ (cid < 0 ∧ s.before cid = true) := by
    unfold ComponentState.cidBit
    split
    · rename_i h0
      rw [← h.bits cid h0]
      exact ⟨Or.inl, fun h => h.elim id fun h => by omega⟩
    · rename_i h0
      have hnl : ¬ s.live cid = true := fun hl => h0 (h.nonneg cid hl)
      exact ⟨fun hb => Or.inr ⟨by omega, hb⟩, fun h => h.elim (fun hl => absurd hl hnl) fun h => h.2⟩
  have hrefused : (ComponentOp.compose rid cid).Refused c s ↔
      (c.nrRtComponents ≤ cid ∧ s.live cid = false) ∨ (cid < 0 ∧ s.before cid = true) := by
    unfold ComponentOp.Refused
    simp [hempty]
  rw [hrefused]
  constructor
  · rintro ⟨hsome, hiff⟩
    rcases hrange with hr | hr | hr
    · exact absurd hr hsome
    · -- it succeeds for a component that is not live
      have hl := (hiff.1 hr).1
      have hf := hres.2 (Or.inr (hbit.2 (Or.inl hl)))
      rw [hr] at hf
      exact absurd hf.symm hne
    · have hl : ¬ s.live cid = true := by
        intro hl
        have hs := hiff.2 ⟨hl, hfree⟩
        rw [hr] at hs
        exact hne hs
      rcases hres.1 hr with hc | hb
      · exact Or.inl ⟨hc, by simpa using hl⟩
      · exact Or.inr ((hbit.1 hb).resolve_left hl)
  · intro hr
    rcases hr with ⟨hc, hl⟩ | hb
    · have hf := hres.2 (Or.inl hc)
      rw [hf, hl]
      simp [hne]
    · have hf := hres.2 (Or.inr (hbit.2 (Or.inr hb)))
      have hnl : ¬ s.live cid = true := fun hl => by
        have := h.nonneg cid hl
        omega
      rw [hf]
      simp [hne, hnl]

/-- One call: it is right iff it is refused if it is `api_compose`, and then all lists are still
empty. -/
theorem componentCall_ok_iff (h : ComponentInv c s) (op : ComponentOp) :
    (ComponentCallOk c s op ↔ op.Refused c s) ∧
      (op.Refused c s → ComponentInv c (op.exec c s).1) := by
  cases op with
  | create =>
    obtain ⟨hinv, hlive⟩ := create_inv h
    refine ⟨⟨fun _ => trivial, fun _ => ⟨fun rid cid e => ?_, fun _ cid l hl hm => ?_,
      hinv.membersOk⟩⟩, fun _ => hinv⟩
    · cases e
    · exact (hinv.memberList_iff (hlive cid hl) l).2 ((h.memberList_iff hl l).1 hm)
  | destroy cid =>
    have hinv := destroy_inv h cid
    refine ⟨⟨fun _ => trivial, fun _ => ⟨fun rid cid e => ?_, fun e => ?_, hinv.membersOk⟩⟩,
      fun _ => hinv⟩ <;> cases e
  | compose rid cid =>
    have hok := compose_ok_iff h rid cid
    have hinv : (ComponentOp.compose rid cid).Refused c s →
        ComponentInv c ((ComponentOp.compose rid cid).exec c s).1 := by
      intro hr
      -- a refused call returns before it writes anything
      have hf : (s.apiCompose c rid cid).2 = some resFault := by
        obtain ⟨hsome, hiff⟩ := hok.2 hr
        by_contra hf
        have hb := fun hb => hf ((compose_result h rid cid).1.2 hb)
        rcases hr with hr | ⟨hc, -⟩ | ⟨hn, hbefore⟩
        · rw [h.listEmpty rid] at hr
          cases hr
        · exact hb (Or.inl hc)
        · refine hb (Or.inr ?_)
          rw [ComponentState.cidBit, if_neg (by omega)]
          exact hbefore
      have hs := (compose_result h rid cid).2 hf
      show ComponentInv c (s.apiCompose c rid cid).1
      rw [hs]
      exact h
    refine ⟨⟨fun hcall => hok.1 (hcall.compose rid cid rfl), fun hr => ⟨fun rid' cid' e => ?_,
      fun e => ?_, (hinv hr).membersOk⟩⟩, hinv⟩
    · cases e
      exact hok.2 hr
    · cases e
  | decompose rid =>
    have hs : (ComponentOp.decompose rid).exec c s = (s, some resFault) := by
      show s.apiDecompose rid = _
      rw [ComponentState.apiDecompose, if_pos (h.listEmpty rid)]
    have hinv : ComponentInv c ((ComponentOp.decompose rid).exec c s).1 := by rw [hs]; exact h
    refine ⟨⟨fun _ => trivial, fun _ => ⟨fun rid cid e => ?_, fun e => ?_, hinv.membersOk⟩⟩,
      fun _ => hinv⟩ <;> cases e

/-! ## Runs -/

variable (c) (before : ℤ → Bool) (stray : ℤ → Option ListNode × Option ListNode)

theorem componentInit_inv : ComponentInv c (componentInit c before stray) := by
  have hdead : ∀ cid, (componentInit c before stray).live cid ≠ true := fun cid hl => by cases hl
  refine ⟨fun rid => rfl, fun cid h0 hc => Or.inl ?_, fun cid hl => absurd hl (hdead cid),
    fun cid h0 => ?_, fun cid hl => absurd hl (hdead cid)⟩
  · show (if 0 ≤ cid ∧ cid < c.nrRtComponents then none else (stray cid).1) = none
    rw [if_pos ⟨h0, hc⟩]
  · show false = testBit cid (fun _ => 0)
    simp [testBit]

/-- **Components in runs.** From the loaded module on, every call of a run is right iff none of
them is an `api_compose` that could only fail because of the bit of its component. -/
theorem component_ok_iff (ops : List ComponentOp) :
    Each (componentStep c) (ComponentCallOk c) (componentInit c before stray) ops ↔
      Each (componentStep c) (fun s op => op.Refused c s) (componentInit c before stray) ops := by
  have hinv := componentInit_inv c before stray
  constructor
  · refine Each.of_inv (I := ComponentInv c) (fun s op s' hi hok hs => ?_) ops _ hinv
    cases hs
    obtain ⟨hiff, hkeep⟩ := componentCall_ok_iff hi op
    exact ⟨hkeep (hiff.1 hok), hiff.1 hok⟩
  · refine Each.of_inv (I := ComponentInv c) (fun s op s' hi hr hs => ?_) ops _ hinv
    cases hs
    obtain ⟨hiff, hkeep⟩ := componentCall_ok_iff hi op
    exact ⟨hkeep hr, hiff.2 hr⟩

/-- A component is created, which gets id 0, and task 0 is to be composed into it. -/
def composeFirst : List ComponentOp := [.create, .compose 0 0]

theorem component_not_ok : ¬ ∀ (c : Config) (before : ℤ → Bool)
    (stray : ℤ → Option ListNode × Option ListNode) (ops : List ComponentOp),
    Each (componentStep c) (ComponentCallOk c) (componentInit c before stray) ops := by
  intro hall
  have he := hall { Config.small false with nrRtComponents := 8 } (fun _ => false)
    (fun _ => (none, none)) composeFirst
  obtain ⟨-, he⟩ := he _ rfl
  obtain ⟨hok, -⟩ := he _ rfl
  obtain ⟨-, hiff⟩ := hok.compose 0 0 rfl
  have hs := hiff.2 ⟨by decide +kernel, (create_inv (componentInit_inv ..)).1.not_inComponent 0⟩
  revert hs
  decide +kernel

end Resch
