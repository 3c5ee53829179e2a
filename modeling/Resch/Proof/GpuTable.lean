import Resch.Lib.Runs
import Resch.Proof.Bitops
import Resch.Spec.GpuTable
import Mathlib.Data.List.Nodup
import Mathlib.Data.List.Perm.Subperm

/-!
# Context ids

`ContextsOk` says that the open contexts have distinct ids, that the table holds their
entities and nothing else, and that the bitmap marks their ids and nothing else. Creating
and closing a context keep it (`create_ok`, `close_ok`); giving a context another id never
does (`setcid_ok_iff`), because `gsched_setcid` uses the ids as bit numbers where the other
two are one below. `gpuStep_ok_iff` carries this over to runs.
-/

namespace Resch

open Lib

variable {s s' : GpuTable} {h devId vdevId p new : ℕ}

structure ContextsOk (s : GpuTable) : Prop where
  distinct : ∀ h ∈ s.handles, ∀ h' ∈ s.handles, (s.handle h).cid = (s.handle h').cid → h = h'
  table : ∀ c p, s.schedEntityPtr c = some p ↔
    ∃ h ∈ s.handles, (s.handle h).cid = c ∧ s.owned h = p
  bits : ∀ c : ℕ, testBit c s.cidBitmap = true ↔ ∃ h ∈ s.handles, (s.handle h).cid = c + 1

/-- The ids are those the table has room for. -/
structure ContextsInv (s : GpuTable) : Prop where
  nodup : s.handles.Nodup
  room : ∀ h ∈ s.handles, 1 ≤ (s.handle h).cid ∧ (s.handle h).cid < gdevContextMaxCount

/-- The call does not give a context another id. -/
def GpuOp.KeepsCid (s : GpuTable) : GpuOp → Prop
  | setcid h new => (s.handle h).cid = new
  | create _ _ _ _ | close _ => True

/-! ## Creating a context -/

/-- With fewer than 99 contexts open, one of the first 99 bits is clear. -/
theorem exists_clear_bit (ho : ContextsOk s) (hlen : s.handles.length < gdevContextMaxCount - 1) :
    ∃ j < gdevContextMaxCount - 1, testBit (j : ℤ) s.cidBitmap = false := by
  by_contra hno
  have hset : ∀ j < gdevContextMaxCount - 1, testBit (j : ℤ) s.cidBitmap = true := by
    intro j hj
    by_contra hb
    exact hno ⟨j, hj, by simpa using hb⟩
  have hsub : List.range (gdevContextMaxCount - 1) ⊆
      s.handles.map fun h => (s.handle h).cid - 1 := by
    intro j hj
    obtain ⟨h, hh, hc⟩ := (ho.bits j).1 (hset j (List.mem_range.1 hj))
    exact List.mem_map.2 ⟨h, hh, by omega⟩
  have hle := (List.nodup_range.subperm hsub).length_le
  rw [List.length_range, List.length_map] at hle
  omega

/-- The bit that `gsched_ctxcreate` finds. -/
theorem reschFfz_room (ho : ContextsOk s) (hlen : s.handles.length < gdevContextMaxCount - 1) :
    ∃ m : ℕ, reschFfz s.cidBitmap cidMapLong = m ∧ m < gdevContextMaxCount - 1 ∧
      testBit (m : ℤ) s.cidBitmap = false := by
  obtain ⟨j, hj, hclear⟩ := exists_clear_bit ho hlen
  have hspec := reschFfz_spec s.cidBitmap cidMapLong
  unfold gdevContextMaxCount at hj ⊢
  by_cases hneg : reschFfz s.cidBitmap cidMapLong < 0
  · have := hspec.of_neg hneg j (by unfold cidMapLong; omega)
    simp [hclear] at this
  · obtain ⟨m, hm, -, hbit, hleast⟩ := hspec.of_nonneg hneg
    refine ⟨m, hm, ?_, by simpa using hbit⟩
    by_contra hge
    have := hleast j (by omega)
    simp [hclear] at this

theorem create_ok (devId vdevId p : ℕ) (hi : ContextsInv s) (ho : ContextsOk s)
    (hh : h ∉ s.handles) (hlen : s.handles.length < gdevContextMaxCount - 1) :
    ContextsOk (s.gschedCtxcreate h devId vdevId p) ∧
      ContextsInv (s.gschedCtxcreate h devId vdevId p) := by
  obtain ⟨m, hm, hroom, hclear⟩ := reschFfz_room ho hlen
  unfold gdevContextMaxCount at hroom
  have hbit : (reschFfz s.cidBitmap cidMapLong % 2 ^ 32).toNat = m := by rw [hm]; omega
  have hcid : (m + 1) % 2 ^ 32 = m + 1 := by omega
  -- the fields of the new state
  set s' := s.gschedCtxcreate h devId vdevId p with hs'
  have hhandles : s'.handles = h :: s.handles := rfl
  have hself : (s'.handle h).cid = m + 1 := by
    rw [hs', GpuTable.gschedCtxcreate]
    show (Function.update s.handle h _ h).cid = m + 1
    rw [Function.update_self]
    show ((reschFfz s.cidBitmap cidMapLong % 2 ^ 32).toNat + 1) % 2 ^ 32 = m + 1
    rw [hbit, hcid]
  have hother : ∀ h' ∈ s.handles, s'.handle h' = s.handle h' ∧ s'.owned h' = s.owned h' := by
    intro h' hh'
    have hne : h' ≠ h := fun e => hh (e ▸ hh')
    exact ⟨Function.update_of_ne hne .., Function.update_of_ne hne ..⟩
  have howned : s'.owned h = p := Function.update_self ..
  have hptr : s'.schedEntityPtr = Function.update s.schedEntityPtr (m + 1) (some p) := by
    show Function.update s.schedEntityPtr
      (((reschFfz s.cidBitmap cidMapLong % 2 ^ 32).toNat + 1) % 2 ^ 32) _ = _
    rw [hbit, hcid]
  have hmap : s'.cidBitmap = setBit m s.cidBitmap := by
    show setBit ((reschFfz s.cidBitmap cidMapLong % 2 ^ 32).toNat : ℤ) s.cidBitmap = _
    rw [hbit]
  have hnew : ∀ h' ∈ s.handles, (s.handle h').cid ≠ m + 1 := by
    intro h' hh' hc
    rw [(ho.bits m).2 ⟨h', hh', hc⟩] at hclear
    cases hclear
  refine ⟨⟨?_, ?_, ?_⟩, ?_, ?_⟩
  · rw [hhandles]
    intro h₁ h₁m h₂ h₂m he
    rcases List.mem_cons.1 h₁m with e₁ | h₁old <;> rcases List.mem_cons.1 h₂m with e₂ | h₂old
    · rw [e₁, e₂]
    · rw [e₁, hself, (hother _ h₂old).1] at he
      exact absurd he.symm (hnew _ h₂old)
    · rw [e₂, hself, (hother _ h₁old).1] at he
      exact absurd he (hnew _ h₁old)
    · rw [(hother _ h₁old).1, (hother _ h₂old).1] at he
      exact ho.distinct _ h₁old _ h₂old he
  · intro c q
    rw [hhandles, List.exists_mem_cons_iff, hself, howned, hptr]
    have hold : (∃ h' ∈ s.handles, (s'.handle h').cid = c ∧ s'.owned h' = q) ↔
        s.schedEntityPtr c = some q := by
      rw [ho.table]
      refine exists_congr fun h' => and_congr_right fun hh' => ?_
      rw [(hother h' hh').1, (hother h' hh').2]
    rw [hold]
    by_cases hc : c = m + 1
    · subst hc
      rw [Function.update_self, Option.some.injEq]
      refine ⟨fun e => Or.inl ⟨rfl, e⟩, fun e => ?_⟩
      rcases e with ⟨-, e⟩ | e
      · exact e
      · obtain ⟨h', hh', hc', -⟩ := (ho.table _ _).1 e
        exact absurd hc' (hnew h' hh')
    · rw [Function.update_of_ne hc]
      refine ⟨Or.inr, fun e => ?_⟩
      rcases e with ⟨e, -⟩ | e
      · exact absurd e.symm hc
      · exact e
  · intro c
    rw [hhandles, List.exists_mem_cons_iff, hself, hmap, testBit_setBit (by omega) (by omega)]
    have hold : (∃ h' ∈ s.handles, (s'.handle h').cid = c + 1) ↔
        testBit (c : ℤ) s.cidBitmap = true := by
      rw [ho.bits]
      refine exists_congr fun h' => and_congr_right fun hh' => ?_
      rw [(hother h' hh').1]
    rw [hold, Bool.or_eq_true, decide_eq_true_iff]
    refine or_congr_left ?_
    omega
  · rw [hhandles]
    exact List.nodup_cons.2 ⟨hh, hi.nodup⟩
  · rw [hhandles]
    intro h' hh'
    unfold gdevContextMaxCount
    rcases List.mem_cons.1 hh' with e | hold
    · rw [e, hself]
      omega
    · rw [(hother h' hold).1]
      exact hi.room h' hold

/-! ## Closing a context -/

theorem close_ok (hi : ContextsInv s) (ho : ContextsOk s) (hh : h ∈ s.handles)
    (hs : s.gschedClose h = some s') : ContextsOk s' ∧ ContextsInv s' := by
  unfold GpuTable.gschedClose at hs
  dsimp only at hs
  obtain ⟨hpos, -⟩ := hi.room h hh
  split at hs
  · cases hs
  split at hs
  · cases hs
  rw [Option.some.injEq] at hs
  have hhandles : s'.handles = s.handles.erase h := by rw [← hs]; rfl
  have hhandle : s'.handle = s.handle := by rw [← hs]; rfl
  have howned : s'.owned = s.owned := by rw [← hs]; rfl
  have hptr : s'.schedEntityPtr = Function.update s.schedEntityPtr (s.handle h).cid none := by
    rw [← hs]; rfl
  have hmap : s'.cidBitmap = clearBit (((s.handle h).cid : ℤ) - 1) s.cidBitmap := by
    rw [← hs]; rfl
  have hmem : ∀ h', h' ∈ s.handles.erase h ↔ h' ≠ h ∧ h' ∈ s.handles := fun h' =>
    hi.nodup.mem_erase_iff
  have hne : ∀ h' ∈ s.handles, h' ≠ h ↔ (s.handle h').cid ≠ (s.handle h).cid := by
    intro h' hh'
    exact not_congr ⟨fun e => by rw [e], fun e => ho.distinct h' hh' h hh e⟩
  refine ⟨⟨?_, ?_, ?_⟩, ?_, ?_⟩
  · rw [hhandles, hhandle]
    intro h₁ h₁m h₂ h₂m he
    exact ho.distinct h₁ ((hmem h₁).1 h₁m).2 h₂ ((hmem h₂).1 h₂m).2 he
  · intro c q
    rw [hhandles, hhandle, howned, hptr]
    by_cases hc : c = (s.handle h).cid
    · subst hc
      rw [Function.update_self]
      constructor
      · intro e
        cases e
      rintro ⟨h', hh', he, -⟩
      obtain ⟨hne', hh'⟩ := (hmem h').1 hh'
      exact absurd he ((hne h' hh').1 hne')
    · rw [Function.update_of_ne hc, ho.table]
      constructor
      · rintro ⟨h', hh', rfl, hq⟩
        exact ⟨h', (hmem h').2 ⟨(hne h' hh').2 hc, hh'⟩, rfl, hq⟩
      · rintro ⟨h', hh', he⟩
        exact ⟨h', ((hmem h').1 hh').2, he⟩
  · intro c
    rw [hhandles, hhandle, hmap, testBit_clearBit (by omega) (by omega), Bool.and_eq_true, ho.bits,
      Bool.not_eq_true', decide_eq_false_iff_not]
    constructor
    · rintro ⟨hc, h', hh', he⟩
      exact ⟨h', (hmem h').2 ⟨(hne h' hh').2 (by omega), hh'⟩, he⟩
    · rintro ⟨h', hh', he⟩
      obtain ⟨hne', hh'⟩ := (hmem h').1 hh'
      have := (hne h' hh').1 hne'
      exact ⟨by omega, h', hh', he⟩
  · rw [hhandles]
    exact hi.nodup.erase h
  · rw [hhandles, hhandle]
    intro h' hh'
    exact hi.room h' ((hmem h').1 hh').2

/-! ## Giving a context another id -/

/-- The two branches of `gsched_setcid`. -/
theorem setcid_eq : s.gschedSetcid h new =
    if (s.handle h).cid = new then
      { s with handle := Function.update s.handle h { s.handle h with setcid := new } }
    else
      { s with
        schedEntityPtr := Function.update
          (Function.update s.schedEntityPtr new (s.schedEntityPtr (s.handle h).cid))
          (s.handle h).cid none
        cidBitmap := setBit new (clearBit (s.handle h).cid s.cidBitmap)
        handle := Function.update s.handle h { s.handle h with cid := new, setcid := new } } := by
  unfold GpuTable.gschedSetcid
  simp only [Function.update_self, Function.update_idem, ne_eq, ite_not]

theorem setcid_cid (h' : ℕ) : ((s.gschedSetcid h new).handle h').cid =
    if h' = h then new else (s.handle h').cid := by
  rw [setcid_eq]
  by_cases hh : h' = h
  · subst hh
    rw [if_pos rfl]
    split
    · rename_i hc
      show (Function.update s.handle h' _ h').cid = new
      rw [Function.update_self]
      exact hc
    · show (Function.update s.handle h' _ h').cid = new
      rw [Function.update_self]
  · rw [if_neg hh]
    split <;> exact congrArg RtxGhandle.cid (Function.update_of_ne hh ..)

theorem setcid_handles : (s.gschedSetcid h new).handles = s.handles := by
  rw [setcid_eq]
  split <;> rfl

theorem setcid_inv (hi : ContextsInv s) (hpos : 1 ≤ new) (hlt : new < gdevContextMaxCount) :
    ContextsInv (s.gschedSetcid h new) := by
  refine ⟨by rw [setcid_handles]; exact hi.nodup, ?_⟩
  rw [setcid_handles]
  intro h' hh'
  rw [setcid_cid]
  split
  · exact ⟨hpos, hlt⟩
  · exact hi.room h' hh'

/-- The bit of the old id stays set when the id changes. -/
theorem setcid_bit (hi : ContextsInv s) (ho : ContextsOk s) (hh : h ∈ s.handles)
    (hc : (s.handle h).cid ≠ new) :
    testBit (((s.handle h).cid - 1 : ℕ) : ℤ) (s.gschedSetcid h new).cidBitmap = true := by
  have hpos := (hi.room h hh).1
  have hmap : (s.gschedSetcid h new).cidBitmap =
      setBit new (clearBit (s.handle h).cid s.cidBitmap) := by rw [setcid_eq, if_neg hc]
  have hold : testBit (((s.handle h).cid - 1 : ℕ) : ℤ) s.cidBitmap = true :=
    (ho.bits _).2 ⟨h, hh, by omega⟩
  rw [hmap, testBit_setBit (by omega) (by omega), testBit_clearBit (by omega) (by omega), hold]
  have hne : (((s.handle h).cid - 1 : ℕ) : ℤ) ≠ (s.handle h).cid := by omega
  rw [decide_eq_false hne]
  simp

theorem setcid_ok_iff (hi : ContextsInv s) (ho : ContextsOk s) (hh : h ∈ s.handles) :
    ContextsOk (s.gschedSetcid h new) ↔ (s.handle h).cid = new := by
  constructor
  · intro ho'
    by_contra hc
    have hpos := (hi.room h hh).1
    obtain ⟨h', hh', he⟩ := (ho'.bits _).1 (setcid_bit hi ho hh hc)
    rw [setcid_handles] at hh'
    rw [setcid_cid] at he
    split at he
    · omega
    · rename_i hne
      exact hne (ho.distinct h' hh' h hh (by omega))
  · intro hc
    have hcid : ∀ h', ((s.gschedSetcid h new).handle h').cid = (s.handle h').cid := by
      intro h'
      rw [setcid_cid]
      split
      · rename_i e
        rw [e, hc]
      · rfl
    obtain ⟨hd, ht, hb⟩ := ho
    refine ⟨?_, ?_, ?_⟩ <;> simp only [hcid] <;> rw [setcid_eq, if_pos hc]
    · exact hd
    · exact ht
    · exact hb

/-! ## Runs -/

theorem gpuStep_cases (op : GpuOp) (hs : gpuStep s op = some s') :
    op.enabled s = true ∧ op.exec s = some s' := by
  unfold gpuStep at hs
  split at hs
  · exact ⟨‹_›, hs⟩
  · cases hs

theorem gpuStep_ok_iff' (hi : ContextsInv s) (ho : ContextsOk s) (op : GpuOp)
    (hs : gpuStep s op = some s') : ContextsInv s' ∧ (ContextsOk s' ↔ op.KeepsCid s) := by
  obtain ⟨he, hx⟩ := gpuStep_cases op hs
  cases op with
  | create h devId vdevId p =>
    simp only [GpuOp.enabled, Bool.and_eq_true, decide_eq_true_iff] at he
    rw [GpuOp.exec, Option.some.injEq] at hx
    subst hx
    obtain ⟨hok, hinv⟩ := create_ok devId vdevId p hi ho he.1.1 he.1.2.2
    exact ⟨hinv, fun _ => trivial, fun _ => hok⟩
  | setcid h new =>
    simp only [GpuOp.enabled, decide_eq_true_iff] at he
    rw [GpuOp.exec, Option.some.injEq] at hx
    subst hx
    exact ⟨setcid_inv hi he.2.1 he.2.2.1, setcid_ok_iff hi ho he.1⟩
  | close h =>
    simp only [GpuOp.enabled, decide_eq_true_iff] at he
    obtain ⟨hok, hinv⟩ := close_ok hi ho he hx
    exact ⟨hinv, fun _ => trivial, fun _ => hok⟩

theorem gschedInit_ok (parent : ℕ → Option ℕ) (handle : ℕ → RtxGhandle) :
    ContextsOk (gschedInit parent handle) := by
  have hnone : ∀ h, h ∉ (gschedInit parent handle).handles := fun h => List.not_mem_nil
  refine ⟨fun h hh => absurd hh (hnone h), fun c p => ?_, fun c => ?_⟩
  · constructor
    · intro e
      cases e
    · rintro ⟨h, hh, -⟩
      exact absurd hh (hnone h)
  · constructor
    · intro e
      simp [gschedInit] at e
    · rintro ⟨h, hh, -⟩
      exact absurd hh (hnone h)

/-- **The context table in runs.** From the loaded module on, the open contexts have distinct
ids that the table and the bitmap agree with, in every state of a run, iff no call gives a
context another id. -/
theorem gpuStep_ok_iff (parent : ℕ → Option ℕ) (handle : ℕ → RtxGhandle) (ops : List GpuOp) :
    Always gpuStep ContextsOk (gschedInit parent handle) ops ↔
      Each gpuStep (fun s op => op.KeepsCid s) (gschedInit parent handle) ops := by
  have hi : ContextsInv (gschedInit parent handle) :=
    ⟨List.nodup_nil, fun h hh => by cases hh⟩
  refine always_iff_each (fun s op s' hi ho hs _ => ?_) (fun s op s' hi ho hs => ?_) ops _ hi
    (gschedInit_ok parent handle)
  · exact (gpuStep_ok_iff' hi ho op hs).1
  · exact (gpuStep_ok_iff' hi ho op hs).2

/-- A context is created and given id 2, and a second one created: it gets id 2 as well. -/
def sameCid : List GpuOp := [.create 0 0 0 10, .setcid 0 2, .create 1 0 0 11]

theorem gpuStep_not_ok : ¬ ∀ (parent : ℕ → Option ℕ) (handle : ℕ → RtxGhandle) (ops : List GpuOp),
    Always gpuStep ContextsOk (gschedInit parent handle) ops := by
  intro hall
  obtain ⟨s, hok, ht⟩ := (hall (fun _ => some 0) (fun _ => ⟨0, 0, 0, 0⟩) sameCid).final_test
    (fun s => decide (0 ∈ s.handles ∧ 1 ∈ s.handles ∧ (s.handle 0).cid = 2 ∧ (s.handle 1).cid = 2))
    (by decide +kernel)
  obtain ⟨h0, h1, hc0, hc1⟩ := of_decide_eq_true ht
  exact absurd (hok.distinct 0 h0 1 h1 (hc0.trans hc1.symm)) (by omega)

end Resch
