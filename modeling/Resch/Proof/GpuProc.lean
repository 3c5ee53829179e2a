import Resch.Spec.GpuProc

/-!
# The values in `/proc` stay valid

The value to fall back to is read before `proc_sem` is taken, so it can be one that another
writer has stored and not yet checked.

* `procStep_inv`: every step keeps `ProcInv`, and the values stay valid if a value is only
  replaced by a valid one (`ProcOp.Restores`).
* `proc_valid`: the values of all runs of such steps, and of no other runs that come to rest.
-/

namespace Resch

open Lib

variable {s s' : ProcState} {w vd : ℕ} {file : UtilFile} {op : ProcOp}
  {init : ℕ → UtilFile → UInt32}

/-! ## Values -/

theorem val_setVal {v : UInt32} (i : ℕ) (f : UtilFile) :
    (s.setVal vd file v).val i f = if i = vd ∧ f = file then v else s.val i f := by
  unfold ProcState.setVal
  by_cases hi : i = vd
  · subst hi
    by_cases hf : f = file
    · simp [hf]
    · simp [hf]
  · simp [hi]

/-- A value is the initial one, or one that has been written to the file. -/
def ProcState.Known (init : ℕ → UtilFile → UInt32) (s : ProcState) (vd : ℕ) (file : UtilFile)
    (v : UInt32) : Prop :=
  v = init vd file ∨ v ∈ s.written vd file

/-- The old value that a writer has read -/
def UtilPoint.old : UtilPoint → Option (ℕ × UtilFile × UInt32)
  | idle | sizes _ => none
  | down vd file old | store vd file old | check vd file old => some (vd, file, old)

/-- The writer has `proc_sem`. -/
def UtilPoint.Inside : UtilPoint → Prop
  | idle | down _ _ _ => False
  | store _ _ _ | check _ _ _ | sizes _ => True

/-- The value of the file has been stored and not yet checked. -/
def ProcState.Unchecked (s : ProcState) (vd : ℕ) (file : UtilFile) : Prop :=
  ∃ w old, s.point w = .check vd file old

/-- The loop has yet to come to the device. -/
def ProcState.Unsized (s : ProcState) (vd : ℕ) : Prop :=
  (∃ file, s.Unchecked vd file) ∨ ∃ w i, s.point w = .sizes i ∧ i ≤ vd

/-- The sizes of a device are those of its share. -/
def ProcState.Sized (s : ProcState) (vd : ℕ) : Prop :=
  ∀ phys, s.parent vd = some phys →
    s.memSize vd = sizeOfShare (s.physMemSize phys) (s.val vd .memSh) ∧
      s.dmaMemSize vd = sizeOfShare (s.physDmaMemSize phys) (s.val vd .memSh)

/-- **What holds of `/proc`** whenever the semaphore is free. -/
def ProcValid (init : ℕ → UtilFile → UInt32) (s : ProcState) : Prop :=
  s.holder = none → ∀ vd < s.vcount,
    (∀ file, s.val vd file ≤ 100 ∧ s.Known init vd file (s.val vd file)) ∧ s.Sized vd

/-- A value found to be above 100 is replaced by one that is not. -/
def ProcOp.Restores (s : ProcState) : ProcOp → Prop
  | check w =>
    match s.point w with
    | .check vd file old => 100 < s.val vd file → old ≤ 100
    | _ => True
  | write _ _ _ | down _ | store _ _ | resize _ | up _ => True

/-- Without the bound: who is inside, where the values come from, which sizes are right. -/
structure ProcInv (init : ℕ → UtilFile → UInt32) (s : ProcState) : Prop where
  inside : ∀ w, (s.point w).Inside ↔ s.holder = some w
  device : ∀ w vd file old, (s.point w).old = some (vd, file, old) → vd < s.vcount
  old : ∀ w vd file old, (s.point w).old = some (vd, file, old) → s.Known init vd file old
  known : ∀ vd file, s.Known init vd file (s.val vd file)
  sized : ∀ vd < s.vcount, s.Sized vd ∨ s.Unsized vd

/-- The values are valid but for one that has yet to be checked. -/
def ProcState.Bounded (s : ProcState) : Prop :=
  ∀ vd < s.vcount, ∀ file, s.val vd file ≤ 100 ∨ s.Unchecked vd file

theorem ProcInv.outside (h : ProcInv init s) (hh : s.holder = none) (w : ℕ) : ¬ (s.point w).Inside := by
  intro hi
  rw [(h.inside w).1 hi] at hh
  cases hh

theorem ProcInv.valid (h : ProcInv init s) (hb : s.Bounded) : ProcValid init s := by
  intro hh vd hvd
  have hun : ∀ vd file, ¬ s.Unchecked vd file := by
    rintro vd file ⟨w, old, hw⟩
    refine h.outside hh w ?_
    rw [hw]
    trivial
  refine ⟨fun file => ⟨(hb vd hvd file).resolve_right (hun vd file), h.known vd file⟩, ?_⟩
  refine (h.sized vd hvd).resolve_right ?_
  rintro (⟨file, hu⟩ | ⟨w, i, hw, -⟩)
  · exact hun vd file hu
  · refine h.outside hh w ?_
    rw [hw]
    trivial

/-- One writer is inside. -/
theorem ProcInv.unique (h : ProcInv init s) {w' : ℕ} (hw : (s.point w).Inside)
    (hw' : (s.point w').Inside) : w' = w := by
  have h₁ := (h.inside w).1 hw
  rw [(h.inside w').1 hw', Option.some.injEq] at h₁
  exact h₁

theorem ProcInv.not_unchecked (h : ProcInv init s) (hw : (s.point w).Inside)
    (hc : ∀ old, s.point w ≠ .check vd file old) : ¬ s.Unchecked vd file := by
  rintro ⟨w', old, hw'⟩
  have hin : (s.point w').Inside := by
    rw [hw']
    trivial
  rw [h.unique hw hin] at hw'
  exact hc old hw'

/-- A device is sized unless the writer inside has yet to come to it. -/
theorem ProcInv.sized_of (h : ProcInv init s) (hw : (s.point w).Inside) (hvd : vd < s.vcount)
    (hc : ∀ file old, s.point w ≠ .check vd file old) (hi : ∀ i, s.point w = .sizes i → vd < i) :
    s.Sized vd := by
  refine (h.sized vd hvd).resolve_right ?_
  rintro (⟨file, hu⟩ | ⟨w', i, hw', hle⟩)
  · exact h.not_unchecked hw (hc file) hu
  · have hin : (s.point w').Inside := by
      rw [hw']
      trivial
    rw [h.unique hw hin] at hw'
    exact absurd (hi i hw') (by omega)

theorem point_setPoint {p : UtilPoint} (w' : ℕ) :
    (s.setPoint w p).point w' = if w' = w then p else s.point w' :=
  Function.update_apply ..

/-- The writers inside when one of them goes on. -/
theorem inside_update {p : UtilPoint} (h : ProcInv init s) (hp : p.Inside ↔ (s.point w).Inside)
    (hpoint : s'.point = Function.update s.point w p) (hh : s'.holder = s.holder) (w' : ℕ) :
    (s'.point w').Inside ↔ s'.holder = some w' := by
  rw [hpoint, hh, Function.update_apply]
  split
  · next he =>
    rw [he, hp]
    exact h.inside w
  · exact h.inside w'

/-- The old values when a writer goes on with the one it has, or has just read one. -/
theorem old_update {p : UtilPoint} (hpoint : s'.point = Function.update s.point w p)
    {P : ℕ → UtilFile → UInt32 → Prop}
    (hold : ∀ w vd file old, (s.point w).old = some (vd, file, old) → P vd file old)
    (hp : ∀ vd file old, p.old = some (vd, file, old) → P vd file old) (w' : ℕ) (vd : ℕ)
    (file : UtilFile) (old : UInt32) (ho : (s'.point w').old = some (vd, file, old)) :
    P vd file old := by
  rw [hpoint, Function.update_apply] at ho
  split at ho
  · exact hp vd file old ho
  · exact hold w' vd file old ho

theorem ProcState.Sized.congr (h : s.Sized vd) (hval : s'.val vd .memSh = s.val vd .memSh)
    (hparent : s'.parent = s.parent) (hphys : s'.physMemSize = s.physMemSize)
    (hdma : s'.physDmaMemSize = s.physDmaMemSize) (hm : s'.memSize vd = s.memSize vd)
    (hd : s'.dmaMemSize vd = s.dmaMemSize vd) : s'.Sized vd := by
  intro phys hp
  rw [hparent] at hp
  rw [hval, hphys, hdma, hm, hd]
  exact h phys hp

/-! ## Steps -/

theorem write_inv (h : ProcInv init s) (hs : procStep s (.write w vd file) = some s') :
    ProcInv init s' := by
  simp only [procStep] at hs
  split at hs
  · next hc =>
    obtain ⟨hidle, hvd⟩ := hc
    rw [Option.some.injEq] at hs
    subst hs
    refine ⟨inside_update h ?_ rfl rfl, ?_, ?_, h.known, fun i hi => ?_⟩
    · rw [hidle]
      exact Iff.rfl
    · refine old_update rfl (P := fun vd _ _ => vd < s.vcount) h.device fun i f o ho => ?_
      simp only [UtilPoint.old, Option.some.injEq, Prod.mk.injEq] at ho
      rw [← ho.1]
      exact hvd
    · refine old_update rfl (P := s.Known init) h.old fun i f o ho => ?_
      simp only [UtilPoint.old, Option.some.injEq, Prod.mk.injEq] at ho
      obtain ⟨rfl, rfl, rfl⟩ := ho
      exact h.known vd file
    · refine (h.sized i hi).imp id ?_
      have hne : ∀ w', s.point w' ≠ .idle → (s.setPoint w (.down vd file (s.val vd file))).point w' =
          s.point w' := by
        intro w' hw'
        rw [point_setPoint, if_neg]
        rintro rfl
        exact hw' hidle
      rintro (⟨f, w', old, hw'⟩ | ⟨w', j, hw', hle⟩)
      · exact Or.inl ⟨f, w', old, by rw [hne w' (by simp [hw'])]; exact hw'⟩
      · exact Or.inr ⟨w', j, by rw [hne w' (by simp [hw'])]; exact hw', hle⟩
  · cases hs

theorem down_inv (h : ProcInv init s) (hs : procStep s (.down w) = some s') : ProcInv init s' := by
  simp only [procStep] at hs
  split at hs
  · next vd file old hw hh =>
    rw [Option.some.injEq] at hs
    subst hs
    refine ⟨fun w' => ?_, ?_, ?_, h.known, fun i hi => ?_⟩
    · rw [show ({ s.setPoint w (.store vd file old) with holder := some w } : ProcState).point w' =
        _ from point_setPoint w']
      split
      · next he =>
        rw [he]
        exact ⟨fun _ => rfl, fun _ => trivial⟩
      · next hne =>
        refine ⟨fun hi => absurd hi (h.outside hh w'), fun he => ?_⟩
        exact absurd (Option.some.inj he).symm hne
    · refine old_update rfl (P := fun vd _ _ => vd < s.vcount) h.device fun i f o ho => ?_
      exact h.device w i f o (by rw [hw]; exact ho)
    · refine old_update rfl (P := s.Known init) h.old fun i f o ho => ?_
      exact h.old w i f o (by rw [hw]; exact ho)
    · refine Or.inl ((h.sized i hi).resolve_right ?_)
      rintro (⟨f, w', o, hw'⟩ | ⟨w', j, hw', -⟩)
      · exact h.outside hh w' (by rw [hw']; trivial)
      · exact h.outside hh w' (by rw [hw']; trivial)
  · cases hs

/-- What `gdev_proc_val_write` changes. -/
theorem valWrite_eq (s : ProcState) (vd : ℕ) (file : UtilFile) (parsed : Option UInt32) :
    ∃ val written, s.valWrite vd file parsed = { s with val, written } ∧
      (∀ i f, val i f = if i = vd ∧ f = file then parsed.getD (s.val vd file) else s.val i f) ∧
      (∀ i f v, v ∈ s.written i f → v ∈ written i f) ∧
      ∀ v, parsed = some v → v ∈ written vd file := by
  cases parsed with
  | none =>
    refine ⟨s.val, s.written, rfl, fun i f => ?_, fun _ _ _ h => h, fun v h => by cases h⟩
    split
    · next he =>
      rw [he.1, he.2]
      rfl
    · rfl
  | some u =>
    have hw : ∀ i f, Function.update s.written vd (Function.update (s.written vd) file
        (u :: s.written vd file)) i f =
        if i = vd ∧ f = file then u :: s.written vd file else s.written i f := by
      intro i f
      by_cases hi : i = vd
      · subst hi
        by_cases hf : f = file
        · simp [hf]
        · simp [hf]
      · simp [hi]
    refine ⟨_, _, rfl, val_setVal, fun i f v hv => ?_, fun v hv => ?_⟩
    · rw [hw]
      split
      · next he =>
        rw [he.1, he.2] at hv
        exact List.mem_cons_of_mem _ hv
      · exact hv
    · rw [hw, if_pos ⟨rfl, rfl⟩, Option.some.inj hv]
      exact List.mem_cons_self

theorem store_inv {parsed : Option UInt32} (h : ProcInv init s)
    (hs : procStep s (.store w parsed) = some s') : ProcInv init s' := by
  simp only [procStep] at hs
  split at hs
  · next vd file old hw =>
    obtain ⟨val, written, hwrite, hval, hmono, hnew⟩ := valWrite_eq s vd file parsed
    rw [hwrite, Option.some.injEq] at hs
    subst hs
    have hin : (s.point w).Inside := by
      rw [hw]
      trivial
    have hknown : ∀ i f v, s.Known init i f v → v = init i f ∨ v ∈ written i f :=
      fun i f v hv => hv.imp id (hmono i f v)
    refine ⟨inside_update h ?_ rfl rfl, ?_, ?_, fun i f => ?_, fun i hi => ?_⟩
    · rw [hw]
      exact Iff.rfl
    · refine old_update rfl (P := fun vd _ _ => vd < s.vcount) h.device fun i f o ho => ?_
      exact h.device w i f o (by rw [hw]; exact ho)
    · refine old_update rfl (P := fun i f v => v = init i f ∨ v ∈ written i f)
        (fun w i f o ho => hknown i f o (h.old w i f o ho)) fun i f o ho => ?_
      exact hknown i f o (h.old w i f o (by rw [hw]; exact ho))
    · have hv : val i f = init i f ∨ val i f ∈ written i f := by
        rw [hval]
        split
        · next he =>
          obtain ⟨rfl, rfl⟩ := he
          cases parsed with
          | none => exact hknown i f _ (h.known i f)
          | some v => exact Or.inr (hnew v rfl)
        · exact hknown i f _ (h.known i f)
      exact hv
    · by_cases hvd : i = vd
      · refine Or.inr (Or.inl ⟨file, w, old, ?_⟩)
        rw [hvd]
        exact Function.update_self ..
      · have hsized := h.sized_of hin hi (by simp [hw]) (by simp [hw])
        refine Or.inl (hsized.congr ?_ rfl rfl rfl rfl rfl)
        exact (hval i .memSh).trans (if_neg fun he => hvd he.1)
  · cases hs

/-- What the test of the value changes. -/
theorem restore_eq (s : ProcState) (vd : ℕ) (file : UtilFile) (old : UInt32) :
    ∃ val, s.restore vd file old = { s with val } ∧
      ∀ i f, val i f = if i = vd ∧ f = file ∧ 100 < s.val vd file then old else s.val i f := by
  unfold ProcState.restore
  by_cases hv : 100 < s.val vd file
  · rw [if_pos hv]
    refine ⟨(s.setVal vd file old).val, rfl, fun i f => ?_⟩
    rw [val_setVal]
    simp only [hv, and_true]
  · rw [if_neg hv]
    exact ⟨s.val, rfl, fun i f => by simp [hv]⟩

theorem check_inv (h : ProcInv init s) (hs : procStep s (.check w) = some s') : ProcInv init s' := by
  simp only [procStep] at hs
  split at hs
  · next vd file old hw =>
    rw [Option.some.injEq] at hs
    subst hs
    obtain ⟨val, hres, hrestored⟩ := restore_eq s vd file old
    have hval : ∀ i f, s.Known init i f (val i f) := by
      intro i f
      rw [hrestored]
      split
      · next he =>
        rw [he.1, he.2.1]
        exact h.old w vd file old (by rw [hw]; rfl)
      · exact h.known i f
    rw [hres]
    refine ⟨inside_update h ?_ rfl rfl, ?_, ?_, hval, fun i hi => ?_⟩
    · rw [hw]
      exact Iff.rfl
    · exact old_update rfl (P := fun vd _ _ => vd < s.vcount) h.device fun i f o ho => by cases ho
    · exact old_update rfl (P := s.Known init) h.old fun i f o ho => by cases ho
    · -- the loop starts at the first device
      exact Or.inr (Or.inr ⟨w, 0, Function.update_self .., Nat.zero_le i⟩)
  · cases hs

theorem resize_inv (h : ProcInv init s) (hs : procStep s (.resize w) = some s') : ProcInv init s' := by
  simp only [procStep] at hs
  split at hs
  · next i hw =>
    split at hs
    · next hlt =>
      rw [Option.some.injEq] at hs
      subst hs
      have hin : (s.point w).Inside := by
        rw [hw]
        trivial
      have hresize : ∃ memSize dmaMemSize, s.resize i = { s with memSize, dmaMemSize } ∧
          (∀ j, j ≠ i → memSize j = s.memSize j ∧ dmaMemSize j = s.dmaMemSize j) ∧
          (s.resize i).Sized i := by
        unfold ProcState.resize
        split
        · next hp =>
          refine ⟨s.memSize, s.dmaMemSize, rfl, fun _ _ => ⟨rfl, rfl⟩, fun phys hphys => ?_⟩
          rw [hp] at hphys
          cases hphys
        · next phys hp =>
          -- the entry of the device alone is written
          refine ⟨_, _, rfl, fun j hj => ⟨Function.update_of_ne hj .., Function.update_of_ne hj ..⟩,
            fun phys' hphys => ?_⟩
          have hphys : s.parent i = some phys' := hphys
          rw [hp, Option.some.injEq] at hphys
          subst hphys
          exact ⟨Function.update_self .., Function.update_self ..⟩
      obtain ⟨memSize, dmaMemSize, hres, hsame, hsized⟩ := hresize
      rw [hres] at hsized ⊢
      refine ⟨inside_update h ?_ rfl rfl, ?_, ?_, h.known, fun j hj => ?_⟩
      · rw [hw]
        exact Iff.rfl
      · exact old_update rfl (P := fun vd _ _ => vd < s.vcount) h.device fun i f o ho => by cases ho
      · exact old_update rfl (P := s.Known init) h.old fun i f o ho => by cases ho
      · -- the sizes below `i` are those stored before, the one of `i` is stored now
        rcases Nat.lt_trichotomy j i with hji | rfl | hij
        · have hold := h.sized_of hin hj (by simp [hw]) fun k hk => by
            rw [hw, UtilPoint.sizes.injEq] at hk
            omega
          obtain ⟨hm, hd⟩ := hsame j (Nat.ne_of_lt hji)
          exact Or.inl (hold.congr rfl rfl rfl rfl hm hd)
        · exact Or.inl hsized
        · exact Or.inr (Or.inr ⟨w, i + 1, Function.update_self .., hij⟩)
    · cases hs
  · cases hs

theorem up_inv (h : ProcInv init s) (hs : procStep s (.up w) = some s') : ProcInv init s' := by
  simp only [procStep] at hs
  split at hs
  · next i hw =>
    split at hs
    · cases hs
    · next hge =>
      rw [Option.some.injEq] at hs
      subst hs
      have hin : (s.point w).Inside := by
        rw [hw]
        trivial
      refine ⟨fun w' => ?_, ?_, ?_, h.known, fun j hj => ?_⟩
      · rw [show ({ s.setPoint w .idle with holder := none } : ProcState).point w' = _ from
          point_setPoint w']
        refine ⟨fun hi => ?_, fun he => by cases he⟩
        split at hi
        · exact hi.elim
        · next hne => exact absurd (h.unique hin hi) hne
      · exact old_update rfl (P := fun vd _ _ => vd < s.vcount) h.device fun i f o ho => by cases ho
      · exact old_update rfl (P := s.Known init) h.old fun i f o ho => by cases ho
      · -- the loop has passed every device
        have hj : j < s.vcount := hj
        refine Or.inl (h.sized_of hin hj (by simp [hw]) fun k hk => ?_)
        rw [hw, UtilPoint.sizes.injEq] at hk
        omega
  · cases hs

theorem procStep_inv (h : ProcInv init s) (hs : procStep s op = some s') : ProcInv init s' := by
  cases op with
  | write w vd file => exact write_inv h hs
  | down w => exact down_inv h hs
  | store w parsed => exact store_inv h hs
  | check w => exact check_inv h hs
  | resize w => exact resize_inv h hs
  | up w => exact up_inv h hs

/-! ## The bound -/

theorem ProcState.Bounded.outside (h : s.Bounded) {p : UtilPoint}
    (hw : ∀ vd file old, s.point w ≠ .check vd file old)
    (hpoint : s'.point = Function.update s.point w p) (hval : s'.val = s.val)
    (hv : s'.vcount = s.vcount) : s'.Bounded := by
  intro i hlt f
  rw [hv] at hlt
  rw [hval]
  refine (h i hlt f).imp id ?_
  rintro ⟨w', old, hw'⟩
  refine ⟨w', old, ?_⟩
  rw [hpoint, Function.update_of_ne]
  · exact hw'
  · rintro rfl
    exact hw i f old hw'

/-- **The bound in steps** that replace a value by a valid one only. -/
theorem procStep_bounded (hi : ProcInv init s) (h : s.Bounded) (hr : op.Restores s)
    (hs : procStep s op = some s') : s'.Bounded := by
  cases op with
  | write w vd file =>
    simp only [procStep] at hs
    split at hs
    · next hc =>
      rw [Option.some.injEq] at hs
      subst hs
      exact h.outside (by simp [hc.1]) rfl rfl rfl
    · cases hs
  | down w =>
    simp only [procStep] at hs
    split at hs
    · next hw _ =>
      rw [Option.some.injEq] at hs
      subst hs
      exact h.outside (by simp [hw]) rfl rfl rfl
    · cases hs
  | store w parsed =>
    simp only [procStep] at hs
    split at hs
    · next vd file old hw =>
      obtain ⟨val, written, hwrite, hval, -⟩ := valWrite_eq s vd file parsed
      rw [hwrite, Option.some.injEq] at hs
      subst hs
      intro i hlt f
      -- the entry just written is the one still to be checked
      by_cases he : i = vd ∧ f = file
      · rw [he.1, he.2]
        exact Or.inr ⟨w, old, Function.update_self ..⟩
      · -- nobody else is inside, so that the old value has been checked
        have hin : (s.point w).Inside := by
          rw [hw]
          trivial
        have hle := (h i hlt f).resolve_right (hi.not_unchecked hin (by simp [hw]))
        have hle' : val i f ≤ 100 := by
          rwa [hval, if_neg he]
        exact Or.inl hle'
    · cases hs
  | check w =>
    simp only [procStep] at hs
    split at hs
    · next vd file old hw =>
      obtain ⟨val, hres, hval⟩ := restore_eq s vd file old
      rw [hres, Option.some.injEq] at hs
      subst hs
      simp only [ProcOp.Restores, hw] at hr
      intro i hlt f
      have hle : val i f ≤ 100 := by
        rw [hval]
        split
        · -- the value put back
          next he => exact hr he.2.2
        · next he =>
          by_cases hf : i = vd ∧ f = file
          · rw [hf.1, hf.2]
            exact UInt32.not_lt.1 fun hgt => he ⟨hf.1, hf.2, hgt⟩
          · have hin : (s.point w).Inside := by
              rw [hw]
              trivial
            -- only the entry that `w` checks can be above 100
            refine (h i hlt f).resolve_right (hi.not_unchecked hin fun o ho => ?_)
            rw [hw, UtilPoint.check.injEq] at ho
            exact hf ⟨ho.1.symm, ho.2.1.symm⟩
      exact Or.inl hle
    · cases hs
  | resize w =>
    simp only [procStep] at hs
    split at hs
    · next i hw =>
      split at hs
      · rw [Option.some.injEq] at hs
        subst hs
        have hres : (s.resize i).val = s.val ∧ (s.resize i).point = s.point ∧
            (s.resize i).vcount = s.vcount := by
          unfold ProcState.resize
          split <;> exact ⟨rfl, rfl, rfl⟩
        obtain ⟨hval, hpoint, hv⟩ := hres
        refine h.outside (w := w) (p := .sizes (i + 1)) (by simp [hw]) ?_ hval hv
        rw [← hpoint]
        rfl
      · cases hs
    · cases hs
  | up w =>
    simp only [procStep] at hs
    split at hs
    · next i hw =>
      split at hs
      · cases hs
      · rw [Option.some.injEq] at hs
        subst hs
        exact h.outside (by simp [hw]) rfl rfl rfl
    · cases hs

/-- The writer inside is past the test, and has left a value above 100. -/
def ProcState.Spoilt (s : ProcState) : Prop :=
  ∃ w i, s.point w = .sizes i ∧ ∃ vd < s.vcount, ∃ file, 100 < s.val vd file

/-- A step that does not replace a value by a valid one spoils the state. -/
theorem spoilt_of_not_restores (hi : ProcInv init s) (hr : ¬ op.Restores s)
    (hs : procStep s op = some s') : s'.Spoilt := by
  cases op with
  | check w =>
    simp only [procStep] at hs
    split at hs
    · next vd file old hw =>
      obtain ⟨val, hres, hval⟩ := restore_eq s vd file old
      rw [hres, Option.some.injEq] at hs
      subst hs
      simp only [ProcOp.Restores, hw, Classical.not_imp] at hr
      obtain ⟨hgt, hold⟩ := hr
      refine ⟨w, 0, Function.update_self .., vd, hi.device w vd file old (by rw [hw]; rfl), file, ?_⟩
      have hlt : 100 < val vd file := by
        rw [hval, if_pos ⟨rfl, rfl, hgt⟩]
        exact UInt32.not_le.1 hold
      exact hlt
    · cases hs
  | write w vd file | down w | store w parsed | resize w | up w => exact absurd trivial hr

/-- A spoilt state stays so until the semaphore is up, and then a value is not valid. -/
theorem spoilt_step (hi : ProcInv init s) (h : s.Spoilt) (hs : procStep s op = some s') :
    s'.Spoilt ∨ ¬ ProcValid init s' := by
  obtain ⟨w, i, hw, vd, hvd, file, hgt⟩ := h
  have hin : (s.point w).Inside := by
    rw [hw]
    trivial
  -- who is inside stands at `.sizes i`, and so is the only one to go on there
  have hsame : ∀ w', (s.point w').Inside → s.point w' = .sizes i := by
    intro w' hw'
    rw [hi.unique hin hw', hw]
  cases op with
  | write w' vd' file' =>
    simp only [procStep] at hs
    split at hs
    · next hc =>
      rw [Option.some.injEq] at hs
      subst hs
      refine Or.inl ⟨w, i, ?_, vd, hvd, file, hgt⟩
      rw [point_setPoint, if_neg]
      · exact hw
      · rintro rfl
        rw [hc.1] at hw
        cases hw
    · cases hs
  | down w' =>
    simp only [procStep] at hs
    split at hs
    · next hh => exact absurd hin (hi.outside hh w)
    · cases hs
  | store w' parsed =>
    simp only [procStep] at hs
    split at hs
    · next hw' =>
      have := hsame w' (by rw [hw']; trivial)
      rw [hw'] at this
      cases this
    · cases hs
  | check w' =>
    simp only [procStep] at hs
    split at hs
    · next hw' =>
      have := hsame w' (by rw [hw']; trivial)
      rw [hw'] at this
      cases this
    · cases hs
  | resize w' =>
    simp only [procStep] at hs
    split at hs
    · next j hw' =>
      split at hs
      · rw [Option.some.injEq] at hs
        subst hs
        have hres : (s.resize j).val = s.val ∧ (s.resize j).vcount = s.vcount := by
          unfold ProcState.resize
          split <;> exact ⟨rfl, rfl⟩
        refine Or.inl ⟨w', j + 1, Function.update_self .., vd, ?_, file, ?_⟩
        · exact lt_of_lt_of_eq hvd hres.2.symm
        · exact lt_of_lt_of_eq hgt (congrFun (congrFun hres.1 vd) file).symm
      · cases hs
    · cases hs
  | up w' =>
    simp only [procStep] at hs
    split at hs
    · split at hs
      · cases hs
      · rw [Option.some.injEq] at hs
        subst hs
        exact Or.inr fun hv => UInt32.not_le.2 hgt ((hv rfl vd hvd).1 file).1
    · cases hs

/-- A run with a spoilt state that ends with the semaphore up has a state that is not valid. -/
theorem not_always_of_spoilt (ops : List ProcOp) (hi : ProcInv init s) (h : s.Spoilt)
    (hs : final procStep s ops = some s') (hh : s'.holder = none) :
    ¬ Always procStep (ProcValid init) s ops := by
  induction ops generalizing s with
  | nil =>
    rw [final, Option.some.injEq] at hs
    subst hs
    obtain ⟨w, i, hw, -⟩ := h
    exact absurd (by rw [hw]; trivial) (hi.outside hh w)
  | cons op ops ih =>
    obtain ⟨s₁, hs₁, hs⟩ := Option.bind_eq_some_iff.1 hs
    rintro ⟨-, hall⟩
    rcases spoilt_step hi h hs₁ with hsp | hnv
    · exact ih (procStep_inv hi hs₁) hsp hs (hall s₁ hs₁)
    · exact hnv (hall s₁ hs₁).head

theorem each_of_always (ops : List ProcOp) (hi : ProcInv init s)
    (hs : final procStep s ops = some s') (hh : s'.holder = none)
    (hall : Always procStep (ProcValid init) s ops) :
    Each procStep (fun s op => op.Restores s) s ops := by
  induction ops generalizing s with
  | nil => trivial
  | cons op ops ih =>
    obtain ⟨s₁, hs₁, hs⟩ := Option.bind_eq_some_iff.1 hs
    have hall₁ := hall.2 s₁ hs₁
    have hi₁ := procStep_inv hi hs₁
    refine Each.cons hs₁ ?_ (ih hi₁ hs hall₁)
    by_contra hr
    exact not_always_of_spoilt ops hi₁ (spoilt_of_not_restores hi hr hs₁) hs hh hall₁

theorem procInit_inv (vcount : ℕ) (parent : ℕ → Option ℕ) (physMemSize physDmaMemSize : ℕ → UInt64)
    (init : ℕ → UtilFile → UInt32) :
    ProcInv init (procInit vcount parent physMemSize physDmaMemSize init) where
  inside w := ⟨fun h => h.elim, fun h => by cases h⟩
  device w vd file old h := by cases h
  old w vd file old h := by cases h
  known vd file := Or.inl rfl
  sized vd _ := by
    refine Or.inl fun phys hp => ?_
    have hp : parent vd = some phys := hp
    simp [procInit, hp]

/-- **The values in `/proc`** stay valid in every run of any number of writers in which a value
above 100 is only replaced by one that is not, and in no other run that ends with `proc_sem`
free. -/
theorem proc_valid (vcount : ℕ) (parent : ℕ → Option ℕ) (physMemSize physDmaMemSize : ℕ → UInt64)
    (init : ℕ → UtilFile → UInt32) (hinit : ∀ vd file, init vd file ≤ 100) (ops : List ProcOp) :
    (Each procStep (fun s op => op.Restores s)
        (procInit vcount parent physMemSize physDmaMemSize init) ops →
      Always procStep (ProcValid init)
        (procInit vcount parent physMemSize physDmaMemSize init) ops) ∧
    ∀ s, final procStep (procInit vcount parent physMemSize physDmaMemSize init) ops = some s →
      s.holder = none →
      (Always procStep (ProcValid init)
          (procInit vcount parent physMemSize physDmaMemSize init) ops ↔
        Each procStep (fun s op => op.Restores s)
          (procInit vcount parent physMemSize physDmaMemSize init) ops) := by
  have hi := procInit_inv vcount parent physMemSize physDmaMemSize init
  have hrun : Each procStep (fun s op => op.Restores s)
        (procInit vcount parent physMemSize physDmaMemSize init) ops →
      Always procStep (ProcValid init)
        (procInit vcount parent physMemSize physDmaMemSize init) ops := by
    intro he
    refine Always.mono (P := fun s => ProcInv init s ∧ s.Bounded) (fun s h => h.1.valid h.2) ops _ ?_
    refine Always.of_each (fun s op s' h hr hs => ?_) ops _ ⟨hi, fun vd _ file => ?_⟩ he
    · exact ⟨procStep_inv h.1 hs, procStep_bounded h.1 h.2 hr hs⟩
    · exact Or.inl (hinit vd file)
  exact ⟨hrun, fun s hs hh => ⟨each_of_always ops hi hs hh, hrun⟩⟩

/-- The calls of a writer, from the semaphore on, with one virtual device -/
def utilWrite (w : ℕ) (parsed : Option UInt32) : List ProcOp :=
  [.down w, .store w parsed, .check w, .resize w, .up w]

def restoresTest (s : ProcState) : ProcOp → Bool
  | .check w =>
    match s.point w with
    | .check vd file old => decide (100 < s.val vd file → old ≤ 100)
    | _ => true
  | .write _ _ _ | .down _ | .store _ _ | .resize _ | .up _ => true

theorem restores_of_test (s : ProcState) (op : ProcOp) (h : restoresTest s op = true) :
    op.Restores s := by
  cases op with
  | check w =>
    simp only [restoresTest] at h
    simp only [ProcOp.Restores]
    split
    · next hw =>
      rw [hw] at h
      exact of_decide_eq_true h
    · trivial
  | write w vd file | down w | store w parsed | resize w | up w => trivial

/-- Two writers of `memory_share`, the second with a value that is not valid. -/
theorem proc_valid_two :
    Always procStep (ProcValid fun _ _ => 50)
      (procInit 1 (fun _ => some 0) (fun _ => 1000) (fun _ => 10) fun _ _ => 50)
      (.write 1 0 .memSh :: utilWrite 1 (some 30) ++ .write 2 0 .memSh :: utilWrite 2 (some 200)) :=
  (proc_valid 1 (fun _ => some 0) (fun _ => 1000) (fun _ => 10) (fun _ _ => 50)
    (fun _ _ => by decide) _).1 (Each.of_check restores_of_test (by decide +kernel))

/-- The second writer reads the value that the first one has stored and not yet checked. -/
def overlap : List ProcOp :=
  [.write 1 0 .comBw, .down 1, .store 1 (some 150), .write 2 0 .comBw, .check 1, .resize 1, .up 1] ++
    utilWrite 2 (some 200)

theorem proc_not_valid : ¬ ∀ (vcount : ℕ) (parent : ℕ → Option ℕ)
    (physMemSize physDmaMemSize : ℕ → UInt64) (init : ℕ → UtilFile → UInt32),
    (∀ vd file, init vd file ≤ 100) → ∀ ops, Always procStep (ProcValid init)
      (procInit vcount parent physMemSize physDmaMemSize init) ops := by
  intro hall
  have hrun := hall 1 (fun _ => some 0) (fun _ => 1000) (fun _ => 10) (fun _ _ => 50)
    (fun _ _ => by decide) overlap
  have hlast : ProcValid (fun _ _ => 50) _ := hrun.final rfl
  have hle : (150 : UInt32) ≤ 100 := ((hlast rfl 0 (by decide)).1 .comBw).1
  exact absurd hle (by decide)

end Resch
