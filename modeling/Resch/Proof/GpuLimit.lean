import Resch.Proof.GpuTable
import Resch.Spec.GpuLimit

/-!
# The limit of GPU contexts

The table has room for 99 contexts, a create waits only for 101 of them to become fewer, and the
search for an id goes through many more bits.

* `Counted`: the users of the devices are the open contexts on them.
* `LimitOk`: a create returns an id of the table or an error, and the users are counted.
* `limit_iff`: so it is in a run iff every create is called with fewer than 99 contexts open.
-/

namespace Resch

open Lib

variable {s s' : GpuTable} {h devId vdevId p dev : ℕ}

/-- The users of the virtual and the physical devices are the open contexts on them. -/
structure Counted (s : GpuTable) : Prop where
  dev : ∀ d, s.devUsers d = s.handles.countP fun h => s.deviceOf h = some d
  phys : ∀ g, s.physUsers g = s.handles.countP fun h => (s.deviceOf h).bind s.parent = some g

/-- Nothing that a create is to leave alone has changed. -/
structure SameTable (s s' : GpuTable) : Prop where
  devUsers : s'.devUsers = s.devUsers
  physUsers : s'.physUsers = s.physUsers
  cidBitmap : s'.cidBitmap = s.cidBitmap
  schedEntityPtr : s'.schedEntityPtr = s.schedEntityPtr

/-- **A call is right**: a create returns an id that the table has room for, or an error with
nothing changed, and has unlocked; a close has a result; and the users are counted. -/
def LimitOk (s : GpuTable) : LimitOp → Prop
  | .create h devId vdevId p =>
    ((1 ≤ (s.ctxcreateCall h devId vdevId p).2.1 ∧
        (s.ctxcreateCall h devId vdevId p).2.1 < gdevContextMaxCount) ∨
      ((s.ctxcreateCall h devId vdevId p).2.1 ≤ 0 ∧ SameTable s (s.ctxcreateCall h devId vdevId p).1)) ∧
    (s.ctxcreateCall h devId vdevId p).2.2 = false ∧ Counted (s.ctxcreateCall h devId vdevId p).1
  | .close h => ∃ s', s.gschedClose h = some s' ∧ Counted s'

/-- A create is called with fewer than 99 contexts open. -/
def HasRoom (s : GpuTable) : LimitOp → Prop
  | .create _ _ _ _ => s.handles.length < gdevContextMaxCount - 1
  | .close _ => True

/-- Open contexts have entities of their own. -/
structure Entities (s : GpuTable) : Prop where
  some : ∀ h ∈ s.handles, ∃ se, s.entity (s.owned h) = some se
  distinct : ∀ h ∈ s.handles, ∀ h' ∈ s.handles, s.owned h = s.owned h' → h = h'

/-- **The invariant** of a run whose creates have room. -/
structure LimitInv (s : GpuTable) : Prop where
  ok : ContextsOk s
  inv : ContextsInv s
  entities : Entities s
  counted : Counted s

/-! ## Creating -/

/-- An unsigned id is not negative. -/
theorem ctxcreateCall_eq : s.ctxcreateCall h devId vdevId p =
    (s.gschedCtxcreate h devId vdevId p,
      (((s.gschedCtxcreate h devId vdevId p).handle h).cid : ℤ).bmod (2 ^ 32), false) := by
  unfold GpuTable.ctxcreateCall
  exact if_neg (Nat.not_lt_zero _)

theorem deviceOf_create_self (s : GpuTable) (h devId vdevId p : ℕ) :
    (s.gschedCtxcreate h devId vdevId p).deviceOf h = some (s.createDevice devId vdevId) := by
  have ho : (s.gschedCtxcreate h devId vdevId p).owned h = p := Function.update_self ..
  unfold GpuTable.deviceOf
  rw [ho]
  show (Function.update s.entity p _ p).map _ = _
  rw [Function.update_self]
  rfl

/-- The other contexts keep their entities. -/
theorem create_other (s : GpuTable) {h' : ℕ} (devId vdevId p : ℕ) (hne : h' ≠ h) :
    (s.gschedCtxcreate h devId vdevId p).owned h' = s.owned h' ∧
      (s.owned h' ≠ p → (s.gschedCtxcreate h devId vdevId p).entity (s.owned h') =
        s.entity (s.owned h')) :=
  ⟨Function.update_of_ne hne .., fun hp => Function.update_of_ne hp ..⟩

theorem Entities.create (he : Entities s) (devId vdevId : ℕ) (hh : h ∉ s.handles)
    (hp : s.entity p = none) :
    Entities (s.gschedCtxcreate h devId vdevId p) ∧
      ∀ h' ∈ s.handles, (s.gschedCtxcreate h devId vdevId p).deviceOf h' = s.deviceOf h' := by
  have hself : (s.gschedCtxcreate h devId vdevId p).owned h = p := Function.update_self ..
  have hdev := deviceOf_create_self s h devId vdevId p
  have hfresh : ∀ h' ∈ s.handles, s.owned h' ≠ p := by
    intro h' hh' he'
    obtain ⟨se, hse⟩ := he.some h' hh'
    rw [he', hp] at hse
    cases hse
  have hold : ∀ h' ∈ s.handles, (s.gschedCtxcreate h devId vdevId p).owned h' = s.owned h' ∧
      (s.gschedCtxcreate h devId vdevId p).entity (s.owned h') = s.entity (s.owned h') := by
    intro h' hh'
    obtain ⟨ho, hent⟩ := create_other s devId vdevId p (fun e => hh (e ▸ hh') : h' ≠ h)
    exact ⟨ho, hent (hfresh h' hh')⟩
  refine ⟨⟨fun h' hh' => ?_, fun h₁ h₁m h₂ h₂m ho => ?_⟩, fun h' hh' => ?_⟩
  · rcases List.mem_cons.1 hh' with rfl | hh'
    · exact Option.ne_none_iff_exists'.1 fun hnone => by
        unfold GpuTable.deviceOf at hdev
        rw [hnone] at hdev
        cases hdev
    · rw [(hold h' hh').1, (hold h' hh').2]
      exact he.some h' hh'
  · rcases List.mem_cons.1 h₁m with rfl | h₁m <;> rcases List.mem_cons.1 h₂m with rfl | h₂m
    · rfl
    · rw [hself, (hold h₂ h₂m).1] at ho
      exact absurd ho.symm (hfresh h₂ h₂m)
    · rw [hself, (hold h₁ h₁m).1] at ho
      exact absurd ho (hfresh h₁ h₁m)
    · rw [(hold h₁ h₁m).1, (hold h₂ h₂m).1] at ho
      exact he.distinct h₁ h₁m h₂ h₂m ho
  · unfold GpuTable.deviceOf
    rw [(hold h' hh').1, (hold h' hh').2]

/-- The users of a device go up by one, and so do the open contexts on it. -/
theorem Counted.create (hc : Counted s) (he : Entities s) (hh : h ∉ s.handles)
    (hp : s.entity p = none) (hpar : (s.parent (s.createDevice devId vdevId)).isSome = true) :
    Counted (s.gschedCtxcreate h devId vdevId p) := by
  have hself := deviceOf_create_self s h devId vdevId p
  obtain ⟨-, hold⟩ := he.create devId vdevId hh hp
  obtain ⟨g₀, hg₀⟩ := Option.isSome_iff_exists.1 hpar
  have hhandles : (s.gschedCtxcreate h devId vdevId p).handles = h :: s.handles := rfl
  have hparent : (s.gschedCtxcreate h devId vdevId p).parent = s.parent := rfl
  constructor
  · intro d
    have hcount : s.handles.countP (fun h' =>
        (s.gschedCtxcreate h devId vdevId p).deviceOf h' = some d) =
        s.handles.countP fun h' => s.deviceOf h' = some d :=
      List.countP_congr fun h' hh' => by rw [hold h' hh']
    rw [hhandles, List.countP_cons, hcount, hself]
    show Function.update s.devUsers (s.createDevice devId vdevId) _ d = _
    by_cases hd : d = s.createDevice devId vdevId
    · subst hd
      rw [Function.update_self, hc.dev]
      simp
    · rw [Function.update_of_ne hd, hc.dev]
      simp [Ne.symm hd]
  · intro g
    have hcount : s.handles.countP (fun h' =>
        ((s.gschedCtxcreate h devId vdevId p).deviceOf h').bind s.parent = some g) =
        s.handles.countP fun h' => (s.deviceOf h').bind s.parent = some g :=
      List.countP_congr fun h' hh' => by rw [hold h' hh']
    rw [hhandles, hparent, List.countP_cons, hcount, hself]
    have husers : (s.gschedCtxcreate h devId vdevId p).physUsers =
        Function.update s.physUsers g₀ (s.physUsers g₀ + 1) := by
      unfold GpuTable.gschedCtxcreate GpuTable.addUsers GpuTable.gdevSchedEntityCreate
      dsimp only
      rw [hg₀]
    rw [husers, Option.bind_some, hg₀]
    by_cases hg : g = g₀
    · subst hg
      rw [Function.update_self, hc.phys]
      simp
    · rw [Function.update_of_ne hg, hc.phys]
      simp [Ne.symm hg]

/-! ## Closing -/

/-- A context in the table is closed. -/
theorem gschedClose_eq {se : ContextEntity} (hp : s.schedEntityPtr (s.handle h).cid = some p)
    (hse : s.entity p = some se) : ∃ s', s.gschedClose h = some s' ∧
      s'.handles = s.handles.erase h ∧ s'.owned = s.owned ∧ s'.parent = s.parent ∧
      s'.entity = Function.update s.entity p none ∧
      s'.devUsers = Function.update s.devUsers se.gdev (s.devUsers se.gdev + -1) ∧
      s'.physUsers = match s.parent se.gdev with
        | some phys => Function.update s.physUsers phys (s.physUsers phys + -1)
        | none => s.physUsers := by
  unfold GpuTable.gschedClose
  dsimp only
  rw [hp]
  dsimp only
  rw [hse]
  exact ⟨_, rfl, rfl, rfl, rfl, rfl, rfl, rfl⟩

theorem LimitInv.close (hi : LimitInv s) (hh : h ∈ s.handles) :
    ∃ s', s.gschedClose h = some s' ∧ LimitInv s' := by
  obtain ⟨hok, hinv, he, hc⟩ := hi
  obtain ⟨se, hse⟩ := he.some h hh
  have hptr : s.schedEntityPtr (s.handle h).cid = some (s.owned h) :=
    (hok.table _ _).2 ⟨h, hh, rfl, rfl⟩
  obtain ⟨s', hs', hhandles, howned, hparent, hentity, hdev, hphys⟩ := gschedClose_eq hptr hse
  obtain ⟨hok', hinv'⟩ := close_ok hinv hok hh hs'
  have hmem : ∀ h' ∈ s'.handles, h' ∈ s.handles ∧ h' ≠ h := by
    intro h' hh'
    rw [hhandles] at hh'
    obtain ⟨hne, hh'⟩ := hinv.nodup.mem_erase_iff.1 hh'
    exact ⟨hh', hne⟩
  -- the other contexts keep their entities
  have hent : ∀ h' ∈ s'.handles, s'.entity (s'.owned h') = s.entity (s.owned h') := by
    intro h' hh'
    obtain ⟨hold, hne⟩ := hmem h' hh'
    rw [hentity, howned]
    exact Function.update_of_ne (fun ho => hne (he.distinct h' hold h hh ho)) ..
  have hdevice : ∀ h' ∈ s'.handles, s'.deviceOf h' = s.deviceOf h' := by
    intro h' hh'
    unfold GpuTable.deviceOf
    rw [hent h' hh']
  have hself : s.deviceOf h = some se.gdev := by
    unfold GpuTable.deviceOf
    rw [hse]
    rfl
  have hcount : ∀ f : ℕ → Bool, s.handles.countP f =
      s'.handles.countP f + if f h = true then 1 else 0 := by
    intro f
    rw [hhandles, (List.perm_cons_erase hh).countP_eq, List.countP_cons]
  refine ⟨s', hs', hok', hinv', ⟨fun h' hh' => ?_, fun h₁ h₁m h₂ h₂m ho => ?_⟩, fun d => ?_, fun g => ?_⟩
  · rw [hent h' hh']
    exact he.some h' (hmem h' hh').1
  · rw [howned] at ho
    exact he.distinct h₁ (hmem h₁ h₁m).1 h₂ (hmem h₂ h₂m).1 ho
  · have hsame : s'.handles.countP (fun h' => s'.deviceOf h' = some d) =
        s'.handles.countP fun h' => s.deviceOf h' = some d :=
      List.countP_congr fun h' hh' => by rw [hdevice h' hh']
    have hd := hcount fun h' => s.deviceOf h' = some d
    have hold := hc.dev d
    rw [hsame, hdev]
    rw [hself] at hd
    by_cases hne : d = se.gdev
    · subst hne
      rw [Function.update_self]
      rw [if_pos (by simp)] at hd
      omega
    · rw [Function.update_of_ne hne]
      rw [if_neg (by simpa using Ne.symm hne)] at hd
      omega
  · have hsame : s'.handles.countP (fun h' => (s'.deviceOf h').bind s'.parent = some g) =
        s'.handles.countP fun h' => (s.deviceOf h').bind s.parent = some g :=
      List.countP_congr fun h' hh' => by rw [hdevice h' hh', hparent]
    have hg := hcount fun h' => (s.deviceOf h').bind s.parent = some g
    have hold := hc.phys g
    rw [hsame, hphys]
    rw [hself, Option.bind_some] at hg
    cases hpar : s.parent se.gdev with
    | none =>
      rw [hpar, if_neg (by simp)] at hg
      dsimp only
      omega
    | some g₀ =>
      rw [hpar] at hg
      dsimp only
      by_cases hne : g = g₀
      · subst hne
        rw [Function.update_self]
        rw [if_pos (by simp)] at hg
        omega
      · rw [Function.update_of_ne hne]
        rw [if_neg (by simpa using Ne.symm hne)] at hg
        omega

/-! ## The limit -/

theorem ctxcreate_cid : ((s.gschedCtxcreate h devId vdevId p).handle h).cid =
    ((reschFfz s.cidBitmap cidMapLong % 2 ^ 32).toNat + 1) % 2 ^ 32 := by
  show (Function.update s.handle h _ h).cid = _
  rw [Function.update_self]
  rfl

/-- With room, the id is one of the table. -/
theorem ctxcreate_room (hok : ContextsOk s) (h devId vdevId p : ℕ)
    (hlen : s.handles.length < gdevContextMaxCount - 1) :
    1 ≤ ((s.gschedCtxcreate h devId vdevId p).handle h).cid ∧
      ((s.gschedCtxcreate h devId vdevId p).handle h).cid < gdevContextMaxCount := by
  obtain ⟨m, hm, hroom, -⟩ := reschFfz_room hok hlen
  rw [ctxcreate_cid, hm]
  unfold gdevContextMaxCount at hroom ⊢
  omega

/-- With 99 contexts open, every id of the table is in use. -/
theorem all_in_use (hok : ContextsOk s) (hinv : ContextsInv s)
    (hlen : gdevContextMaxCount - 1 ≤ s.handles.length) {j : ℕ} (hj : j < gdevContextMaxCount - 1) :
    ∃ h ∈ s.handles, (s.handle h).cid = j + 1 := by
  have hnodup : (s.handles.map fun h => (s.handle h).cid).Nodup :=
    (List.nodup_map_iff_inj_on hinv.nodup).2 fun h hh h' hh' => hok.distinct h hh h' hh'
  have hsub : (s.handles.map fun h => (s.handle h).cid) ⊆
      (List.range (gdevContextMaxCount - 1)).map (· + 1) := by
    intro c hcm
    obtain ⟨h, hh, rfl⟩ := List.mem_map.1 hcm
    obtain ⟨hpos, hlt⟩ := hinv.room h hh
    exact List.mem_map.2 ⟨(s.handle h).cid - 1, List.mem_range.2 (by omega), by omega⟩
  have hperm := (hnodup.subperm hsub).perm_of_length_le (by simpa using hlen)
  obtain ⟨h, hh, hc⟩ := List.mem_map.1
    (hperm.mem_iff.2 (List.mem_map.2 ⟨j, List.mem_range.2 hj, rfl⟩))
  exact ⟨h, hh, hc⟩

/-- **Without room, an id is found** all the same: the one past the table. -/
theorem ctxcreate_full (hok : ContextsOk s) (hinv : ContextsInv s)
    (hlen : gdevContextMaxCount - 1 ≤ s.handles.length) :
    ((s.gschedCtxcreate h devId vdevId p).handle h).cid = gdevContextMaxCount := by
  have hset : ∀ j < gdevContextMaxCount - 1, testBit (j : ℤ) s.cidBitmap = true := fun j hj =>
    (hok.bits j).2 (all_in_use hok hinv hlen hj)
  have hclear : ¬ testBit ((gdevContextMaxCount - 1 : ℕ) : ℤ) s.cidBitmap = true := by
    rw [hok.bits]
    rintro ⟨h', hh', hc⟩
    have := (hinv.room h' hh').2
    unfold gdevContextMaxCount at hc this
    omega
  have hspec := reschFfz_spec s.cidBitmap cidMapLong
  have hffz : reschFfz s.cidBitmap cidMapLong = (gdevContextMaxCount - 1 : ℕ) := by
    by_cases hneg : reschFfz s.cidBitmap cidMapLong < 0
    · have := hspec.of_neg hneg (gdevContextMaxCount - 1) (by decide)
      simp only [Bool.not_eq_eq_eq_not, Bool.not_false] at this
      exact absurd this hclear
    · obtain ⟨m, hm, -, hbit, hleast⟩ := hspec.of_nonneg hneg
      rw [hm]
      have hge : ¬ m < gdevContextMaxCount - 1 := by
        intro hlt
        simp [hset m hlt] at hbit
      have hle : ¬ gdevContextMaxCount - 1 < m := by
        intro hlt
        have := hleast (gdevContextMaxCount - 1) hlt
        simp only [Bool.not_eq_eq_eq_not, Bool.not_false] at this
        exact hclear this
      omega
  rw [ctxcreate_cid, hffz]
  decide

/-! ## Runs -/

theorem limitStep_eq_some {op : LimitOp} (hs : limitStep s op = some s') :
    op.enabled s = true ∧ s' = op.exec s := by
  unfold limitStep at hs
  split at hs
  · exact ⟨‹_›, (Option.some.inj hs).symm⟩
  · cases hs

theorem LimitInv.create (hi : LimitInv s) (hh : h ∉ s.handles) (hp : s.entity p = none)
    (hpar : (s.parent (s.createDevice devId vdevId)).isSome = true)
    (hlen : s.handles.length < gdevContextMaxCount - 1) :
    LimitInv (s.gschedCtxcreate h devId vdevId p) := by
  obtain ⟨hok, hinv⟩ := create_ok devId vdevId p hi.inv hi.ok hh hlen
  exact ⟨hok, hinv, (hi.entities.create devId vdevId hh hp).1, hi.counted.create hi.entities hh hp hpar⟩

theorem LimitInv.step {op : LimitOp} (hi : LimitInv s) (hroom : HasRoom s op)
    (hs : limitStep s op = some s') : LimitInv s' := by
  obtain ⟨hen, rfl⟩ := limitStep_eq_some hs
  cases op with
  | create h devId vdevId p =>
    simp only [LimitOp.enabled, Bool.and_eq_true, decide_eq_true_iff] at hen
    unfold LimitOp.exec
    dsimp only
    rw [ctxcreateCall_eq]
    exact hi.create hen.1.1.1 hen.1.1.2 hen.1.2 hroom
  | close h =>
    obtain ⟨s', hs', hi'⟩ := hi.close (of_decide_eq_true hen)
    unfold LimitOp.exec
    dsimp only
    rw [hs']
    exact hi'

theorem LimitInv.limitOk_iff {op : LimitOp} (hi : LimitInv s) (hs : limitStep s op = some s') :
    LimitOk s op ↔ HasRoom s op := by
  obtain ⟨hen, -⟩ := limitStep_eq_some hs
  cases op with
  | create h devId vdevId p =>
    simp only [LimitOp.enabled, Bool.and_eq_true, decide_eq_true_iff] at hen
    unfold LimitOk HasRoom
    dsimp only
    rw [ctxcreateCall_eq]
    constructor
    · rintro ⟨hret, -⟩
      by_contra hfull
      rw [ctxcreate_full hi.ok hi.inv (by omega)] at hret
      have h100 : ((gdevContextMaxCount : ℕ) : ℤ).bmod (2 ^ 32) = 100 := by decide
      rw [h100] at hret
      unfold gdevContextMaxCount at hret
      dsimp only at hret
      rcases hret with ⟨-, hlt⟩ | ⟨hle, -⟩
      · omega
      · omega
    · intro hlen
      obtain ⟨hpos, hlt⟩ := ctxcreate_room hi.ok h devId vdevId p hlen
      refine ⟨Or.inl ?_, rfl, (hi.create hen.1.1.1 hen.1.1.2 hen.1.2 hlen).counted⟩
      have hsmall : (((s.gschedCtxcreate h devId vdevId p).handle h).cid : ℤ).bmod (2 ^ 32) =
          ((s.gschedCtxcreate h devId vdevId p).handle h).cid := by
        unfold gdevContextMaxCount at hlt
        exact Int.bmod_eq_of_le (by omega) (by omega)
      dsimp only
      rw [hsmall]
      omega
  | close h =>
    obtain ⟨s', hs', hi'⟩ := hi.close (of_decide_eq_true hen)
    exact ⟨fun _ => trivial, fun _ => ⟨s', hs', hi'.counted⟩⟩

theorem gschedInit_limit (parent : ℕ → Option ℕ) (handle : ℕ → RtxGhandle) :
    LimitInv (gschedInit parent handle) := by
  have hnone : ∀ h, h ∉ (gschedInit parent handle).handles := fun h => List.not_mem_nil
  exact ⟨gschedInit_ok parent handle, ⟨List.nodup_nil, fun h hh => absurd hh (hnone h)⟩,
    ⟨fun h hh => absurd hh (hnone h), fun h hh => absurd hh (hnone h)⟩,
    ⟨fun _ => rfl, fun _ => rfl⟩⟩

/-- **The contexts are limited** in a run, with their ids in the table and the users counted, iff
every create is called with fewer than 99 contexts open. -/
theorem limit_iff (parent : ℕ → Option ℕ) (handle : ℕ → RtxGhandle) (ops : List LimitOp) :
    Each limitStep LimitOk (gschedInit parent handle) ops ↔
      Each limitStep HasRoom (gschedInit parent handle) ops :=
  Each.iff_of_kept (fun _ _ _ hi hroom hs => hi.step hroom hs) (fun _ _ _ hi hs => hi.limitOk_iff hs)
    ops _ (gschedInit_limit parent handle)

/-! ## A hundred contexts -/

/-- `n` contexts on the first virtual device, with the handles and entities below `n` -/
structure Filled (s : GpuTable) (n : ℕ) : Prop where
  inv : LimitInv s
  length : s.handles.length = n
  handles : ∀ h ∈ s.handles, h < n
  entity : ∀ p, n ≤ p → s.entity p = none
  parent : s.parent = fun _ => some 0

theorem Filled.enabled {n : ℕ} (hf : Filled s n) (hn : n ≤ gdevContextMaxCount) :
    limitStep s (.create n 0 0 n) = some (s.gschedCtxcreate n 0 0 n) := by
  have husers : s.physUsers 0 ≤ n := by
    rw [hf.inv.counted.phys]
    have := List.countP_le_length (p := fun h => decide ((s.deviceOf h).bind s.parent = some 0))
      (l := s.handles)
    rw [hf.length] at this
    exact_mod_cast this
  have hmany : s.tooManyUsers (s.createDevice 0 0) = false := by
    unfold GpuTable.tooManyUsers
    rw [hf.parent]
    refine decide_eq_false ?_
    omega
  have hen : (LimitOp.create n 0 0 n).enabled s = true := by
    unfold LimitOp.enabled
    dsimp only
    rw [hmany, hf.parent]
    simp only [Option.isSome_some, Bool.not_false, Bool.and_true, decide_eq_true_iff]
    exact ⟨fun h => (hf.handles n h).false, hf.entity n le_rfl⟩
  unfold limitStep
  rw [if_pos hen]
  unfold LimitOp.exec
  dsimp only
  rw [ctxcreateCall_eq]

theorem Filled.create {n : ℕ} (hf : Filled s n) (hn : n < gdevContextMaxCount - 1) :
    Filled (s.gschedCtxcreate n 0 0 n) (n + 1) := by
  refine ⟨hf.inv.create (fun h => (hf.handles n h).false) (hf.entity n le_rfl) ?_ ?_, ?_,
    fun h hh => ?_, fun p hp => ?_, hf.parent⟩
  · rw [hf.parent]
    rfl
  · rw [hf.length]
    exact hn
  · exact congrArg (· + 1) hf.length
  · rcases List.mem_cons.1 hh with rfl | hh
    · omega
    · have := hf.handles h hh
      omega
  · exact (Function.update_of_ne (by omega : p ≠ n) ..).trans (hf.entity p (by omega))

/-- The hundredth create is wrong. -/
theorem Filled.not_ok {n d : ℕ} (hf : Filled s n) (hd : n + d = gdevContextMaxCount - 1) :
    ¬ Each limitStep LimitOk s ((List.range' n (d + 1)).map fun i => .create i 0 0 i) := by
  induction d generalizing s n with
  | zero =>
    intro h
    have hs := hf.enabled (by omega)
    have hroom : HasRoom s (.create n 0 0 n) := (hf.inv.limitOk_iff hs).1 (h _ hs).1
    unfold HasRoom at hroom
    rw [hf.length] at hroom
    omega
  | succ d ih =>
    intro h
    rw [List.range'_succ, List.map_cons] at h
    exact ih (hf.create (by omega)) (by omega) (h _ (hf.enabled (by omega))).2

/-- A hundred contexts on one virtual device -/
theorem limit_not : ¬ ∀ (parent : ℕ → Option ℕ) (handle : ℕ → RtxGhandle) (ops : List LimitOp),
    Each limitStep LimitOk (gschedInit parent handle) ops := by
  intro h
  have hf : Filled (gschedInit (fun _ => some 0) fun _ => ⟨0, 0, 0, 0⟩) 0 :=
    ⟨gschedInit_limit _ _, rfl, fun _ hh => absurd hh List.not_mem_nil, fun _ _ => rfl, rfl⟩
  exact hf.not_ok (by decide : 0 + 99 = gdevContextMaxCount - 1) (h _ _ _)

end Resch
