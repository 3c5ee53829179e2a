import Resch.Proof.NvrmObjects
import Resch.Spec.NvrmSession

/-!
# Sessions with the driver lose nothing

* `nvrmDeviceOpen_owns`, `nvrmCtxNewObjects_owns`: all of it, or nothing.
* `nvrm_ctx_new_atomic`: in any state, `nvrm_ctx_new` fails and leaves everything as it was, or adds what the
  context is made of.
* `nvrm_session_exact`: whatever the kernel answers, what is held is what the objects of the client
  are made of.
* `rtxNvrm_leak`: after `rtx_nvrm_close`, the fence buffer is left.
-/

namespace Resch

open Lib

variable {answer : List NvrmEvent → NvrmRequest → Option ℕ} {Allowed : NvrmAbort → Prop}
  {devs : List (Option ℕ)} {dev : NvrmDevice}

/-! ## Devices -/

/-- What an open device is made of -/
def NvrmDevice.owned (cid : ℕ) (dev : NvrmDevice) : Multiset (ℕ ⊕ NvrmResource) :=
  own (.object dev.odev dev.osubdev) + (ownHandle dev.osubdev + (own (.object cid dev.odev) +
    (ownHandle dev.odev + (own (.file dev.fd) + (own (.device dev.gpuId) + 0)))))

theorem nvrmOpenFile_owns :
    Owns (nvrmAccount Allowed) 0 (nvrmOpenFile answer) fun f => f.elim 0 fun fd => own (.file fd) := by
  unfold nvrmOpenFile
  refine (ask_gets (fun _ => rfl) rfl).get fun a => ?_
  cases a with
  | none => exact .pure rfl
  | some fd =>
    refine (ask_nothing fun a => rfl).get fun a => ?_
    cases a with
    | none =>
      refine .of_eq (zero_add _) ?_
      exact (request_gives fun _ => rfl).give fun _ => .pure rfl
    | some _ => exact .pure (zero_add _)

/-- **A device** is opened, or everything is as before. -/
theorem nvrmDeviceOpen_owns (hout : Allowed .outOfHandles) (hdev : Allowed .noDevice) (cid idx : ℕ) :
    Owns (nvrmAccount Allowed) 0 (nvrmDeviceOpen answer devs cid idx) fun d =>
      d.elim 0 (·.owned cid) := by
  unfold nvrmDeviceOpen
  cases nvrmXlatDevice devs idx 0 with
  | none => exact .throw hdev
  | some r =>
    refine (ask_gets (fun _ => rfl) rfl).get fun a => ?_
    cases a with
    | none => exact .pure rfl
    | some _ =>
      have houtOpen : Owns (nvrmAccount Allowed) (own (.device r.2) + 0)
          (do request answer (.disableDevice r.2); return none : Nvrm (Option NvrmDevice))
          fun d => d.elim 0 (·.owned cid) :=
        (request_gives fun _ => rfl).give fun _ => .pure rfl
      refine nvrmOpenFile_owns.get fun f => ?_
      cases f with
      | none => exact .of_eq (zero_add _) houtOpen
      | some fd =>
        have hclose : Owns (nvrmAccount Allowed) _ (request answer (.closeFile fd)) fun _ => 0 :=
          request_gives fun _ => rfl
        have houtDev := hclose.give fun _ => houtOpen
        refine (handleAlloc_owns hout).get fun odev => (ask_gets (fun _ => rfl) rfl).get fun a => ?_
        cases a with
        | none =>
          refine .of_eq (zero_add _) ?_
          exact handleFree_owns.give fun _ => houtDev
        | some _ =>
          refine (handleAlloc_owns hout).get fun osubdev => ?_
          refine (ask_gets (fun _ => rfl) rfl).get fun a => ?_
          cases a with
          | none =>
            refine .of_eq (zero_add _) (handleFree_owns.give fun _ => ?_)
            exact (request_gives fun _ => rfl).give fun _ => handleFree_owns.give fun _ => houtDev
          | some _ => exact .pure rfl

theorem nvrmDeviceClose_owns (cid : ℕ) :
    Owns (nvrmAccount Allowed) (dev.owned cid) (nvrmDeviceClose answer cid dev) fun _ => 0 := by
  unfold nvrmDeviceClose NvrmDevice.owned
  refine (request_nothing fun _ => rfl).get fun _ => .of_eq (zero_add _) ?_
  refine (request_gives fun _ => rfl).give fun _ => handleFree_owns.give fun _ => ?_
  refine (request_gives fun _ => rfl).give fun _ => handleFree_owns.give fun _ => ?_
  refine (request_gives fun _ => rfl).give fun _ => ?_
  exact (request_gives fun _ => rfl).conseq rfl fun _ => rfl

/-! ## Contexts -/

/-- What `nvrm_ctx_new` sets up is made of -/
def NvrmCtx.owned (dev : NvrmDevice) (ctx : NvrmCtx) : Multiset (ℕ ⊕ NvrmResource) :=
  ctx.notifyBo.owned dev + (ctx.fenceBo.owned dev + (ctx.pctx.owned dev + (ctx.pbBo.owned dev +
    (ctx.ibBo.owned dev + 0))))

/-- **`nvrm_ctx_new`** sets up all of the context, or nothing, whatever the kernel answers. -/
theorem nvrmCtxNewObjects_owns (hout : Allowed .outOfHandles) (nvas : NvrmVspace) (chipset : ℕ) :
    Owns (nvrmAccount Allowed) 0 (nvrmCtxNewObjects answer dev nvas chipset) fun c =>
      c.elim 0 (·.owned dev) := by
  unfold nvrmCtxNewObjects
  refine (request_nothing fun _ => rfl).get fun _ => ?_
  refine .of_eq (zero_add 0) ((nvrmBoCreate_owns dev nvas hout _ _).get fun b => ?_)
  cases b with
  | none => exact .pure rfl
  | some ibBo =>
    refine (nvrmBoHostMap_owns dev ibBo).call rfl fun ibBo => ?_
    -- what each label gives back, from the last one up
    have hfailPb : Owns (nvrmAccount Allowed) (ibBo.owned dev + 0)
        (do nvrmBoDestroy answer dev ibBo; return none : Nvrm (Option NvrmCtx))
        fun c => c.elim 0 (·.owned dev) :=
      (nvrmBoDestroy_owns dev ibBo).give fun _ => .pure rfl
    refine (nvrmBoCreate_owns dev nvas hout _ _).get fun b => ?_
    cases b with
    | none => exact .of_eq (zero_add _) hfailPb
    | some pbBo =>
      refine (nvrmBoHostMap_owns dev pbBo).call rfl fun pbBo => ?_
      have hdestroyPb : Owns (nvrmAccount Allowed) _ (nvrmBoDestroy answer dev pbBo) fun _ => 0 :=
        nvrmBoDestroy_owns dev pbBo
      have hfailChan := hdestroyPb.give fun _ => hfailPb
      refine (nvrmChannelCreateIb_owns dev nvas hout _ _).get fun c => ?_
      cases c with
      | none => exact .of_eq (zero_add _) hfailChan
      | some chan =>
        refine (nvrmEngCreate_owns dev chan hout _).call rfl fun c => ?_
        cases c with
        | none => exact (nvrmChannelDestroy_owns dev chan).give fun _ => hfailChan
        | some chan =>
          have hdestroyChan : Owns (nvrmAccount Allowed) _ (nvrmChannelDestroy answer dev chan)
              fun _ => 0 := nvrmChannelDestroy_owns dev chan
          have hfailActivate := hdestroyChan.give fun _ => hfailChan
          refine (nvrmChannelActivate_owns chan).get fun active => .of_eq (zero_add _) ?_
          refine .ite (fun _ => ?_) fun _ => hfailActivate
          refine (nvrmBoCreate_owns dev nvas hout _ _).get fun b => ?_
          cases b with
          | none => exact .of_eq (zero_add _) hfailActivate
          | some fenceBo =>
            refine (nvrmBoHostMap_owns dev fenceBo).call rfl fun fenceBo => ?_
            refine (nvrmBoCreate_owns dev nvas hout _ _).get fun b => ?_
            cases b with
            | none =>
              refine .of_eq (zero_add _) ?_
              exact (nvrmBoDestroy_owns dev fenceBo).give fun _ => hfailActivate
            | some notifyBo => exact .pure rfl

/-- The two sides of the account -/
theorem held_inj {l l' : List ℕ} {k k' : List NvrmResource}
    (h : Multiset.ofList (l.map Sum.inl) + Multiset.ofList (k.map Sum.inr) =
      Multiset.ofList (l'.map Sum.inl) + Multiset.ofList (k'.map Sum.inr)) : l.Perm l' ∧ k.Perm k' := by
  rw [Multiset.coe_add, Multiset.coe_add, Multiset.coe_eq_coe] at h
  constructor
  · have hleft := h.filterMap Sum.getLeft?
    simpa [List.filterMap_append, List.filterMap_map, Function.comp_def] using hleft
  · have hright := h.filterMap Sum.getRight?
    simpa [List.filterMap_append, List.filterMap_map, Function.comp_def] using hright

/-- **All or nothing.** In any state and whatever the kernel answers, `nvrm_ctx_new` either fails and
leaves the handles in use and what the kernel has given as they were, or adds what the context is
made of. -/
theorem nvrm_ctx_new_atomic (answer : List NvrmEvent → NvrmRequest → Option ℕ) (dev : NvrmDevice)
    (nvas : NvrmVspace) (chipset : ℕ) {s : NvrmContext} (hchain : ChainInOrder s.hchain)
    (htrace : GivesHeld s.trace) :
    (∀ e, nvrmCtxNewObjects answer dev nvas chipset s = .error e → e = .outOfHandles) ∧
      (∀ s', nvrmCtxNewObjects answer dev nvas chipset s = .ok (none, s') →
        s'.hchain = s.hchain ∧ GivesHeld s'.trace ∧ (heldAfter s'.trace).Perm (heldAfter s.trace)) ∧
      ∀ ctx s', nvrmCtxNewObjects answer dev nvas chipset s = .ok (some ctx, s') →
        GivesHeld s'.trace ∧
          Multiset.ofList (s'.hchain.map Sum.inl) + Multiset.ofList ((heldAfter s'.trace).map Sum.inr) =
            ctx.owned dev + (Multiset.ofList (s.hchain.map Sum.inl) +
              Multiset.ofList ((heldAfter s.trace).map Sum.inr)) := by
  have howns : Owns (nvrmAccount fun e => e = .outOfHandles) 0
      (nvrmCtxNewObjects answer dev nvas chipset) fun c => c.elim 0 (·.owned dev) := by
    refine nvrmCtxNewObjects_owns ?_ nvas chipset
    rfl
  obtain ⟨herr, hok⟩ := howns s _ ⟨hchain, htrace⟩ (zero_add _).symm
  refine ⟨herr, fun s' hs => ?_, fun ctx s' hs => ?_⟩
  · obtain ⟨⟨hchain', htrace'⟩, hheld⟩ := hok none s' hs
    have hheld' := hheld.trans (zero_add _)
    obtain ⟨hperm, hperm'⟩ := held_inj hheld'
    refine ⟨?_, htrace', hperm'⟩
    exact hperm.eq_of_pairwise (fun a b _ _ hab hba => absurd hab (Nat.lt_asymm hba)) hchain'.1 hchain.1
  · obtain ⟨⟨-, htrace'⟩, hheld⟩ := hok (some ctx) s' hs
    exact ⟨htrace', hheld⟩

/-- A kernel that does not give the last buffer -/
theorem nvrm_ctx_new_atomic_failed : ∃ s', nvrmCtxNewObjects
    (fun trace _ => if trace.length = 26 then none else some 1) ⟨7, 3, 1, 2⟩ ⟨3, 4⟩ 0xe4
      ⟨[1, 2, 3, 4], []⟩ = .ok (none, s') ∧ s'.hchain = [1, 2, 3, 4] := by
  have hfail : ((nvrmCtxNewObjects (fun trace _ => if trace.length = 26 then none else some 1)
      ⟨7, 3, 1, 2⟩ ⟨3, 4⟩ 0xe4 ⟨[1, 2, 3, 4], []⟩).toOption.any fun r => r.1.isNone) = true := by
    decide +kernel
  have hatomic := nvrm_ctx_new_atomic (fun trace _ => if trace.length = 26 then none else some 1)
    ⟨7, 3, 1, 2⟩ ⟨3, 4⟩ 0xe4 (s := ⟨[1, 2, 3, 4], []⟩) ⟨by decide, by decide⟩ trivial
  generalize nvrmCtxNewObjects _ _ _ _ _ = run at hfail hatomic ⊢
  cases run with
  | error e => cases hfail
  | ok r =>
    have hnone : r = (none, r.2) := Prod.ext (Option.isNone_iff_eq_none.1 hfail) rfl
    exact ⟨r.2, congrArg _ hnone, (hatomic.2.1 r.2 (congrArg _ hnone)).1⟩

/-! ## Clients -/

/-- What the objects of a client are made of -/
def NvrmClient.owned (dev : NvrmDevice) (c : NvrmClient) : Multiset (ℕ ⊕ NvrmResource) :=
  (c.vspaces.map (·.owned dev)).sum + ((c.bos.map (·.owned dev)).sum +
    (c.channels.map (·.owned dev)).sum)

theorem sum_map_erase {α : Type} [DecidableEq α] {l : List α} {a : α}
    (f : α → Multiset (ℕ ⊕ NvrmResource)) (h : a ∈ l) :
    (l.map f).sum = f a + ((l.erase a).map f).sum := by
  rw [((List.perm_cons_erase h).map f).sum_eq, List.map_cons, List.sum_cons]

theorem sum_map_toList {α : Type} {l : List α} (f : α → Multiset (ℕ ⊕ NvrmResource)) (o : Option α) :
    ((o.toList ++ l).map f).sum = o.elim 0 f + (l.map f).sum := by
  cases o with
  | none => exact (zero_add _).symm
  | some a => exact List.sum_cons

/-- It is not `nvrm_bo_host_unmap` of a buffer that is mapped. -/
def NvrmOp.LeavesMapped : NvrmOp → Prop
  | .boHostUnmap bo => bo.host = none
  | _ => True

/-- **One operation** of a client -/
theorem nvrmStep_owns (hout : Allowed .outOfHandles) {op : NvrmOp} (hop : op.LeavesMapped)
    (c : NvrmClient) :
    Owns (nvrmAccount Allowed) (c.owned dev) (nvrmStep answer dev c op) (·.owned dev) := by
  unfold nvrmStep
  refine .ite (fun hen => ?_) fun _ => .pure rfl
  unfold NvrmClient.owned
  cases op with
  | vspaceCreate =>
    refine (nvrmVspaceCreate_owns dev hout).get fun v => .pure ?_
    rw [sum_map_toList, add_assoc]
  | vspaceDestroy vas =>
    simp only [NvrmOp.enabled, Bool.and_eq_true, decide_eq_true_eq] at hen
    rw [sum_map_erase _ hen.1.1, add_assoc]
    exact (nvrmVspaceDestroy_owns dev vas).give fun _ => .pure rfl
  | boCreate vas size sysram =>
    refine (nvrmBoCreate_owns dev vas hout size sysram).get fun b => .pure ?_
    rw [sum_map_toList]
    abel
  | boHostMap bo =>
    rw [sum_map_erase _ (of_decide_eq_true hen), add_assoc]
    refine (nvrmBoHostMap_owns dev bo).call (add_left_comm ..) fun mapped => .pure ?_
    rw [List.map_cons, List.sum_cons]
    abel
  -- a buffer that is not mapped has no mapping to give back
  | boHostUnmap bo =>
    have hunmap : Owns (nvrmAccount Allowed) (bo.mapped dev) (nvrmBoHostUnmap answer dev bo)
        fun _ => 0 := nvrmBoHostUnmap_owns dev bo
    have hhost : bo.host = none := hop
    unfold NvrmBo.mapped at hunmap
    rw [hhost] at hunmap
    exact hunmap.get fun _ => .pure (zero_add _)
  | boDestroy bo =>
    rw [sum_map_erase _ (of_decide_eq_true hen), add_assoc]
    exact (nvrmBoDestroy_owns dev bo).call (add_left_comm ..) fun _ => .pure (zero_add _)
  | channelCreate vas cls ib =>
    refine (nvrmChannelCreateIb_owns dev vas hout cls ib).get fun chan => .pure ?_
    rw [sum_map_toList]
    abel
  | channelActivate chan => exact (nvrmChannelActivate_owns chan).get fun _ => .pure (zero_add _)
  | engCreate chan cls =>
    rw [sum_map_erase _ (of_decide_eq_true hen)]
    refine (nvrmEngCreate_owns dev chan hout cls).call (R := (c.vspaces.map (·.owned dev)).sum +
      ((c.bos.map (·.owned dev)).sum + ((c.channels.erase chan).map (·.owned dev)).sum)) (by abel)
      fun withEng => .pure ?_
    rw [List.map_cons, List.sum_cons]
    abel
  | channelDestroy chan =>
    rw [sum_map_erase _ (of_decide_eq_true hen)]
    refine (nvrmChannelDestroy_owns dev chan).call (R := (c.vspaces.map (·.owned dev)).sum +
      ((c.bos.map (·.owned dev)).sum + ((c.channels.erase chan).map (·.owned dev)).sum)) (by abel)
      fun _ => .pure (zero_add _)

theorem nvrmSession_owns (hout : Allowed .outOfHandles) (hdev : Allowed .noDevice) (cid idx : ℕ)
    {ops : List NvrmOp} (hops : ∀ op ∈ ops, op.LeavesMapped) :
    Owns (nvrmAccount Allowed) 0 (nvrmSession answer devs cid idx ops) fun r =>
      r.elim 0 fun r => r.2.owned r.1 + r.1.owned cid := by
  unfold nvrmSession
  refine (nvrmDeviceOpen_owns hout hdev cid idx).get fun d => ?_
  cases d with
  | none => exact .pure rfl
  | some dev =>
    have hstep (op : NvrmOp) (hop : op ∈ ops) (c : NvrmClient) : Owns (nvrmAccount Allowed)
        (c.owned dev) (nvrmStep answer dev c op) (·.owned dev) := nvrmStep_owns hout (hops op hop) c
    have hrun := Owns.foldlM hstep ⟨[], [], []⟩
    exact hrun.call (add_comm _ _) fun c => .pure rfl

/-- Nothing has been allocated or asked for. -/
def NvrmContext.fresh : NvrmContext := ⟨[], []⟩

theorem owns_fresh {α : Type} {m : Nvrm α} {Q : α → Multiset (ℕ ⊕ NvrmResource)}
    (h : Owns (nvrmAccount Allowed) 0 m Q) :
    (∀ e, m .fresh = .error e → Allowed e) ∧ ∀ a s, m .fresh = .ok (a, s) →
      (nvrmAccount Allowed).Good s ∧ (nvrmAccount Allowed).held s = Q a := by
  have hgood : (nvrmAccount Allowed).Good .fresh := by
    refine ⟨⟨List.Pairwise.nil, fun h hh => ?_⟩, trivial⟩
    exact absurd hh List.not_mem_nil
  obtain ⟨herr, hok⟩ := h .fresh 0 hgood rfl
  refine ⟨herr, fun a s hs => ?_⟩
  obtain ⟨hs, hheld⟩ := hok a s hs
  exact ⟨hs, by rw [hheld, add_zero]⟩

/-- **Sessions are exact.** Whatever the kernel answers, and whatever a client does with the objects
that it has, as long as it leaves it to `nvrm_bo_destroy` to unmap a mapped buffer: the handles in
use are those of its objects and of the device, each of them once; what the kernel has given and not
gotten back is what these are made of; and nothing was given back that was not held. The session is
only aborted if there are no handles left or there is no such device. -/
theorem nvrm_session_exact (answer : List NvrmEvent → NvrmRequest → Option ℕ) (devs : List (Option ℕ))
    (cid idx : ℕ) (ops : List NvrmOp) (hops : ∀ op ∈ ops, op.LeavesMapped) :
    (∀ e, nvrmSession answer devs cid idx ops .fresh = .error e → e = .outOfHandles ∨ e = .noDevice) ∧
      ∀ r s, nvrmSession answer devs cid idx ops .fresh = .ok (r, s) →
        ChainInOrder s.hchain ∧ GivesHeld s.trace ∧
          Multiset.ofList (s.hchain.map Sum.inl) + Multiset.ofList ((heldAfter s.trace).map Sum.inr) =
            r.elim 0 fun r => r.2.owned r.1 + r.1.owned cid := by
  have howns : Owns (nvrmAccount fun e => e = .outOfHandles ∨ e = .noDevice) 0
      (nvrmSession answer devs cid idx ops) fun r => r.elim 0 fun r => r.2.owned r.1 + r.1.owned cid :=
    nvrmSession_owns (.inl rfl) (.inr rfl) cid idx hops
  obtain ⟨herr, hok⟩ := owns_fresh howns
  refine ⟨herr, fun r s hs => ?_⟩
  obtain ⟨⟨hchain, htrace⟩, hheld⟩ := hok r s hs
  exact ⟨hchain, htrace, hheld⟩

/-- Before it is mapped a buffer can be unmapped; it is mapped then, and used for a channel. -/
def mappedOps : List NvrmOp :=
  [.vspaceCreate, .boCreate ⟨3, 4⟩ 4096 true, .boHostUnmap ⟨⟨3, 4⟩, 5, 4096, 10, none⟩,
    .boHostMap ⟨⟨3, 4⟩, 5, 4096, 10, none⟩,
    .channelCreate ⟨3, 4⟩ 0xa06f ⟨⟨3, 4⟩, 5, 4096, 10, some (11, 12)⟩]

theorem nvrm_session_exact_mapped : ∃ r s,
    nvrmSession (fun trace _ => some trace.length) [none, some 9] 1 0 mappedOps .fresh =
      .ok (some r, s) ∧ s.hchain = [1, 2, 3, 4, 5, 6, 7, 8] ∧ r.2.channels.length = 1 ∧
        GivesHeld s.trace := by
  have hrun : ((nvrmSession (fun trace _ => some trace.length) [none, some 9] 1 0 mappedOps
      .fresh).toOption.any fun r => r.1.any (fun r => r.2.channels.length == 1) &&
        r.2.hchain == [1, 2, 3, 4, 5, 6, 7, 8]) = true := by
    decide +kernel
  have hops : ∀ op ∈ mappedOps, op.LeavesMapped := by
    simp [mappedOps, NvrmOp.LeavesMapped]
  have hexact := nvrm_session_exact (fun trace _ => some trace.length) [none, some 9] 1 0 mappedOps hops
  generalize nvrmSession _ _ _ _ _ _ = run at hrun hexact ⊢
  cases run with
  | error e => cases hrun
  | ok r =>
    obtain ⟨r | r, s⟩ := r
    · cases hrun
    · obtain ⟨hlen, hchain⟩ := (Bool.and_eq_true ..).mp hrun
      exact ⟨r, s, rfl, eq_of_beq hchain, eq_of_beq hlen, (hexact.2 (some r) s rfl).2.1⟩

/-! ## The library -/

/-- What `rtx_nvrm_init` sets up is made of -/
def NvrmDesc.owned (desc : NvrmDesc) : Multiset (ℕ ⊕ NvrmResource) :=
  desc.notifyBo.owned desc.dev + (desc.pctx.owned desc.dev + (desc.pbBo.owned desc.dev +
    (desc.ibBo.owned desc.dev + (desc.nvas.owned desc.dev + (desc.dev.owned desc.cid +
      (own (.file desc.fdCtl) + desc.fenceBo.owned desc.dev))))))

theorem nvrmOpen_owns :
    Owns (nvrmAccount Allowed) 0 (nvrmOpen answer) fun o => o.elim 0 fun o => own (.file o.1) := by
  unfold nvrmOpen
  refine (ask_nothing fun a => rfl).get fun a => ?_
  cases a with
  | none => exact .pure rfl
  | some _ =>
    refine .of_eq (zero_add 0).symm (nvrmOpenFile_owns.call rfl fun f => ?_)
    cases f with
    | none => exact .pure rfl
    | some fdCtl =>
      have hfail : Owns (nvrmAccount Allowed) (own (.file fdCtl) + 0)
          (do request answer (.closeFile fdCtl); return none : Nvrm (Option (ℕ × ℕ)))
          fun o => o.elim 0 fun o => own (.file o.1) :=
        (request_gives fun _ => rfl).give fun _ => .pure rfl
      refine (ask_nothing fun a => rfl).get fun a => .of_eq (zero_add _) ?_
      cases a with
      | none => exact hfail
      | some cid =>
        refine (ask_nothing fun a => rfl).get fun a => .of_eq (zero_add _) ?_
        cases a with
        | none => exact hfail
        | some _ => exact .pure (add_zero _)

theorem rtxNvrmInit_owns (hAllowed : ∀ e, (∀ h, e ≠ .nonexistentHandle h) → Allowed e)
    (devId chipset : ℕ) :
    Owns (nvrmAccount Allowed) 0 (rtxNvrmInit answer devs devId chipset) fun r => r.1.owned := by
  have hout : Allowed .outOfHandles := hAllowed _ nofun
  unfold rtxNvrmInit
  refine nvrmOpen_owns.get fun o => ?_
  cases o with
  | none => exact .throw (hAllowed _ nofun)
  | some o =>
    refine (nvrmDeviceOpen_owns hout (hAllowed _ nofun) o.2 devId).get fun d => ?_
    cases d with
    | none => exact .throw (hAllowed _ nofun)
    | some dev =>
      refine (nvrmVspaceCreate_owns dev hout).get fun v => ?_
      cases v with
      | none => exact .throw (hAllowed _ nofun)
      | some nvas =>
        refine (nvrmCtxNewObjects_owns hout nvas chipset).get fun c => ?_
        cases c with
        | none => exact .throw (hAllowed _ nofun)
        | some ctx =>
          apply Owns.pure
          unfold NvrmDesc.owned
          simp only [Option.elim_some, NvrmCtx.owned, add_zero]
          abel

theorem rtxNvrmClose_owns (desc : NvrmDesc) :
    Owns (nvrmAccount Allowed) desc.owned (rtxNvrmClose answer desc) fun _ =>
      desc.fenceBo.owned desc.dev := by
  unfold rtxNvrmClose NvrmDesc.owned
  refine (nvrmBoDestroy_owns desc.dev _).give fun _ => (nvrmChannelDestroy_owns desc.dev _).give fun _ => ?_
  refine (nvrmBoDestroy_owns desc.dev _).give fun _ => (nvrmBoDestroy_owns desc.dev _).give fun _ => ?_
  refine (nvrmVspaceDestroy_owns desc.dev _).give fun _ => (nvrmDeviceClose_owns desc.cid).give fun _ => ?_
  exact (request_gives fun _ => rfl).conseq rfl fun _ => zero_add _

/-- **What `rtx_nvrm_close` leaves.** After `rtx_nvrm_init` and, if it has returned 1,
`rtx_nvrm_close`: what has not been given back is the fence buffer, which nobody destroys; for a
card that is not supported it is everything. All of the handles given back were in use. -/
theorem rtxNvrm_leak (answer : List NvrmEvent → NvrmRequest → Option ℕ) (devs : List (Option ℕ))
    (devId chipset : ℕ) :
    let run : Nvrm (NvrmDesc × Bool) := do
      let r ← rtxNvrmInit answer devs devId chipset
      if r.2 then rtxNvrmClose answer r.1
      return r
    (∀ h, run .fresh ≠ .error (.nonexistentHandle h)) ∧ ∀ r s, run .fresh = .ok (r, s) →
      ChainInOrder s.hchain ∧ GivesHeld s.trace ∧
        Multiset.ofList (s.hchain.map Sum.inl) + Multiset.ofList ((heldAfter s.trace).map Sum.inr) =
          if r.2 then r.1.fenceBo.owned r.1.dev else r.1.owned := by
  intro run
  have howns : Owns (nvrmAccount fun e => ∀ h, e ≠ .nonexistentHandle h) 0 run fun r =>
      if r.2 then r.1.fenceBo.owned r.1.dev else r.1.owned := by
    refine (rtxNvrmInit_owns (fun e he => he) devId chipset).bind fun r => ?_
    cases hr : r.2 with
    | true =>
      refine (rtxNvrmClose_owns r.1).bind fun _ => .pure ?_
      rw [if_pos hr]
    | false =>
      apply Owns.pure
      rw [if_neg (by rw [hr]; exact Bool.false_ne_true)]
  obtain ⟨herr, hok⟩ := owns_fresh howns
  refine ⟨fun h he => herr _ he h rfl, fun r s hs => ?_⟩
  obtain ⟨⟨hchain, htrace⟩, hheld⟩ := hok r s hs
  exact ⟨hchain, htrace, hheld⟩

end Resch
