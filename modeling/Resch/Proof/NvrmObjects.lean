import Resch.Lib.Ledger
import Resch.Proof.NvrmHandle
import Resch.Spec.NvrmObjects

/-!
# What the objects of the driver hold

A request that is answered gets something from the kernel, or gives it back. What is held is what
has been gotten and not given back, and the handles of the chain.

* `nvrmVspaceCreate_owns`, `nvrmBoCreate_owns`, `nvrmChannelCreateIb_owns`, `nvrmEngCreate_owns`: a
  function that creates an object ends with what the object is made of, or else with nothing.
* `nvrmVspaceDestroy_owns`, `nvrmBoDestroy_owns`, `nvrmChannelDestroy_owns`: a function that
  destroys an object gives all of that back.
* `nvrmBoDestroy_unmapped`: but for a buffer that has been unmapped before, whose mapping is given back
  twice.
-/

namespace Resch

open Lib

/-- What the kernel gives to the program. -/
inductive NvrmResource
  | object (parent handle : ℕ)
  | vspaceMapping (dev vspace handle : ℕ)
  | hostMapping (subdev handle foffset : ℕ)
  | mapping (addr : ℕ)
  | device (gpuId : ℕ)
  | file (fd : ℕ)
  deriving DecidableEq

inductive NvrmEffect
  | nothing
  | gets (r : NvrmResource)
  | gives (r : NvrmResource)

/-- What a request gets or gives, given the answer. What is given back is gone even if the kernel
refuses it, since nobody tries again. -/
def NvrmRequest.effect : NvrmRequest → Option ℕ → NvrmEffect
  | .openFile, some fd => .gets (.file fd)
  | .closeFile fd, _ => .gives (.file fd)
  | .createVspace parent handle _ _ _, some _ => .gets (.object parent handle)
  | .createDma parent handle _ _ _ _, some _ => .gets (.object parent handle)
  | .memory parent _ handle _ _ _ _, some _ => .gets (.object parent handle)
  | .create parent handle _ _, some _ => .gets (.object parent handle)
  | .destroy parent handle, _ => .gives (.object parent handle)
  | .vspaceMap dev vspace handle _ _, some _ => .gets (.vspaceMapping dev vspace handle)
  | .vspaceUnmap dev vspace handle, _ => .gives (.vspaceMapping dev vspace handle)
  | .hostMap subdev handle _ _, some foffset => .gets (.hostMapping subdev handle foffset)
  | .hostUnmap subdev handle foffset, _ => .gives (.hostMapping subdev handle foffset)
  | .mmap _ _ _, some addr => .gets (.mapping addr)
  | .munmap addr _, _ => .gives (.mapping addr)
  | .enableDevice gpuId, some _ => .gets (.device gpuId)
  | .disableDevice gpuId, _ => .gives (.device gpuId)
  | _, _ => .nothing

/-- What has been gotten and not given back -/
def heldAfter : List NvrmEvent → List NvrmResource
  | [] => []
  | e :: trace =>
    match e.request.effect e.answer with
    | .nothing => heldAfter trace
    | .gets r => r :: heldAfter trace
    | .gives r => (heldAfter trace).erase r

/-- Only what is held is given back. -/
def GivesHeld : List NvrmEvent → Prop
  | [] => True
  | e :: trace =>
    GivesHeld trace ∧ ∀ r, e.request.effect e.answer = .gives r → r ∈ heldAfter trace

/-- The account of handles, on the left, and of what the kernel has given, on the right -/
def nvrmAccount (Allowed : NvrmAbort → Prop) : Account NvrmContext (ℕ ⊕ NvrmResource) NvrmAbort where
  held s := Multiset.ofList (s.hchain.map Sum.inl) + Multiset.ofList ((heldAfter s.trace).map Sum.inr)
  Good s := ChainInOrder s.hchain ∧ GivesHeld s.trace
  Allowed := Allowed

variable {answer : List NvrmEvent → NvrmRequest → Option ℕ} {Allowed : NvrmAbort → Prop}
  {r : NvrmRequest} {x : NvrmResource} {g : ℕ → NvrmResource} {handle : ℕ}

/-! ## Requests and handles -/

/-- What is held before and after a request, as far as it is concerned -/
def NvrmEffect.Turns : NvrmEffect → Multiset (ℕ ⊕ NvrmResource) → Multiset (ℕ ⊕ NvrmResource) → Prop
  | .nothing, P, Q => P = Q
  | .gets x, P, Q => {Sum.inr x} + P = Q
  | .gives x, P, Q => P = {Sum.inr x} + Q

/-- **A request** has the effect that it says. -/
theorem ask_owns {P : Multiset (ℕ ⊕ NvrmResource)} {Q : Option ℕ → Multiset (ℕ ⊕ NvrmResource)}
    (h : ∀ a, (r.effect a).Turns P (Q a)) : Owns (nvrmAccount Allowed) P (ask answer r) Q := by
  rintro s F ⟨hchain, htrace⟩ hF
  refine ⟨fun e he => ?_, fun a s' hok => ?_⟩
  · cases he
  · obtain ⟨rfl, rfl⟩ := Prod.mk.inj (Except.ok.inj hok)
    have hturn := h (answer s.trace r)
    simp only [nvrmAccount, heldAfter, GivesHeld] at hF ⊢
    cases heff : r.effect (answer s.trace r) with
    | nothing =>
      rw [heff] at hturn
      refine ⟨⟨hchain, htrace, fun x hx => ?_⟩, ?_⟩
      · cases hx
      · rw [← hturn]
        exact hF
    | gets x =>
      rw [heff] at hturn
      refine ⟨⟨hchain, htrace, fun x hx => ?_⟩, ?_⟩
      · cases hx
      · rw [← hturn, Multiset.add_assoc, ← hF, List.map_cons, ← Multiset.cons_coe,
          Multiset.add_cons, Multiset.singleton_add]
    | gives x =>
      rw [heff] at hturn
      have hmem : x ∈ heldAfter s.trace := by
        have hx : Sum.inr x ∈ P + F := by
          rw [hturn]
          simp
        rw [← hF] at hx
        simpa using hx
      refine ⟨⟨hchain, htrace, fun y hy => ?_⟩, ?_⟩
      · cases hy
        exact hmem
      · have hperm := List.perm_cons_erase hmem
        have hcoe := Multiset.coe_eq_coe.2 (hperm.map (Sum.inr (α := ℕ)))
        rwa [hturn, Multiset.add_assoc, hcoe, List.map_cons, ← Multiset.cons_coe, Multiset.add_cons,
          Multiset.singleton_add, Multiset.cons_inj_right] at hF

theorem ask_gets (hsome : ∀ v, r.effect (some v) = .gets (g v)) (hnone : r.effect none = .nothing) :
    Owns (nvrmAccount Allowed) 0 (ask answer r) fun a => a.elim 0 fun v => {Sum.inr (g v)} := by
  apply ask_owns
  intro a
  cases a with
  | none =>
    rw [hnone]
    exact rfl
  | some v =>
    rw [hsome]
    exact add_zero _

theorem ask_nothing (h : ∀ a, r.effect a = .nothing) :
    Owns (nvrmAccount Allowed) 0 (ask answer r) fun _ => 0 := by
  apply ask_owns
  intro a
  rw [h]
  exact rfl

theorem request_nothing (h : ∀ a, r.effect a = .nothing) :
    Owns (nvrmAccount Allowed) 0 (request answer r) fun _ => 0 :=
  (ask_nothing h).bind fun _ => .pure rfl

theorem request_gives (h : ∀ a, r.effect a = .gives x) :
    Owns (nvrmAccount Allowed) {Sum.inr x} (request answer r) fun _ => 0 := by
  have hask : Owns (nvrmAccount Allowed) {Sum.inr x} (ask answer r) fun _ => 0 := by
    apply ask_owns
    intro a
    rw [h]
    exact (add_zero _).symm
  exact hask.bind fun _ => .pure rfl

/-- **An allocation** gets a handle. -/
theorem handleAlloc_owns (hout : Allowed .outOfHandles) :
    Owns (nvrmAccount Allowed) 0 handleAlloc fun handle => {Sum.inl handle} := by
  rintro s F ⟨hchain, htrace⟩ hF
  unfold handleAlloc
  cases halloc : nvrmHandleAlloc s.hchain with
  | error e =>
    refine ⟨fun e' he => ?_, fun a s' hok => ?_⟩
    · cases he
      unfold nvrmHandleAlloc at halloc
      split at halloc
      · cases halloc
        exact hout
      · cases halloc
    · cases hok
  | ok r =>
    refine ⟨fun e' he => ?_, fun a s' hok => ?_⟩
    · cases he
    · obtain ⟨rfl, rfl⟩ := Prod.mk.inj (Except.ok.inj hok)
      obtain ⟨hnot, -, -, hin, -, hmem⟩ := nvrmHandleAlloc_ok hchain halloc
      refine ⟨⟨hin, htrace⟩, ?_⟩
      have hperm : r.2.Perm (r.1 :: s.hchain) := by
        refine (List.perm_ext_iff_of_nodup hin.nodup ?_).2 fun m => ?_
        · exact List.nodup_cons.2 ⟨hnot, hchain.nodup⟩
        · rw [hmem, List.mem_cons]
      have hcoe := Multiset.coe_eq_coe.2 (hperm.map (Sum.inl (β := NvrmResource)))
      simp only [nvrmAccount] at hF ⊢
      rw [zero_add] at hF
      rw [hcoe, List.map_cons, ← Multiset.cons_coe, Multiset.cons_add, hF,
        Multiset.singleton_add]

/-- **A handle that is held** can be given back. -/
theorem handleFree_owns :
    Owns (nvrmAccount Allowed) {Sum.inl handle} (handleFree handle) fun _ => 0 := by
  rintro s F ⟨hchain, htrace⟩ hF
  have hmem : handle ∈ s.hchain := by
    have hx : Sum.inl handle ∈ ({Sum.inl handle} + F : Multiset (ℕ ⊕ NvrmResource)) := by simp
    rw [← hF] at hx
    simpa [nvrmAccount] using hx
  unfold handleFree
  rw [nvrmHandleFree_eq hchain.nodup, if_pos hmem]
  refine ⟨fun e' he => ?_, fun a s' hok => ?_⟩
  · cases he
  · obtain ⟨-, rfl⟩ := Prod.mk.inj (Except.ok.inj hok)
    refine ⟨⟨hchain.erase, htrace⟩, ?_⟩
    have hperm := List.perm_cons_erase hmem
    have hcoe := Multiset.coe_eq_coe.2 (hperm.map (Sum.inl (β := NvrmResource)))
    simp only [nvrmAccount] at hF ⊢
    rw [hcoe, List.map_cons, ← Multiset.cons_coe, Multiset.cons_add, Multiset.singleton_add,
      Multiset.cons_inj_right] at hF
    rw [hF, zero_add]

/-! ## Address spaces -/

section

variable (dev : NvrmDevice) (vas : NvrmVspace) (bo : NvrmBo) (chan : NvrmChannel)

/-- A handle, or what the kernel gives, is held. -/
abbrev ownHandle (handle : ℕ) : Multiset (ℕ ⊕ NvrmResource) := {Sum.inl handle}

abbrev own (x : NvrmResource) : Multiset (ℕ ⊕ NvrmResource) := {Sum.inr x}

/-- What an address space is made of -/
def NvrmVspace.owned : Multiset (ℕ ⊕ NvrmResource) :=
  own (.object vas.ovas vas.odma) + (own (.object dev.odev vas.ovas) +
    (ownHandle vas.odma + (ownHandle vas.ovas + 0)))

theorem nvrmVspaceCreate_owns (hout : Allowed .outOfHandles) :
    Owns (nvrmAccount Allowed) 0 (nvrmVspaceCreate answer dev) fun v => v.elim 0 (·.owned dev) := by
  unfold nvrmVspaceCreate
  refine (ask_nothing fun a => rfl).get fun a => ?_
  cases a with
  | none => exact .pure (add_zero 0)
  | some _ =>
    rw [zero_add]
    refine (handleAlloc_owns hout).get fun ovas => (handleAlloc_owns hout).get fun odma => ?_
    refine (ask_gets (fun _ => rfl) rfl).get fun a => ?_
    cases a with
    | none =>
      -- `out_vspace`
      refine .of_eq (zero_add _) ?_
      refine handleFree_owns.give fun _ => handleFree_owns.give fun _ => .pure rfl
    | some limit =>
      refine (ask_gets (fun _ => rfl) rfl).get fun a => ?_
      cases a with
      | none =>
        -- `out_dma`
        refine .of_eq (zero_add _) ?_
        refine (request_gives fun _ => rfl).give fun _ => ?_
        refine handleFree_owns.give fun _ => handleFree_owns.give fun _ => .pure rfl
      | some _ => exact .pure rfl

theorem nvrmVspaceDestroy_owns :
    Owns (nvrmAccount Allowed) (vas.owned dev) (nvrmVspaceDestroy answer dev vas) fun _ => 0 := by
  unfold nvrmVspaceDestroy NvrmVspace.owned
  refine (request_gives fun _ => rfl).give fun _ => (request_gives fun _ => rfl).give fun _ => ?_
  exact handleFree_owns.give fun _ => handleFree_owns.conseq rfl fun _ => rfl

/-! ## Buffers -/

/-- The mapping of a buffer into the program -/
def NvrmBo.mapped : Multiset (ℕ ⊕ NvrmResource) :=
  bo.host.elim 0 fun m => own (.mapping m.2) + own (.hostMapping dev.osubdev bo.handle m.1)

/-- What a buffer is made of -/
def NvrmBo.owned : Multiset (ℕ ⊕ NvrmResource) :=
  bo.mapped dev + (own (.vspaceMapping dev.odev bo.vas.odma bo.handle) +
    (own (.object dev.odev bo.handle) + (ownHandle bo.handle + 0)))

theorem nvrmBoCreate_owns (hout : Allowed .outOfHandles) (size : ℕ) (sysram : Bool) :
    Owns (nvrmAccount Allowed) 0 (nvrmBoCreate answer dev vas size sysram) fun b =>
      b.elim 0 (·.owned dev) := by
  unfold nvrmBoCreate
  refine (ask_nothing fun a => rfl).get fun a => ?_
  cases a with
  | none => exact .pure (add_zero 0)
  | some _ =>
    rw [zero_add]
    refine (handleAlloc_owns hout).get fun handle => (ask_gets (fun _ => rfl) rfl).get fun a => ?_
    cases a with
    | none =>
      -- `out_bo`
      refine .of_eq (zero_add _) ?_
      exact handleFree_owns.give fun _ => .pure rfl
    | some _ =>
      refine (ask_gets (fun _ => rfl) rfl).get fun a => ?_
      cases a with
      | none =>
        -- `out_map`
        refine .of_eq (zero_add _) ?_
        refine (request_gives fun _ => rfl).give fun _ => handleFree_owns.give fun _ => .pure rfl
      | some gpuAddr => exact .pure (zero_add _).symm

/-- The buffer that comes back is the one that was given, mapped or not. -/
theorem nvrmBoHostMap_owns :
    Owns (nvrmAccount Allowed) (bo.owned dev) (nvrmBoHostMap answer dev bo) (·.owned dev) := by
  unfold nvrmBoHostMap
  cases hhost : bo.host with
  | some m => exact .pure rfl
  | none =>
    refine (ask_gets (fun _ => rfl) rfl).get fun a => ?_
    cases a with
    | none => exact .pure (zero_add _)
    | some foffset =>
      refine (ask_gets (fun _ => rfl) rfl).get fun a => ?_
      cases a with
      | none =>
        refine .of_eq (zero_add _) ?_
        exact (request_gives fun _ => rfl).give fun _ => .pure rfl
      | some addr =>
        apply Owns.pure
        unfold NvrmBo.owned NvrmBo.mapped
        rw [hhost]
        simp only [Option.elim_some, Option.elim_none, zero_add, add_assoc]

theorem nvrmBoHostUnmap_owns :
    Owns (nvrmAccount Allowed) (bo.mapped dev) (nvrmBoHostUnmap answer dev bo) fun _ => 0 := by
  unfold nvrmBoHostUnmap NvrmBo.mapped
  cases hhost : bo.host with
  | none => exact .pure rfl
  | some m =>
    exact (request_gives fun _ => rfl).give fun _ => request_gives fun _ => rfl

/-- **A buffer that has been unmapped** is unmapped once more when it is destroyed, since it keeps its
`mmap`: the address is then given back although it is not held. -/
theorem nvrmBoDestroy_unmapped {m : ℕ × ℕ} (hhost : bo.host = some m) {s s₁ s₂ : NvrmContext}
    (hcount : (heldAfter s.trace).count (.mapping m.2) ≤ 1)
    (hunmap : nvrmBoHostUnmap answer dev bo s = .ok ((), s₁))
    (hdestroy : nvrmBoDestroy answer dev bo s₁ = .ok ((), s₂)) : ¬ GivesHeld s₂.trace := by
  -- the requests of the two calls, in the order in which they are made
  have hfirst : nvrmBoHostUnmap answer dev bo s = (do
      request answer (.munmap m.2 bo.size)
      request answer (.hostUnmap dev.osubdev bo.handle m.1)) s := by
    unfold nvrmBoHostUnmap
    rw [hhost]
  have hsecond : nvrmBoDestroy answer dev bo s₁ = (do
      request answer (.munmap m.2 bo.size)
      request answer (.hostUnmap dev.osubdev bo.handle m.1)
      request answer (.vspaceUnmap dev.odev bo.vas.odma bo.handle)
      request answer (.destroy dev.odev bo.handle)
      handleFree bo.handle) s₁ := by
    unfold nvrmBoDestroy nvrmBoHostUnmap
    rw [hhost]
    rfl
  rw [hfirst] at hunmap
  cases hunmap
  rw [hsecond] at hdestroy
  intro hgives
  have hmem : NvrmResource.mapping m.2 ∈ ((heldAfter s.trace).erase (.mapping m.2)).erase
      (.hostMapping dev.osubdev bo.handle m.1) := by
    change (nvrmHandleFree bo.handle s.hchain).map _ = _ at hdestroy
    cases hfree : nvrmHandleFree bo.handle s.hchain with
    | error e =>
      rw [hfree] at hdestroy
      cases hdestroy
    | ok hchain =>
      rw [hfree] at hdestroy
      cases hdestroy
      exact hgives.1.1.1.2 _ rfl
  have hpos := List.count_pos_iff.2 (List.mem_of_mem_erase hmem)
  rw [List.count_erase_self] at hpos
  omega

theorem nvrmBoDestroy_owns :
    Owns (nvrmAccount Allowed) (bo.owned dev) (nvrmBoDestroy answer dev bo) fun _ => 0 := by
  unfold nvrmBoDestroy NvrmBo.owned
  refine (nvrmBoHostUnmap_owns dev bo).give fun _ => (request_gives fun _ => rfl).give fun _ => ?_
  exact (request_gives fun _ => rfl).give fun _ => handleFree_owns.conseq rfl fun _ => rfl

/-! ## Channels and engines -/

/-- What an engine of a channel is made of -/
def NvrmChannel.engine (eng : ℕ) : Multiset (ℕ ⊕ NvrmResource) :=
  own (.object chan.ofifo eng) + (ownHandle eng + 0)

/-- What a channel is made of -/
def NvrmChannel.owned : Multiset (ℕ ⊕ NvrmResource) :=
  (chan.echain.map chan.engine).sum + (own (.mapping chan.fifoMmap) +
    (own (.hostMapping dev.osubdev chan.ofifo chan.fifoFoffset) + (own (.object dev.odev chan.ofifo) +
      (own (.object chan.oerr chan.oedma) + (own (.object dev.odev chan.oerr) +
        (ownHandle chan.oerr + (ownHandle chan.oedma + (ownHandle chan.ofifo + 0))))))))

theorem nvrmChannelCreateIb_owns (hout : Allowed .outOfHandles) (cls : ℕ) (ib : NvrmBo) :
    Owns (nvrmAccount Allowed) 0 (nvrmChannelCreateIb answer dev vas cls ib) fun c =>
      c.elim 0 (·.owned dev) := by
  unfold nvrmChannelCreateIb
  refine (ask_nothing fun a => rfl).get fun a => ?_
  cases a with
  | none => exact .pure (add_zero 0)
  | some _ =>
    rw [zero_add]
    refine (handleAlloc_owns hout).get fun oerr => (handleAlloc_owns hout).get fun oedma => ?_
    refine (handleAlloc_owns hout).get fun ofifo => ?_
    -- in the order in which they are given back
    have horder : ownHandle ofifo + (ownHandle oedma + (ownHandle oerr + 0)) =
        ownHandle oerr + (ownHandle oedma + (ownHandle ofifo + 0)) := by abel
    refine .of_eq horder ?_
    have houtErr : Owns (nvrmAccount Allowed) (ownHandle oerr + (ownHandle oedma + (ownHandle ofifo + 0)))
        (do handleFree oerr; handleFree oedma; handleFree ofifo; return none : Nvrm (Option NvrmChannel))
        fun c => c.elim 0 (·.owned dev) :=
      handleFree_owns.give fun _ => handleFree_owns.give fun _ => handleFree_owns.give fun _ => .pure rfl
    have hdestroy (o h : ℕ) : Owns (nvrmAccount Allowed) _ (request answer (.destroy o h)) fun _ => 0 :=
      request_gives fun _ => rfl
    have houtEdma := (hdestroy dev.odev oerr).give fun _ => houtErr
    have houtFifo := (hdestroy oerr oedma).give fun _ => houtEdma
    have houtFifoMap := (hdestroy dev.odev ofifo).give fun _ => houtFifo
    refine (ask_gets (fun _ => rfl) rfl).get fun a => ?_
    cases a with
    | none => exact .of_eq (zero_add _) houtErr
    | some _ =>
      refine (ask_gets (fun _ => rfl) rfl).get fun a => ?_
      cases a with
      | none => exact .of_eq (zero_add _) houtEdma
      | some _ =>
        refine (ask_gets (fun _ => rfl) rfl).get fun a => ?_
        cases a with
        | none => exact .of_eq (zero_add _) houtFifo
        | some _ =>
          refine (ask_gets (fun _ => rfl) rfl).get fun a => ?_
          cases a with
          | none => exact .of_eq (zero_add _) houtFifoMap
          | some foffset =>
            refine (ask_gets (fun _ => rfl) rfl).get fun a => ?_
            cases a with
            | none =>
              refine .of_eq (zero_add _) ?_
              exact (request_gives fun _ => rfl).give fun _ => houtFifoMap
            | some addr => exact .pure (zero_add _).symm

theorem nvrmChannelActivate_owns :
    Owns (nvrmAccount Allowed) 0 (nvrmChannelActivate answer chan) fun _ => 0 := by
  unfold nvrmChannelActivate
  refine .ite (fun _ => ?_) fun _ => .pure rfl
  exact (ask_nothing fun a => rfl).get fun a => .pure (add_zero 0)

theorem nvrmEngCreate_owns (hout : Allowed .outOfHandles) (cls : ℕ) :
    Owns (nvrmAccount Allowed) (chan.owned dev) (nvrmEngCreate answer chan cls) fun c =>
      (c.getD chan).owned dev := by
  unfold nvrmEngCreate
  refine (ask_nothing fun a => rfl).get fun a => ?_
  cases a with
  | none => exact .pure (zero_add _)
  | some _ =>
    rw [zero_add]
    refine (handleAlloc_owns hout).get fun handle => (ask_gets (fun _ => rfl) rfl).get fun a => ?_
    cases a with
    | none =>
      refine .of_eq (zero_add _) ?_
      exact handleFree_owns.give fun _ => .pure rfl
    | some _ =>
      apply Owns.pure
      unfold NvrmChannel.owned
      rw [Option.getD_some, List.map_cons, List.sum_cons]
      unfold NvrmChannel.engine
      simp only [Option.elim_some, add_zero, add_assoc]

theorem nvrmEngDestroy_owns (eng : ℕ) :
    Owns (nvrmAccount Allowed) (chan.engine eng) (nvrmEngDestroy answer chan eng) fun _ => 0 := by
  unfold nvrmEngDestroy NvrmChannel.engine
  exact (request_gives fun _ => rfl).give fun _ => handleFree_owns.conseq rfl fun _ => rfl

theorem nvrmChannelDestroy_owns :
    Owns (nvrmAccount Allowed) (chan.owned dev) (nvrmChannelDestroy answer dev chan) fun _ => 0 := by
  unfold nvrmChannelDestroy NvrmChannel.owned
  refine (Owns.forM fun eng _ => nvrmEngDestroy_owns chan eng).give fun _ => ?_
  refine (request_gives fun _ => rfl).give fun _ => (request_gives fun _ => rfl).give fun _ => ?_
  refine (request_gives fun _ => rfl).give fun _ => (request_gives fun _ => rfl).give fun _ => ?_
  refine (request_gives fun _ => rfl).give fun _ => handleFree_owns.give fun _ => ?_
  exact handleFree_owns.give fun _ => handleFree_owns.conseq rfl fun _ => rfl

end

end Resch
