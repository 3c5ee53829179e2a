import Mathlib.Data.Int.ModEq
import Resch.Spec.NvrmHandle

/-!
# Objects of the kernel driver (`nvrm_ioctl.c`, `nvrm_submthd.c`)

The program asks the kernel for objects, and maps them. `answer` says what the kernel answers to
a request after those that have been made: `none` if it fails, or else the value that it returns.
`calloc` is a request, too. Objects live in `nvrm_context`; `trace` are the requests so far, the
last one first, and is there for the answers and for the statements.
-/

namespace Resch

inductive NvrmRequest
  | calloc
  | openFile
  | setCloseOnExec (fd : ℕ)
  | closeFile (fd : ℕ)
  /-- `nvrm_create_cid`; the context goes with the file. -/
  | createContext
  | createVspace (parent handle cls flags limit : ℕ)
  | createDma (parent handle cls flags base limit : ℕ)
  | memory (parent vspace handle flags1 flags2 base size : ℕ)
  | create (parent handle cls : ℕ) (arg : List ℕ)
  | destroy (parent handle : ℕ)
  | vspaceMap (dev vspace handle base size : ℕ)
  | vspaceUnmap (dev vspace handle : ℕ)
  | hostMap (subdev handle base size : ℕ)
  | hostUnmap (subdev handle foffset : ℕ)
  | mmap (size fd foffset : ℕ)
  | munmap (addr size : ℕ)
  | enableDevice (gpuId : ℕ)
  | disableDevice (gpuId : ℕ)
  | call (handle mthd : ℕ)

structure NvrmEvent where
  request : NvrmRequest
  answer : Option ℕ

/-- `nvrm_context`: the chain of handles. -/
structure NvrmContext where
  hchain : List ℕ
  trace : List NvrmEvent

abbrev Nvrm := StateT NvrmContext (Except NvrmAbort)

/-- `nvrm_device` -/
structure NvrmDevice where
  gpuId : ℕ
  fd : ℕ
  odev : ℕ
  osubdev : ℕ

/-- `nvrm_vspace` -/
structure NvrmVspace where
  ovas : ℕ
  odma : ℕ
  deriving DecidableEq

/-- `nvrm_bo`; `host` are `foffset` and `mmap`, once the buffer is mapped. -/
structure NvrmBo where
  vas : NvrmVspace
  handle : ℕ
  size : ℕ
  gpuAddr : ℕ
  host : Option (ℕ × ℕ)
  deriving DecidableEq

/-- `nvrm_channel`; `echain` are the handles of the engines. -/
structure NvrmChannel where
  vas : NvrmVspace
  echain : List ℕ
  ofifo : ℕ
  fifoMmap : ℕ
  fifoFoffset : ℕ
  oedma : ℕ
  oerr : ℕ
  cls : ℕ
  deriving DecidableEq

def nvrmClassMemoryVm : ℕ := 0x0070
def nvrmClassDmaRead : ℕ := 0x0002
def nvrmMthdFifoIbActivate : ℕ := 0xa06f0103

section

variable (answer : List NvrmEvent → NvrmRequest → Option ℕ)

/-- Make a request, and go on with the answer. -/
def ask (r : NvrmRequest) : Nvrm (Option ℕ) := fun s =>
  .ok (answer s.trace r, { s with trace := ⟨r, answer s.trace r⟩ :: s.trace })

/-- Make a request whose answer is not looked at. -/
def request (r : NvrmRequest) : Nvrm Unit := do
  let _ ← ask answer r

/-- `nvrm_handle_alloc`, whose own `malloc` is taken to succeed. -/
def handleAlloc : Nvrm ℕ := fun s =>
  (nvrmHandleAlloc s.hchain).map fun r => (r.1, { s with hchain := r.2 })

/-- `nvrm_handle_free` -/
def handleFree (handle : ℕ) : Nvrm Unit := fun s =>
  (nvrmHandleFree handle s.hchain).map fun hchain => ((), { s with hchain := hchain })

variable (dev : NvrmDevice) (vas : NvrmVspace) (bo : NvrmBo) (chan : NvrmChannel)

/-! ## Address spaces -/

/-- `nvrm_vspace_create` -/
def nvrmVspaceCreate : Nvrm (Option NvrmVspace) := do
  match ← ask answer .calloc with
  | none => return none
  | some _ =>
    let ovas ← handleAlloc
    let odma ← handleAlloc
    match ← ask answer (.createVspace dev.odev ovas nvrmClassMemoryVm 0x00010000 0) with
    | none =>
      handleFree odma
      handleFree ovas
      return none
    | some limit =>
      match ← ask answer (.createDma ovas odma nvrmClassDmaRead 0x20000000 0 limit) with
      | none =>
        request answer (.destroy dev.odev ovas)
        handleFree odma
        handleFree ovas
        return none
      | some _ => return some ⟨ovas, odma⟩

/-- `nvrm_vspace_destroy` -/
def nvrmVspaceDestroy : Nvrm Unit := do
  request answer (.destroy vas.ovas vas.odma)
  request answer (.destroy dev.odev vas.ovas)
  handleFree vas.odma
  handleFree vas.ovas

/-! ## Buffers -/

/-- `nvrm_bo_create` -/
def nvrmBoCreate (size : ℕ) (sysram : Bool) : Nvrm (Option NvrmBo) := do
  match ← ask answer .calloc with
  | none => return none
  | some _ =>
    let handle ← handleAlloc
    let flags1 := if sysram then 0xd001 else 0x1d101
    let flags2 := if sysram then 0x5a000000 else 0x18000000
    match ← ask answer (.memory dev.odev vas.ovas handle flags1 flags2 0 size) with
    | none =>
      handleFree handle
      return none
    | some _ =>
      match ← ask answer (.vspaceMap dev.odev vas.odma handle 0 size) with
      | none =>
        request answer (.destroy dev.odev handle)
        handleFree handle
        return none
      | some gpuAddr => return some ⟨vas, handle, size, gpuAddr, none⟩

/-- `nvrm_bo_host_map`: the buffer afterwards, which is mapped unless the map has failed. -/
def nvrmBoHostMap : Nvrm NvrmBo := do
  match bo.host with
  | some _ => return bo
  | none =>
    match ← ask answer (.hostMap dev.osubdev bo.handle 0 bo.size) with
    | none => return bo
    | some foffset =>
      match ← ask answer (.mmap bo.size dev.fd foffset) with
      | none =>
        request answer (.hostUnmap dev.osubdev bo.handle foffset)
        return bo
      | some addr => return { bo with host := some (foffset, addr) }

/-- `nvrm_bo_host_unmap`; the buffer keeps its `mmap`. -/
def nvrmBoHostUnmap : Nvrm Unit := do
  match bo.host with
  | none => return
  | some (foffset, addr) =>
    request answer (.munmap addr bo.size)
    request answer (.hostUnmap dev.osubdev bo.handle foffset)

/-- `nvrm_bo_destroy` -/
def nvrmBoDestroy : Nvrm Unit := do
  nvrmBoHostUnmap answer dev bo
  request answer (.vspaceUnmap dev.odev bo.vas.odma bo.handle)
  request answer (.destroy dev.odev bo.handle)
  handleFree bo.handle

/-! ## Channels and engines -/

/-- `nvrm_channel_create_ib` -/
def nvrmChannelCreateIb (cls : ℕ) (ib : NvrmBo) : Nvrm (Option NvrmChannel) := do
  match ← ask answer .calloc with
  | none => return none
  | some _ =>
    let oerr ← handleAlloc
    let oedma ← handleAlloc
    let ofifo ← handleAlloc
    let outErr : Nvrm (Option NvrmChannel) := do
      handleFree oerr
      handleFree oedma
      handleFree ofifo
      return none
    match ← ask answer (.memory dev.odev dev.odev oerr 0xd001 0x3a000000 0 0x1000) with
    | none => outErr
    | some _ =>
      match ← ask answer (.createDma oerr oedma nvrmClassDmaRead 0x20100000 0 0xfff) with
      | none =>
        request answer (.destroy dev.odev oerr)
        outErr
      | some _ =>
        let arg := [oedma, vas.odma, ib.gpuAddr, ib.size / 8]
        match ← ask answer (.create dev.odev ofifo cls arg) with
        | none =>
          request answer (.destroy oerr oedma)
          request answer (.destroy dev.odev oerr)
          outErr
        | some _ =>
          match ← ask answer (.hostMap dev.osubdev ofifo 0 0x200) with
          | none =>
            request answer (.destroy dev.odev ofifo)
            request answer (.destroy oerr oedma)
            request answer (.destroy dev.odev oerr)
            outErr
          | some foffset =>
            match ← ask answer (.mmap 0x1000 dev.fd (foffset &&& (2 ^ 64 - 0x1000))) with
            | none =>
              request answer (.hostUnmap dev.osubdev ofifo foffset)
              request answer (.destroy dev.odev ofifo)
              request answer (.destroy oerr oedma)
              request answer (.destroy dev.odev oerr)
              outErr
            | some addr => return some ⟨vas, [], ofifo, addr, foffset, oedma, oerr, cls⟩

/-- `nvrm_channel_activate`: whether the channel is active. -/
def nvrmChannelActivate : Nvrm Bool := do
  if 0xa06f ≤ chan.cls then
    return (← ask answer (.call chan.ofifo nvrmMthdFifoIbActivate)).isSome
  else return true

/-- `nvrm_eng_create`: the channel with the engine -/
def nvrmEngCreate (cls : ℕ) : Nvrm (Option NvrmChannel) := do
  match ← ask answer .calloc with
  | none => return none
  | some _ =>
    let handle ← handleAlloc
    match ← ask answer (.create chan.ofifo handle cls []) with
    | none =>
      handleFree handle
      return none
    | some _ => return some { chan with echain := handle :: chan.echain }

/-- The body of the loop of `nvrm_channel_destroy` -/
def nvrmEngDestroy (eng : ℕ) : Nvrm Unit := do
  request answer (.destroy chan.ofifo eng)
  handleFree eng

/-- `nvrm_channel_destroy` -/
def nvrmChannelDestroy : Nvrm Unit := do
  chan.echain.forM (nvrmEngDestroy answer chan)
  request answer (.munmap chan.fifoMmap 0x1000)
  request answer (.hostUnmap dev.osubdev chan.ofifo chan.fifoFoffset)
  request answer (.destroy dev.odev chan.ofifo)
  request answer (.destroy chan.oerr chan.oedma)
  request answer (.destroy dev.odev chan.oerr)
  handleFree chan.oerr
  handleFree chan.oedma
  handleFree chan.ofifo

end

end Resch
