import Resch.Spec.NvrmObjects

/-!
# Sessions with the kernel driver (`nvrm_irqctx.c`)

Opening the driver and a device of it, setting up what a GPU context needs, and closing it all
again; and a client that creates and destroys objects on a device as it likes. A client uses
objects that it has, and destroys an address space after what is in it.
-/

namespace Resch

def nvrmClassDevice0 : ℕ := 0x0080
def nvrmClassSubdevice0 : ℕ := 0x2080
def nvrmMthdContextListDevices : ℕ := 0x00000214
def nvrmMthdSubdeviceUnk0146 : ℕ := 0x20800146
def nvrmMthdSubdeviceGetChipset : ℕ := 0x20801701
def gdevFenceBufSize : ℕ := 0x10000

/-- `nvrm_xlat_device`: the index and the id of the `idx`-th GPU that there is, from index `i` on -/
def nvrmXlatDevice : List (Option ℕ) → ℕ → ℕ → Option (ℕ × ℕ)
  | [], _, _ => none
  | none :: devs, idx, i => nvrmXlatDevice devs idx (i + 1)
  | some gpuId :: _, 0, i => some (i, gpuId)
  | some _ :: devs, idx + 1, i => nvrmXlatDevice devs idx (i + 1)

/-- The classes of the channel and of its engine, for a chipset -/
def nvrmClasses (chipset : ℕ) : ℕ × ℕ :=
  if chipset < 0x80 then (0x506f, 0x50c0)
  else if chipset < 0xc0 then (0x826f, 0x50c0)
  else if chipset < 0xe0 then (0x906f, 0x90c0)
  else if chipset < 0xf0 then (0xa06f, 0xa0c0)
  else (0xa16f, 0xa1c0)

/-- What `nvrm_ctx_new` sets up in `nvrm_desc`: the buffers `fifo.ib_bo`, `fifo.pb_bo`, `fence.bo`
and `notify.bo`, and the channel `pctx`. -/
structure NvrmCtx where
  ibBo : NvrmBo
  pbBo : NvrmBo
  pctx : NvrmChannel
  fenceBo : NvrmBo
  notifyBo : NvrmBo

/-- `nvrm_desc`; `fdCtl` and `cid` are those of `ctx`. -/
structure NvrmDesc extends NvrmCtx where
  fdCtl : ℕ
  cid : ℕ
  dev : NvrmDevice
  nvas : NvrmVspace

section

variable (answer : List NvrmEvent → NvrmRequest → Option ℕ) (devs : List (Option ℕ))

/-- `nvrm_open_file` -/
def nvrmOpenFile : Nvrm (Option ℕ) := do
  match ← ask answer .openFile with
  | none => return none
  | some fd =>
    match ← ask answer (.setCloseOnExec fd) with
    | none =>
      request answer (.closeFile fd)
      return none
    | some _ => return some fd

/-- `nvrm_open`: the file and the id of the context. The kernel lists the GPUs `devs`. -/
def nvrmOpen : Nvrm (Option (ℕ × ℕ)) := do
  match ← ask answer .calloc with
  | none => return none
  | some _ =>
    match ← nvrmOpenFile answer with
    | none => return none
    | some fdCtl =>
      match ← ask answer .createContext with
      | none =>
        request answer (.closeFile fdCtl)
        return none
      | some cid =>
        match ← ask answer (.call cid nvrmMthdContextListDevices) with
        | none =>
          request answer (.closeFile fdCtl)
          return none
        | some _ => return some (fdCtl, cid)

/-- `nvrm_device_open` -/
def nvrmDeviceOpen (cid idx : ℕ) : Nvrm (Option NvrmDevice) := do
  match nvrmXlatDevice devs idx 0 with
  | none => throw .noDevice
  | some (i, gpuId) =>
    match ← ask answer (.enableDevice gpuId) with
    | none => return none
    | some _ =>
      let outOpen : Nvrm (Option NvrmDevice) := do
        request answer (.disableDevice gpuId)
        return none
      match ← nvrmOpenFile answer with
      | none => outOpen
      | some fd =>
        let odev ← handleAlloc
        match ← ask answer (.create cid odev nvrmClassDevice0 [i, cid]) with
        | none =>
          handleFree odev
          request answer (.closeFile fd)
          outOpen
        | some _ =>
          let osubdev ← handleAlloc
          match ← ask answer (.create odev osubdev nvrmClassSubdevice0 []) with
          | none =>
            handleFree osubdev
            request answer (.destroy cid odev)
            handleFree odev
            request answer (.closeFile fd)
            outOpen
          | some _ => return some ⟨gpuId, fd, odev, osubdev⟩

/-- `nvrm_vas_new`; a failure of `calloc` is not told from others. -/
def nvrmVasNew (dev : NvrmDevice) : Nvrm (Option NvrmVspace) := nvrmVspaceCreate answer dev

/-- `nvrm_ctx_new`, of which `none` stands for its `free(desc)`. The answer to the request for the
chipset is not looked at. -/
def nvrmCtxNewObjects (dev : NvrmDevice) (nvas : NvrmVspace) (chipset : ℕ) : Nvrm (Option NvrmCtx) := do
  request answer (.call dev.osubdev nvrmMthdSubdeviceGetChipset)
  match ← nvrmBoCreate answer dev nvas (8 * 2 ^ 10) true with
  | none => return none
  | some ibBo =>
    let ibBo ← nvrmBoHostMap answer dev ibBo
    let failPb : Nvrm (Option NvrmCtx) := do
      nvrmBoDestroy answer dev ibBo
      return none
    match ← nvrmBoCreate answer dev nvas (2 ^ 18) true with
    | none => failPb
    | some pbBo =>
      let pbBo ← nvrmBoHostMap answer dev pbBo
      let failChan : Nvrm (Option NvrmCtx) := do
        nvrmBoDestroy answer dev pbBo
        failPb
      match ← nvrmChannelCreateIb answer dev nvas (nvrmClasses chipset).1 ibBo with
      | none => failChan
      | some chan =>
        match ← nvrmEngCreate answer chan (nvrmClasses chipset).2 with
        | none =>
          nvrmChannelDestroy answer dev chan
          failChan
        | some chan =>
          let failActivate : Nvrm (Option NvrmCtx) := do
            nvrmChannelDestroy answer dev chan
            failChan
          if ← nvrmChannelActivate answer chan then
            match ← nvrmBoCreate answer dev nvas gdevFenceBufSize true with
            | none => failActivate
            | some fenceBo =>
              let fenceBo ← nvrmBoHostMap answer dev fenceBo
              match ← nvrmBoCreate answer dev nvas 256 false with
              | none =>
                nvrmBoDestroy answer dev fenceBo
                failActivate
              | some notifyBo => return some ⟨ibBo, pbBo, chan, fenceBo, notifyBo⟩
          else failActivate

/-- The `switch` of `rtx_nvrm_init`: whether the card is supported. -/
def nvrmSupported (chipset : ℕ) : Bool :=
  let family := chipset &&& 0x1f0
  family == 0xc0 || family == 0xe0 || family == 0xf0

/-- `rtx_nvrm_init` up to its first commands, and what it returns. It goes on with what failed. -/
def rtxNvrmInit (devId chipset : ℕ) : Nvrm (NvrmDesc × Bool) := do
  match ← nvrmOpen answer with
  | none => throw .nullPointer
  | some (fdCtl, cid) =>
    match ← nvrmDeviceOpen answer devs cid devId with
    | none => throw .nullPointer
    | some dev =>
      match ← nvrmVasNew answer dev with
      | none => throw .nullPointer
      | some nvas =>
        match ← nvrmCtxNewObjects answer dev nvas chipset with
        | none => throw .freedMemory
        | some ctx => return (⟨ctx, fdCtl, cid, dev, nvas⟩, nvrmSupported chipset)

/-- The end of `rtx_nvrm_close` -/
def nvrmDeviceClose (cid : ℕ) (dev : NvrmDevice) : Nvrm Unit := do
  request answer (.call dev.osubdev nvrmMthdSubdeviceUnk0146)
  request answer (.destroy dev.odev dev.osubdev)
  handleFree dev.osubdev
  request answer (.destroy cid dev.odev)
  handleFree dev.odev
  request answer (.closeFile dev.fd)
  request answer (.disableDevice dev.gpuId)

/-- `rtx_nvrm_close` -/
def rtxNvrmClose (desc : NvrmDesc) : Nvrm Unit := do
  nvrmBoDestroy answer desc.dev desc.notifyBo
  nvrmChannelDestroy answer desc.dev desc.pctx
  nvrmBoDestroy answer desc.dev desc.pbBo
  nvrmBoDestroy answer desc.dev desc.ibBo
  nvrmVspaceDestroy answer desc.dev desc.nvas
  nvrmDeviceClose answer desc.cid desc.dev
  request answer (.closeFile desc.fdCtl)

end

/-! ## Clients -/

/-- The objects that a client has -/
structure NvrmClient where
  vspaces : List NvrmVspace
  bos : List NvrmBo
  channels : List NvrmChannel

inductive NvrmOp
  | vspaceCreate
  | vspaceDestroy (vas : NvrmVspace)
  | boCreate (vas : NvrmVspace) (size : ℕ) (sysram : Bool)
  | boHostMap (bo : NvrmBo)
  | boHostUnmap (bo : NvrmBo)
  | boDestroy (bo : NvrmBo)
  | channelCreate (vas : NvrmVspace) (cls : ℕ) (ib : NvrmBo)
  | channelActivate (chan : NvrmChannel)
  | engCreate (chan : NvrmChannel) (cls : ℕ)
  | channelDestroy (chan : NvrmChannel)

def NvrmOp.enabled (c : NvrmClient) : NvrmOp → Bool
  | vspaceCreate => true
  | vspaceDestroy vas =>
    decide (vas ∈ c.vspaces) && c.bos.all (·.vas ≠ vas) && c.channels.all (·.vas ≠ vas)
  | boCreate vas _ _ => decide (vas ∈ c.vspaces)
  | boHostMap bo | boHostUnmap bo | boDestroy bo => decide (bo ∈ c.bos)
  | channelCreate vas _ ib => decide (vas ∈ c.vspaces) && decide (ib ∈ c.bos)
  | channelActivate chan | engCreate chan _ | channelDestroy chan => decide (chan ∈ c.channels)

section

variable (answer : List NvrmEvent → NvrmRequest → Option ℕ) (dev : NvrmDevice)

def NvrmOp.exec (c : NvrmClient) : NvrmOp → Nvrm NvrmClient
  | vspaceCreate => do
    let vas ← nvrmVspaceCreate answer dev
    return { c with vspaces := vas.toList ++ c.vspaces }
  | vspaceDestroy vas => do
    nvrmVspaceDestroy answer dev vas
    return { c with vspaces := c.vspaces.erase vas }
  | boCreate vas size sysram => do
    let bo ← nvrmBoCreate answer dev vas size sysram
    return { c with bos := bo.toList ++ c.bos }
  | boHostMap bo => do
    let mapped ← nvrmBoHostMap answer dev bo
    return { c with bos := mapped :: c.bos.erase bo }
  | boHostUnmap bo => do
    nvrmBoHostUnmap answer dev bo
    return c
  | boDestroy bo => do
    nvrmBoDestroy answer dev bo
    return { c with bos := c.bos.erase bo }
  | channelCreate vas cls ib => do
    let chan ← nvrmChannelCreateIb answer dev vas cls ib
    return { c with channels := chan.toList ++ c.channels }
  | channelActivate chan => do
    let _ ← nvrmChannelActivate answer chan
    return c
  | engCreate chan cls => do
    let withEng ← nvrmEngCreate answer chan cls
    return { c with channels := withEng.getD chan :: c.channels.erase chan }
  | channelDestroy chan => do
    nvrmChannelDestroy answer dev chan
    return { c with channels := c.channels.erase chan }

def nvrmStep (c : NvrmClient) (op : NvrmOp) : Nvrm NvrmClient :=
  if op.enabled c then op.exec answer dev c else return c

end

/-- A client opens a device and goes on with the operations. -/
def nvrmSession (answer : List NvrmEvent → NvrmRequest → Option ℕ) (devs : List (Option ℕ))
    (cid idx : ℕ) (ops : List NvrmOp) : Nvrm (Option (NvrmDevice × NvrmClient)) := do
  match ← nvrmDeviceOpen answer devs cid idx with
  | none => return none
  | some dev => return some (dev, ← ops.foldlM (nvrmStep answer dev) ⟨[], [], []⟩)

end Resch
