import Mathlib.Algebra.Group.Int.Defs
import Mathlib.Algebra.Group.Nat.Defs
import Resch.Spec.Bitops

/-!
# GPU contexts (`gpu.c`)

`gsched_ctxcreate`, `gsched_setcid` and `gsched_close` on the bitmap of context ids and the
table of scheduling entities. The handle of a context is an object of the library, which
passes a pointer to it; `handles` are those that create has filled in and close has not
been called with. `owned` is the entity that create allocated for a handle; it is there for
the statements only.
-/

namespace Resch

def gdevDeviceMaxCount : ℕ := 4
def gdevContextMaxCount : ℕ := 100

/-- Words of the bitmap that are searched. -/
def cidMapLong : ℕ := 0x1f

/-- `struct rtxGhandle` -/
structure RtxGhandle where
  devId : ℕ
  vdevId : ℕ
  cid : ℕ
  setcid : ℕ
  deriving DecidableEq

/-- `struct gdev_sched_entity`: the device and the context. -/
structure ContextEntity where
  gdev : ℕ
  ctx : ℕ
  deriving DecidableEq

/-- `parent` is the physical device of a virtual one, or `NULL`. -/
structure GpuTable where
  cidBitmap : Bitmap 64
  schedEntityPtr : ℕ → Option ℕ
  entity : ℕ → Option ContextEntity
  parent : ℕ → Option ℕ
  devUsers : ℕ → ℤ
  physUsers : ℕ → ℤ
  handles : List ℕ
  handle : ℕ → RtxGhandle
  owned : ℕ → ℕ

namespace GpuTable

variable (s : GpuTable) (h : ℕ)

/-- `pick_up_next_gpu` with `PICKUP_GPU_MIN` -/
def pickUpNextGpu (physId : ℕ) : ℕ :=
  ((List.range gdevDeviceMaxCount).foldl (fun (acc : ℤ × ℕ) i =>
    if s.parent i = some physId ∧ s.devUsers i < acc.1 then (s.devUsers i, i) else acc) (99, 0)).2

/-- `gdev_sched_entity_create`, where `kmalloc` returns `p` -/
def gdevSchedEntityCreate (gdev cid p : ℕ) : GpuTable :=
  { s with
    entity := Function.update s.entity p (some ⟨gdev, cid⟩)
    schedEntityPtr := Function.update s.schedEntityPtr cid (some p) }

/-- `gdev_sched_entity_destroy` -/
def gdevSchedEntityDestroy (se : ℕ) : GpuTable :=
  { s with entity := Function.update s.entity se none }

/-- The device that `gsched_ctxcreate` attaches the context to. -/
def createDevice (devId vdevId : ℕ) : ℕ :=
  if vdevId = 0xBEEF then s.pickUpNextGpu devId else vdevId

/-- Add `n` to the users of a device and of its physical device. -/
def addUsers (dev : ℕ) (n : ℤ) : GpuTable :=
  { s with
    devUsers := Function.update s.devUsers dev (s.devUsers dev + n)
    physUsers := match s.parent dev with
      | some phys => Function.update s.physUsers phys (s.physUsers phys + n)
      | none => s.physUsers }

/-- `gsched_ctxcreate`, once the physical device does not have too many users. The id is
unsigned, so it is never negative; it is put one above its bit. -/
def gschedCtxcreate (devId vdevId p : ℕ) : GpuTable :=
  let dev := s.createDevice devId vdevId
  let s := s.addUsers dev 1
  let bit := (reschFfz s.cidBitmap cidMapLong % 2 ^ 32).toNat
  let s := { s with cidBitmap := setBit bit s.cidBitmap }
  let cid := (bit + 1) % 2 ^ 32
  let s := { s with handle := Function.update s.handle h ⟨devId, vdevId, cid, 0⟩ }
  let s := s.gdevSchedEntityCreate dev cid p
  { s with handles := h :: s.handles, owned := Function.update s.owned h p }

/-- `gsched_setcid`, after the library has put the new id into the handle -/
def gschedSetcid (new : ℕ) : GpuTable :=
  let s := { s with handle := Function.update s.handle h { s.handle h with setcid := new } }
  if (s.handle h).cid ≠ (s.handle h).setcid then
    let cid := (s.handle h).cid
    let setcid := (s.handle h).setcid
    let s := { s with
      schedEntityPtr := Function.update s.schedEntityPtr setcid (s.schedEntityPtr cid) }
    let s := { s with schedEntityPtr := Function.update s.schedEntityPtr cid none }
    let s := { s with cidBitmap := clearBit cid s.cidBitmap }
    let s := { s with cidBitmap := setBit setcid s.cidBitmap }
    { s with handle := Function.update s.handle h { s.handle h with cid := setcid } }
  else s

/-- `gsched_close`, which needs an entity in the table -/
def gschedClose : Option GpuTable :=
  let cid := (s.handle h).cid
  match s.schedEntityPtr cid with
  | none => none
  | some p =>
    match s.entity p with
    | none => none
    | some se =>
      let s := s.gdevSchedEntityDestroy p
      let s := { s with schedEntityPtr := Function.update s.schedEntityPtr cid none }
      let s := { s with cidBitmap := clearBit ((cid : ℤ) - 1) s.cidBitmap }
      let s := s.addUsers se.gdev (-1)
      some { s with handles := s.handles.erase h }

/-- `gsched_ctxcreate` waits while the physical device has too many users. -/
def tooManyUsers (dev : ℕ) : Bool :=
  match s.parent dev with
  | some phys => decide ((gdevContextMaxCount : ℤ) < s.physUsers phys)
  | none => false

end GpuTable

/-- One call. `p` is what `kmalloc` returns. -/
inductive GpuOp
  | create (h devId vdevId p : ℕ)
  | setcid (h new : ℕ)
  | close (h : ℕ)

/-- Whether a call can be made: a context is created with a handle that is not in use, and the
other calls with one that is; a new id is not the one of another context. -/
def GpuOp.enabled (s : GpuTable) : GpuOp → Bool
  | create h devId vdevId p =>
    decide (h ∉ s.handles ∧ s.entity p = none ∧ s.handles.length < gdevContextMaxCount - 1) &&
      !s.tooManyUsers (s.createDevice devId vdevId)
  | setcid h new =>
    decide (h ∈ s.handles ∧ 1 ≤ new ∧ new < gdevContextMaxCount ∧
      ∀ h' ∈ s.handles, h' ≠ h → (s.handle h').cid ≠ new)
  | close h => decide (h ∈ s.handles)

/-- What a call does. -/
def GpuOp.exec (s : GpuTable) : GpuOp → Option GpuTable
  | create h devId vdevId p => some (s.gschedCtxcreate h devId vdevId p)
  | setcid h new => some (s.gschedSetcid h new)
  | close h => s.gschedClose h

def gpuStep (s : GpuTable) (op : GpuOp) : Option GpuTable :=
  if op.enabled s then op.exec s else none

/-- `gsched_init`: no context has been created. -/
def gschedInit (parent : ℕ → Option ℕ) (handle : ℕ → RtxGhandle) : GpuTable where
  cidBitmap := fun _ => 0
  schedEntityPtr := fun _ => none
  entity := fun _ => none
  parent := parent
  devUsers := fun _ => 0
  physUsers := fun _ => 0
  handles := []
  handle := handle
  owned := fun _ => 0

end Resch
