import Resch.Spec.GpuTable

/-!
# The limit of GPU contexts (`gpu.c`)

`gsched_ctxcreate` and `gsched_close` on virtual devices, with what a create returns and whether it
leaves `reschg_global_spinlock` locked. A create waits while the physical device has too many users;
there is no other limit.
-/

namespace Resch

namespace GpuTable

variable (s : GpuTable) (h : ℕ)

/-- `gsched_ctxcreate` up to its return, of an `int`. The id that is compared with zero is
unsigned; the branch leaves the lock and the counters. -/
def ctxcreateCall (devId vdevId p : ℕ) : GpuTable × ℤ × Bool :=
  let bit := (reschFfz s.cidBitmap cidMapLong % 2 ^ 32).toNat
  if bit < 0 then (s.addUsers (s.createDevice devId vdevId) 1, 0, true)
  else
    let s := s.gschedCtxcreate h devId vdevId p
    (s, ((s.handle h).cid : ℤ).bmod (2 ^ 32), false)

/-- The device of an open context -/
def deviceOf : Option ℕ := (s.entity (s.owned h)).map ContextEntity.gdev

end GpuTable

inductive LimitOp
  | create (h devId vdevId p : ℕ)
  | close (h : ℕ)

/-- A context is created on a virtual device of a physical one with a handle and an entity that are
not in use, and closed with a handle that is. -/
def LimitOp.enabled (s : GpuTable) : LimitOp → Bool
  | create h devId vdevId p =>
    decide (h ∉ s.handles ∧ s.entity p = none) && (s.parent (s.createDevice devId vdevId)).isSome &&
      !s.tooManyUsers (s.createDevice devId vdevId)
  | close h => decide (h ∈ s.handles)

/-- What a call does. A close without an entity has no result. -/
def LimitOp.exec (s : GpuTable) : LimitOp → GpuTable
  | create h devId vdevId p => (s.ctxcreateCall h devId vdevId p).1
  | close h => (s.gschedClose h).getD s

def limitStep (s : GpuTable) (op : LimitOp) : Option GpuTable :=
  if op.enabled s then some (op.exec s) else none

end Resch
