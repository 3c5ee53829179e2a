import Resch.Spec.GpuBand

/-!
# Contexts of virtual GPUs (`gpu.c`)

`gsched_ctxcreate` allocates a scheduling entity, `gsched_close` frees it, `gsched_launch` and
`gsched_sync` use it, and the thread of the device works on the entities it finds. An entity
that has been freed is never opened again here: a new context gets a new number.
-/

namespace Resch

/-- `opened` and `freed` say which entities have been allocated and which of these freed. -/
structure EntityState where
  band : BandState
  opened : ℕ → Bool
  freed : ℕ → Bool

namespace EntityState

variable (s : EntityState) (e : ℕ)

/-- `gdev_sched_entity_create` -/
def create : EntityState := { s with opened := Function.update s.opened e true }

/-- `gdev_sched_entity_destroy`, called by `gsched_close` -/
def destroy : EntityState :=
  { s with
    opened := Function.update s.opened e false
    freed := Function.update s.freed e true }

end EntityState

inductive EntityOp
  | ctxcreate (e : ℕ)
  | launch (e : ℕ)
  /-- The thread of the device of `e` is woken, whether a launch is complete or not. -/
  | sync (e : ℕ)
  | close (e : ℕ)
  /-- A thread inside a scheduler function goes on. -/
  | ctx (e : ℕ) (overrun : Bool)
  | wake (e : ℕ)
  | com (d : ℕ) (exhausted overrun : Bool)
  deriving DecidableEq

def entityStep (s : EntityState) : EntityOp → Option EntityState
  | .ctxcreate e => if s.opened e = false ∧ s.freed e = false then some (s.create e) else none
  | .launch e =>
    if s.opened e = true then (bandStep s.band (.schedule e)).map fun b => { s with band := b }
    else none
  | .sync e =>
    if s.opened e = true ∧ s.band.com (s.band.gdev e) = .idle then
      some { s with band := s.band.setCom (s.band.gdev e) (.start e) }
    else none
  | .close e => if s.opened e = true then some (s.destroy e) else none
  | .ctx e overrun => (bandStep s.band (.ctx e overrun)).map fun b => { s with band := b }
  | .wake e => (bandStep s.band (.wake e)).map fun b => { s with band := b }
  | .com d exhausted overrun =>
    (bandStep s.band (.com d exhausted overrun)).map fun b => { s with band := b }

/-- Devices without contexts. -/
def entityInit (devices : List ℕ) (gdev : ℕ → ℕ) : EntityState where
  band := bandInit devices gdev
  opened _ := false
  freed _ := false

end Resch
