import Resch.Lib.Rings
import Resch.Spec.GpuBand

/-!
# The wait queues of virtual GPUs (`gpu.c`)

`sched_com_list` of each device with its pointers, under the runs of `GpuBand` in which any
`sync` may wake the thread of a device. A step of the scheduler that changes a queue does so
through `__gdev_enqueue_compute` or `__gdev_dequeue_compute`, here on the pointers.

Arrivals are counted for the statements only: the code does not see the number.
-/

namespace Resch

open Lib

/-- `sched_com_list` of each device and `list_entry_com` of each entity -/
inductive QueueNode
  | head (d : ℕ)
  | entry (e : ℕ)
  deriving DecidableEq

def QueueNode.container : QueueNode → Option ℕ
  | head _ => none
  | entry e => some e

/-- `arrival e` is the number of the insertion that has linked the entity. -/
structure RingState where
  band : BandState
  links : Links QueueNode
  arrival : ℕ → ℕ
  clock : ℕ

namespace RingState

variable (s : RingState) (e : ℕ)

/-- `se->prio`, set by `gdev_sched_entity_create` -/
def prio : ℕ := s.band.gdev e * 30

/-- `__gdev_enqueue_compute`, with a loop of at most `fuel` entities -/
def enqueueCompute (fuel : ℕ) : Option (Links QueueNode) :=
  let gdev := s.band.gdev e
  (s.links.find QueueNode.container (fun p => s.prio p < s.prio e) fuel (.head gdev)).map fun p =>
    let links := p.elim s.links fun p => s.links.addPrev (.entry e) (.entry p)
    if links.isEmpty (.entry e) then links.addPrev (.entry e) (.head gdev) else links

/-- The entity arrives in the queue if it was in none. -/
def enqueue (band : BandState) (fuel : ℕ) : Option RingState :=
  (s.enqueueCompute e fuel).map fun links =>
    if s.links.isEmpty (.entry e) then
      { band, links, arrival := Function.update s.arrival e s.clock, clock := s.clock + 1 }
    else { s with band, links }

/-- `__gdev_dequeue_compute` -/
def dequeue (band : BandState) : RingState := { s with band, links := s.links.del (.entry e) }

end RingState

/-- What a step does to a queue. -/
inductive QueueAction
  | none
  | enqueue (e : ℕ)
  | dequeue (e : ℕ)

inductive RingOp
  | band (op : BandOp)
  /-- The thread of a device is woken, whether a launch of the context is complete or not. -/
  | sync (e d : ℕ)
  deriving DecidableEq

/-- A context of the step is one of the `n` that there are. -/
def BandOp.Among (n : ℕ) : BandOp → Prop
  | schedule e | ctx e _ | wake e | complete e => e < n
  | com _ _ _ => True

instance (n : ℕ) : (op : BandOp) → Decidable (op.Among n)
  | .schedule e | .ctx e _ | .wake e | .complete e => inferInstanceAs (Decidable (e < n))
  | .com _ _ _ => inferInstanceAs (Decidable True)

/-- The action of a step of `gdev_schedule_compute` or `gdev_select_next_compute` -/
def BandOp.action (s : BandState) : BandOp → QueueAction
  | ctx e _ =>
    match s.ctx e with
    | .enqueue => .enqueue e
    | .compute => if s.mustWait e then .enqueue e else .none
    | _ => .none
  | com d _ _ =>
    match s.com d with
    | .switch se _ next =>
      if next ≠ d then (s.comList next).head?.elim .none .dequeue else se.elim .none .dequeue
    | _ => .none
  | schedule _ | wake _ | complete _ => .none

/-- A step with `n` contexts: the queues change by the action on their pointers. -/
def ringStep (n : ℕ) (s : RingState) : RingOp → Option RingState
  | .band op =>
    if op.Among n then
      (bandStep s.band op).bind fun band =>
        match op.action s.band with
        | .none => some { s with band }
        | .enqueue e => s.enqueue e band (n + 1)
        | .dequeue e => some (s.dequeue e band)
    else none
  | .sync e d =>
    if e < n ∧ s.band.com d = .idle then some { s with band := s.band.setCom d (.start e) } else none

/-- `gpu_device_init` and `gdev_sched_entity_create` link every node to itself. -/
def ringInit (devices : List ℕ) (gdev : ℕ → ℕ) : RingState where
  band := bandInit devices gdev
  links := ⟨id, id⟩
  arrival _ := 0
  clock := 0

end Resch
