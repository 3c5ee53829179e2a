import Resch.Lib.Rings
import Mathlib.Data.Nat.Notation

/-!
# The FIFO scheduler of virtual GPUs (`gpu_vsched_fifo.c`, `gpu_init.c`)

The list of the virtual devices of one physical GPU, with its pointers, and the calls of
`gdev_vsched_fifo_select_next_compute`, each of which is one locked section. The wait lists of
the devices change in between: every call comes with the lists it finds.
-/

namespace Resch

open Lib

/-- `sched_com_list` of the physical device and `list_entry_com` of each virtual one -/
inductive DeviceNode
  | head
  | entry (d : ℕ)
  deriving DecidableEq

def DeviceNode.container : DeviceNode → Option ℕ
  | head => none
  | entry d => some d

/-- `physCur` is `current_com` of the physical device. -/
structure FifoState where
  links : Links DeviceNode
  physCur : Option ℕ

namespace FifoState

/-- A virtual device is registered by `gsched_create_scheduler`. -/
def gschedCreateScheduler (s : FifoState) (d : ℕ) : FifoState :=
  { s with links := (s.links.init (.entry d)).addNext (.entry d) .head }

/-- The list is initialised, whatever the pointers were, and the devices are registered in turn. -/
def register (links : Links DeviceNode) (devices : List ℕ) : FifoState :=
  devices.foldl gschedCreateScheduler ⟨links.init .head, none⟩

/-- `gdev_vsched_fifo_select_next_compute`, with a loop of at most `fuel` devices; the result is
the device that it returns. -/
def gdevVschedFifoSelectNextCompute (s : FifoState) (fuel gdev : ℕ) (comList : ℕ → List ℕ) :
    Option (FifoState × Option ℕ) :=
  let links := (s.links.del (.entry gdev)).addPrev (.entry gdev) .head
  (links.find DeviceNode.container (fun d => !(comList d).isEmpty) fuel .head).map fun next =>
    (⟨links, next⟩, next)

end FifoState

/-- A call: its argument and the wait lists it finds. -/
structure FifoCall where
  gdev : ℕ
  comList : ℕ → List ℕ

/-- The state after each call, and what the call returns -/
def fifoCalls (fuel : ℕ) : FifoState → List FifoCall → Option (List (FifoState × Option ℕ))
  | _, [] => some []
  | s, c :: calls => do
    let r ← s.gdevVschedFifoSelectNextCompute fuel c.gdev c.comList
    let rest ← fifoCalls fuel r.1 calls
    return r :: rest

/-- The argument of each call is the device that the call before it has returned. -/
def FollowOn : List FifoCall → List (Option ℕ) → Prop
  | _ :: c :: calls, next :: rest => next = some c.gdev ∧ FollowOn (c :: calls) rest
  | _, _ => True

end Resch
