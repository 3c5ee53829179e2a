import Resch.Lib.Rings

/-!
# Lists of Gdev (`gdev_list.h`)

A heap of nodes, and the functions of the header as sequences of stores to it. `α` is the type of
the addresses of nodes, `β` that of the structures that nodes are part of.
-/

namespace Resch

open Lib

/-- `struct gdev_list` -/
@[ext]
structure GdevList (α β : Type) where
  next : α
  prev : α
  container : Option β

namespace GdevList

variable {α β : Type} [DecidableEq α] (heap : α → GdevList α β) (entry pos : α)

def setNext (p next : α) : α → GdevList α β := Function.update heap p { heap p with next }

def setPrev (p prev : α) : α → GdevList α β := Function.update heap p { heap p with prev }

/-- `gdev_list_init` -/
def init (container : Option β) : α → GdevList α β :=
  Function.update heap entry ⟨entry, entry, container⟩

/-- `gdev_list_add_next` -/
def addNext : α → GdevList α β :=
  let next := (heap pos).next
  let heap := setNext heap entry next
  let heap := setPrev heap next entry
  let heap := setPrev heap entry pos
  setNext heap pos entry

/-- `gdev_list_add_prev` -/
def addPrev : α → GdevList α β :=
  let prev := (heap pos).prev
  let heap := setPrev heap entry prev
  let heap := setNext heap prev entry
  let heap := setNext heap entry pos
  setPrev heap pos entry

/-- `gdev_list_add` -/
def add (head : α) : α → GdevList α β := addNext heap entry head

/-- `gdev_list_add_tail` -/
def addTail (head : α) : α → GdevList α β := addPrev heap entry head

/-- `gdev_list_del` -/
def del : α → GdevList α β :=
  let next := (heap entry).next
  let prev := (heap entry).prev
  let heap := setNext heap prev next
  let heap := setPrev heap next prev
  let heap := setPrev heap entry entry
  setNext heap entry entry

/-- `gdev_list_empty` -/
def empty : Bool :=
  decide ((heap entry).next = (heap entry).prev ∧ (heap entry).next = entry)

/-- `gdev_list_head` -/
def head (list : Option α) : Option α :=
  list.bind fun h => if empty heap h then none else some (heap h).next

/-- `gdev_list_container`, also of a pointer that is null -/
def containerOf (entry : Option α) : Option β := entry.bind fun e => (heap e).container

/-- The loop of `gdev_list_for_each` from `p` on: what it visits, if `fuel` tests of `p` are
enough to come to its end. `entryName p` is the node that `entry_name` is in `p`. -/
def forEachFrom (entryName : β → α) : ℕ → Option β → Option (List β)
  | 0, _ => none
  | _ + 1, none => some []
  | fuel + 1, some p =>
    (forEachFrom entryName fuel (containerOf heap (some (heap (entryName p)).next))).map (p :: ·)

/-- `gdev_list_for_each` -/
def forEach (entryName : β → α) (fuel : ℕ) (list : α) : Option (List β) :=
  forEachFrom heap entryName fuel (containerOf heap (head heap (some list)))

end GdevList

/-- A change of one of the lists, which are named by `ι` -/
inductive ListOp (ι α : Type)
  | add (entry : α) (list : ι)
  | addTail (entry : α) (list : ι)
  | del (entry : α)

namespace ListOp

variable {ι α β : Type} [DecidableEq ι] [DecidableEq α] (head : ι → α) (entryName : ι → β → α)

def entry : ListOp ι α → α
  | add e _ | addTail e _ | del e => e

def step (heap : α → GdevList α β) : ListOp ι α → α → GdevList α β
  | add e i => GdevList.add heap e (head i)
  | addTail e i => GdevList.addTail heap e (head i)
  | del e => GdevList.del heap e

def run (heap : α → GdevList α β) (ops : List (ListOp ι α)) : α → GdevList α β :=
  ops.foldl (step head) heap

/-- What the caller sees to: the node is no head, it is added to a list that goes through nodes of
its kind when it points to itself, and it is deleted when it does not. -/
def Legal (heap : α → GdevList α β) : ListOp ι α → Prop
  | add e i | addTail e i => (∀ j, e ≠ head j) ∧ GdevList.empty heap e = true ∧
      ∃ p, (heap e).container = some p ∧ entryName i p = e
  | del e => (∀ j, e ≠ head j) ∧ GdevList.empty heap e = false

/-- Each change is legal where it is made. -/
def LegalRun : (α → GdevList α β) → List (ListOp ι α) → Prop
  | _, [] => True
  | heap, op :: ops => op.Legal head entryName heap ∧ LegalRun (op.step head heap) ops

/-! ## Sequences -/

/-- The change on the sequences of entries -/
def seqStep (seq : ι → List α) : ListOp ι α → ι → List α
  | add e i => Function.update seq i (e :: seq i)
  | addTail e i => Function.update seq i (seq i ++ [e])
  | del e => fun i => (seq i).erase e

def seqRun (seq : ι → List α) (ops : List (ListOp ι α)) : ι → List α := ops.foldl seqStep seq

end ListOp

/-- The pointers of a heap -/
def GdevList.links {α β : Type} (heap : α → GdevList α β) : Links α :=
  ⟨fun e => (heap e).next, fun e => (heap e).prev⟩

/-- **The lists and their sequences.** Each list is a ring through its head and the entries of its
sequence, the rings are disjoint, and the other nodes point to themselves. The containers are
distinct, as each tells its entry. -/
structure GdevList.Represents {ι α β : Type} (head : ι → α) (entryName : ι → β → α)
    (heap : α → GdevList α β) (seq : ι → List α) [DecidableEq α] : Prop where
  head_inj : Function.Injective head
  ring : ∀ i, (links heap).IsRing (head i) (seq i)
  ne_head : ∀ i, ∀ e ∈ seq i, ∀ j, e ≠ head j
  disjoint : ∀ i j, ∀ e ∈ seq i, e ∈ seq j → i = j
  alone : ∀ e, (∀ i, e ≠ head i) → (∀ i, e ∉ seq i) → GdevList.empty heap e = true
  container_head : ∀ i, (heap (head i)).container = none
  container_entry : ∀ i, ∀ e ∈ seq i, ∃ p, (heap e).container = some p ∧ entryName i p = e

end Resch
