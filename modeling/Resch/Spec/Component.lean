import Resch.Lib.Runs
import Resch.Spec.Bitops
import Resch.Spec.Config
import Mathlib.Logic.Relation

/-!
# Components (`component.c`)

The calls for hierarchical scheduling: a bitmap of component ids, and for each component the
head of a list of its tasks. The lists are those of Linux, rings through `next` and `prev`, so
what a call does to a ring that it should not touch can be seen. All tasks have an initialised
list entry; the component array is zero when the module is loaded.
-/

namespace Resch

/-- A `struct list_head`: the one in `component[cid]`, or the one in a task. `cid` comes from
user space, so it may be outside of the array. -/
inductive ListNode
  | head (cid : ℤ)
  | entry (rid : ℕ)
  deriving DecidableEq

/-- `before` is the memory before the bitmap. `live` says that a component was created and
not destroyed since; it is there for the statements only. -/
structure ComponentState where
  cidMap : Bitmap 64
  before : ℤ → Bool
  next : ListNode → Option ListNode
  prev : ListNode → Option ListNode
  live : ℤ → Bool

namespace ComponentState

variable (s : ComponentState)

def setNext (n : ListNode) (v : Option ListNode) : ComponentState :=
  { s with next := Function.update s.next n v }

def setPrev (n : ListNode) (v : Option ListNode) : ComponentState :=
  { s with prev := Function.update s.prev n v }

/-- `INIT_LIST_HEAD` -/
def initListHead (n : ListNode) : ComponentState := (s.setNext n (some n)).setPrev n (some n)

/-- `list_empty` -/
def listEmpty (n : ListNode) : Bool := s.next n = some n

/-- `list_add_tail`; the second component says that no `NULL` pointer was followed. -/
def listAddTail (new head : ListNode) : ComponentState × Bool :=
  let prev := s.prev head
  let s := s.setPrev head (some new)
  let s := s.setNext new (some head)
  let s := s.setPrev new prev
  match prev with
  | none => (s, false)
  | some prev => (s.setNext prev (some new), true)

/-- `list_del_init` -/
def listDelInit (n : ListNode) : ComponentState × Bool :=
  match s.next n, s.prev n with
  | some next, some prev => (((s.setPrev next (some prev)).setNext prev (some next)).initListHead n, true)
  | some next, none => (s.setPrev next none, false)
  | none, _ => (s, false)

/-- `test_bit(cid, cid_map.bitmap)` -/
def cidBit (cid : ℤ) : Bool := if 0 ≤ cid then testBit cid s.cidMap else s.before cid

/-- `api_component_create` -/
def apiComponentCreate (c : Config) : ComponentState × ℤ :=
  let cid := reschFfz s.cidMap (bitsToLongs 64 c.nrRtComponents)
  if cid < 0 then (s.initListHead (.head resFault), resFault)
  else
    let s := { s with cidMap := setBit cid s.cidMap, live := Function.update s.live cid true }
    (s.initListHead (.head cid), cid)

/-- `api_component_destroy` -/
def apiComponentDestroy (cid : ℤ) : ComponentState × ℤ :=
  ({ s with
    cidMap := clearBit cid s.cidMap
    before := if cid < 0 then Function.update s.before cid false else s.before
    live := Function.update s.live cid false }, resSuccess)

/-- `api_compose`; no value is returned when a `NULL` pointer is followed. -/
def apiCompose (c : Config) (rid : ℕ) (cid : ℤ) : ComponentState × Option ℤ :=
  if c.nrRtComponents ≤ cid then (s, some resFault)
  else if s.cidBit cid then (s, some resFault)
  else if !s.listEmpty (.entry rid) then (s, some resFault)
  else
    let (s, ok) := s.listAddTail (.entry rid) (.head cid)
    (s, if ok then some resSuccess else none)

/-- `api_decompose` -/
def apiDecompose (rid : ℕ) : ComponentState × Option ℤ :=
  if s.listEmpty (.entry rid) then (s, some resFault)
  else
    let (s, ok) := s.listDelInit (.entry rid)
    (s, if ok then some resSuccess else none)

/-! ## Members -/

/-- The task is linked in the list of the component. -/
def Linked (cid : ℤ) (rid : ℕ) : Prop :=
  Relation.TransGen (fun a b => s.next a = some b) (.head cid) (.entry rid)

/-- The entries `l` lead from `a` to `b`. -/
def Walks (a : ListNode) (l : List ℕ) (b : ListNode) : Prop :=
  match l with
  | [] => s.next a = some b
  | rid :: l => s.next a = some (.entry rid) ∧ Walks (.entry rid) l b

/-- The tasks in the list of the component, in order. -/
def MemberList (cid : ℤ) (l : List ℕ) : Prop := s.Walks (.head cid) l (.head cid)

/-- Every task linked in the list of a component is there once, and the component is live. -/
def MembersOk (c : Config) : Prop :=
  ∀ (cid : ℤ) (rid : ℕ), 0 ≤ cid → cid < c.nrRtComponents → s.Linked cid rid →
    s.live cid = true ∧ ∃ l, s.MemberList cid l ∧ l.count rid = 1

/-- The task is in a component. -/
def InComponent (c : Config) (rid : ℕ) : Prop :=
  ∃ cid : ℤ, 0 ≤ cid ∧ cid < c.nrRtComponents ∧ s.Linked cid rid

end ComponentState

/-! ## Runs -/

inductive ComponentOp
  | create
  | destroy (cid : ℤ)
  | compose (rid : ℕ) (cid : ℤ)
  | decompose (rid : ℕ)
  deriving DecidableEq

/-- What a call does, and what it returns. -/
def ComponentOp.exec (c : Config) (s : ComponentState) : ComponentOp → ComponentState × Option ℤ
  | create => ((s.apiComponentCreate c).1, some (s.apiComponentCreate c).2)
  | destroy cid => ((s.apiComponentDestroy cid).1, some (s.apiComponentDestroy cid).2)
  | compose rid cid => s.apiCompose c rid cid
  | decompose rid => s.apiDecompose rid

def componentStep (c : Config) (s : ComponentState) (op : ComponentOp) : Option ComponentState :=
  some (op.exec c s).1

/-- `component_init`, with whatever is around the bitmap and the array. -/
def componentInit (c : Config) (before : ℤ → Bool) (stray : ℤ → Option ListNode × Option ListNode) :
    ComponentState where
  cidMap _ := 0
  before := before
  next
    | .head cid => if 0 ≤ cid ∧ cid < c.nrRtComponents then none else (stray cid).1
    | .entry rid => some (.entry rid)
  prev
    | .head cid => if 0 ≤ cid ∧ cid < c.nrRtComponents then none else (stray cid).2
    | .entry rid => some (.entry rid)
  live _ := false

/-- What is to hold of a call: `api_compose` succeeds iff the component is live and the task is
in none, a new component leaves the lists of live ones alone, and the members are right after
it. -/
structure ComponentCallOk (c : Config) (s : ComponentState) (op : ComponentOp) : Prop where
  compose : ∀ rid cid, op = .compose rid cid → (op.exec c s).2 ≠ none ∧
    ((op.exec c s).2 = some resSuccess ↔ s.live cid = true ∧ ¬ s.InComponent c rid)
  create : op = .create → ∀ cid l, s.live cid = true → s.MemberList cid l →
    (op.exec c s).1.MemberList cid l
  members : (op.exec c s).1.MembersOk c

end Resch
