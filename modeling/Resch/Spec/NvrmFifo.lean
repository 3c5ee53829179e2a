import Mathlib.Algebra.Group.Nat.Defs
import Mathlib.Data.Nat.Notation
import Mathlib.Logic.Function.Basic
import Resch.Lib.Runs

/-!
# The command ring to the GPU (`nvrm_fifo.h`)

`__nvrm_out_ring` and `__nvrm_fire_ring` on the push buffer, and the GPU, which fetches the
words of the segments that have been pushed, in order and at any time. `__nvrm_out_ring` goes
around its loop until the ring has space; a pass fires and asks the GPU for its position.

Positions are in bytes, and words have four of them. They stay below the size of the ring, so
no 32-bit number overflows.
-/

namespace Resch

/-- What the caller of the ring does next. -/
inductive RingPoint
  | idle
  /-- the test of the loop in `__nvrm_out_ring` -/
  | out (word : UInt32)
  /-- `update_get` -/
  | update (word : UInt32)
  deriving DecidableEq

/-- `desc->fifo`; `pbMap` are the words of the buffer. `segments` are the bases and lengths that
have been pushed and not fetched, and `fetched` are the words fetched. `written` is there for
the statements only: the words of the calls of `__nvrm_out_ring` that have returned. -/
structure NvrmFifo where
  pbBase : ℕ
  pbSize : ℕ
  pbMask : ℕ
  pbPos : ℕ
  pbPut : ℕ
  pbGet : ℕ
  pbMap : ℕ → UInt32
  segments : List (ℕ × ℕ)
  fetched : List UInt32
  written : List UInt32
  point : RingPoint

namespace NvrmFifo

variable (s : NvrmFifo)

def push (base len : ℕ) : NvrmFifo := { s with segments := s.segments ++ [(base, len)] }

/-- `__nvrm_fire_ring` -/
def fireRing : NvrmFifo :=
  if s.pbPos ≠ s.pbPut then
    let base := s.pbBase + s.pbPut
    if s.pbPut < s.pbPos then { s.push base (s.pbPos - s.pbPut) with pbPut := s.pbPos }
    else
      -- across the end of the buffer: the rest of it, then what is at its start
      let rest := s.push base (s.pbSize - s.pbPut)
      let both := if 0 < s.pbPos then rest.push s.pbBase s.pbPos else rest
      { both with pbPut := s.pbPos }
  else s

/-- The position after the next word -/
def nextPos : ℕ := (s.pbPos + 4) &&& s.pbMask

/-- No space -/
def full : Bool := decide (s.nextPos = s.pbGet)

/-- The end of `__nvrm_out_ring` -/
def storeWord (word : UInt32) : NvrmFifo :=
  { s with
    pbMap := Function.update s.pbMap (s.pbPos / 4) word
    pbPos := s.nextPos
    point := .idle }

/-- A call with this word has returned. -/
def returned (word : UInt32) : NvrmFifo := { s with written := s.written ++ [word] }

/-- How many words there are from a position to that of the next word -/
def wordsFrom (get : ℕ) : ℕ := (s.pbPos + s.pbSize - get) % s.pbSize / 4

/-- The GPU has reached the position: what it has yet to fetch is after it. -/
def Reached (get : ℕ) : Prop :=
  get < s.pbSize ∧ get % 4 = 0 ∧ s.written.length ≤ s.fetched.length + s.wordsFrom get

instance (get : ℕ) : Decidable (s.Reached get) := inferInstanceAs (Decidable (_ ∧ _ ∧ _))

/-- The word at an address -/
def wordAt (address : ℕ) : UInt32 := s.pbMap ((address - s.pbBase) / 4)

/-- The GPU fetches the next word. -/
def fetch : Option NvrmFifo :=
  match s.segments with
  | [] => none
  | (base, len) :: segments =>
    some { s with
      segments := if len ≤ 4 then segments else (base + 4, len - 4) :: segments
      fetched := s.fetched ++ [s.wordAt base] }

/-- The words of a segment -/
def wordsOf (segment : ℕ × ℕ) : List UInt32 :=
  (List.range (segment.2 / 4)).map fun i => s.wordAt (segment.1 + 4 * i)

end NvrmFifo

inductive FifoOp
  /-- A call of `__nvrm_out_ring` -/
  | outRing (word : UInt32)
  /-- A call of `__nvrm_fire_ring` -/
  | fireRing
  /-- A pass of the loop in `__nvrm_out_ring`, or its end -/
  | loop
  /-- `update_get`, with the position that the GPU reports -/
  | updateGet (get : ℕ)
  | fetch

def fifoStep (s : NvrmFifo) : FifoOp → Option NvrmFifo
  | .outRing word => if s.point = .idle then some { s with point := .out word } else none
  | .fireRing => if s.point = .idle then some s.fireRing else none
  | .loop =>
    match s.point with
    | .out word =>
      if s.full then some { s.fireRing with point := .update word }
      else some ((s.storeWord word).returned word)
    | .idle | .update _ => none
  | .updateGet get =>
    match s.point with
    | .update word =>
      if s.Reached get then some { s with pbGet := get, point := .out word } else none
    | .idle | .out _ => none
  | .fetch => s.fetch

/-- The words of the calls of `__nvrm_out_ring`, in order -/
def outWords (ops : List FifoOp) : List UInt32 :=
  ops.filterMap fun
    | .outRing word => some word
    | .fireRing | .loop | .updateGet _ | .fetch => none

/-- The ring that `nvrm_ctx_new` sets up, of `2 ^ order` bytes -/
def nvrmCtxNew (order base : ℕ) (pbMap : ℕ → UInt32) : NvrmFifo where
  pbBase := base
  pbSize := 2 ^ order
  pbMask := 2 ^ order - 1
  pbPos := 0
  pbPut := 0
  pbGet := 0
  pbMap := pbMap
  segments := []
  fetched := []
  written := []
  point := .idle

end Resch
