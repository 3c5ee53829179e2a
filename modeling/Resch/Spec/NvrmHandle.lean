import Mathlib.Data.Nat.Notation

/-!
# Handles of driver objects (`nvrm_submthd.c`)

The program names the objects that it creates in the kernel driver by handles. Those in use are
a linked list, `hchain`, of which the model keeps the numbers. `abort` ends the program.
-/

namespace Resch

/-- What ends the program: one of the two `abort` calls on handles, or the use of a null pointer
or of memory that has been freed. -/
inductive NvrmAbort
  | outOfHandles
  | nonexistentHandle (handle : ℕ)
  | nullPointer
  | freedMemory
  | noDevice
  deriving DecidableEq

/-- `MAX_HANDLE` -/
def maxHandle : ℕ := 0x40000000

/-- The walk of `nvrm_handle_alloc`: the first number that is not where it is expected, and the
chain with it. -/
def handleWalk (expected : ℕ) : List ℕ → ℕ × List ℕ
  | [] => (expected, [expected])
  | handle :: next =>
    if handle = expected then
      ((handleWalk (expected + 1) next).1, handle :: (handleWalk (expected + 1) next).2)
    else (expected, expected :: handle :: next)

/-- `nvrm_handle_alloc` -/
def nvrmHandleAlloc (hchain : List ℕ) : Except NvrmAbort (ℕ × List ℕ) :=
  if maxHandle < (handleWalk 1 hchain).1 then .error .outOfHandles else .ok (handleWalk 1 hchain)

/-- `nvrm_handle_free` -/
def nvrmHandleFree (handle : ℕ) : List ℕ → Except NvrmAbort (List ℕ)
  | [] => .error (.nonexistentHandle handle)
  | phandle :: next =>
    if phandle = handle then .ok next
    else (nvrmHandleFree handle next).map (phandle :: ·)

inductive HandleOp
  | alloc
  | free (handle : ℕ)

/-- One call, and the handle that it returns, if it is one that does. -/
def handleStep (hchain : List ℕ) : HandleOp → Except NvrmAbort (Option ℕ × List ℕ)
  | .alloc => (nvrmHandleAlloc hchain).map fun r => (some r.1, r.2)
  | .free handle => (nvrmHandleFree handle hchain).map fun hchain => (none, hchain)

/-- A sequence of calls: what they return, and the chain at the end -/
def handleRun (hchain : List ℕ) : List HandleOp → Except NvrmAbort (List (Option ℕ) × List ℕ)
  | [] => .ok ([], hchain)
  | op :: ops => (handleStep hchain op).bind fun r =>
    (handleRun r.2 ops).map fun rs => (r.1 :: rs.1, rs.2)

end Resch
