import Resch.Spec.EdfWm

/-!
# `sort_runtime` on its arrays (`edf-wm.c`)

`Checked.EdfWm.sortRuntime` says in which order the CPUs are left. The function here works as the
source does, in place and with each access checked. The array `cpu_id` is on the stack of `split`:
what it holds before the first loop is anything.
-/

namespace Resch.Checked.EdfWm

open Lib

/-- A load from an array -/
def loadFrom (xs : List ℕ) (i : ℕ) : Except Fault ℕ :=
  match xs[i]? with
  | some x => return x
  | none => throw .outOfBounds

/-- A store to an array -/
def storeTo (xs : List ℕ) (i x : ℕ) : Except Fault (List ℕ) :=
  if i < xs.length then return xs.set i x else throw .outOfBounds

variable (c : Config) (runtime cpuId : List ℕ)

/-- The body of the inner loop, at `j` -/
def exchange : ℕ → Except Fault (List ℕ)
  | 0 => throw .outOfBounds
  | j + 1 => do
    if (← loadFrom runtime (← loadFrom cpuId j)) <
        (← loadFrom runtime (← loadFrom cpuId (j + 1))) then
      let tmp ← loadFrom cpuId (j + 1)
      let cpuId ← storeTo cpuId (j + 1) (← loadFrom cpuId j)
      storeTo cpuId j tmp
    else return cpuId

/-- The inner loop, with `j` from `NR_RT_CPUS - 1` down to `i + 1` -/
def exchangeDown (i : ℕ) : Except Fault (List ℕ) :=
  (List.range' (i + 1) (c.nrRtCpus - 1 - i)).reverse.foldlM (exchange runtime) cpuId

/-- `sort_runtime`: what it leaves in `cpu_id` -/
def sortArray : Except Fault (List ℕ) := do
  let cpuId ← (List.range c.nrRtCpus).foldlM (fun cpuId i => storeTo cpuId i i) cpuId
  (List.range (c.nrRtCpus - 1)).foldlM (exchangeDown c runtime) cpuId

end Resch.Checked.EdfWm
