import Resch.Spec.Checked
import Resch.Spec.EdfTest
import Mathlib.Data.Bool.Basic
import Mathlib.Logic.Function.Basic

/-!
# Submitting tasks to EDF-WM (`edf-wm.c`)

A task that passes the demand-bound test on no CPU of its mask is split into `num` windows, for
`num` from 2 on: each CPU offers a share that the tasks there can bear, and the task gets the
`num` largest ones. Arithmetic is that of the `unsigned long`s of the source, and divisions are
checked. The loops over the deadlines of a task get as many turns as the fuel says.

The shares are in jiffies.
-/

namespace Resch

open Lib

/-- `clear_split_task` -/
def EdfWmTask.clear (c : Config) : EdfWmTask := ⟨c.cpuUndefined, c.cpuUndefined, none, 0, fun _ => 0⟩

namespace Checked.EdfWm

variable (c : Config) (s : EdfWm) (rt cpu p L : ℕ)

def setEdfWmTask (et : EdfWmTask) : EdfWm :=
  { s with edfWmTask := Function.update s.edfWmTask rt et }

def setRuntime (runtime : ℕ) : EdfWm :=
  setEdfWmTask s rt { s.edfWmTask rt with
    runtime := Function.update (s.edfWmTask rt).runtime cpu runtime }

/-! ## The test -/

/-- `util` -/
def util : Except Fault ℕ := div (ulong (100 * (s.task p).C c)) (c.usecs (s.task p).period)

/-- `util_split` -/
def utilSplit : Except Fault ℕ :=
  div (ulong (100 * (s.edfWmTask p).runtime cpu)) (c.usecs (s.task p).period)

/-- `util_cpu` -/
def utilCpu : Except Fault ℕ :=
  s.list.foldlM (fun u p => do
    if s.splitIsOnCpu p cpu then return ulong (u + (← utilSplit c s cpu p))
    else if s.taskIsOnCpu p cpu then return ulong (u + (← util c s p))
    else return u) 0

/-- `overhead` -/
def overhead : Except Fault ℕ := do
  let us := (← schedOverheadCpu c s.toTaskSet cpu L) + (← schedOverheadTask c s.toTaskSet rt L)
  return c.jiffies (ulong us)

/-- What `dbf_len` adds to its sums for a share, or for a task with its deadline. -/
def dbfLenAdd (sums : ℕ × ℕ × ℕ) (period deadline u : ℕ) : ℕ × ℕ × ℕ :=
  (ulong (sums.1 + ulong ((ulong ((period : ℤ) - deadline) : ℕ) * u)), ulong (sums.2.1 + u),
    max sums.2.2 deadline)

def dbfLenShare (sums : ℕ × ℕ × ℕ) : Except Fault (ℕ × ℕ × ℕ) := do
  return dbfLenAdd sums (s.task p).period (s.edfWmTask p).deadline (← utilSplit c s cpu p)

def dbfLenTask (sums : ℕ × ℕ × ℕ) : Except Fault (ℕ × ℕ × ℕ) := do
  return dbfLenAdd sums (s.task p).period (s.task p).deadline (← util c s p)

/-- `dbf_len` -/
def dbfLen : Except Fault ℕ := do
  let sums ← s.list.foldlM (fun sums p =>
    if s.splitIsOnCpu p cpu then dbfLenShare c s cpu p sums
    else if s.taskIsOnCpu p cpu then dbfLenTask c s p sums
    else pure sums) (0, 0, 0)
  let (x, u, d) ←
    if s.splitIsOnCpu rt cpu then dbfLenShare c s cpu rt sums else dbfLenTask c s rt sums
  if 100 = u then return d
  else if 100 < u then return 0
  else return max (← div x (100 - u)) d

/-- `dbf_task` -/
def dbfTask : Except Fault ℕ := do
  if s.splitIsOnCpu p cpu then
    if L < (s.edfWmTask p).deadline then return 0
    let jobs := ulong ((← div (L - (s.edfWmTask p).deadline) (s.task p).period) + 1)
    return ulong (jobs * (s.edfWmTask p).runtime cpu)
  else
    if L < (s.task p).deadline then return 0
    let jobs := ulong ((← div (L - (s.task p).deadline) (s.task p).period) + 1)
    return c.jiffies (ulong (jobs * (s.task p).C c))

/-- `dbf_cpu` -/
def dbfCpu : Except Fault ℕ :=
  s.list.foldlM (fun sum p => do
    if s.taskIsOnCpu p cpu || s.splitIsOnCpu p cpu then
      return ulong (sum + (← dbfTask c s cpu p L))
    else return sum) 0

/-- The comparison of `dbf_test` at one deadline -/
def fits : Except Fault Bool := do
  let demand := (← dbfCpu c s cpu L) + (← dbfTask c s cpu rt L) + (← overhead c s rt cpu L)
  return decide (ulong demand ≤ L)

/-- The loop of `dbf_test` over the deadlines of one task -/
def testDeadlines (Lmax period : ℕ) : ℕ → ℕ → Except Fault Bool
  | 0, _ => throw .outOfFuel
  | fuel + 1, L => do
    if L ≤ Lmax then
      if ← fits c s rt cpu L then testDeadlines Lmax period fuel (ulong (L + period))
      else return false
    else return true

/-- The loop of `dbf_test` over the tasks -/
def testTasks (fuel Lmax : ℕ) : List ℕ → Except Fault Bool
  | [] => return true
  | p :: ps => do
    if s.splitIsOnCpu p cpu then
      if ← testDeadlines c s rt cpu Lmax (s.task p).period fuel (s.edfWmTask p).deadline then
        testTasks fuel Lmax ps
      else return false
    else if s.taskIsOnCpu p cpu then
      if ← testDeadlines c s rt cpu Lmax (s.task p).period fuel (s.task p).deadline then
        testTasks fuel Lmax ps
      else return false
    else testTasks fuel Lmax ps

/-- `dbf_test` -/
def dbfTest (fuel : ℕ) : Except Fault Bool := do
  if (s.task rt).C c = 0 then return true
  let Lmax ← dbfLen c s rt cpu
  if Lmax = 0 then return false
  if ← testTasks c s rt cpu fuel Lmax s.list then
    testDeadlines c s rt cpu Lmax (s.task rt).period fuel (s.task rt).deadline
  else return false

/-- `cpu_worst_fit`; `mask` is `cpus_allowed`. -/
def cpuWorstFit (fuel : ℕ) (mask : ℕ → Bool) : Except Fault ℕ := do
  let (cpuDst, _) ← (List.range c.nrRtCpus).foldlM (fun (cpuDst, uDst) cpu => do
    if mask cpu then
      if ← dbfTest c s rt cpu fuel then
        let u ← utilCpu c s cpu
        return if u < uDst then (cpu, u) else (cpuDst, uDst)
      else return (cpuDst, uDst)
    else return (cpuDst, uDst)) (c.cpuUndefined, 100)
  return cpuDst

/-! ## Splitting -/

/-- What `set_split_runtime` changes: `runtime_min`, `Lmax`, and the share that is set for each
call of `dbf_len` and reset after it. -/
structure Share where
  s : EdfWm
  runtimeMin : ℕ
  Lmax : ℕ

/-- `runtime` in `set_split_runtime`, at one deadline -/
def windowRuntime : Except Fault ℕ := do
  let remain := ulong ((L : ℤ) - ulong ((← dbfCpu c s cpu L) + (← overhead c s rt cpu L)))
  let q ← div (ulong ((L : ℤ) - (s.edfWmTask rt).deadline)) (s.task rt).period
  div remain (ulong (q + 1))

/-- The loop of `set_split_runtime` over the deadlines of one task; the result says whether there
is no `goto out`. -/
def shareDeadlines (period : ℕ) : ℕ → ℕ → Share → Except Fault (Bool × Share)
  | 0, _, _ => throw .outOfFuel
  | fuel + 1, L, r => do
    if L ≤ r.Lmax then
      let runtime ← windowRuntime c r.s rt cpu L
      if runtime ≤ r.runtimeMin then
        if runtime = 0 then return (false, { r with runtimeMin := 0 })
        let Lmax ← dbfLen c (setRuntime r.s rt cpu runtime) rt cpu
        shareDeadlines period fuel (ulong (L + period)) ⟨setRuntime r.s rt cpu 0, runtime, Lmax⟩
      else shareDeadlines period fuel (ulong (L + period)) r
    else return (true, r)

/-- The loop of `set_split_runtime` over the tasks -/
def shareTasks (fuel : ℕ) : List ℕ → Share → Except Fault (Bool × Share)
  | [], r => return (true, r)
  | p :: ps, r => do
    -- the deadline of a share is taken from the task that is split
    if r.s.splitIsOnCpu p cpu then
      match ← shareDeadlines c rt cpu (r.s.task p).period fuel (r.s.edfWmTask rt).deadline r with
      | (true, r) => shareTasks fuel ps r
      | (false, r) => return (false, r)
    else if r.s.taskIsOnCpu p cpu then
      match ← shareDeadlines c rt cpu (r.s.task p).period fuel (r.s.task p).deadline r with
      | (true, r) => shareTasks fuel ps r
      | (false, r) => return (false, r)
    else shareTasks fuel ps r

/-- `set_split_runtime` -/
def setSplitRuntime (fuel : ℕ) : Except Fault EdfWm := do
  let u ← utilCpu c s cpu
  let runtimeMin := ulong ((ulong (100 - (u : ℤ)) : ℕ) * (s.task rt).period) / 100
  let (goesOn, r) ← shareTasks c rt cpu fuel s.list ⟨s, runtimeMin, 2 ^ 64 - 1⟩
  if goesOn then
    let (_, r) ← shareDeadlines c rt cpu (r.s.task rt).period fuel (r.s.edfWmTask rt).deadline r
    return setRuntime r.s rt cpu r.runtimeMin
  else return setRuntime r.s rt cpu r.runtimeMin

/-- The inner loop of `sort_runtime`, from the right: the CPU with the largest share comes to the
front, and CPUs with equal shares keep their order. -/
def sortPass (runtime : ℕ → ℕ) : List ℕ → List ℕ
  | [] => []
  | cpu :: cpus =>
    match sortPass runtime cpus with
    | [] => [cpu]
    | k :: ks => if runtime cpu < runtime k then k :: cpu :: ks else cpu :: k :: ks

/-- The outer loop of `sort_runtime`, with the turns left -/
def sortLoop (runtime : ℕ → ℕ) : ℕ → List ℕ → List ℕ
  | 0, l => l
  | n + 1, l =>
    match sortPass runtime l with
    | [] => []
    | cpu :: cpus => cpu :: sortLoop runtime n cpus

/-- `sort_runtime` -/
def sortRuntime (runtime : ℕ → ℕ) : List ℕ :=
  sortLoop runtime (c.nrRtCpus - 1) (List.range c.nrRtCpus)

/-- `split` comes to the CPU `cpu`. -/
def takeCpu (et : EdfWmTask) : EdfWmTask :=
  let et := if et.deadline < et.runtime cpu then
    { et with runtime := Function.update et.runtime cpu et.deadline } else et
  if 0 < et.runtime cpu then
    { et with
      firstCpu := if et.firstCpu = c.cpuUndefined ∨ cpu < et.firstCpu then cpu else et.firstCpu
      lastCpu := if et.lastCpu = c.cpuUndefined ∨ et.lastCpu < cpu then cpu else et.lastCpu }
  else et

/-- The loop of `split` over the CPUs with the largest shares, and the sum of the shares -/
def takeCpus : List ℕ → EdfWmTask → ℕ → EdfWmTask × ℕ
  | [], et, sum => (et, sum)
  | cpu :: cpus, et, sum =>
    takeCpus cpus (takeCpu c cpu et) (ulong (sum + (takeCpu c cpu et).runtime cpu))

/-- What is left over is taken from the share of the last CPU, and the other CPUs get nothing. -/
def finishSplit (et : EdfWmTask) (excess : ℕ) (others : List ℕ) : EdfWmTask :=
  { et with
    rt := some rt
    runtime := fun k =>
      if k ∈ others then 0
      else if k = et.lastCpu then ulong ((et.runtime k : ℤ) - c.jiffies excess)
      else et.runtime k }

/-- One try of `split` with `num` windows: the state, and whether the shares are enough -/
def trySplit (fuel num : ℕ) : Except Fault (EdfWm × Bool) := do
  let s := setEdfWmTask s rt { s.edfWmTask rt with deadline := (s.task rt).deadline / num }
  let s ← (List.range c.nrRtCpus).foldlM (fun s cpu => setSplitRuntime c s rt cpu fuel) s
  let cpuId := sortRuntime c (s.edfWmTask rt).runtime
  if cpuId.length < num then throw .outOfBounds
  let (et, sum) := takeCpus c (cpuId.take num) (s.edfWmTask rt) 0
  if (s.task rt).C c ≤ c.usecs sum then
    let excess := c.usecs sum - (s.task rt).C c
    return (setEdfWmTask s rt (finishSplit c rt et excess (cpuId.drop num)), true)
  else return (setEdfWmTask s rt et, false)

/-- The tries of `split`, with the numbers of windows -/
def splitLoop (fuel : ℕ) : List ℕ → EdfWm → Except Fault (EdfWm × ℕ)
  | [], s => return (s, 0)
  | num :: nums, s => do
    match ← trySplit c s rt fuel num with
    | (s, true) => return (s, num)
    | (s, false) => splitLoop fuel nums (setEdfWmTask s rt (EdfWmTask.clear c))

/-- `split`: the state and `num`, which is 0 if the task could not be split. The CPU returned is
`first_cpu`. -/
def split (fuel : ℕ) : Except Fault (EdfWm × ℕ) :=
  splitLoop c rt fuel (2 :: List.range' 3 (c.nrRtCpus - 2)) s

/-- The CPU that `task_run` decides on, whole or split -/
def place (fuel : ℕ) (mask : ℕ → Bool) : Except Fault (EdfWm × ℕ) := do
  let cpuDst ← cpuWorstFit c s rt fuel mask
  if cpuDst ≠ c.cpuUndefined then return (s, cpuDst)
  else
    let (s, _) ← split c s rt fuel
    return (s, (s.edfWmTask rt).firstCpu)

/-- The rest of `task_run`, up to what `set_scheduler` and `migrate_task` do: the relative deadline
of a split task is the window. -/
def assign (cpuDst : ℕ) : EdfWm :=
  let et := s.edfWmTask rt
  let t := { s.task rt with cpuId := cpuDst }
  let t :=
    if cpuDst ≠ c.cpuUndefined then
      { t with deadline := if 0 < et.deadline then et.deadline else t.deadline, migratory := false }
    else t
  { s with task := Function.update s.task rt t }

/-- `task_run` -/
def taskRun (fuel : ℕ) (mask : ℕ → Bool) : Except Fault EdfWm := do
  if (s.task rt).period = 0 then return s
  else
    let (s, cpuDst) ← place c (setEdfWmTask s rt (EdfWmTask.clear c)) rt fuel mask
    return assign c s rt cpuDst

end Checked.EdfWm

end Resch
