import Resch.Spec.EdfWm

/-!
# Submitting tasks to EDF-FF (`edf-ff.c`)

A task goes to the CPU of its mask with the least utilisation among those that pass the
demand-bound test (the build is not `EDF_FIRST_FIT`). Arithmetic is that of the `unsigned long`s of
the source, and divisions are checked. The loops over the deadlines of a task get as many turns as
the fuel says.
-/

namespace Resch.Checked.EdfFf

open Lib

variable (c : Config) (s : TaskSet) (rt cpu p L : ℕ)

/-- `util` -/
def util : Except Fault ℕ := div (ulong (100 * (s.task p).wcet)) (c.usecs (s.task p).period)

/-- `util_cpu` -/
def utilCpu : Except Fault ℕ :=
  s.list.foldlM (fun u p => do
    if s.taskIsOnCpu p cpu then return ulong (u + (← util c s p))
    else return u) 0

/-- `overhead` -/
def overhead : Except Fault ℕ := do
  let us := (← schedOverheadCpu c s cpu L) + (← schedOverheadTask c s rt L)
  return c.jiffies (ulong us)

/-- What `dbf_len` adds to its sums for a task. -/
def dbfLenTask (sums : ℕ × ℕ × ℕ) : Except Fault (ℕ × ℕ × ℕ) := do
  return EdfWm.dbfLenAdd sums (s.task p).period (s.task p).deadline (← util c s p)

/-- `dbf_len` -/
def dbfLen : Except Fault ℕ := do
  let sums ← s.list.foldlM (fun sums p =>
    if s.taskIsOnCpu p cpu then dbfLenTask c s p sums else pure sums) (0, 0, 0)
  let (x, u, d) ← dbfLenTask c s rt sums
  if 100 ≤ u then return d
  else return max (← div x (100 - u)) d

/-- `dbf_task` -/
def dbfTask : Except Fault ℕ := do
  if L < (s.task p).deadline then return 0
  let jobs := ulong ((← div (L - (s.task p).deadline) (s.task p).period) + 1)
  return c.jiffies (ulong (jobs * (s.task p).wcet))

/-- `dbf_cpu` -/
def dbfCpu : Except Fault ℕ :=
  s.list.foldlM (fun sum p => do
    if s.taskIsOnCpu p cpu then return ulong (sum + (← dbfTask c s p L))
    else return sum) 0

/-- The comparison of `dbf_test` at one deadline -/
def fits : Except Fault Bool := do
  let demand := (← dbfCpu c s cpu L) + (← dbfTask c s rt L) + (← overhead c s rt cpu L)
  return decide (ulong demand ≤ L)

/-- The loop of `dbf_test` over the deadlines of one task -/
def testDeadlines (Lmax period : ℕ) : ℕ → ℕ → Except Fault Bool
  | 0, _ => throw .outOfFuel
  | fuel + 1, L => do
    if L ≤ Lmax then
      if ← fits c s rt cpu L then testDeadlines Lmax period fuel (ulong (L + period))
      else return false
    else return true

/-- The loop of `dbf_test` over the tasks -/
def testTasks (fuel Lmax : ℕ) : List ℕ → Except Fault Bool
  | [] => return true
  | p :: ps => do
    if s.taskIsOnCpu p cpu then
      if ← testDeadlines c s rt cpu Lmax (s.task p).period fuel (s.task p).deadline then
        testTasks fuel Lmax ps
      else return false
    else testTasks fuel Lmax ps

/-- `dbf_test` -/
def dbfTest (fuel : ℕ) : Except Fault Bool := do
  if (s.task rt).wcet = 0 then return true
  let Lmax ← dbfLen c s rt cpu
  if ← testTasks c s rt cpu fuel Lmax s.list then
    testDeadlines c s rt cpu Lmax (s.task rt).period fuel (s.task rt).deadline
  else return false

/-- `cpu_worst_fit`; `mask` is `cpus_allowed`. -/
def cpuWorstFit (fuel : ℕ) (mask : ℕ → Bool) : Except Fault ℕ := do
  let (cpuDst, _) ← (List.range c.nrRtCpus).foldlM (fun (cpuDst, uDst) cpu => do
    if mask cpu then
      if ← dbfTest c s rt cpu fuel then
        let u ← utilCpu c s cpu
        return if u < uDst then (cpu, u) else (cpuDst, uDst)
      else return (cpuDst, uDst)
    else return (cpuDst, uDst)) (c.cpuUndefined, 100)
  return cpuDst

/-- `task_run`, up to what `set_scheduler` and `migrate_task` do -/
def taskRun (fuel : ℕ) (mask : ℕ → Bool) : Except Fault TaskSet := do
  if (s.task rt).period = 0 then return s
  else
    let cpuDst ← cpuWorstFit c s rt fuel mask
    let t := { s.task rt with cpuId := cpuDst }
    let t := if cpuDst ≠ c.cpuUndefined then { t with migratory := false } else t
    return { s with task := Function.update s.task rt t }

end Resch.Checked.EdfFf
