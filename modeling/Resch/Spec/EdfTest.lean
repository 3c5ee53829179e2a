import Resch.Spec.Placement

/-!
# The demand-bound tests of EDF-FF and EDF-WM (`edf-ff.c`, `edf-wm.c`)

Both plugins put a task on a CPU if the demand of the tasks there fits at their deadlines, up to
a length that `dbf_len` computes from the utilisations in percents. With EDF-WM a task on the CPU
may be a share of a split task, whose amount is in jiffies. Arithmetic is exact, and a difference
that would be negative is zero. A division by zero has no result.
-/

namespace Resch

/-- What the tests read of a task on a CPU. `amount` is in microseconds, that of a share in
jiffies. -/
structure Resident where
  period : ℕ
  deadline : ℕ
  amount : ℕ
  share : Bool

/-- `util` and `util_split` -/
def Resident.util (c : Config) (r : Resident) : Option ℕ :=
  if r.period = 0 then none else some (100 * r.amount / c.jiffiesToUsecs r.period)

/-- `dbf_task` -/
def Resident.dbfTask (c : Config) (r : Resident) (L : ℕ) : ℕ :=
  if L < r.deadline then 0
  else
    let db := ((L - r.deadline) / r.period + 1) * r.amount
    if r.share then db else c.usecsToJiffies db

/-- The sums `x`, `u` and `d` of `dbf_len` -/
def dbfLenSum (c : Config) : List Resident → ℕ × ℕ × ℕ → Option (ℕ × ℕ × ℕ)
  | [], sums => some sums
  | r :: rs, (x, u, d) =>
    (r.util c).bind fun v =>
      dbfLenSum c rs (x + (r.period - r.deadline) * v, u + v, max d r.deadline)

/-- The loop of `dbf_cpu` -/
def dbfSum (c : Config) (rs : List Resident) (L : ℕ) : ℕ :=
  rs.foldl (fun sum r => sum + r.dbfTask c L) 0

/-- The loop of `dbf_test` over the deadlines of one task; there are at most as many as the fuel
says, since periods are positive. -/
def testDeadlines (fits : ℕ → Bool) (Lmax period : ℕ) : ℕ → ℕ → Bool
  | 0, _ => true
  | fuel + 1, L =>
    if L ≤ Lmax then fits L && testDeadlines fits Lmax period fuel (L + period) else true

/-- The loop of `dbf_test` over the tasks -/
def testResidents (fits : ℕ → Bool) (Lmax : ℕ) (rs : List Resident) : Bool :=
  rs.all fun r => testDeadlines fits Lmax r.period (Lmax + 1) r.deadline

namespace TaskSet

variable (c : Config) (s : TaskSet) (rt L cpu : ℕ)

/-- `task_is_on_cpu` -/
def taskIsOnCpu : Bool := decide ((s.task rt).cpuId = cpu)

/-- `overhead` -/
def overhead : ℕ := c.usecsToJiffies (s.schedOverheadCpu c cpu L + s.schedOverheadTask c rt L)

end TaskSet

/-! ## EDF-FF -/

namespace EdfFf

variable (c : Config) (s : TaskSet) (cpu rt L : ℕ)

def resident : Resident := ⟨(s.task rt).period, (s.task rt).deadline, (s.task rt).wcet, false⟩

/-- The tasks on the CPU -/
def residents : List Resident := (s.list.filter (s.taskIsOnCpu · cpu)).map (resident s)

/-- `dbf_len` -/
def dbfLen : Option ℕ :=
  (dbfLenSum c (residents s cpu ++ [resident s rt]) (0, 0, 0)).map fun (x, u, d) =>
    if 100 ≤ u then d else max (x / (100 - u)) d

/-- `dbf_cpu` -/
def dbfCpu : ℕ := dbfSum c (residents s cpu) L

/-- `dbf_task` -/
def dbfTask : ℕ := (resident s rt).dbfTask c L

/-- The comparison of `dbf_test` at one deadline -/
def fits : Bool := decide (dbfCpu c s cpu L + dbfTask c s rt L + s.overhead c rt L cpu ≤ L)

/-- `dbf_test` -/
def dbfTest : Option Bool :=
  if (s.task rt).wcet = 0 then some true
  else (dbfLen c s cpu rt).map fun Lmax =>
    testResidents (fits c s cpu rt) Lmax (residents s cpu) &&
      testDeadlines (fits c s cpu rt) Lmax (s.task rt).period (Lmax + 1) (s.task rt).deadline

end EdfFf

/-! ## EDF-WM -/

/-- `edf_wm_task_t`: `deadline` is that of a window, and `runtime` the shares, in jiffies. -/
structure EdfWmTask where
  firstCpu : ℕ
  lastCpu : ℕ
  rt : Option ℕ
  deadline : ℕ
  runtime : ℕ → ℕ

structure EdfWm extends TaskSet where
  edfWmTask : ℕ → EdfWmTask

namespace EdfWm

/-- `split_is_on_cpu` -/
def splitIsOnCpu (s : EdfWm) (rt cpu : ℕ) : Bool := decide (0 < (s.edfWmTask rt).runtime cpu)

variable (c : Config) (s : EdfWm) (cpu rt L : ℕ)

/-- A share on the CPU, or the whole task. -/
def resident : Resident :=
  if s.splitIsOnCpu rt cpu then
    ⟨(s.task rt).period, (s.edfWmTask rt).deadline, (s.edfWmTask rt).runtime cpu, true⟩
  else ⟨(s.task rt).period, (s.task rt).deadline, (s.task rt).C c, false⟩

/-- The tasks on the CPU (`edf_wm_task_is_on_cpu`) -/
def residents : List Resident :=
  (s.list.filter fun p => s.taskIsOnCpu p cpu || s.splitIsOnCpu p cpu).map (s.resident c cpu)

/-- `dbf_len` -/
def dbfLen : Option ℕ :=
  (dbfLenSum c (s.residents c cpu ++ [s.resident c cpu rt]) (0, 0, 0)).map fun (x, u, d) =>
    if 100 = u then d else if 100 < u then 0 else max (x / (100 - u)) d

/-- `dbf_cpu` -/
def dbfCpu : ℕ := dbfSum c (s.residents c cpu) L

/-- `dbf_task` -/
def dbfTask : ℕ := (s.resident c cpu rt).dbfTask c L

/-- The comparison of `dbf_test` at one deadline -/
def fits : Bool := decide (s.dbfCpu c cpu L + s.dbfTask c cpu rt L + s.overhead c rt L cpu ≤ L)

/-- `dbf_test` -/
def dbfTest : Option Bool :=
  if (s.task rt).C c = 0 then some true
  else (s.dbfLen c cpu rt).map fun Lmax =>
    if Lmax = 0 then false
    else testResidents (s.fits c cpu rt) Lmax (s.residents c cpu) &&
      testDeadlines (s.fits c cpu rt) Lmax (s.task rt).period (Lmax + 1) (s.task rt).deadline

end EdfWm

end Resch
