import Resch.Lib.CText
import Resch.Spec.Placement

/-!
# Task sets of the benchmarks

`bench/schedbench` and `bench/resbench` write a task set to a file (`generate_taskset` in `taskset.c`),
read it again and give its tasks deadline-monotonic priorities (`exec.c`; the two directories have the
same functions).

* `writeTaskset`, `readTaskset`: the file and its reader. The reader keeps the last line of the file
  when there are no more, and stops with a message at a line of less than four columns.
* `deadlineMonotonicPriority`: a bubble sort on the array. It does not move `pid`.
-/

namespace Resch

open Lib

def maxBuf : ℕ := 256

def nrCols : ℕ := 4

def reschAppPrioMax : ℕ := 96

/-- What of `taskdata_t` is written. They are `int`s. -/
structure TaskData where
  C : ℤ
  T : ℤ
  D : ℤ
  fits : ∀ z ∈ [C, T, D], -2 ^ 31 ≤ z ∧ z < 2 ^ 31

/-- `task_t` -/
structure BenchTask where
  pid : ℤ
  tid : ℤ
  C : ℤ
  T : ℤ
  D : ℤ
  prio : ℤ
deriving DecidableEq, Repr

/-! ## The file -/

/-- `"task%d, %d, %d, %d"` -/
def taskLine (i : ℕ) (t : TaskData) : List Char :=
  ", ".toList.intercalate ["task".toList ++ fmtInt i, fmtInt t.C, fmtInt t.T, fmtInt t.D]

/-- The lines of the tasks from `i` on -/
def taskLines : ℕ → List TaskData → List Char
  | _, [] => []
  | i, t :: ts => taskLine i t ++ '\n' :: taskLines (i + 1) ts

/-- The lines before the tasks, with `n` for the number of tasks -/
def tasksetHeader (n : ℕ) : List Char :=
  "# the number of tasks".toList ++ '\n' :: (fmtInt n ++ '\n' ::
    ("# tasks (name, C, T, D)".toList ++ ['\n']))

/-- The end of `generate_taskset` -/
def writeTaskset (ts : List TaskData) : List Char := tasksetHeader ts.length ++ taskLines 0 ts

/-! ## The reader -/

/-- `fgets(line, MAX_BUF, fp)`, with its result left unread -/
def nextLine (line fp : List Char) : List Char × List Char :=
  if fp.isEmpty then (line, fp) else (cString (fgets (maxBuf - 1) fp).1, (fgets (maxBuf - 1) fp).2)

theorem fgets_length_lt {n : ℕ} {cs : List Char} (h : cs ≠ []) :
    (fgets (n + 1) cs).2.length < cs.length := by
  induction n generalizing cs with
  | zero =>
    obtain ⟨c, cs, rfl⟩ := List.exists_cons_of_ne_nil h
    rw [fgets]
    split
    · exact Nat.lt_succ_self _
    · exact Nat.lt_succ_self _
  | succ n ih =>
    obtain ⟨c, cs, rfl⟩ := List.exists_cons_of_ne_nil h
    rw [fgets]
    split
    · exact Nat.lt_succ_self _
    · by_cases hcs : cs = []
      · subst hcs
        exact Nat.zero_lt_one
      · exact (ih hcs).trans (Nat.lt_succ_self _)

/-- The loop that skips comments and empty lines -/
def skipComments (line fp : List Char) : List Char × List Char :=
  if h : fp = [] then (line, fp)
  else
    let line := cString (fgets (maxBuf - 1) fp).1
    if line.head? = some '\n' ∨ line.head? = some '#' then
      skipComments line (fgets (maxBuf - 1) fp).2
    else (line, (fgets (maxBuf - 1) fp).2)
termination_by fp.length
decreasing_by exact fgets_length_lt h

def isColumnEnd (c : Char) : Bool := c = ',' ∨ c = '\t' ∨ c = ' '

def initTask (tid C T D : ℤ) : BenchTask := ⟨0, tid, C, T, D, 1⟩

/-- The columns of a line, or the message before `exit(1)` -/
def readTask (i : ℕ) (line : List Char) : Except (List Char) BenchTask :=
  match tokens isColumnEnd nrCols line with
  | some [_, c, t, d] => .ok (initTask i (atoi c) (atoi t) (atoi d))
  | _ => .error ("Error: invalid format: ".toList ++ line ++ "!\n".toList)

/-- The loop over the tasks from `i` on, with `n` of them left -/
def readTasks : ℕ → ℕ → List Char → List Char → Except (List Char) (List BenchTask)
  | 0, _, _, _ => .ok []
  | n + 1, i, line, fp => do
    let t ← readTask i line
    let ts ← readTasks n (i + 1) (nextLine line fp).1 (nextLine line fp).2
    pure (t :: ts)

/-- `read_taskset`. `line` is what happens to be in the buffer before. -/
def readTaskset (line fp : List Char) : Except (List Char) (List BenchTask) :=
  let first := skipComments line fp
  let second := skipComments first.1 first.2
  readTasks (atoi first.1).toNat 0 second.1 second.2

/-! ## Priorities -/

/-- The body of the inner loop -/
def swapTasks (tasks : List BenchTask) (j : ℕ) : List BenchTask :=
  match tasks[j - 1]?, tasks[j]? with
  | some a, some b =>
    if b.D < a.D then
      (tasks.set j { b with tid := a.tid, C := a.C, T := a.T, D := a.D }).set (j - 1)
        { a with tid := b.tid, C := b.C, T := b.T, D := b.D }
    else tasks
  | _, _ => tasks

/-- The inner loop -/
def swapDownTo (tasks : List BenchTask) (i : ℕ) : List BenchTask :=
  (List.range' (i + 1) (tasks.length - 1 - i)).reverse.foldl swapTasks tasks

/-- `tasks[i].prio`, from an `unsigned long` that counts down -/
def benchPrio (i : ℕ) : ℤ := cint (ulong (reschAppPrioMax - i))

/-- `deadline_monotonic_priority` -/
def deadlineMonotonicPriority (tasks : List BenchTask) : List BenchTask :=
  ((List.range (tasks.length - 1)).foldl swapDownTo tasks).mapIdx
    fun i t => { t with prio := benchPrio i }

end Resch
