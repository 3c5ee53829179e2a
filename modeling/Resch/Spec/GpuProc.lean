import Resch.Lib.Runs
import Mathlib.Data.Nat.Notation
import Mathlib.Logic.Function.Basic

/-!
# The bandwidths and shares of virtual GPUs in `/proc` (`gpu_proc.h`)

Any number of writers of `compute_bandwidth`, `memory_bandwidth` and `memory_share` are inside
`gdev_proc_util_write`. A step is one access to the value of a file, an operation of `proc_sem`,
or a pass of the loop over the devices.
-/

namespace Resch

/-- The files that `gdev_proc_util_write` serves -/
inductive UtilFile
  | comBw
  | memBw
  | memSh
  deriving DecidableEq

/-- What a writer does next. `old` is the value it has read at first. -/
inductive UtilPoint
  | idle
  /-- `down(&proc_sem)` -/
  | down (vd : ℕ) (file : UtilFile) (old : UInt32)
  /-- `gdev_proc_val_write` -/
  | store (vd : ℕ) (file : UtilFile) (old : UInt32)
  /-- the test that the value is above 100 -/
  | check (vd : ℕ) (file : UtilFile) (old : UInt32)
  /-- the loop, at device `i` -/
  | sizes (i : ℕ)
  deriving DecidableEq

/-- `parent`, `memSize` and `dmaMemSize` are those of the virtual devices, `physMemSize` and
`physDmaMemSize` those of the physical ones. `holder` is the writer that has `proc_sem`.
`written` is there for the statements only: the values stored in each file. -/
structure ProcState where
  vcount : ℕ
  parent : ℕ → Option ℕ
  physMemSize : ℕ → UInt64
  physDmaMemSize : ℕ → UInt64
  val : ℕ → UtilFile → UInt32
  memSize : ℕ → UInt64
  dmaMemSize : ℕ → UInt64
  holder : Option ℕ
  point : ℕ → UtilPoint
  written : ℕ → UtilFile → List UInt32

/-- The part of a physical device that a share gives -/
def sizeOfShare (size : UInt64) (memSh : UInt32) : UInt64 := size * memSh.toUInt64 / 100

namespace ProcState

variable (s : ProcState) (w vd : ℕ) (file : UtilFile)

def setPoint (p : UtilPoint) : ProcState := { s with point := Function.update s.point w p }

def setVal (v : UInt32) : ProcState :=
  { s with val := Function.update s.val vd (Function.update (s.val vd) file v) }

/-- `gdev_proc_val_write`: the value is stored if `sscanf` finds one. -/
def valWrite : Option UInt32 → ProcState
  | none => s
  | some v => { s.setVal vd file v with
      written := Function.update s.written vd
        (Function.update (s.written vd) file (v :: s.written vd file)) }

/-- A value above 100 is replaced by the old one. -/
def restore (old : UInt32) : ProcState := if 100 < s.val vd file then s.setVal vd file old else s

/-- A pass of the loop over the devices -/
def resize (i : ℕ) : ProcState :=
  match s.parent i with
  | none => s
  | some phys => { s with
      memSize :=
        Function.update s.memSize i (sizeOfShare (s.physMemSize phys) (s.val i .memSh))
      dmaMemSize :=
        Function.update s.dmaMemSize i (sizeOfShare (s.physDmaMemSize phys) (s.val i .memSh)) }

end ProcState

inductive ProcOp
  /-- A writer calls `gdev_proc_util_write`, which reads the old value. -/
  | write (w vd : ℕ) (file : UtilFile)
  | down (w : ℕ)
  | store (w : ℕ) (parsed : Option UInt32)
  | check (w : ℕ)
  | resize (w : ℕ)
  | up (w : ℕ)

/-- The next step of a writer -/
def procStep (s : ProcState) : ProcOp → Option ProcState
  | .write w vd file =>
    if s.point w = .idle ∧ vd < s.vcount then some (s.setPoint w (.down vd file (s.val vd file)))
    else none
  | .down w =>
    match s.point w, s.holder with
    | .down vd file old, none => some { s.setPoint w (.store vd file old) with holder := some w }
    | _, _ => none
  | .store w parsed =>
    match s.point w with
    | .store vd file old => some ((s.valWrite vd file parsed).setPoint w (.check vd file old))
    | _ => none
  | .check w =>
    match s.point w with
    | .check vd file old => some ((s.restore vd file old).setPoint w (.sizes 0))
    | _ => none
  | .resize w =>
    match s.point w with
    | .sizes i => if i < s.vcount then some ((s.resize i).setPoint w (.sizes (i + 1))) else none
    | _ => none
  | .up w =>
    match s.point w with
    | .sizes i =>
      if i < s.vcount then none else some { s.setPoint w .idle with holder := none }
    | _ => none

/-- Nobody writes, and the sizes are those of the shares. -/
def procInit (vcount : ℕ) (parent : ℕ → Option ℕ) (physMemSize physDmaMemSize : ℕ → UInt64)
    (val : ℕ → UtilFile → UInt32) : ProcState where
  vcount := vcount
  parent := parent
  physMemSize := physMemSize
  physDmaMemSize := physDmaMemSize
  val := val
  memSize i := (parent i).elim 0 fun phys => sizeOfShare (physMemSize phys) (val i .memSh)
  dmaMemSize i := (parent i).elim 0 fun phys => sizeOfShare (physDmaMemSize phys) (val i .memSh)
  holder := none
  point _ := .idle
  written _ _ := []

end Resch
