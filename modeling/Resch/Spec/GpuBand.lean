import Resch.Lib.Runs
import Mathlib.Data.Int.Basic
import Mathlib.Logic.Function.Basic

/-!
# The band scheduler of virtual GPUs (`gpu_sched.c`, `gpu_vsched_band.c`)

The virtual devices of one physical GPU, the contexts that call `gdev_schedule_compute`, and
the thread of each device that calls `gdev_select_next_compute`. A locked section is one step,
and so is a read of `current_com` outside of them. The tests of credits and bandwidths, which
other threads change at any time, come with the steps. A context can come out of its sleep at
any time, since a signal wakes it as well.

All entities of a device have the same priority (`gdev->id * 30`), so `__gdev_enqueue_compute`
puts an entity at the end of the list if it is in none.
-/

namespace Resch

def gdevInstancesLimit : ℤ := 1

/-- What a context does next. -/
inductive CtxPoint
  /-- in its own code, maybe with a launch in flight -/
  | outside
  /-- at `resched` of the band scheduler -/
  | resched
  /-- in `__gdev_vsched_band_yield_chance`, with `current_com` of the physical device cleared -/
  | yielding
  /-- the test of `current_com` of the physical device -/
  | check
  /-- the insertion that the test has led to -/
  | enqueue
  /-- the locked section of its own device -/
  | compute
  /-- in `gdev_sched_sleep` -/
  | asleep
  /-- let through, it waits for the thread of the device to sleep -/
  | launch
  deriving DecidableEq

/-- What the thread of a device does next. `se` and `old` are `se` and `old_instance` of
`gdev_select_next_compute`, `next` is the device selected. -/
inductive ComPoint
  | idle
  /-- the first locked section, for the completion of `e` -/
  | start (e : ℕ)
  /-- the test that another device is current, outside of the lock -/
  | early (se : Option ℕ) (old : ℤ)
  /-- the return of `current_com` after that test -/
  | other (se : Option ℕ) (old : ℤ)
  /-- the scan of the devices -/
  | scan (se : Option ℕ) (old : ℤ)
  /-- in `__gdev_vsched_band_yield_chance`, with `current_com` of the physical device cleared -/
  | yielding (se : Option ℕ) (old : ℤ) (next : ℕ)
  /-- the last locked section -/
  | switch (se : Option ℕ) (old : ℤ) (next : ℕ)
  deriving DecidableEq

/-- `physCur` and `cur` are `current_com` of the physical device and of the virtual ones,
`devices` is the list of the virtual devices and `comList` are their lists of entities.
`inFlight` is there for the statements only: a context is let through, and the call for its
completion has not counted its launch off. -/
structure BandState where
  physCur : Option ℕ
  devices : List ℕ
  gdev : ℕ → ℕ
  cur : ℕ → Option ℕ
  comList : ℕ → List ℕ
  instances : ℕ → ℤ
  ctx : ℕ → CtxPoint
  com : ℕ → ComPoint
  inFlight : ℕ → Bool

namespace BandState

variable (s : BandState) (e d : ℕ)

def setCtx (p : CtxPoint) : BandState := { s with ctx := Function.update s.ctx e p }

def setCom (p : ComPoint) : BandState := { s with com := Function.update s.com d p }

def setPhysCur (x : Option ℕ) : BandState := { s with physCur := x }

def setCur (x : Option ℕ) : BandState := { s with cur := Function.update s.cur d x }

def addInstances (n : ℤ) : BandState :=
  { s with instances := Function.update s.instances e (s.instances e + n) }

def setInFlight (b : Bool) : BandState := { s with inFlight := Function.update s.inFlight e b }

/-- `__gdev_enqueue_compute` -/
def enqueueCompute : BandState :=
  if e ∈ s.comList (s.gdev e) then s
  else { s with comList := Function.update s.comList (s.gdev e) (s.comList (s.gdev e) ++ [e]) }

/-- `__gdev_dequeue_compute` -/
def dequeueCompute : BandState :=
  { s with comList :=
      Function.update s.comList (s.gdev e) ((s.comList (s.gdev e)).filter (· ≠ e)) }

/-! ## `gdev_schedule_compute` -/

/-- Another device is current. -/
def otherIsCurrent : Bool := s.physCur.any (· ≠ d)

/-- The step of a context at `resched`; `overrun` says that its device has used more than its
bandwidth and is not alone. -/
def bandResched (overrun : Bool) : BandState :=
  if overrun ∧ s.physCur = some (s.gdev e) then (s.setPhysCur none).setCtx e .yielding
  else s.setCtx e .check

/-- The yield is over. -/
def bandRegain : BandState :=
  (if s.physCur = none then s.setPhysCur (some (s.gdev e)) else s).setCtx e .check

/-- The test of `gdev_vsched_band_schedule_compute` -/
def bandCheck : BandState :=
  if s.otherIsCurrent (s.gdev e) then s.setCtx e .enqueue
  else (s.setPhysCur (some (s.gdev e))).setCtx e .compute

/-- The local scheduler has the entity wait. -/
def mustWait : Bool :=
  (s.cur (s.gdev e)).any (· ≠ e) || decide (gdevInstancesLimit ≤ s.instances e)

/-- The local scheduler of `gdev_schedule_compute` -/
def localCompute : BandState :=
  if s.mustWait e then (s.enqueueCompute e).setCtx e .asleep
  else (((s.addInstances e 1).setCur (s.gdev e) (some e)).setInFlight e true).setCtx e .launch

/-- The next step of a context -/
def ctxStep (overrun : Bool) : Option BandState :=
  match s.ctx e with
  | .outside | .asleep => none
  | .resched => some (s.bandResched e overrun)
  | .yielding => some (s.bandRegain e)
  | .check => some (s.bandCheck e)
  | .enqueue => some ((s.enqueueCompute e).setCtx e .asleep)
  | .compute => some (s.localCompute e)
  | .launch => if s.com (s.gdev e) = .idle then some (s.setCtx e .outside) else none

/-! ## `gdev_select_next_compute` -/

/-- The first locked section, for the completion of `e` -/
def selectStart : BandState :=
  match s.cur d with
  | none => s.setCom d .idle
  | some x =>
    let s := s.addInstances x (-1)
    let s := if x = e then s.setInFlight e false else s
    if s.instances x = 0 then
      let se := (s.comList d).head?
      (s.setCur d se).setCom d (.early se (se.elim 0 s.instances))
    else s.setCom d .idle

/-- The first device with a waiting entity -/
def firstWaiting : Option ℕ := s.devices.find? fun d => !(s.comList d).isEmpty

/-- A device whose credit is exhausted is put at the end of the list. -/
def reinsert (exhausted : Bool) : BandState :=
  if exhausted then { s with devices := s.devices.filter (· ≠ d) ++ [d] } else s

/-- The scan of `gdev_vsched_band_select_next_compute`; `overrun` says that the device found has
used more than its bandwidth. -/
def selectScan (se : Option ℕ) (old : ℤ) (exhausted overrun : Bool) : BandState :=
  let s := s.reinsert d exhausted
  match s.firstWaiting with
  | none => (s.setPhysCur none).setCom d .idle
  | some next =>
    if next ≠ d ∧ overrun then (s.setPhysCur none).setCom d (.yielding se old next)
    else (s.setPhysCur (some next)).setCom d (.switch se old next)

/-- The yield is over, and no chance is left. -/
def selectRegain (se : Option ℕ) (old : ℤ) (next : ℕ) : BandState :=
  match s.physCur with
  | none => (s.setPhysCur (some next)).setCom d (.switch se old next)
  | some next => s.setCom d (.switch se old next)

/-- What is done to `launch_instances` when another device is selected -/
def switchInstances (se : Option ℕ) (old : ℤ) : BandState :=
  match se with
  | some x => if old < s.instances x then s.addInstances x (-1) else s
  | none =>
    match s.cur d with
    | some x => s.addInstances x (-1)
    | none => s

/-- The last locked section of `gdev_select_next_compute` -/
def selectSwitch (se : Option ℕ) (old : ℤ) (next : ℕ) : BandState :=
  if next ≠ d then
    let s := (s.switchInstances d se old).setCur d none
    let se := (s.comList next).head?
    (se.elim s s.dequeueCompute).setCom d .idle
  else (se.elim s s.dequeueCompute).setCom d .idle

/-- The next step of the thread of a device -/
def comStep (exhausted overrun : Bool) : Option BandState :=
  match s.com d with
  | .idle => none
  | .start e => some (s.selectStart e d)
  | .early se old =>
    some (s.setCom d (if s.otherIsCurrent d then .other se old else .scan se old))
  | .other se old =>
    some (s.setCom d (s.physCur.elim .idle fun next => .switch se old next))
  | .scan se old => some (s.selectScan d se old exhausted overrun)
  | .yielding se old next => some (s.selectRegain d se old next)
  | .switch se old next => some (s.selectSwitch d se old next)

end BandState

/-! ## Runs -/

inductive BandOp
  /-- The context calls `gdev_schedule_compute`. -/
  | schedule (e : ℕ)
  | ctx (e : ℕ) (overrun : Bool)
  | wake (e : ℕ)
  /-- The launch of the context is complete: the thread of its device is woken. -/
  | complete (e : ℕ)
  | com (d : ℕ) (exhausted overrun : Bool)
  deriving DecidableEq

def bandStep (s : BandState) : BandOp → Option BandState
  | .schedule e => if s.ctx e = .outside then some (s.setCtx e .resched) else none
  | .ctx e overrun => s.ctxStep e overrun
  | .wake e => if s.ctx e = .asleep then some (s.setCtx e .resched) else none
  | .complete e =>
    if s.inFlight e = true ∧ s.ctx e = .outside ∧ s.com (s.gdev e) = .idle then
      some (s.setCom (s.gdev e) (.start e))
    else none
  | .com d exhausted overrun => s.comStep d exhausted overrun

/-- Contexts `e` on the devices `gdev e`, none of which has been scheduled. -/
def bandInit (devices : List ℕ) (gdev : ℕ → ℕ) : BandState where
  physCur := none
  devices := devices
  gdev := gdev
  cur _ := none
  comList _ := []
  instances _ := 0
  ctx _ := .outside
  com _ := .idle
  inFlight _ := false

end Resch
