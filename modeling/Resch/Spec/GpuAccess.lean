import Resch.Spec.GpuBand

/-!
# The access counter of a GPU (`gpu_sched.c`, `gpu.c`)

`accessed` of the physical device, raised by `gdev_access_start` at the end of
`gdev_schedule_compute` and lowered by `gdev_access_end` at the start of
`gdev_select_next_compute`, with the contexts and threads of `GpuBand` around them. A `sync`
wakes the thread of whatever device it names.
-/

namespace Resch

/-- `users` is that of the virtual devices, `accessed` and `blocked` those of the physical one.
`starting` are the contexts let through that come to `gdev_access_start`. The thread of a device
that has been woken comes to `gdev_access_end` if it is in `ending`, and has been through it if it
is in `ended`. -/
structure AccessState where
  band : BandState
  users : ℕ → ℕ
  accessed : ℤ
  blocked : Bool
  starting : List ℕ
  ending : List ℕ
  ended : List ℕ

namespace AccessState

variable (s : AccessState) (e d : ℕ)

/-- `gdev_access_start`: a blocked device is tried again. -/
def accessStart : Option AccessState :=
  if s.blocked then none
  else some { s with accessed := s.accessed + 1, starting := s.starting.erase e }

/-- `gdev_access_end` -/
def accessEnd : AccessState :=
  { s with accessed := s.accessed - 1, ending := s.ending.erase d, ended := d :: s.ended }

/-- The next step of a context lets it through. -/
def letsThrough : Bool := decide (s.band.ctx e = .compute) && !s.band.mustWait e

/-- The next step of a context in `gdev_schedule_compute` -/
def ctxStep (overrun : Bool) : Option AccessState :=
  (bandStep s.band (.ctx e overrun)).map fun band =>
    if s.letsThrough e then { s with band, starting := e :: s.starting } else { s with band }

/-- The thread that `gsched_sync` wakes goes to `gdev_select_next_compute`, unless the device has
no users. -/
def sync : AccessState :=
  if s.users d = 0 then s
  else { s with band := s.band.setCom d (.start e), ending := d :: s.ending }

/-- The next step of the thread of a device, after `gdev_access_end` -/
def comStep (exhausted overrun : Bool) : Option AccessState :=
  (bandStep s.band (.com d exhausted overrun)).map fun band =>
    { s with band, ended := s.ended.erase d }

end AccessState

inductive AccessOp
  /-- `gsched_launch` -/
  | launch (e : ℕ)
  | ctx (e : ℕ) (overrun : Bool)
  | accessStart (e : ℕ)
  | wake (e : ℕ)
  /-- `gsched_sync` of a context, for device `d` -/
  | sync (e d : ℕ)
  | accessEnd (d : ℕ)
  | com (d : ℕ) (exhausted overrun : Bool)
  deriving DecidableEq

def accessStep (s : AccessState) : AccessOp → Option AccessState
  | .launch e => (bandStep s.band (.schedule e)).map fun band => { s with band }
  | .ctx e overrun => if e ∈ s.starting then none else s.ctxStep e overrun
  | .accessStart e => if e ∈ s.starting then s.accessStart e else none
  | .wake e => (bandStep s.band (.wake e)).map fun band => { s with band }
  | .sync e d =>
    if s.band.ctx e = .outside ∧ s.band.com d = .idle then some (s.sync e d) else none
  | .accessEnd d => if d ∈ s.ending then some (s.accessEnd d) else none
  | .com d exhausted overrun =>
    if d ∈ s.ending then none else s.comStep d exhausted overrun

/-- No context has been let through. -/
def accessInit (devices : List ℕ) (gdev users : ℕ → ℕ) : AccessState where
  band := bandInit devices gdev
  users := users
  accessed := 0
  blocked := false
  starting := []
  ending := []
  ended := []

end Resch
