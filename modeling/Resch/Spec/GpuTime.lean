import Mathlib.Algebra.Order.Ring.Int
import Mathlib.Logic.Function.Basic

/-!
# Signed time values (`resch-gpu-core.h`)

`struct gdev_time` is a magnitude in seconds and microseconds, both `uint64_t`, and a
sign flag. The functions work on objects behind pointers, and callers pass one object
as the result and as an operand, so an operation is a function on a memory of such
objects.
-/

namespace Resch

/-- `struct gdev_time` -/
structure GdevTime where
  sec : ℕ
  usec : ℕ
  neg : Bool
  deriving DecidableEq

/-- Objects behind pointers. -/
abbrev TimeMem := ℕ → GdevTime

def usec1Sec : ℕ := 1000000

/-- `x + y` for `uint64_t`. -/
def u64Add (x y : ℕ) : ℕ := (x + y) % 2 ^ 64

/-- `x - y` for `uint64_t`. -/
def u64Sub (x y : ℕ) : ℕ := (x + 2 ^ 64 - y) % 2 ^ 64

namespace TimeMem

variable (m : TimeMem) (p : ℕ)

/-- `p->sec = v` -/
def setSec (v : ℕ) : TimeMem := Function.update m p { m p with sec := v }

/-- `p->usec = v` -/
def setUsec (v : ℕ) : TimeMem := Function.update m p { m p with usec := v }

/-- `p->neg = v` -/
def setNeg (v : Bool) : TimeMem := Function.update m p { m p with neg := v }

end TimeMem

variable (m : TimeMem) (ret x y : ℕ)

/-- `gdev_time_clear` -/
def gdevTimeClear (t : ℕ) : TimeMem := ((m.setNeg t false).setUsec t 0).setSec t 0

/-- `gdev_time_lt` -/
def gdevTimeLt : Bool :=
  if (m x).neg = false ∧ (m y).neg = true then false
  else if (m x).neg = true ∧ (m y).neg = false then true
  else if (m x).neg = true ∧ (m y).neg = true then
    if (m x).sec = (m y).sec then decide ((m y).usec < (m x).usec) else decide ((m y).sec < (m x).sec)
  else if (m x).sec = (m y).sec then decide ((m x).usec < (m y).usec)
  else decide ((m x).sec < (m y).sec)

/-- `__gdev_time_add_pos` -/
def gdevTimeAddPos : TimeMem :=
  let m := m.setSec ret (u64Add (m x).sec (m y).sec)
  let m := m.setUsec ret (u64Add (m x).usec (m y).usec)
  if usec1Sec ≤ (m ret).usec then
    let m := m.setSec ret (u64Add (m ret).sec 1)
    m.setUsec ret (u64Sub (m ret).usec usec1Sec)
  else m

/-- The end of `__gdev_time_sub_pos`, after the operands are in order. The field that is
compared with zero is unsigned. -/
def gdevTimeSubOrdered : TimeMem :=
  let m := m.setSec ret (u64Sub (m x).sec (m y).sec)
  let m := m.setUsec ret (u64Sub (m x).usec (m y).usec)
  if (m ret).usec < 0 then
    let m := m.setSec ret (u64Sub (m ret).sec 1)
    m.setUsec ret (u64Add (m ret).usec usec1Sec)
  else m

/-- `__gdev_time_sub_pos` -/
def gdevTimeSubPos : TimeMem :=
  if gdevTimeLt m x y then gdevTimeSubOrdered (m.setNeg ret true) ret y x
  else gdevTimeSubOrdered (m.setNeg ret false) ret x y

/-- `gdev_time_add` -/
def gdevTimeAdd : TimeMem :=
  let m := if ret ≠ x ∧ ret ≠ y then gdevTimeClear m ret else m
  if (m x).neg = false ∧ (m y).neg = true then
    let m := m.setNeg y false
    let m := gdevTimeSubPos m ret x y
    m.setNeg y true
  else if (m x).neg = true ∧ (m y).neg = false then
    let m := m.setNeg x false
    let m := gdevTimeSubPos m ret y x
    m.setNeg x true
  else if (m x).neg = true ∧ (m y).neg = true then
    let m := (m.setNeg y false).setNeg x false
    let m := gdevTimeAddPos m ret x y
    let m := m.setNeg ret true
    (m.setNeg y true).setNeg x true
  else gdevTimeAddPos m ret x y

/-- `gdev_time_sub` -/
def gdevTimeSub : TimeMem :=
  let m := if ret ≠ x ∧ ret ≠ y then gdevTimeClear m ret else m
  if (m x).neg = false ∧ (m y).neg = true then
    let m := m.setNeg y false
    let m := gdevTimeAddPos m ret x y
    m.setNeg y true
  else if (m x).neg = true ∧ (m y).neg = false then
    let m := m.setNeg x false
    let m := gdevTimeAddPos m ret y x
    let m := m.setNeg ret true
    m.setNeg x true
  else if (m x).neg = true ∧ (m y).neg = true then
    let m := (m.setNeg y false).setNeg x false
    let m := gdevTimeSubPos m ret y x
    (m.setNeg y true).setNeg x true
  else gdevTimeSubPos m ret x y

/-! ## Constructors -/

/-- `struct timeval`, as `do_gettimeofday` fills it in: Linux keeps a time of less than
`KTIME_SEC_MAX` seconds. -/
structure Timeval where
  sec : ℕ
  usec : ℕ
  sec_lt : sec < 9223372036
  usec_lt : usec < usec1Sec

/-- `gdev_time_stamp`, with what `gettimeofday` returns. -/
def gdevTimeStamp (tv : Timeval) : TimeMem := ((m.setSec ret tv.sec).setUsec ret tv.usec).setNeg ret false

/-- `gdev_time_ms` -/
def gdevTimeMs (ms : ℕ) : TimeMem :=
  let carry := ms / 1000
  ((m.setSec ret carry).setUsec ret ((ms - carry * 1000) * 1000)).setNeg ret false

/-- `gdev_time_us` -/
def gdevTimeUs (us : ℕ) : TimeMem := ((m.setSec ret 0).setUsec ret us).setNeg ret false

/-- `gdev_time_to_us` -/
def gdevTimeToUs (p : ℕ) : ℕ := u64Add ((m p).sec * usec1Sec % 2 ^ 64) (m p).usec

/-! ## Comparisons -/

/-- `gdev_time_eq` -/
def gdevTimeEq : Bool := decide ((m x).sec = (m y).sec) && decide ((m x).usec = (m y).usec)

/-- `gdev_time_eqz` -/
def gdevTimeEqz (p : ℕ) : Bool := decide ((m p).sec = 0) && decide ((m p).usec = 0)

/-- `gdev_time_gt` -/
def gdevTimeGt : Bool :=
  if (m x).neg = false ∧ (m y).neg = true then true
  else if (m x).neg = true ∧ (m y).neg = false then false
  else if (m x).neg = true ∧ (m y).neg = true then
    if (m x).sec = (m y).sec then decide ((m x).usec < (m y).usec) else decide ((m x).sec < (m y).sec)
  else if (m x).sec = (m y).sec then decide ((m y).usec < (m x).usec)
  else decide ((m y).sec < (m x).sec)

/-- `gdev_time_gtz` -/
def gdevTimeGtz (p : ℕ) : Bool :=
  !(m p).neg && (decide (0 < (m p).sec) || decide (0 < (m p).usec))

/-- `gdev_time_ge` -/
def gdevTimeGe : Bool := if gdevTimeEq m x y then true else gdevTimeGt m x y

/-- `gdev_time_gez` -/
def gdevTimeGez (p : ℕ) : Bool := gdevTimeGtz m p || gdevTimeEqz m p

/-- `gdev_time_ltz` -/
def gdevTimeLtz (p : ℕ) : Bool := (m p).neg

/-- `gdev_time_le` -/
def gdevTimeLe : Bool := if gdevTimeEq m x y then true else gdevTimeLt m x y

/-- `gdev_time_lez` -/
def gdevTimeLez (p : ℕ) : Bool := gdevTimeLtz m p || gdevTimeEqz m p

/-! ## Histories -/

/-- Times come from the clock, from numbers, and from sums and differences. -/
inductive TimeOp
  | stamp (ret : ℕ) (tv : Timeval)
  | ms (ret ms : ℕ)
  | us (ret us : ℕ)
  | add (ret x y : ℕ)
  | sub (ret x y : ℕ)

def timeStep (m : TimeMem) : TimeOp → TimeMem
  | .stamp ret tv => gdevTimeStamp m ret tv
  | .ms ret ms => gdevTimeMs m ret ms
  | .us ret us => gdevTimeUs m ret us
  | .add ret x y => gdevTimeAdd m ret x y
  | .sub ret x y => gdevTimeSub m ret x y

/-- Every object is cleared. -/
def timeInit : TimeMem := fun _ => ⟨0, 0, false⟩

/-- The value in microseconds. -/
def GdevTime.val (t : GdevTime) : ℤ := (if t.neg then -1 else 1) * (t.sec * 1000000 + t.usec)

end Resch
