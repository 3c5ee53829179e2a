import Mathlib.Data.Int.Basic
import Mathlib.Logic.Function.Basic

/-!
# Bitmaps (`bitops.h`)

A bitmap is an array of words of `w` bits (`BITS_PER_LONG`). The searches are the
loops of `bitops.h`, word by word; a loop that returns from its body is a
`findSome?` over the word indices. A shift takes its count modulo the width, as on
x86.
-/

namespace Resch

/-- An array of `w`-bit words; the length is passed along, as in C. -/
abbrev Bitmap (w : ℕ) := ℕ → BitVec w

variable {w : ℕ}

/-- Whether bit `nr` is set. -/
def testBit (nr : ℤ) (b : Bitmap w) : Bool :=
  decide (0 ≤ nr) && (b (nr.toNat / w)).getLsbD (nr.toNat % w)

/-- Set bit `nr`. A negative `nr` addresses memory before the bitmap. -/
def setBit (nr : ℤ) (b : Bitmap w) : Bitmap w :=
  if 0 ≤ nr then
    Function.update b (nr.toNat / w) (b (nr.toNat / w) ||| BitVec.twoPow w (nr.toNat % w))
  else b

/-- Clear bit `nr`. -/
def clearBit (nr : ℤ) (b : Bitmap w) : Bitmap w :=
  if 0 ≤ nr then
    Function.update b (nr.toNat / w) (b (nr.toNat / w) &&& ~~~BitVec.twoPow w (nr.toNat % w))
  else b

/-- Linux's `__ffs`: index of the least significant set bit. -/
def ffsWord (x : BitVec w) : ℕ := ((List.range w).find? (x.getLsbD ·)).getD 0

/-- Linux's `__fls`: index of the most significant set bit. -/
def flsWord (x : BitVec w) : ℕ := ((List.range w).reverse.find? (x.getLsbD ·)).getD 0

/-- `~0UL << n`, the count taken modulo the width. -/
def onesShl (w n : ℕ) : BitVec w := BitVec.allOnes w <<< (n % w)

/-- `~0UL >> n`, the count taken modulo the width. -/
def onesShr (w n : ℕ) : BitVec w := BitVec.allOnes w >>> (n % w)

/-- Find the first set bit, `-1` if there is none. -/
def reschFfs (b : Bitmap w) (len : ℕ) : ℤ :=
  ((List.range len).findSome? fun i =>
    if b i ≠ 0 then some ((ffsWord (b i) + i * w : ℕ) : ℤ) else none).getD (-1)

/-- Find the first zero bit, `-1` if there is none. -/
def reschFfz (b : Bitmap w) (len : ℕ) : ℤ :=
  ((List.range len).findSome? fun i =>
    if ~~~b i ≠ 0 then some ((ffsWord (~~~b i) + i * w : ℕ) : ℤ) else none).getD (-1)

/-- Find the last set bit, `-1` if there is none. -/
def reschFls (b : Bitmap w) (len : ℕ) : ℤ :=
  ((List.range len).reverse.findSome? fun i =>
    if b i ≠ 0 then some ((flsWord (b i) + i * w : ℕ) : ℤ) else none).getD (-1)

/-- Find the last zero bit, `-1` if there is none. -/
def reschFlz (b : Bitmap w) (len : ℕ) : ℤ :=
  ((List.range len).reverse.findSome? fun i =>
    if ~~~b i ≠ 0 then some ((flsWord (~~~b i) + i * w : ℕ) : ℤ) else none).getD (-1)

/-- One word of `resch_fns`: what the loop body returns, if it returns. -/
def fnsWord (b : Bitmap w) (offset i : ℕ) : Option ℤ :=
  let longOffset := i * w
  if longOffset + w < offset then none
  else
    let tmp := if longOffset < offset then b i &&& onesShl w (offset - longOffset) else b i
    if tmp ≠ 0 then some ((ffsWord tmp + longOffset : ℕ) : ℤ) else none

/-- Find the next set bit, including `offset`, `-1` if there is none. -/
def reschFns (b : Bitmap w) (offset : ℤ) (len : ℕ) : ℤ :=
  if offset < 0 ∨ len < (offset.toNat + w - 1) / w then -1
  else ((List.range len).findSome? (fnsWord b offset.toNat)).getD (-1)

/-- One word of `resch_fps`: what the loop body returns, if it returns. -/
def fpsWord (b : Bitmap w) (offset i : ℕ) : Option ℤ :=
  let longOffset := i * w
  if offset < longOffset then none
  else
    let tmp := if offset < longOffset + w then b i &&& onesShr w (w - 1 - (offset - longOffset)) else b i
    if tmp ≠ 0 then some ((flsWord tmp + longOffset : ℕ) : ℤ) else none

/-- Find the previous set bit, including `offset`, `-1` if there is none. -/
def reschFps (b : Bitmap w) (offset : ℤ) (len : ℕ) : ℤ :=
  if offset < 0 ∨ len < (offset.toNat + w - 1) / w then -1
  else ((List.range len).reverse.findSome? (fpsWord b offset.toNat)).getD (-1)

/-- One word of `resch_fnz`: the word is masked, and then complemented. -/
def fnzWord (b : Bitmap w) (offset i : ℕ) : Option ℤ :=
  let longOffset := i * w
  if longOffset + w < offset then none
  else
    let tmp := if longOffset < offset then b i &&& onesShl w (offset - longOffset) else b i
    if ~~~tmp ≠ 0 then some ((ffsWord (~~~tmp) + longOffset : ℕ) : ℤ) else none

/-- Find the next zero bit, including `offset`, `-1` if there is none. A negative offset is not
tested for, but as an `unsigned long` it is beyond all words. -/
def reschFnz (b : Bitmap w) (offset : ℤ) (len : ℕ) : ℤ :=
  if offset < 0 ∨ len < (offset.toNat + w - 1) / w then -1
  else ((List.range len).findSome? (fnzWord b offset.toNat)).getD (-1)

/-- One word of `resch_fpz`: the word is masked, and then complemented. -/
def fpzWord (b : Bitmap w) (offset i : ℕ) : Option ℤ :=
  let longOffset := i * w
  if offset < longOffset then none
  else
    let tmp := if offset < longOffset + w then b i &&& onesShr w (w - 1 - (offset - longOffset)) else b i
    if ~~~tmp ≠ 0 then some ((flsWord (~~~tmp) + longOffset : ℕ) : ℤ) else none

/-- Find the previous zero bit, including `offset`, `-1` if there is none. -/
def reschFpz (b : Bitmap w) (offset : ℤ) (len : ℕ) : ℤ :=
  if offset < 0 ∨ len < (offset.toNat + w - 1) / w then -1
  else ((List.range len).reverse.findSome? (fpzWord b offset.toNat)).getD (-1)

end Resch
