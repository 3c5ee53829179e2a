import Resch.Proof.Bitops

/-!
# The searches from an offset

`resch_fns` and `resch_fps` mask one word of the bitmap, by a shift of `~0UL`.

* `FnsShifts`, `FpsShifts`: the shifts that a search evaluates.
* `searches_iff`: both searches are right, and no shift is by the width, iff the offset is not the
  first bit of a word other than the first one.
-/

namespace Resch

variable {w : ℕ} {b : Bitmap w} {offset len : ℕ}

/-- The shift that `resch_fns` evaluates for word `i` -/
def fnsShift (w offset i : ℕ) : Option ℕ :=
  let longOffset := i * w
  if longOffset + w < offset then none
  else if longOffset < offset then some (offset - longOffset)
  else none

/-- The shift that `resch_fps` evaluates for word `i` -/
def fpsShift (w offset i : ℕ) : Option ℕ :=
  let longOffset := i * w
  if offset < longOffset then none
  else if offset < longOffset + w then some (w - 1 - (offset - longOffset))
  else none

/-- `resch_fns` evaluates a shift by `n`: it comes to a word that has one. -/
def FnsShifts (b : Bitmap w) (offset len n : ℕ) : Prop :=
  ∃ i < len, (∀ j < i, fnsWord b offset j = none) ∧ fnsShift w offset i = some n

/-- `resch_fps` evaluates a shift by `n`. It begins with the last word. -/
def FpsShifts (b : Bitmap w) (offset len n : ℕ) : Prop :=
  ∃ i < len, (∀ j < len, i < j → fpsWord b offset j = none) ∧ fpsShift w offset i = some n

/-- What the searches are to do from `offset` on, to the right and to the left. -/
structure Searches (b : Bitmap w) (offset len : ℕ) : Prop where
  next : IsLeastBit (fun j => testBit (j : ℤ) b && decide (offset ≤ j)) (len * w)
    (reschFns b offset len)
  prev : IsGreatestBit (fun j => testBit (j : ℤ) b) offset (reschFps b offset len)
  nextShift : ∀ n, FnsShifts b offset len n → n < w
  prevShift : ∀ n, FpsShifts b offset len n → n < w

theorem fpsShift_lt {i n : ℕ} (hw : 0 < w) (h : fpsShift w offset i = some n) : n < w := by
  unfold fpsShift at h
  dsimp only at h
  split at h
  · cases h
  split at h
  · cases h
    omega
  · cases h

/-- Only from the first bit of a word on is there a shift by the width. -/
theorem fnsShift_lt {i n : ℕ} (ho : offset = 0 ∨ offset % w ≠ 0)
    (h : fnsShift w offset i = some n) : n < w := by
  unfold fnsShift at h
  dsimp only at h
  split at h
  · cases h
  rename_i hskip
  split at h
  · rename_i hmask
    cases h
    rcases ho with rfl | ho
    · omega
    · have hne : i * w + w ≠ offset := by
        intro he
        apply ho
        rw [← he, ← Nat.succ_mul, Nat.mul_mod_left]
      omega
  · cases h

/-- From the first bit of word `i + 1` on, the word before is not skipped. -/
theorem fnsShifts_width {i : ℕ} (hw : 0 < w) (hi : i + 1 < len) :
    FnsShifts b ((i + 1) * w) len w := by
  have hmul : (i + 1) * w = i * w + w := Nat.succ_mul i w
  refine ⟨i, by omega, fun j hj => ?_, ?_⟩
  · have hle : (j + 1) * w ≤ i * w := Nat.mul_le_mul_right w hj
    rw [Nat.succ_mul] at hle
    unfold fnsWord
    exact if_pos (by omega)
  · unfold fnsShift
    rw [hmul, if_neg (by omega), if_pos (by omega), Nat.add_sub_cancel_left]

/-- **The bounded searches** are right, and evaluate no shift by the width, iff the offset is 0 or
not the first bit of a word. -/
theorem searches_iff (b : Bitmap w) (offset len : ℕ) (h : offset < len * w) :
    Searches b offset len ↔ offset = 0 ∨ offset % w ≠ 0 := by
  have hw := width_pos h
  constructor
  · intro hs
    by_contra hno
    obtain ⟨hpos, hmod⟩ := not_or.1 hno
    have hdiv := Nat.div_add_mod offset w
    rw [not_not.1 hmod, Nat.add_zero, Nat.mul_comm] at hdiv
    -- the offset is the first bit of word `i + 1`
    obtain ⟨i, hi⟩ : ∃ i, offset / w = i + 1 := by
      refine Nat.exists_eq_succ_of_ne_zero fun h0 => hpos ?_
      rw [← hdiv, h0, Nat.zero_mul]
    rw [hi] at hdiv
    have hlen : i + 1 < len := Nat.lt_of_mul_lt_mul_right (hdiv ▸ h)
    have hshift := fnsShifts_width (b := b) hw hlen
    rw [hdiv] at hshift
    exact lt_irrefl w (hs.nextShift w hshift)
  · intro ho
    refine ⟨?_, reschFps_spec h, ?_, ?_⟩
    · rcases ho with rfl | ho
      · have hzero := reschFns_zero b len
        simpa using hzero
      · exact reschFns_spec ho h
    · rintro n ⟨i, -, -, hn⟩
      exact fnsShift_lt ho hn
    · rintro n ⟨i, -, -, hn⟩
      exact fpsShift_lt hw hn

theorem searches_iff_ten : Searches (w := 64) (fun _ => 1) 10 2 ↔ 10 = 0 ∨ 10 % 64 ≠ 0 :=
  searches_iff (w := 64) (fun _ => 1) 10 2 (by decide)

/-- From bit 64 on, the search shifts by 64 and comes back to bit 0. -/
theorem searches_not : ¬ ∀ (w : ℕ) (b : Bitmap w) (offset len : ℕ), w = 32 ∨ w = 64 →
    offset < len * w → Searches b offset len := by
  intro hall
  have h := (hall 64 (fun _ => 1) 64 2 (Or.inr rfl) (by decide)).next
  have hret : reschFns (w := 64) (fun _ => 1) (64 : ℕ) 2 = 0 := by decide
  rw [hret] at h
  obtain ⟨m, hm, -, hp, -⟩ := h.of_nonneg (by decide)
  obtain rfl : m = 0 := by omega
  cases hp

end Resch
