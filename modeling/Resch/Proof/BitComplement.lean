import Resch.Proof.Bitops

/-!
# Searches for zero bits

Each search for a zero bit is a copy of the one for a set bit, on the complement. `resch_fnz` and
`resch_fpz` mask a word before they complement it, so that the bits masked out count as zero bits.

* `reschFnz_eq`: from inside a word, `resch_fnz` returns the first bit of the word.
* `zeroSearches`: which of the searches agree, and where.
-/

namespace Resch

variable {w : ℕ} {b : Bitmap w} {offset len i m : ℕ} {r : ℤ}

/-- The complement, word by word -/
def Bitmap.compl (b : Bitmap w) : Bitmap w := fun i => ~~~b i

/-- The searches for zero bits are those for set bits of the complement. -/
structure Complements (b : Bitmap w) (offset len : ℕ) : Prop where
  ffz : reschFfz b len = reschFfs b.compl len
  flz : reschFlz b len = reschFls b.compl len
  fnz : reschFnz b offset len = reschFns b.compl offset len
  fpz : reschFpz b offset len = reschFps b.compl offset len

/-! ## Loops that stop at a word -/

theorem findSome?_range {f : ℕ → Option ℤ} (hm : m < len) (hnone : ∀ i, i < m → f i = none)
    (hf : f m = some r) : (List.range len).findSome? f = some r := by
  obtain ⟨k, rfl⟩ : ∃ k, len = m + (k + 1) := ⟨len - m - 1, by omega⟩
  have hbefore : (List.range m).findSome? f = none := by
    rw [List.findSome?_eq_none_iff]
    exact fun i hi => hnone i (List.mem_range.1 hi)
  rw [List.range_add, List.findSome?_append, hbefore, Option.none_or, List.range_succ_eq_map,
    List.map_cons, List.findSome?_cons, Nat.add_zero, hf]

theorem findSome?_range_reverse {f : ℕ → Option ℤ} (hm : m < len)
    (hnone : ∀ i, m < i → f i = none) (hf : f m = some r) :
    (List.range len).reverse.findSome? f = some r := by
  induction len with
  | zero => omega
  | succ n ih =>
    rw [List.range_succ, List.reverse_append, List.reverse_singleton, List.singleton_append,
      List.findSome?_cons]
    by_cases hn : m = n
    · rw [← hn, hf]
    · rw [hnone n (by omega)]
      exact ih (by omega)

/-! ## Searches to the right -/

/-- A bit that is masked out is set in the complement. -/
theorem getLsbD_onesShl_zero {n : ℕ} (hn : n ≠ 0) (hnw : n < w) :
    (onesShl w n).getLsbD 0 = false := by
  unfold onesShl
  rw [Nat.mod_eq_of_lt hnw, BitVec.getLsbD_shiftLeft]
  simp [Nat.pos_of_ne_zero hn]

/-- The word of the offset has a hit at its first bit. -/
theorem fnzWord_eq (ho : offset % w ≠ 0) (hw : 0 < w) :
    fnzWord b offset (offset / w) = some ((offset / w * w : ℕ) : ℤ) := by
  have hdiv := Nat.div_add_mod offset w
  have hmod := Nat.mod_lt offset hw
  rw [Nat.mul_comm] at hdiv
  generalize offset / w = m at hdiv ⊢
  have hr : offset - m * w = offset % w := by omega
  have hmask : m * w < offset := by omega
  unfold fnzWord
  dsimp only
  rw [if_neg (by omega), if_pos hmask, hr]
  generalize htmp : ~~~(b m &&& onesShl w (offset % w)) = tmp
  have hbit : tmp.getLsbD 0 = true := by
    rw [← htmp, BitVec.getLsbD_not, BitVec.getLsbD_and, getLsbD_onesShl_zero ho hmod]
    simp [hw]
  have hne : tmp ≠ 0 := by
    intro h0
    rw [h0] at hbit
    exact absurd hbit (by simp)
  have hffs : ffsWord tmp = 0 := by
    by_contra h0
    have hfalse := (ffsWord_spec hne).2.2 0 (by omega)
    rw [hbit] at hfalse
    cases hfalse
  rw [if_pos hne, hffs, Nat.zero_add]

/-- **From inside a word, `resch_fnz` returns the first bit of the word**, set or not. -/
theorem reschFnz_eq (h : offset < len * w) (ho : offset % w ≠ 0) :
    reschFnz b offset len = ((offset / w * w : ℕ) : ℤ) := by
  have hw := width_pos h
  have hm : offset / w < len := (Nat.div_lt_iff_lt_mul hw).2 h
  have hbefore : ∀ i, i < offset / w → fnzWord b offset i = none := by
    intro i hi
    have hle : (i + 1) * w ≤ offset / w * w := Nat.mul_le_mul_right w hi
    have hdiv := Nat.div_add_mod offset w
    rw [Nat.mul_comm] at hdiv
    rw [Nat.succ_mul] at hle
    unfold fnzWord
    exact if_pos (by omega)
  unfold reschFnz
  rw [if_neg (guard_false h), Int.toNat_natCast, findSome?_range hm hbefore (fnzWord_eq ho hw),
    Option.getD_some]

/-! ## Searches to the left -/

/-- Nothing is masked out if the offset is the last bit of its word. -/
theorem fpzWord_eq_fpsWord (h : offset % w = w - 1) :
    fpzWord b offset i = fpsWord b.compl offset i := by
  unfold fpzWord fpsWord Bitmap.compl
  dsimp only
  by_cases h1 : offset < i * w
  · rw [if_pos h1, if_pos h1]
  rw [if_neg h1, if_neg h1]
  by_cases h2 : offset < i * w + w
  · have hmod : offset % w = offset - i * w := by
      have hsplit : offset = offset - i * w + i * w := by omega
      rw [hsplit, Nat.add_mul_mod_self_right, Nat.mod_eq_of_lt (by omega)]
      omega
    have hmask : onesShr w (w - 1 - (offset - i * w)) = BitVec.allOnes w := by
      unfold onesShr
      rw [← hmod, h, Nat.sub_self, Nat.zero_mod]
      exact BitVec.ushiftRight_zero _
    rw [if_pos h2, if_pos h2, hmask, BitVec.and_allOnes, BitVec.and_allOnes]
  · rw [if_neg h2, if_neg h2]

/-- Else the word of the offset has a hit at its last bit. -/
theorem fpzWord_eq (ho : offset % w ≠ w - 1) (hw : 0 < w) :
    fpzWord b offset (offset / w) = some ((w - 1 + offset / w * w : ℕ) : ℤ) := by
  have hdiv := Nat.div_add_mod offset w
  have hmod := Nat.mod_lt offset hw
  rw [Nat.mul_comm] at hdiv
  generalize offset / w = m at hdiv ⊢
  have hr : offset - m * w = offset % w := by omega
  have hin : offset < m * w + w := by omega
  unfold fpzWord
  dsimp only
  rw [if_neg (by omega), if_pos hin, hr]
  generalize htmp : ~~~(b m &&& onesShr w (w - 1 - offset % w)) = tmp
  have hbit : tmp.getLsbD (w - 1) = true := by
    have hmask : (onesShr w (w - 1 - offset % w)).getLsbD (w - 1) = false := by
      unfold onesShr
      rw [Nat.mod_eq_of_lt (by omega), BitVec.getLsbD_ushiftRight]
      exact BitVec.getLsbD_of_ge _ _ (by omega)
    rw [← htmp, BitVec.getLsbD_not, BitVec.getLsbD_and, hmask]
    simp [hw]
  have hne : tmp ≠ 0 := by
    intro h0
    rw [h0] at hbit
    exact absurd hbit (by simp)
  have hfls : flsWord tmp = w - 1 := by
    obtain ⟨hlt, -, hlater⟩ := flsWord_spec hne
    by_contra h0
    have hfalse := hlater (w - 1) (by omega)
    rw [hbit] at hfalse
    cases hfalse
  rw [if_pos hne, hfls]

/-- `resch_fpz` returns the last bit of the word then, which is behind the offset. -/
theorem reschFpz_eq (h : offset < len * w) (ho : offset % w ≠ w - 1) :
    reschFpz b offset len = ((w - 1 + offset / w * w : ℕ) : ℤ) := by
  have hw := width_pos h
  have hm : offset / w < len := (Nat.div_lt_iff_lt_mul hw).2 h
  have hafter : ∀ i, offset / w < i → fpzWord b offset i = none := by
    intro i hi
    have hlt : offset < i * w := (Nat.div_lt_iff_lt_mul hw).1 hi
    unfold fpzWord
    exact if_pos hlt
  unfold reschFpz
  rw [if_neg (guard_false h), Int.toNat_natCast, findSome?_range_reverse hm hafter (fpzWord_eq ho hw),
    Option.getD_some]

/-! ## All searches -/

/-- **From inside a word, `resch_fnz` is never the search on the complement**, and `resch_fpz` is only
from the last bit of the word; the searches without an offset are. -/
theorem zeroSearches (b : Bitmap w) (offset len : ℕ) (h : offset < len * w) (ho : offset % w ≠ 0) :
    ¬ Complements b offset len ∧ reschFfz b len = reschFfs b.compl len ∧
      reschFlz b len = reschFls b.compl len ∧
      reschFnz b offset len ≠ reschFns b.compl offset len ∧
      (reschFpz b offset len = reschFps b.compl offset len ↔ offset % w = w - 1) := by
  have hw := width_pos h
  have hdiv := Nat.div_add_mod offset w
  rw [Nat.mul_comm] at hdiv
  have hmod := Nat.mod_lt offset hw
  have hfnz : reschFnz b offset len ≠ reschFns b.compl offset len := by
    rw [reschFnz_eq h ho]
    intro he
    rcases reschFns_spec (b := b.compl) ho h with ⟨hr, -⟩ | ⟨k, hr, -, hk, -⟩
    · omega
    · rw [Bool.and_eq_true, decide_eq_true_iff] at hk
      omega
  refine ⟨fun hc => hfnz hc.fnz, rfl, rfl, hfnz, fun he => ?_, fun hlast => ?_⟩
  · by_contra hne
    rw [reschFpz_eq h hne] at he
    rcases reschFps_spec (b := b.compl) h with ⟨hr, -⟩ | ⟨k, hr, hk, -⟩
    · omega
    · omega
  · unfold reschFpz reschFps
    rw [if_neg (guard_false h), if_neg (guard_false h)]
    have hword : fpzWord b (offset : ℤ).toNat = fpsWord b.compl (offset : ℤ).toNat :=
      funext fun i => fpzWord_eq_fpsWord hlast
    rw [hword]

/-- Two words of zeros -/
theorem zeroSearches_ten : ¬ Complements (fun _ => 0 : Bitmap 64) 10 2 :=
  (zeroSearches (fun _ => 0 : Bitmap 64) 10 2 (by decide) (by decide)).1

/-- From bit 10 of an empty bitmap, the next zero bit found is bit 0. -/
theorem zeroSearches_not : ¬ ∀ (w : ℕ) (b : Bitmap w) (offset len : ℕ), w = 32 ∨ w = 64 →
    offset < len * w → offset % w ≠ 0 → Complements b offset len := by
  intro hall
  have hfnz := (hall 64 (fun _ => 0) 10 2 (Or.inr rfl) (by decide) (by decide)).fnz
  exact absurd hfnz (by decide +kernel)

end Resch
