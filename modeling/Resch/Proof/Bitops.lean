import Resch.Spec.Bitops
import Mathlib.Tactic.Ring
import Mathlib.Tactic.Common

/-!
# What the bitmap operations compute

* `testBit_setBit`, `testBit_clearBit`: setting and clearing change one bit.
* `IsLeastBit`: the specification of the searches. `reschFfs_spec` and `reschFfz_spec`
  are the two searches from the start; `reschFns_spec` is the search from an offset that
  is not a multiple of the word width.
-/

namespace Resch

variable {w : ℕ}

@[simp] theorem testBit_natCast (n : ℕ) (b : Bitmap w) :
    testBit (n : ℤ) b = (b (n / w)).getLsbD (n % w) := by
  simp [testBit]

theorem testBit_neg {i : ℤ} (hi : i < 0) (b : Bitmap w) : testBit i b = false := by
  simp [testBit, hi]

/-- Two bit numbers are equal if word and position in the word are. -/
theorem eq_of_div_mod {m n : ℕ} (hd : m / w = n / w) (hm : m % w = n % w) : m = n := by
  rw [← Nat.div_add_mod m w, ← Nat.div_add_mod n w, hd, hm]

theorem testBit_setBit (hw : 0 < w) {i j : ℤ} (hi : 0 ≤ i) (b : Bitmap w) :
    testBit j (setBit i b) = (decide (j = i) || testBit j b) := by
  obtain ⟨m, rfl⟩ := Int.eq_ofNat_of_zero_le hi
  rcases lt_or_ge j 0 with hj | hj
  · rw [testBit_neg hj, testBit_neg hj]
    simp; omega
  obtain ⟨n, rfl⟩ := Int.eq_ofNat_of_zero_le hj
  simp only [setBit, hi, if_true, testBit_natCast, Int.toNat_natCast, Nat.cast_inj]
  by_cases hd : n / w = m / w
  · rw [hd, Function.update_self, BitVec.getLsbD_or, BitVec.getLsbD_twoPow]
    have hlt : m % w < w := Nat.mod_lt _ hw
    have hiff : m % w = n % w ↔ n = m :=
      ⟨fun h => eq_of_div_mod hd h.symm, fun h => by rw [h]⟩
    simp [hlt, hiff, Bool.or_comm]
  · rw [Function.update_of_ne hd]
    have : n ≠ m := fun h => hd (by rw [h])
    simp [this]

theorem testBit_clearBit (hw : 0 < w) {i j : ℤ} (hi : 0 ≤ i) (b : Bitmap w) :
    testBit j (clearBit i b) = (!decide (j = i) && testBit j b) := by
  obtain ⟨m, rfl⟩ := Int.eq_ofNat_of_zero_le hi
  rcases lt_or_ge j 0 with hj | hj
  · rw [testBit_neg hj, testBit_neg hj, Bool.and_false]
  obtain ⟨n, rfl⟩ := Int.eq_ofNat_of_zero_le hj
  simp only [clearBit, hi, if_true, testBit_natCast, Int.toNat_natCast, Nat.cast_inj]
  by_cases hd : n / w = m / w
  · have hlt : m % w < w := Nat.mod_lt _ hw
    have hlt' : n % w < w := Nat.mod_lt _ hw
    have hiff : m % w = n % w ↔ n = m :=
      ⟨fun h => eq_of_div_mod hd h.symm, fun h => by rw [h]⟩
    rw [hd, Function.update_self, BitVec.getLsbD_and, BitVec.getLsbD_not, BitVec.getLsbD_twoPow]
    simp [hlt, hlt', hiff, Bool.and_comm]
  · rw [Function.update_of_ne hd]
    have : n ≠ m := fun h => hd (by rw [h])
    simp [this]

/-! ## The searches -/

/-- `r` is the least `j` below `N` with `p j`, or `-1` if there is none. -/
def IsLeastBit (p : ℕ → Bool) (N : ℕ) (r : ℤ) : Prop :=
  (r = -1 ∧ ∀ j, j < N → p j = false) ∨
    ∃ m : ℕ, r = m ∧ m < N ∧ p m = true ∧ ∀ j, j < m → p j = false

theorem IsLeastBit.of_nonneg {p : ℕ → Bool} {N : ℕ} {r : ℤ} (h : IsLeastBit p N r) (hr : ¬ r < 0) :
    ∃ m : ℕ, r = m ∧ m < N ∧ p m = true ∧ ∀ j, j < m → p j = false := by
  rcases h with ⟨rfl, -⟩ | h
  · omega
  · exact h

theorem IsLeastBit.of_neg {p : ℕ → Bool} {N : ℕ} {r : ℤ} (h : IsLeastBit p N r) (hr : r < 0) :
    ∀ j, j < N → p j = false := by
  rcases h with ⟨-, h⟩ | ⟨m, rfl, -⟩
  · exact h
  · omega

theorem ffsWord_spec {x : BitVec w} (hx : x ≠ 0) :
    ffsWord x < w ∧ x.getLsbD (ffsWord x) = true ∧ ∀ j, j < ffsWord x → x.getLsbD j = false := by
  obtain ⟨j, hj, hxj⟩ : ∃ j, j < w ∧ x.getLsbD j = true := by
    by_contra hc
    push Not at hc
    apply hx
    apply BitVec.eq_of_getLsbD_eq
    intro i hi
    simpa using hc i hi
  cases hf : (List.range w).find? (x.getLsbD ·) with
  | none =>
    rw [List.find?_eq_none] at hf
    exact absurd hxj (hf j (List.mem_range.2 hj))
  | some m =>
    obtain ⟨h1, h2, h3⟩ := List.find?_range_eq_some.1 hf
    unfold ffsWord
    rw [hf, Option.getD_some]
    exact ⟨by simpa using h2, h1, fun j hj => by simpa using h3 j hj⟩

/-- **The word-by-word search.** If the words `tmp i` hold the bits of `p`, the loop finds
the least one. -/
theorem searchWords_spec {p : ℕ → Bool} {tmp : ℕ → BitVec w}
    (htmp : ∀ i j, j < w → (tmp i).getLsbD j = p (i * w + j)) (len : ℕ) :
    IsLeastBit p (len * w) (((List.range len).findSome? fun i =>
      if tmp i ≠ 0 then some ((ffsWord (tmp i) + i * w : ℕ) : ℤ) else none).getD (-1)) := by
  -- a word of zeros has no bit of `p`
  have hzero : ∀ i, tmp i = 0 → ∀ j, i * w ≤ j → j < (i + 1) * w → p j = false := by
    intro i hi j h1 h2
    rw [Nat.add_mul, Nat.one_mul] at h2
    have := htmp i (j - i * w) (by omega)
    rw [hi, show i * w + (j - i * w) = j by omega] at this
    simpa using this.symm
  induction len with
  | zero => exact Or.inl ⟨rfl, fun j hj => by omega⟩
  | succ n ih =>
    rw [List.range_succ, List.findSome?_append]
    cases hf : (List.range n).findSome? fun i =>
        if tmp i ≠ 0 then some ((ffsWord (tmp i) + i * w : ℕ) : ℤ) else none with
    | some r =>
      rw [hf] at ih
      rw [Option.some_or, Option.getD_some]
      rcases ih with ⟨h, -⟩ | ⟨m, hm, hmn, h⟩
      · -- a word that is found gives a natural number
        obtain ⟨i, -, hi⟩ := List.exists_of_findSome?_eq_some hf
        rw [Option.getD_some] at h
        split at hi
        · have := Option.some.inj hi
          have : (0 : ℤ) ≤ ((ffsWord (tmp i) + i * w : ℕ) : ℤ) := Int.natCast_nonneg _
          omega
        · cases hi
      · exact Or.inr ⟨m, hm, by rw [Nat.add_mul]; omega, h⟩
    | none =>
      rw [hf] at ih
      have hnone : ∀ j, j < n * w → p j = false := by
        rcases ih with ⟨-, h⟩ | ⟨m, hm, -⟩
        · exact h
        · rw [Option.getD_none] at hm; omega
      rw [Option.none_or, List.findSome?_singleton]
      -- nothing before the last word
      by_cases hn : tmp n = 0
      · rw [if_neg (by simpa using hn)]
        refine Or.inl ⟨rfl, fun j hj => ?_⟩
        rcases lt_or_ge j (n * w) with h | h
        · exact hnone j h
        · exact hzero n hn j h hj
      · obtain ⟨h1, h2, h3⟩ := ffsWord_spec hn
        rw [if_pos hn, Option.getD_some]
        refine Or.inr ⟨_, rfl, by rw [Nat.add_mul]; omega, ?_, ?_⟩
        · rw [htmp n _ h1] at h2
          rw [Nat.add_comm]; exact h2
        · intro j hj
          rcases lt_or_ge j (n * w) with h | h
          · exact hnone j h
          · have := htmp n (j - n * w) (by omega)
            rw [h3 (j - n * w) (by omega), show n * w + (j - n * w) = j by omega] at this
            exact this.symm

/-- The bit of a word of a bitmap. -/
theorem getLsbD_word (b : Bitmap w) {i j : ℕ} (hj : j < w) :
    (b i).getLsbD j = testBit ((i * w + j : ℕ) : ℤ) b := by
  rw [testBit_natCast, Nat.mul_comm i w, Nat.mul_add_div (by omega), Nat.div_eq_of_lt hj,
    Nat.mul_add_mod, Nat.mod_eq_of_lt hj, Nat.add_zero]

theorem reschFfs_spec (b : Bitmap w) (len : ℕ) :
    IsLeastBit (fun j => testBit (j : ℤ) b) (len * w) (reschFfs b len) :=
  searchWords_spec (fun _ _ hj => getLsbD_word b hj) len

theorem reschFfz_spec (b : Bitmap w) (len : ℕ) :
    IsLeastBit (fun j => !testBit (j : ℤ) b) (len * w) (reschFfz b len) := by
  refine searchWords_spec (fun i j hj => ?_) len
  rw [BitVec.getLsbD_not, getLsbD_word b hj]
  simp [hj]

/-- A bitmap with an offset in it has words with bits. -/
theorem width_pos {offset len : ℕ} (h : offset < len * w) : 0 < w := by
  rcases Nat.eq_zero_or_pos w with h0 | h0
  · rw [h0] at h
    omega
  · exact h0

/-- The test at the beginning of the searches from an offset -/
theorem guard_false {offset len : ℕ} (h : offset < len * w) :
    ¬ (((offset : ℤ) < 0) ∨ len < ((offset : ℤ).toNat + w - 1) / w) := by
  have hdiv : (offset + w - 1) / w < len + 1 := by
    rw [Nat.div_lt_iff_lt_mul (width_pos h), Nat.add_mul, Nat.one_mul]
    omega
  rw [Int.toNat_natCast]
  omega

/-- **Search from an offset inside a word.** -/
theorem reschFns_spec {b : Bitmap w} {offset len : ℕ} (ho : offset % w ≠ 0)
    (hlen : offset < len * w) :
    IsLeastBit (fun j => testBit (j : ℤ) b && decide (offset ≤ j)) (len * w)
      (reschFns b offset len) := by
  have hw := width_pos hlen
  unfold reschFns
  rw [if_neg (guard_false hlen), Int.toNat_natCast]
  -- the masked word that the loop looks at; words before the offset are skipped
  let tmp : ℕ → BitVec w := fun i =>
    if i * w + w < offset then 0
    else if i * w < offset then b i &&& onesShl w (offset - i * w) else b i
  have htmp : fnsWord b offset = fun i =>
      if tmp i ≠ 0 then some ((ffsWord (tmp i) + i * w : ℕ) : ℤ) else none := by
    funext i
    simp only [fnsWord, tmp]
    by_cases h : i * w + w < offset <;> simp [h]
  rw [htmp]
  refine searchWords_spec (fun i j hj => ?_) len
  have hword := getLsbD_word b (i := i) hj
  have hne : i * w + w ≠ offset := by
    intro h
    apply ho
    rw [← h, ← Nat.succ_mul, Nat.mul_mod_left]
  simp only [tmp]
  -- a word before the offset, the word of the offset, a word after it
  by_cases h1 : i * w + w < offset
  · have : ¬ offset ≤ i * w + j := by omega
    simp [h1, this]
  by_cases h2 : i * w < offset
  · have hmod : (offset - i * w) % w = offset - i * w := Nat.mod_eq_of_lt (by omega)
    have hiff : decide (j < offset - i * w) = !decide (offset ≤ i * w + j) := by
      by_cases h : offset ≤ i * w + j
      · have : ¬ j < offset - i * w := by omega
        simp [h, this]
      · have : j < offset - i * w := by omega
        simp [h, this]
    rw [if_neg h1, if_pos h2, BitVec.getLsbD_and, hword, onesShl, hmod, BitVec.getLsbD_shiftLeft,
      BitVec.getLsbD_allOnes]
    have hlt : j - (offset - i * w) < w := by omega
    rw [hiff]
    simp only [hj, hlt, decide_true, Bool.true_and, Bool.and_true, Bool.not_not]
  · have : offset ≤ i * w + j := by omega
    rw [if_neg h1, if_neg h2, hword]
    simp [this]

/-- Search from the start. -/
theorem reschFns_zero (b : Bitmap w) (len : ℕ) :
    IsLeastBit (fun j => testBit (j : ℤ) b) (len * w) (reschFns b 0 len) := by
  have hguard : ¬ ((0 : ℤ) < 0 ∨ len < ((0 : ℤ).toNat + w - 1) / w) := by
    rw [Int.toNat_zero, Nat.zero_add]
    rcases Nat.eq_zero_or_pos w with h | h
    · subst h
      simp
    · rw [Nat.div_eq_of_lt (by omega)]
      simp
  have hword : fnsWord b 0 = fun i =>
      if b i ≠ 0 then some ((ffsWord (b i) + i * w : ℕ) : ℤ) else none := by
    funext i
    simp [fnsWord]
  unfold reschFns
  rw [if_neg hguard, Int.toNat_zero, hword]
  exact searchWords_spec (fun i j hj => getLsbD_word b hj) len

/-- **Search from the first bit of a word.** The bits of the word before are not masked out. -/
theorem reschFns_word {b : Bitmap w} {i len : ℕ} (hw : 0 < w) (hi : i + 1 < len)
    (hzero : ∀ j, j < i → b j = 0) (hne : b i ≠ 0) :
    reschFns b ((i + 1) * w : ℕ) len = (ffsWord (b i) + i * w : ℕ) := by
  have hmul : (i + 1) * w = i * w + w := Nat.succ_mul i w
  have hguard : ¬ ((((i + 1) * w : ℕ) : ℤ) < 0 ∨
      len < ((((i + 1) * w : ℕ) : ℤ).toNat + w - 1) / w) := by
    have : ((i + 1) * w + w - 1) / w < len + 1 := by
      rw [Nat.div_lt_iff_lt_mul hw]
      calc (i + 1) * w + w - 1 < (i + 1) * w + w := by omega
        _ = (i + 1 + 1) * w := (Nat.succ_mul _ _).symm
        _ ≤ (len + 1) * w := Nat.mul_le_mul_right _ (by omega)
    rw [Int.toNat_natCast, not_or]
    exact ⟨Int.not_lt.2 (Int.natCast_nonneg _), by omega⟩
  have hword : fnsWord b ((i + 1) * w) i = some ((ffsWord (b i) + i * w : ℕ) : ℤ) := by
    have hmask : b i &&& onesShl w w = b i := by
      unfold onesShl
      rw [Nat.mod_self, BitVec.shiftLeft_zero, BitVec.and_allOnes]
    have hlt : i * w < i * w + w := Nat.lt_add_of_pos_right hw
    unfold fnsWord
    rw [hmul, if_neg (Nat.lt_irrefl _), if_pos hlt, Nat.add_sub_cancel_left, hmask]
    exact if_pos hne
  have hskip : ∀ j ∈ List.range i, fnsWord b ((i + 1) * w) j = none := by
    intro j hj
    have hj := hzero j (List.mem_range.1 hj)
    unfold fnsWord
    simp [hj]
  unfold reschFns
  rw [if_neg hguard, Int.toNat_natCast]
  have hsplit : List.range len = List.range i ++ i :: List.range' (i + 1) (len - (i + 1)) := by
    have happ := List.range'_append_1 (s := 0) (m := i) (n := len - i)
    rw [Nat.zero_add, show i + (len - i) = len by omega,
      show len - i = len - (i + 1) + 1 by omega, List.range'_succ] at happ
    rw [List.range_eq_range', List.range_eq_range', happ]
  rw [hsplit, List.findSome?_append, List.findSome?_eq_none_iff.2 hskip, List.findSome?_cons, hword]
  rfl

/-! ## The search to the left -/

/-- `r` is the greatest `j` with `p j` and at most `N`, or `-1` if there is none. -/
def IsGreatestBit (p : ℕ → Bool) (N : ℕ) (r : ℤ) : Prop :=
  (r = -1 ∧ ∀ j, j ≤ N → p j = false) ∨
    ∃ m : ℕ, r = m ∧ m ≤ N ∧ p m = true ∧ ∀ j, m < j → j ≤ N → p j = false

theorem flsWord_spec {x : BitVec w} (hx : x ≠ 0) :
    flsWord x < w ∧ x.getLsbD (flsWord x) = true ∧
      ∀ j, flsWord x < j → x.getLsbD j = false := by
  obtain ⟨h1, h2, -⟩ := ffsWord_spec hx
  cases hf : (List.range w).reverse.find? (x.getLsbD ·) with
  | none =>
    rw [List.find?_eq_none] at hf
    exact absurd h2 (hf _ (List.mem_reverse.2 (List.mem_range.2 h1)))
  | some m =>
    have hm := List.find?_some hf
    obtain ⟨-, as, bs, hsplit, hlater⟩ := List.find?_eq_some_iff_append.1 hf
    unfold flsWord
    rw [hf, Option.getD_some]
    have hlt : m < w := by
      have := List.mem_of_find?_eq_some hf
      rw [List.mem_reverse, List.mem_range] at this
      exact this
    refine ⟨hlt, hm, fun j hj => ?_⟩
    by_cases hjw : j < w
    · -- the greater positions come first in the search
      have hrange : List.range w = bs.reverse ++ m :: as.reverse := by
        rw [← List.reverse_reverse (List.range w), hsplit]
        simp
      have hjm : j ∈ bs.reverse ++ m :: as.reverse := by
        rw [← hrange]
        exact List.mem_range.2 hjw
      have hsort := List.pairwise_lt_range (n := w)
      rw [hrange, List.pairwise_append] at hsort
      rcases List.mem_append.1 hjm with hin | hin
      · have := hsort.2.2 j hin m List.mem_cons_self
        omega
      · rcases List.mem_cons.1 hin with rfl | hin
        · omega
        · simpa using hlater j (List.mem_reverse.1 hin)
    · exact BitVec.getLsbD_of_ge x j (by omega)

/-- The word-by-word search from the right end: `searchWords_spec` to the left. -/
theorem searchWordsDown_spec {p : ℕ → Bool} {tmp : ℕ → BitVec w}
    (htmp : ∀ i j, j < w → (tmp i).getLsbD j = p (i * w + j)) (len : ℕ) :
    let r := ((List.range len).reverse.findSome? fun i =>
      if tmp i ≠ 0 then some ((flsWord (tmp i) + i * w : ℕ) : ℤ) else none).getD (-1)
    (r = -1 ∧ ∀ j, j < len * w → p j = false) ∨
      ∃ m : ℕ, r = m ∧ m < len * w ∧ p m = true ∧ ∀ j, m < j → j < len * w → p j = false := by
  dsimp only
  induction len with
  | zero => exact Or.inl ⟨rfl, fun j hj => by omega⟩
  | succ n ih =>
    rw [List.range_succ, List.reverse_append, List.reverse_singleton, List.singleton_append,
      List.findSome?_cons]
    have hword : ∀ j, n * w ≤ j → j < (n + 1) * w → p j = (tmp n).getLsbD (j - n * w) := by
      intro j h1 h2
      rw [Nat.add_mul, Nat.one_mul] at h2
      rw [htmp n (j - n * w) (by omega), show n * w + (j - n * w) = j by omega]
    -- the words are looked at from the last one down
    by_cases hn : tmp n = 0
    · have hzero : ∀ j, n * w ≤ j → j < (n + 1) * w → p j = false := by
        intro j h1 h2
        rw [hword j h1 h2, hn]
        exact BitVec.getLsbD_zero
      rw [if_neg (not_not.2 hn)]
      rcases ih with ⟨hr, hnone⟩ | ⟨m, hr, hm, hpm, hlater⟩
      · refine Or.inl ⟨hr, fun j hj => ?_⟩
        rcases lt_or_ge j (n * w) with h | h
        · exact hnone j h
        · exact hzero j h hj
      · refine Or.inr ⟨m, hr, by rw [Nat.add_mul]; omega, hpm, fun j hmj hj => ?_⟩
        rcases lt_or_ge j (n * w) with h | h
        · exact hlater j hmj h
        · exact hzero j h hj
    · obtain ⟨h1, h2, h3⟩ := flsWord_spec hn
      rw [if_pos hn]
      refine Or.inr ⟨_, rfl, by rw [Nat.add_mul]; omega, ?_, fun j hmj hj => ?_⟩
      · rw [htmp n _ h1] at h2
        rw [Nat.add_comm]
        exact h2
      · rw [hword j (by omega) hj]
        exact h3 _ (by omega)

/-- **Search to the left**, from any offset in the bitmap. -/
theorem reschFps_spec {b : Bitmap w} {offset len : ℕ} (hlen : offset < len * w) :
    IsGreatestBit (fun j => testBit (j : ℤ) b) offset (reschFps b offset len) := by
  have hw := width_pos hlen
  unfold reschFps
  rw [if_neg (guard_false hlen), Int.toNat_natCast]
  -- the masked word that the loop looks at; words after the offset are skipped
  let tmp : ℕ → BitVec w := fun i =>
    if offset < i * w then 0
    else if offset < i * w + w then b i &&& onesShr w (w - 1 - (offset - i * w)) else b i
  have htmp : fpsWord b offset = fun i =>
      if tmp i ≠ 0 then some ((flsWord (tmp i) + i * w : ℕ) : ℤ) else none := by
    funext i
    simp only [fpsWord, tmp]
    by_cases h : offset < i * w <;> simp [h]
  have hbits : ∀ i j, j < w →
      (tmp i).getLsbD j = (testBit ((i * w + j : ℕ) : ℤ) b && decide (i * w + j ≤ offset)) := by
    intro i j hj
    have hword := getLsbD_word b (i := i) hj
    simp only [tmp]
    by_cases h1 : offset < i * w
    · have : ¬ i * w + j ≤ offset := by omega
      simp [h1, this]
    by_cases h2 : offset < i * w + w
    · have hmod : (w - 1 - (offset - i * w)) % w = w - 1 - (offset - i * w) :=
        Nat.mod_eq_of_lt (by omega)
      have hiff : decide (w - 1 - (offset - i * w) + j < w) = decide (i * w + j ≤ offset) := by
        rw [decide_eq_decide]
        omega
      rw [if_neg h1, if_pos h2, BitVec.getLsbD_and, hword, onesShr, hmod,
        BitVec.getLsbD_ushiftRight, BitVec.getLsbD_allOnes, hiff]
    · have : i * w + j ≤ offset := by omega
      rw [if_neg h1, if_neg h2, hword]
      simp [this]
  rw [htmp]
  rcases searchWordsDown_spec (p := fun j => testBit (j : ℤ) b && decide (j ≤ offset)) hbits len
    with ⟨hr, hnone⟩ | ⟨m, hr, -, hpm, hlater⟩
  · refine Or.inl ⟨hr, fun j hj => ?_⟩
    have := hnone j (by omega)
    simpa [hj] using this
  · rw [Bool.and_eq_true, decide_eq_true_iff] at hpm
    refine Or.inr ⟨m, hr, hpm.2, hpm.1, fun j hmj hj => ?_⟩
    have := hlater j hmj (by omega)
    simpa [hj] using this

end Resch
