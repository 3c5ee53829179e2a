import Resch.Lib.CircularBuffer
import Resch.Spec.NvrmFifo
import Mathlib.Data.List.Infix

/-!
# The command ring loses and corrupts nothing

Words are numbered in the order in which they are written, and word `i` goes to slot `i % cap`.
What is between the GPU's position, as the caller knows it, and its own is less than the ring.

* `fireRing_covers`: a fire pushes segments for all words that have not been fired.
* `storeWord_inv`, `fetch_inv`: a word that is stored takes a free slot, and the next word
  fetched is the next one written.
* `ring_exact`: what is fetched in all runs.
-/

namespace Resch

open Lib

variable {s s' : NvrmFifo} {cap base i j n f p : ℕ} {segments : List (ℕ × ℕ)}

/-! ## Segments -/

/-- The segments are for the words from number `i` up to number `j`, in order. -/
def Covers (base cap : ℕ) : List (ℕ × ℕ) → ℕ → ℕ → Prop
  | [], i, j => i = j
  | (b, len) :: segments, i, j => ∃ m, i < m ∧ i % cap + (m - i) ≤ cap ∧
      b = base + 4 * (i % cap) ∧ len = 4 * (m - i) ∧ Covers base cap segments m j

theorem Covers.le (h : Covers base cap segments i j) : i ≤ j := by
  induction segments generalizing i with
  | nil => exact le_of_eq h
  | cons segment segments ih =>
    obtain ⟨m, him, -, -, -, h⟩ := h
    have := ih h
    omega

/-- One more segment is pushed. -/
theorem Covers.push (h : Covers base cap segments i j) (hjn : j < n)
    (hfit : j % cap + (n - j) ≤ cap) :
    Covers base cap (segments ++ [(base + 4 * (j % cap), 4 * (n - j))]) i n := by
  induction segments generalizing i with
  | nil =>
    have hij : i = j := h
    subst hij
    exact ⟨n, hjn, hfit, rfl, rfl, rfl⟩
  | cons segment segments ih =>
    obtain ⟨m, him, hm, hb, hlen, h⟩ := h
    exact ⟨m, him, hm, hb, hlen, ih h⟩

/-- **A fire** pushes segments for the words up to that of the position. -/
theorem fireRing_covers (hcap : 0 < cap) (hsize : s.pbSize = 4 * cap) (hpos : s.pbPos = 4 * (n % cap))
    (hput : s.pbPut = 4 * (p % cap)) (hpn : p ≤ n) (hroom : n < p + cap)
    (h : Covers s.pbBase cap s.segments f p) :
    Covers s.pbBase cap s.fireRing.segments f n ∧ s.fireRing.pbPut = s.pbPos := by
  unfold NvrmFifo.fireRing
  have hp := Nat.mod_lt p hcap
  have hn := Nat.mod_lt n hcap
  by_cases hne : s.pbPos ≠ s.pbPut
  · rw [if_pos hne]
    have hlt : p < n := by
      rcases Nat.lt_or_ge p n with hlt | hge
      · exact hlt
      · have : p = n := Nat.le_antisymm hpn hge
        rw [hpos, hput, this] at hne
        exact absurd rfl hne
    rcases mod_cases cap p n hpn hroom with ⟨hle, hmod⟩ | ⟨hwrap, hmod⟩
    · -- without a wrap, one segment
      have hput' : s.pbPut < s.pbPos := by omega
      rw [if_pos hput']
      refine ⟨?_, rfl⟩
      have hlen : s.pbPos - s.pbPut = 4 * (n - p) := by omega
      have hpush := h.push hlt (by omega)
      rwa [← hput, ← hlen] at hpush
    · -- `m` is the first word of the next lap
      have hput' : ¬ s.pbPut < s.pbPos := by omega
      obtain ⟨m, hm⟩ : ∃ m, m = p + (cap - p % cap) := ⟨_, rfl⟩
      have hm0 : m % cap = 0 := by
        have hdiv := Nat.div_add_mod p cap
        have hmul : m = cap * (p / cap + 1) := by
          rw [Nat.mul_add, Nat.mul_one]
          omega
        rw [hmul, Nat.mul_mod_right]
      have hlen : s.pbSize - s.pbPut = 4 * (m - p) := by omega
      have hpush := h.push (n := m) (by omega) (by omega)
      rw [← hput, ← hlen] at hpush
      rw [if_neg hput']
      dsimp only
      refine ⟨?_, rfl⟩
      by_cases hzero : 0 < s.pbPos
      · rw [if_pos hzero]
        have hlen' : s.pbPos = 4 * (n - m) := by omega
        have hboth := hpush.push (n := n) (by omega) (by omega)
        rwa [hm0, Nat.mul_zero, Nat.add_zero, ← hlen'] at hboth
      · rw [if_neg hzero]
        have hnm : n = m := by omega
        rwa [hnm]
  · -- nothing written since the last time
    rw [if_neg hne]
    have heq : s.pbPos = s.pbPut := not_not.1 hne
    refine ⟨?_, heq.symm⟩
    have hpn' : p = n := by
      by_contra hpn'
      have := mod_ne_of_lt cap p n (by omega) hroom
      omega
    rwa [← hpn']

/-- A fire changes nothing else. -/
theorem fireRing_eq (s : NvrmFifo) :
    ∃ segments pbPut, s.fireRing = { s with segments, pbPut } := by
  unfold NvrmFifo.fireRing
  split
  · split
    · exact ⟨_, _, rfl⟩
    · dsimp only
      split <;> exact ⟨_, _, rfl⟩
  · exact ⟨s.segments, s.pbPut, rfl⟩

/-! ## The invariant -/

/-- How many words there are from one slot to another. -/
theorem wordsFrom_eq {a g : ℕ} (hsize : s.pbSize = 4 * cap) (hpos : s.pbPos = 4 * a) (ha : a < cap)
    (hg : g < cap) : s.wordsFrom (4 * g) = if g ≤ a then a - g else a + cap - g := by
  unfold NvrmFifo.wordsFrom
  rw [hsize, hpos, show 4 * a + 4 * cap - 4 * g = 4 * (a + cap - g) by omega, Nat.mul_mod_mul_left,
    Nat.mul_div_cancel_left _ (by omega)]
  split
  · rw [Nat.mod_eq_sub_mod (by omega), Nat.mod_eq_of_lt (by omega)]
    omega
  · exact Nat.mod_eq_of_lt (by omega)

/-- What holds of the ring, of `cap` words. `p` words have been fired. -/
structure NvrmInv (cap : ℕ) (s : NvrmFifo) : Prop where
  two_le : 2 ≤ cap
  size : s.pbSize = 4 * cap
  mask : ∀ x, x &&& s.pbMask = x % s.pbSize
  pos : s.pbPos = 4 * (s.written.length % cap)
  get : ∃ g < cap, s.pbGet = 4 * g
  fired : ∃ p, s.pbPut = 4 * (p % cap) ∧ p ≤ s.written.length ∧
    Covers s.pbBase cap s.segments s.fetched.length p
  room : s.written.length ≤ s.fetched.length + s.wordsFrom s.pbGet
  holds : HoldsFrom s.pbMap cap s.written s.fetched.length
  sent : s.fetched <+: s.written
  update : ∀ word, s.point = .update word → s.pbPut = s.pbPos

namespace NvrmInv

/-- Less than the whole ring has been written and not fetched. -/
theorem lt_cap (h : NvrmInv cap s) : s.written.length < s.fetched.length + cap := by
  obtain ⟨g, hg, hget⟩ := h.get
  have hroom := h.room
  have hn := Nat.mod_lt s.written.length (y := cap) (by omega)
  rw [hget, wordsFrom_eq h.size h.pos hn hg] at hroom
  split at hroom <;> omega

theorem nextPos_eq (h : NvrmInv cap s) : s.nextPos = 4 * ((s.written.length + 1) % cap) := by
  unfold NvrmFifo.nextPos
  rw [h.mask, h.size, h.pos, show 4 * (s.written.length % cap) + 4 =
    4 * (s.written.length % cap + 1) by omega, Nat.mul_mod_mul_left, Nat.mod_add_mod]

theorem fireRing (h : NvrmInv cap s) :
    NvrmInv cap s.fireRing ∧ s.fireRing.pbPut = s.fireRing.pbPos ∧ s.fireRing.point = s.point := by
  obtain ⟨p, hput, hpn, hcov⟩ := h.fired
  have hlt := h.lt_cap
  have hle := hcov.le
  obtain ⟨hcov', hput'⟩ := fireRing_covers (by have := h.two_le; omega) h.size h.pos hput hpn
    (by omega) hcov
  obtain ⟨segments, pbPut, he⟩ := fireRing_eq s
  rw [he] at hcov' hput' ⊢
  refine ⟨⟨h.two_le, h.size, h.mask, h.pos, h.get, ?_, h.room, h.holds, h.sent, fun _ _ => hput'⟩,
    hput', rfl⟩
  exact ⟨s.written.length, hput'.trans h.pos, le_refl _, hcov'⟩

/-- **A word is stored** in a slot that the GPU has fetched from. -/
theorem storeWord (h : NvrmInv cap s) (hfull : s.full = false) (word : UInt32) :
    NvrmInv cap ((s.storeWord word).returned word) := by
  have hcap := h.two_le
  obtain ⟨g, hg, hget⟩ := h.get
  obtain ⟨p, hput, hpn, hcov⟩ := h.fired
  have hn := Nat.mod_lt s.written.length (y := cap) (by omega)
  generalize hs' : (s.storeWord word).returned word = s'
  have hlen : s'.written.length = s.written.length + 1 := by
    rw [← hs']
    unfold NvrmFifo.returned NvrmFifo.storeWord
    simp
  have hnext : s'.pbPos = s.nextPos := by
    rw [← hs']
    rfl
  have hpos : s'.pbPos = 4 * (s'.written.length % cap) := by
    rw [hlen, hnext]
    exact h.nextPos_eq
  have hsize : s'.pbSize = 4 * cap := by
    rw [← hs']
    exact h.size
  have hn' := Nat.mod_lt s'.written.length (y := cap) (by omega)
  -- the position that the GPU is known to have reached is not the next one
  have hne : (s.written.length + 1) % cap ≠ g := by
    have hfull : s.nextPos ≠ s.pbGet := of_decide_eq_false hfull
    rw [h.nextPos_eq, hget] at hfull
    omega
  have hroom := h.room
  rw [hget, wordsFrom_eq h.size h.pos hn hg] at hroom
  have hroom' : s'.written.length ≤ s.fetched.length + s'.wordsFrom s.pbGet := by
    rw [hget, wordsFrom_eq hsize hpos hn' hg, hlen]
    have hmod := mod_cases cap s.written.length (s.written.length + 1) (by omega) (by omega)
    generalize s.written.length % cap = a at *
    generalize (s.written.length + 1) % cap = a' at *
    rcases hmod with ⟨-, hm⟩ | ⟨-, hm⟩
    · split at hroom <;> split <;> omega
    · split at hroom <;> split <;> omega
  subst hs'
  refine ⟨hcap, h.size, h.mask, hpos, h.get, ⟨p, hput, ?_, hcov⟩, hroom', ?_, ?_, fun w hw => by cases hw⟩
  · rw [hlen]
    omega
  · have hslot : s.pbPos / 4 = s.written.length % cap := by
      rw [h.pos]
      omega
    unfold NvrmFifo.returned NvrmFifo.storeWord
    simp only [hslot]
    exact h.holds.store h.lt_cap word
  · exact h.sent.trans (List.prefix_append _ _)

/-- **The next word fetched** is the next one written. -/
theorem fetch (h : NvrmInv cap s) (hs : s.fetch = some s') :
    NvrmInv cap s' ∧ s'.pbPut = s.pbPut ∧ s'.pbPos = s.pbPos ∧ s'.point = s.point ∧
      s'.written = s.written := by
  obtain ⟨p, hput, hpn, hcov⟩ := h.fired
  unfold NvrmFifo.fetch at hs
  split at hs
  · cases hs
  · next base len segments hseg =>
    rw [hseg] at hcov
    obtain ⟨m, hm, hfit, hbase, hlen, hcov⟩ := hcov
    have hmp := hcov.le
    have hlt : s.fetched.length < s.written.length := by omega
    have hword : s.wordAt base = s.written[s.fetched.length] := by
      unfold NvrmFifo.wordAt
      rw [hbase, Nat.add_sub_cancel_left, Nat.mul_div_cancel_left _ (by omega)]
      exact h.holds _ hlt (le_refl _)
    rw [Option.some.injEq] at hs
    subst hs
    refine ⟨⟨h.two_le, h.size, h.mask, h.pos, h.get, ⟨p, hput, hpn, ?_⟩, ?_, ?_, ?_, h.update⟩,
      rfl, rfl, rfl, rfl⟩
    · rw [List.length_append, List.length_singleton]
      by_cases hone : len ≤ 4
      · rw [if_pos hone]
        have hm1 : m = s.fetched.length + 1 := by omega
        rwa [← hm1]
      · rw [if_neg hone]
        -- the segment does not cross the end of the buffer
        have hnext : (s.fetched.length + 1) % cap = s.fetched.length % cap + 1 := by
          have htwo := h.two_le
          rcases mod_cases cap s.fetched.length (s.fetched.length + 1) (by omega)
            (by omega) with ⟨-, hmod⟩ | ⟨-, hmod⟩ <;> omega
        have hbase' : base + 4 = s.pbBase + 4 * ((s.fetched.length + 1) % cap) := by
          rw [hnext]
          omega
        exact ⟨m, by omega, by omega, hbase', by omega, hcov⟩
    · rw [List.length_append]
      have hroom : s.written.length ≤ s.fetched.length + s.wordsFrom s.pbGet := h.room
      have hroom' : s.written.length ≤
          s.fetched.length + [s.wordAt base].length + s.wordsFrom s.pbGet := by omega
      exact hroom'
    · rw [List.length_append]
      exact h.holds.mono (Nat.le_add_right _ _)
    · have htake : s.fetched = s.written.take s.fetched.length := List.prefix_iff_eq_take.1 h.sent
      have hnext : s.fetched ++ [s.wordAt base] = s.written.take (s.fetched.length + 1) := by
        rw [hword, ← List.take_append_getElem hlt, ← htake]
      simp only [hnext]
      exact List.take_prefix _ _

/-- The words of the segments, as the GPU would fetch them now. -/
theorem wordsOf_covers (h : NvrmInv cap s) (hi : s.fetched.length ≤ i) (hj : j ≤ s.written.length)
    (hcov : Covers s.pbBase cap segments i j) :
    segments.flatMap s.wordsOf = (s.written.drop i).take (j - i) := by
  induction segments generalizing i with
  | nil =>
    have hij : i = j := hcov
    rw [hij, Nat.sub_self, List.take_zero]
    rfl
  | cons segment segments ih =>
    obtain ⟨m, him, hfit, hbase, hlen, hcov⟩ := hcov
    have hmj := hcov.le
    have hwords : s.wordsOf segment = (s.written.drop i).take (m - i) := by
      have hdef : s.wordsOf segment =
          (List.range (m - i)).map fun k => s.wordAt (segment.1 + 4 * k) := by
        unfold NvrmFifo.wordsOf
        rw [hlen, Nat.mul_div_cancel_left _ (by omega)]
      rw [hdef]
      refine List.ext_getElem ?_ fun k hk hk' => ?_
      · rw [List.length_map, List.length_range, List.length_take, List.length_drop]
        omega
      · have hkm : k < m - i := by
          rw [List.length_take] at hk'
          omega
        have hslot : (i + k) % cap = i % cap + k := by
          have htwo := h.two_le
          rcases mod_cases cap i (i + k) (by omega) (by omega) with
            ⟨-, hmod⟩ | ⟨-, hmod⟩ <;> omega
        rw [List.getElem_map, List.getElem_range, List.getElem_take, List.getElem_drop]
        unfold NvrmFifo.wordAt
        rw [hbase, show s.pbBase + 4 * (i % cap) + 4 * k - s.pbBase = 4 * (i % cap + k) by omega,
          Nat.mul_div_cancel_left _ (by omega), ← hslot]
        exact h.holds _ (by omega) (by omega)
    rw [List.flatMap_cons, hwords, ih (by omega) hcov, show j - i = (m - i) + (j - m) by omega,
      List.take_add, List.drop_drop, show i + (m - i) = m by omega]

/-- What has been fetched and what is left of the segments, when all words have been fired. -/
theorem fetched_append (h : NvrmInv cap s) (hput : s.pbPut = s.pbPos) :
    s.fetched ++ s.segments.flatMap s.wordsOf = s.written := by
  obtain ⟨p, hp, hpn, hcov⟩ := h.fired
  have hle := hcov.le
  have hlt := h.lt_cap
  have hpn' : p = s.written.length := by
    by_contra hne
    have := mod_ne_of_lt cap p s.written.length (by omega) (by omega)
    rw [hput, h.pos] at hp
    omega
  have htake : s.fetched = s.written.take s.fetched.length := List.prefix_iff_eq_take.1 h.sent
  have hrest : (s.written.drop s.fetched.length).take (p - s.fetched.length) =
      s.written.drop s.fetched.length := by
    rw [hpn']
    exact List.take_of_length_le (by rw [List.length_drop])
  calc s.fetched ++ s.segments.flatMap s.wordsOf
      = s.written.take s.fetched.length ++ s.written.drop s.fetched.length := by
        rw [h.wordsOf_covers (le_refl _) hpn hcov, hrest, ← htake]
    _ = s.written := List.take_append_drop _ _

end NvrmInv

/-! ## Runs -/

/-- What holds in every state: the words fetched are the first ones written, in order; when the
position has been fired, the segments hold the others; the word to store takes a slot that the
GPU has fetched from; and once the GPU has fetched everything and says so, the loop ends. -/
structure FifoExact (s : NvrmFifo) : Prop where
  fetched : s.fetched <+: s.written
  fired : s.pbPut = s.pbPos → s.fetched ++ s.segments.flatMap s.wordsOf = s.written
  kept : ∀ word, s.point = .out word → s.full = false → ∀ i < s.written.length,
    4 * i % s.pbSize / 4 = s.pbPos / 4 → i < s.fetched.length
  returns : ∀ word, s.point = .update word → s.segments = [] →
    s.Reached s.pbPos ∧ s.nextPos ≠ s.pbPos

theorem NvrmInv.exact (h : NvrmInv cap s) : FifoExact s := by
  have htwo := h.two_le
  have hn := Nat.mod_lt s.written.length (y := cap) (by omega)
  refine ⟨h.sent, h.fetched_append, fun word _ _ i hi hslot => ?_, fun word hw hseg => ⟨?_, ?_⟩⟩
  · rw [h.size, h.pos, Nat.mul_mod_mul_left, Nat.mul_div_cancel_left _ (by omega),
      Nat.mul_div_cancel_left _ (by omega)] at hslot
    by_contra hge
    have hlt := h.lt_cap
    exact mod_ne_of_lt cap i _ hi (by omega) hslot
  · have hall := h.fetched_append (h.update word hw)
    rw [hseg, List.flatMap_nil, List.append_nil] at hall
    refine ⟨?_, ?_, ?_⟩
    · rw [h.size, h.pos]
      omega
    · rw [h.pos, Nat.mul_mod_right]
    · rw [hall]
      exact Nat.le_add_right _ _
  · rw [h.nextPos_eq, h.pos]
    have := mod_ne_of_lt cap s.written.length (s.written.length + 1) (by omega) (by omega)
    omega

theorem fifoStep_inv {op : FifoOp} (h : NvrmInv cap s) (hs : fifoStep s op = some s') :
    NvrmInv cap s' := by
  cases op with
  | outRing word =>
    simp only [fifoStep] at hs
    split at hs
    · rw [Option.some.injEq] at hs
      subst hs
      exact { h with update := fun w hw => by cases hw }
    · cases hs
  | fireRing =>
    simp only [fifoStep] at hs
    split at hs
    · rw [Option.some.injEq] at hs
      rw [← hs]
      exact h.fireRing.1
    · cases hs
  | loop =>
    simp only [fifoStep] at hs
    split at hs
    · next word _ =>
      split at hs
      · rw [Option.some.injEq] at hs
        subst hs
        -- after the firing, `put` has caught up
        obtain ⟨hf, hput, -⟩ := h.fireRing
        exact { hf with update := fun w hw => hput }
      · next hfull =>
        rw [Option.some.injEq] at hs
        rw [← hs]
        exact h.storeWord (by simpa using hfull) word
    · cases hs
    · cases hs
  | updateGet get =>
    simp only [fifoStep] at hs
    split at hs
    · next word _ =>
      split at hs
      · next hr =>
        -- GET has moved on to a word of the buffer that leaves room
        obtain ⟨hlt, hmod, hroom⟩ := hr
        rw [Option.some.injEq] at hs
        subst hs
        have hget : ∃ g < cap, get = 4 * g := by
          rw [h.size] at hlt
          exact ⟨get / 4, by omega, by omega⟩
        exact { h with get := hget, room := hroom, update := fun w hw => by cases hw }
      · cases hs
    · cases hs
    · cases hs
  | fetch => exact (h.fetch hs).1

theorem nvrmCtxNew_inv {order : ℕ} (ho : 3 ≤ order) (base : ℕ) (pbMap : ℕ → UInt32) :
    NvrmInv (2 ^ (order - 2)) (nvrmCtxNew order base pbMap) where
  two_le := by
    calc 2 = 2 ^ 1 := rfl
      _ ≤ 2 ^ (order - 2) := Nat.pow_le_pow_right (by omega) (by omega)
  size := by
    calc 2 ^ order = 2 ^ (order - 2 + 2) := by rw [Nat.sub_add_cancel (by omega)]
      _ = 4 * 2 ^ (order - 2) := by rw [Nat.pow_add, Nat.mul_comm]
  mask x := Nat.and_two_pow_sub_one_eq_mod x order
  pos := by
    rw [show (nvrmCtxNew order base pbMap).written.length = 0 from rfl, Nat.zero_mod]
    rfl
  get := ⟨0, Nat.two_pow_pos _, rfl⟩
  fired := ⟨0, by rw [Nat.zero_mod]; rfl, le_refl _, rfl⟩
  room := Nat.zero_le _
  holds i hi := by cases hi
  sent := List.prefix_rfl
  update w hw := by cases hw

/-- The word of the call that has not returned -/
def NvrmFifo.pending (s : NvrmFifo) : List UInt32 :=
  match s.point with
  | .idle => []
  | .out word | .update word => [word]

/-- What a step adds to the words of the calls -/
theorem fifoStep_words {op : FifoOp} (hs : fifoStep s op = some s') :
    s'.written ++ s'.pending = s.written ++ s.pending ++ outWords [op] := by
  unfold NvrmFifo.pending
  cases op with
  | outRing word =>
    simp only [fifoStep] at hs
    split at hs
    · rename_i hp
      cases hs
      simp [hp, outWords]
    · cases hs
  | fireRing =>
    obtain ⟨segments, pbPut, he⟩ := fireRing_eq s
    simp only [fifoStep] at hs
    split at hs
    · cases hs
      rw [he]
      simp [outWords]
    · cases hs
  | loop =>
    obtain ⟨segments, pbPut, he⟩ := fireRing_eq s
    simp only [fifoStep] at hs
    split at hs
    · rename_i word hp
      split at hs
      · cases hs
        rw [he]
        simp [hp, outWords]
      · cases hs
        simp [hp, outWords, NvrmFifo.returned, NvrmFifo.storeWord]
    · cases hs
    · cases hs
  | updateGet get =>
    simp only [fifoStep] at hs
    split at hs
    · rename_i word hp
      split at hs
      · cases hs
        simp [hp, outWords]
      · cases hs
    · cases hs
    · cases hs
  | fetch =>
    simp only [fifoStep, NvrmFifo.fetch] at hs
    split at hs
    · cases hs
    · cases hs
      simp [outWords]

/-- In a run they are the words that have been written, and that of the call in progress. -/
theorem fifoRun_words {ops : List FifoOp} (hs : final fifoStep s ops = some s') :
    s'.written ++ s'.pending = s.written ++ s.pending ++ outWords ops := by
  induction ops generalizing s with
  | nil =>
    cases hs
    exact (List.append_nil _).symm
  | cons op ops ih =>
    obtain ⟨s₁, hs₁, hs⟩ := Option.bind_eq_some_iff.1 hs
    rw [ih hs, fifoStep_words hs₁, List.append_assoc]
    congr 1
    exact (List.filterMap_append ..).symm

/-- **The command ring is exact**, for every sequence of calls and whatever the GPU does: no word
is lost, repeated, reordered or overwritten, and after a fire the words fetched and those of the
segments are the words of all calls, in order. -/
theorem ring_exact (order base : ℕ) (pbMap : ℕ → UInt32) (ho : 3 ≤ order) (ops : List FifoOp) :
    Always fifoStep FifoExact (nvrmCtxNew order base pbMap) ops ∧
      (∀ s, final fifoStep (nvrmCtxNew order base pbMap) ops = some s →
        s.written ++ s.pending = outWords ops) ∧
      ∀ s, final fifoStep (nvrmCtxNew order base pbMap) (ops ++ [.fireRing]) = some s →
        s.fetched ++ s.segments.flatMap s.wordsOf = outWords ops := by
  have hall : ∀ ops, Always fifoStep (NvrmInv (2 ^ (order - 2))) (nvrmCtxNew order base pbMap) ops :=
    fun ops => Always.of_inv (fun _ _ _ h hs => fifoStep_inv h hs) ops _ (nvrmCtxNew_inv ho base pbMap)
  have hwords : ∀ s, final fifoStep (nvrmCtxNew order base pbMap) ops = some s →
      s.written ++ s.pending = outWords ops := fun s hs => fifoRun_words hs
  refine ⟨(hall ops).mono (fun _ h => h.exact) ops _, hwords, fun s hs => ?_⟩
  have hinv := (hall _).final hs
  rw [final_append] at hs
  obtain ⟨s₁, hs₁, hfire⟩ := Option.bind_eq_some_iff.1 hs
  rw [final, fifoStep] at hfire
  split at hfire
  swap
  · cases hfire
  rename_i hidle
  rw [Option.bind_some, final, Option.some.injEq] at hfire
  have hput : s.pbPut = s.pbPos := by
    rw [← hfire]
    exact ((hall _).final hs₁).fireRing.2.1
  have hpending : s₁.pending = [] := by
    unfold NvrmFifo.pending
    rw [hidle]
  obtain ⟨segments, pbPut, he⟩ := fireRing_eq s₁
  have hwritten : s.written = s₁.written := by
    rw [← hfire, he]
  rw [hinv.fetched_append hput, hwritten, ← hwords s₁ hs₁, hpending, List.append_nil]

/-- In a ring of four words the fourth has to wait until the GPU has fetched. -/
def fourWords : List FifoOp :=
  [.outRing 1, .loop, .outRing 2, .loop, .outRing 3, .loop, .outRing 4, .loop, .fetch, .fetch,
    .updateGet 8, .loop, .outRing 5, .loop, .fireRing, .fetch, .fetch, .fetch]

theorem ring_exact_sixteen :
    (final fifoStep (nvrmCtxNew 4 4096 fun _ => 0) fourWords).isSome = true ∧
      Always fifoStep FifoExact (nvrmCtxNew 4 4096 fun _ => 0) fourWords :=
  ⟨by decide +kernel, (ring_exact 4 4096 (fun _ => 0) (by decide) fourWords).1⟩

end Resch
