import Resch.Spec.GpuTime

/-!
# Adding and subtracting signed times

`__gdev_time_sub_pos` looks for a borrow by comparing an unsigned field with zero, so it
never borrows; and when the result is the first operand, the flag that `gdev_time_add` and
`gdev_time_sub` put back after clearing it is the flag of the result. The conditions under
which the results are right all the same are `AddOk` and `SubOk` (`gdevTime_iff`).
-/

namespace Resch

variable {m : TimeMem} {ret x y p : ℕ} {a b t : GdevTime}

namespace GdevTime

/-- The magnitude in microseconds. -/
def mag (t : GdevTime) : ℕ := t.sec * 1000000 + t.usec

/-- A magnitude of 64 bits, with less than a second in its microseconds. -/
structure Wf (t : GdevTime) : Prop where
  usec : t.usec < usec1Sec
  sec : t.sec < 2 ^ 64

/-- A value whose magnitude has seconds of 64 bits. -/
def Fits (v : ℤ) : Prop := -(2 ^ 64 * 1000000) < v ∧ v < 2 ^ 64 * 1000000

/-- The smaller magnitude can be taken from the larger one field by field. -/
def NoBorrow (a b : GdevTime) : Prop :=
  if a.mag < b.mag then a.usec ≤ b.usec else b.usec ≤ a.usec

/-- `t` with a sign. -/
def signed (t : GdevTime) (neg : Bool) : GdevTime := { t with neg := neg }

end GdevTime

open GdevTime

/-- The sum of magnitudes, as `__gdev_time_add_pos` computes it. -/
def addPos (a b : GdevTime) (neg : Bool) : GdevTime :=
  if usec1Sec ≤ u64Add a.usec b.usec then
    ⟨u64Add (u64Add a.sec b.sec) 1, u64Sub (u64Add a.usec b.usec) usec1Sec, neg⟩
  else ⟨u64Add a.sec b.sec, u64Add a.usec b.usec, neg⟩

/-- The difference of magnitudes, as `__gdev_time_sub_pos` computes it. -/
def subPos (a b : GdevTime) : GdevTime :=
  if a.mag < b.mag then ⟨u64Sub b.sec a.sec, u64Sub b.usec a.usec, true⟩
  else ⟨u64Sub a.sec b.sec, u64Sub a.usec b.usec, false⟩

/-! ## Memory -/

theorem setNeg_self (v : Bool) : m.setNeg p v p = (m p).signed v := Function.update_self ..

theorem setNeg_of_ne {q : ℕ} (v : Bool) (h : q ≠ p) : m.setNeg p v q = m q :=
  Function.update_of_ne h ..

theorem signed_same {v : Bool} (h : t.neg = v) : t.signed v = t := by
  subst h; rfl

/-- The two field assignments of a result, whether or not it is also an operand. -/
theorem setFields (sec usec : ℕ → ℕ → ℕ) :
    let m₁ := m.setSec ret (sec (m x).sec (m y).sec)
    m₁.setUsec ret (usec (m₁ x).usec (m₁ y).usec) =
      Function.update m ret ⟨sec (m x).sec (m y).sec, usec (m x).usec (m y).usec, (m ret).neg⟩ := by
  have hu : ∀ q v, (m.setSec ret v q).usec = (m q).usec := by
    intro q v
    by_cases hq : q = ret
    · subst hq; simp [TimeMem.setSec]
    · simp [TimeMem.setSec, hq]
  dsimp only
  rw [hu, hu]
  funext q
  by_cases hq : q = ret
  · subst hq; simp [TimeMem.setSec, TimeMem.setUsec]
  · simp [TimeMem.setSec, TimeMem.setUsec, hq]

theorem gdevTimeAddPos_eq :
    gdevTimeAddPos m ret x y = Function.update m ret (addPos (m x) (m y) (m ret).neg) := by
  unfold gdevTimeAddPos addPos
  dsimp only
  rw [setFields u64Add u64Add]
  simp only [Function.update_self]
  split
  · funext q
    by_cases hq : q = ret
    · subst hq; simp [TimeMem.setSec, TimeMem.setUsec]
    · simp [TimeMem.setSec, TimeMem.setUsec, hq]
  · rfl

theorem gdevTimeSubOrdered_eq : gdevTimeSubOrdered m ret x y =
    Function.update m ret ⟨u64Sub (m x).sec (m y).sec, u64Sub (m x).usec (m y).usec, (m ret).neg⟩ := by
  unfold gdevTimeSubOrdered
  dsimp only
  rw [setFields u64Sub u64Sub]
  -- an unsigned field is not negative
  exact if_neg (Nat.not_lt_zero _)

/-- The comparison of two objects without sign. -/
theorem gdevTimeLt_iff (hx : (m x).usec < usec1Sec) (hy : (m y).usec < usec1Sec)
    (hnx : (m x).neg = false) (hny : (m y).neg = false) :
    gdevTimeLt m x y = decide ((m x).mag < (m y).mag) := by
  unfold usec1Sec at hx hy
  unfold gdevTimeLt mag
  simp only [hnx, hny, Bool.false_eq_true, and_false, and_true, if_false]
  split
  · rename_i h
    rw [h, decide_eq_decide]
    omega
  · rename_i h
    rw [decide_eq_decide]
    omega

theorem gdevTimeSubPos_eq (hx : (m x).usec < usec1Sec) (hy : (m y).usec < usec1Sec)
    (hnx : (m x).neg = false) (hny : (m y).neg = false) :
    gdevTimeSubPos m ret x y = Function.update m ret (subPos (m x) (m y)) := by
  have hset : ∀ v q, (m.setNeg ret v q).sec = (m q).sec ∧ (m.setNeg ret v q).usec = (m q).usec := by
    intro v q
    by_cases hq : q = ret
    · subst hq; rw [setNeg_self]; exact ⟨rfl, rfl⟩
    · rw [setNeg_of_ne v hq]; exact ⟨rfl, rfl⟩
  have hup : ∀ v t, Function.update (m.setNeg ret v) ret t = Function.update m ret t := by
    intro v t
    unfold TimeMem.setNeg
    rw [Function.update_idem]
  unfold gdevTimeSubPos subPos
  rw [gdevTimeLt_iff hx hy hnx hny]
  by_cases h : (m x).mag < (m y).mag
  · rw [decide_eq_true h, if_pos rfl, if_pos h, gdevTimeSubOrdered_eq, hup, setNeg_self]
    simp only [hset]
    rfl
  · rw [decide_eq_false h, if_neg (by decide), if_neg h, gdevTimeSubOrdered_eq, hup, setNeg_self]
    simp only [hset]
    rfl

/-! ## Arithmetic -/

@[simp] theorem signed_usec (t : GdevTime) (v : Bool) : (t.signed v).usec = t.usec := rfl

@[simp] theorem mag_signed (t : GdevTime) (v : Bool) : (t.signed v).mag = t.mag := rfl

@[simp] theorem signed_sec (t : GdevTime) (v : Bool) : (t.signed v).sec = t.sec := rfl

/-- The flags of the operands do not matter. -/
@[simp] theorem addPos_signed_left (a b : GdevTime) (v neg : Bool) :
    addPos (a.signed v) b neg = addPos a b neg := by
  unfold addPos
  rw [signed_sec]
  by_cases h : usec1Sec ≤ u64Add a.usec b.usec
  · rw [if_pos h, if_pos (by rw [signed_usec]; exact h), signed_usec]
  · rw [if_neg h, if_neg (by rw [signed_usec]; exact h), signed_usec]

@[simp] theorem addPos_signed_right (a b : GdevTime) (v neg : Bool) :
    addPos a (b.signed v) neg = addPos a b neg := by
  unfold addPos
  rw [signed_sec]
  by_cases h : usec1Sec ≤ u64Add a.usec b.usec
  · rw [if_pos h, if_pos (by rw [signed_usec]; exact h), signed_usec]
  · rw [if_neg h, if_neg (by rw [signed_usec]; exact h), signed_usec]

@[simp] theorem subPos_signed_left (a b : GdevTime) (v : Bool) :
    subPos (a.signed v) b = subPos a b := by
  unfold subPos
  rw [signed_sec, signed_usec]
  by_cases h : a.mag < b.mag
  · rw [if_pos h, if_pos (by rw [mag_signed]; exact h)]
  · rw [if_neg h, if_neg (by rw [mag_signed]; exact h)]

@[simp] theorem subPos_signed_right (a b : GdevTime) (v : Bool) :
    subPos a (b.signed v) = subPos a b := by
  unfold subPos
  rw [signed_sec, signed_usec]
  by_cases h : a.mag < b.mag
  · rw [if_pos h, if_pos (by rw [mag_signed]; exact h)]
  · rw [if_neg h, if_neg (by rw [mag_signed]; exact h)]

/-- A result of the right value, with less than a second in its microseconds. -/
structure Is (t : GdevTime) (v : ℤ) : Prop where
  val : t.val = v
  usec : t.usec < usec1Sec

theorem val_signed (t : GdevTime) (neg : Bool) :
    (t.signed neg).val = if neg = true then -(t.mag : ℤ) else t.mag := by
  unfold val signed mag
  cases neg <;> simp

theorem val_eq (t : GdevTime) : t.val = if t.neg = true then -(t.mag : ℤ) else t.mag :=
  val_signed t t.neg

/-- The carry is only added where it is needed, so the sum fits whenever its value does. -/
theorem addPos_is (ha : a.Wf) (hb : b.Wf) (hfit : Fits ((a.mag : ℤ) + b.mag)) (neg : Bool) :
    Is (addPos a b neg) (if neg = true then -((a.mag : ℤ) + b.mag) else a.mag + b.mag) := by
  obtain ⟨hau, -⟩ := ha
  obtain ⟨hbu, -⟩ := hb
  obtain ⟨-, hfit⟩ := hfit
  unfold usec1Sec at hau hbu
  unfold mag at hfit
  have hsec : u64Add a.sec b.sec = a.sec + b.sec := Nat.mod_eq_of_lt (by omega)
  have husec : u64Add a.usec b.usec = a.usec + b.usec := Nat.mod_eq_of_lt (by omega)
  unfold addPos
  rw [hsec, husec]
  by_cases h : usec1Sec ≤ a.usec + b.usec
  · rw [if_pos h]
    unfold usec1Sec at h
    have hcarry : u64Add (a.sec + b.sec) 1 = a.sec + b.sec + 1 := Nat.mod_eq_of_lt (by omega)
    have hsub : u64Sub (a.usec + b.usec) usec1Sec = a.usec + b.usec - 1000000 := by
      unfold u64Sub usec1Sec
      omega
    rw [hcarry, hsub]
    refine ⟨?_, by unfold usec1Sec; dsimp only; omega⟩
    rw [val_eq]
    unfold mag
    dsimp only
    split <;> omega
  · rw [if_neg h]
    unfold usec1Sec at h
    refine ⟨?_, by unfold usec1Sec; dsimp only; omega⟩
    rw [val_eq]
    unfold mag
    dsimp only
    split <;> omega

theorem addPos_false_is (ha : a.Wf) (hb : b.Wf) (hfit : Fits ((a.mag : ℤ) + b.mag)) :
    Is (addPos a b false) ((a.mag : ℤ) + b.mag) := by
  have h := addPos_is ha hb hfit false
  rw [if_neg Bool.false_ne_true] at h
  exact h

theorem addPos_true_is (ha : a.Wf) (hb : b.Wf) (hfit : Fits ((a.mag : ℤ) + b.mag)) :
    Is (addPos a b true) (-((a.mag : ℤ) + b.mag)) := by
  have h := addPos_is ha hb hfit true
  rw [if_pos rfl] at h
  exact h

theorem subPos_neg (a b : GdevTime) : (subPos a b).neg = decide (a.mag < b.mag) := by
  unfold subPos
  split <;> simp_all

/-- The microseconds of a difference wrap around iff a borrow is needed. -/
theorem subPos_usec_iff (ha : a.Wf) (hb : b.Wf) : (subPos a b).usec < usec1Sec ↔ NoBorrow a b := by
  obtain ⟨hau, -⟩ := ha
  obtain ⟨hbu, -⟩ := hb
  have wrap : ∀ u v : ℕ, u < usec1Sec → v < usec1Sec → (u64Sub u v < usec1Sec ↔ v ≤ u) := by
    intro u v hu hv
    unfold usec1Sec u64Sub at *
    omega
  unfold NoBorrow subPos
  split
  · exact wrap _ _ hbu hau
  · exact wrap _ _ hau hbu

theorem subPos_mag (ha : a.Wf) (hb : b.Wf) (h : NoBorrow a b) :
    (subPos a b).mag = if a.mag < b.mag then b.mag - a.mag else a.mag - b.mag := by
  obtain ⟨hau, has⟩ := ha
  obtain ⟨hbu, hbs⟩ := hb
  unfold usec1Sec at hau hbu
  have exact : ∀ u v : ℕ, v ≤ u → u < 2 ^ 64 → u64Sub u v = u - v := by
    intro u v h hu
    unfold u64Sub
    omega
  unfold NoBorrow at h
  unfold subPos
  split
  · rename_i hlt
    rw [if_pos hlt] at h
    have hs : a.sec ≤ b.sec := by
      unfold mag at hlt
      omega
    rw [exact _ _ hs hbs, exact _ _ h (by omega)]
    unfold mag at hlt ⊢
    dsimp only
    omega
  · rename_i hlt
    rw [if_neg hlt] at h
    have hs : b.sec ≤ a.sec := by
      unfold mag at hlt
      omega
    rw [exact _ _ hs has, exact _ _ h (by omega)]
    unfold mag at hlt ⊢
    dsimp only
    omega

theorem noBorrow_comm (ha : a.Wf) (hb : b.Wf) : NoBorrow a b ↔ NoBorrow b a := by
  obtain ⟨hau, -⟩ := ha
  obtain ⟨hbu, -⟩ := hb
  unfold usec1Sec at hau hbu
  unfold NoBorrow
  rcases lt_trichotomy a.mag b.mag with h | h | h
  · rw [if_pos h, if_neg (by omega)]
  · rw [if_neg (by omega), if_neg (by omega)]
    unfold mag at h
    constructor <;> intro hu <;> omega
  · rw [if_neg (by omega), if_pos h]

/-- A difference is right iff no borrow is needed and, where its sign flag is overwritten, it is
not positive. -/
theorem subPos_is_iff (ha : a.Wf) (hb : b.Wf) (flagged : Prop) [Decidable flagged] :
    Is (if flagged then (subPos a b).signed true else subPos a b) ((a.mag : ℤ) - b.mag) ↔
      NoBorrow a b ∧ (flagged → a.mag ≤ b.mag) := by
  have husec : (if flagged then (subPos a b).signed true else subPos a b).usec = (subPos a b).usec := by
    split
    · rw [signed_usec]
    · rfl
  have hval : NoBorrow a b →
      ((if flagged then (subPos a b).signed true else subPos a b).val = (a.mag : ℤ) - b.mag ↔
        (flagged → a.mag ≤ b.mag)) := by
    intro h
    have hm := subPos_mag ha hb h
    split
    · rename_i ho
      rw [val_signed, if_pos rfl, hm]
      constructor
      · intro hv _
        split at hv <;> omega
      · intro hle
        have := hle ho
        split <;> omega
    · rename_i ho
      rw [val_eq, subPos_neg, hm]
      refine ⟨fun _ h' => absurd h' ho, fun _ => ?_⟩
      by_cases hlt : a.mag < b.mag
      · rw [decide_eq_true hlt, if_pos rfl, if_pos hlt]
        omega
      · rw [decide_eq_false hlt, if_neg Bool.false_ne_true, if_neg hlt]
        omega
  constructor
  · intro h
    have hu := h.usec
    rw [husec, subPos_usec_iff ha hb] at hu
    exact ⟨hu, (hval hu).1 h.val⟩
  · rintro ⟨hu, ho⟩
    refine ⟨(hval hu).2 ho, ?_⟩
    rw [husec, subPos_usec_iff ha hb]
    exact hu

/-! ## Clearing flags and putting them back -/

/-- One flag: the result loses its sign to it if it is the same object. -/
theorem restore_one (m : TimeMem) (ret q : ℕ) (t : GdevTime) (hq : (m q).neg = true) :
    TimeMem.setNeg (Function.update (m.setNeg q false) ret t) q true ret =
        (if ret = q then t.signed true else t) ∧
      ∀ p, p ≠ ret → TimeMem.setNeg (Function.update (m.setNeg q false) ret t) q true p = m p := by
  constructor
  · split
    · rename_i h
      subst h
      rw [setNeg_self, Function.update_self]
    · rename_i h
      rw [setNeg_of_ne _ h, Function.update_self]
  · intro p hp
    by_cases h : p = q
    · subst h
      rw [setNeg_self, Function.update_of_ne hp, setNeg_self]
      exact signed_same hq
    · rw [setNeg_of_ne _ h, Function.update_of_ne hp, setNeg_of_ne _ h]

/-- Two flags. -/
theorem restore_two (m : TimeMem) (ret : ℕ) (t : GdevTime) (hx : (m x).neg = true)
    (hy : (m y).neg = true) :
    (TimeMem.setNeg (Function.update ((m.setNeg y false).setNeg x false) ret t) y true).setNeg
        x true ret = (if ret = x ∨ ret = y then t.signed true else t) ∧
      ∀ p, p ≠ ret → (TimeMem.setNeg (Function.update ((m.setNeg y false).setNeg x false) ret t)
        y true).setNeg x true p = m p := by
  constructor
  · by_cases h : ret = x
    · subst h
      rw [setNeg_self, if_pos (Or.inl rfl)]
      by_cases h' : ret = y
      · subst h'; rw [setNeg_self, Function.update_self]; rfl
      · rw [setNeg_of_ne _ h', Function.update_self]
    · rw [setNeg_of_ne _ h]
      by_cases h' : ret = y
      · subst h'; rw [setNeg_self, Function.update_self, if_pos (Or.inr rfl)]
      · rw [setNeg_of_ne _ h', Function.update_self, if_neg (by simp [h, h'])]
  · intro p hp
    by_cases h : p = x
    · subst h
      rw [setNeg_self]
      by_cases h' : p = y
      · subst h'
        rw [setNeg_self, Function.update_of_ne hp, setNeg_self, setNeg_self]
        exact signed_same hx
      · rw [setNeg_of_ne _ h', Function.update_of_ne hp, setNeg_self, setNeg_of_ne _ h']
        exact signed_same hx
    · rw [setNeg_of_ne _ h]
      by_cases h' : p = y
      · subst h'
        rw [setNeg_self, Function.update_of_ne hp, setNeg_of_ne _ h, setNeg_self]
        exact signed_same hy
      · rw [setNeg_of_ne _ h', Function.update_of_ne hp, setNeg_of_ne _ h, setNeg_of_ne _ h']

/-- Both flags cleared, in one object or two. -/
theorem clear_two (m : TimeMem) (x y : ℕ) :
    (m.setNeg y false).setNeg x false x = (m x).signed false ∧
      (m.setNeg y false).setNeg x false y = (m y).signed false := by
  by_cases h : x = y
  · subst h
    rw [setNeg_self, setNeg_self]
    exact ⟨rfl, rfl⟩
  · rw [setNeg_self, setNeg_of_ne _ h, setNeg_of_ne _ (Ne.symm h), setNeg_self]
    exact ⟨rfl, rfl⟩

theorem update_setNeg (m : TimeMem) (p : ℕ) (t : GdevTime) (v : Bool) :
    TimeMem.setNeg (Function.update m p t) p v = Function.update m p (t.signed v) := by
  unfold TimeMem.setNeg
  rw [Function.update_idem, Function.update_self]
  rfl

theorem addPos_neg (a b : GdevTime) (v : Bool) : (addPos a b v).neg = v := by
  unfold addPos
  split <;> rfl

/-- The flags of the operands do not matter, and the one of the result can be set later. -/
theorem signed_addPos (a b : GdevTime) (v w : Bool) :
    (addPos a b v).signed w = addPos a b w := by
  unfold addPos signed
  split <;> rfl

/-- A separate result starts at zero. -/
theorem cleared (m : TimeMem) (hret : ret = y → ret = x) :
    ∃ m₁, (if ret ≠ x ∧ ret ≠ y then gdevTimeClear m ret else m) = m₁ ∧
      (∀ p, p ≠ ret → m₁ p = m p) ∧ m₁ x = m x ∧ m₁ y = m y ∧
      (m₁ ret).neg = if ret = x then (m x).neg else false := by
  refine ⟨_, rfl, ?_⟩
  by_cases h : ret = x
  · subst h
    rw [if_neg (by simp)]
    exact ⟨fun _ _ => rfl, rfl, rfl, (if_pos rfl).symm⟩
  · have h' : ret ≠ y := fun hy => h (hret hy)
    rw [if_pos ⟨h, h'⟩, if_neg h]
    have hne : ∀ p, p ≠ ret → gdevTimeClear m ret p = m p := by
      intro p hp
      simp [gdevTimeClear, TimeMem.setNeg, TimeMem.setUsec, TimeMem.setSec, hp]
    refine ⟨hne, hne x (Ne.symm h), hne y (Ne.symm h'), ?_⟩
    simp [gdevTimeClear, TimeMem.setNeg, TimeMem.setUsec, TimeMem.setSec]

/-! ## The operations -/

/-- The result is `v`, and the operands are as before unless they are the result. -/
structure Result (m m' : TimeMem) (ret x y : ℕ) (v : ℤ) : Prop where
  result : Is (m' ret) v
  left : x ≠ ret → m' x = m x
  right : y ≠ ret → m' y = m y

/-- Magnitudes are subtracted without a borrow; and a negative object that is both the result and
the first operand stays negative. -/
def AddOk (m : TimeMem) (ret x y : ℕ) : Prop :=
  ((m x).neg ≠ (m y).neg → NoBorrow (m x) (m y)) ∧
    (ret = x → (m x).neg = true → (m y).neg = false → (m y).mag ≤ (m x).mag)

def SubOk (m : TimeMem) (ret x y : ℕ) : Prop :=
  ((m x).neg = (m y).neg → NoBorrow (m x) (m y)) ∧
    (ret = x → (m x).neg = true → (m y).neg = true → (m y).mag ≤ (m x).mag)

theorem result_iff {m' : TimeMem} {v : ℤ} (hl : ∀ p, p ≠ ret → m' p = m p) :
    Result m m' ret x y v ↔ Is (m' ret) v :=
  ⟨fun h => h.result, fun h => ⟨h, hl x, hl y⟩⟩

section Operations

variable (hret : ret = y → ret = x) (hx : (m x).Wf) (hy : (m y).Wf)

include hret hx hy

theorem gdevTimeAdd_iff (hfit : Fits ((m x).val + (m y).val)) :
    Result m (gdevTimeAdd m ret x y) ret x y ((m x).val + (m y).val) ↔ AddOk m ret x y := by
  rw [val_eq (m x), val_eq (m y)] at hfit ⊢
  obtain ⟨m₁, hm₁, hne, h₁x, h₁y, hneg⟩ := cleared (y := y) m hret
  unfold gdevTimeAdd AddOk
  rw [hm₁]
  dsimp only
  rw [h₁x, h₁y]
  cases hnx : (m x).neg <;> cases hny : (m y).neg <;>
    simp only [hnx, hny, Bool.false_eq_true, Bool.true_eq_false, and_true, and_false, and_self,
      if_true, if_false, ne_eq, not_true_eq_false, not_false_eq_true, false_implies, true_implies,
      imp_true_iff] at hfit ⊢
  · -- `x + y`, and the flag of the result is that of `x`
    rw [gdevTimeAddPos_eq, h₁x, h₁y]
    have hn : (m₁ ret).neg = false := by
      rw [hneg, hnx]
      split <;> rfl
    rw [result_iff fun p hp => (Function.update_of_ne hp ..).trans (hne p hp), Function.update_self, hn]
    exact ⟨fun _ => trivial, fun _ => addPos_false_is hx hy hfit⟩
  · -- `x - y`; the second operand is not the result
    have hxy : x ≠ y := by
      rintro rfl
      rw [hnx] at hny; cases hny
    have hry : ret ≠ y := fun h => hxy ((hret h).symm.trans h)
    have hny₁ : (m₁ y).neg = true := by rw [h₁y]; exact hny
    have h₂x : m₁.setNeg y false x = m x := (setNeg_of_ne _ hxy).trans h₁x
    have h₂y : m₁.setNeg y false y = (m y).signed false := by rw [setNeg_self, h₁y]
    rw [gdevTimeSubPos_eq (by rw [h₂x]; exact hx.usec) (by rw [h₂y]; exact hy.usec)
      (by rw [h₂x]; exact hnx) (by rw [h₂y]; rfl), h₂x, h₂y, subPos_signed_right]
    obtain ⟨hr, ho⟩ := restore_one m₁ ret y (subPos (m x) (m y)) hny₁
    rw [result_iff fun p hp => (ho p hp).trans (hne p hp), hr, ← sub_eq_add_neg]
    exact (subPos_is_iff hx hy (ret = y)).trans
      ⟨fun h => h.1, fun h => ⟨h, fun h' => absurd h' hry⟩⟩
  · -- `y - x`; the first operand may be the result
    have hxy : y ≠ x := by
      rintro rfl
      rw [hnx] at hny; cases hny
    have hnx₁ : (m₁ x).neg = true := by rw [h₁x]; exact hnx
    have h₂y : m₁.setNeg x false y = m y := (setNeg_of_ne _ hxy).trans h₁y
    have h₂x : m₁.setNeg x false x = (m x).signed false := by rw [setNeg_self, h₁x]
    rw [gdevTimeSubPos_eq (by rw [h₂y]; exact hy.usec) (by rw [h₂x]; exact hx.usec)
      (by rw [h₂y]; exact hny) (by rw [h₂x]; rfl), h₂x, h₂y, subPos_signed_right]
    obtain ⟨hr, ho⟩ := restore_one m₁ ret x (subPos (m y) (m x)) hnx₁
    rw [result_iff fun p hp => (ho p hp).trans (hne p hp), hr, neg_add_eq_sub, noBorrow_comm hx hy]
    exact subPos_is_iff hy hx (ret = x)
  · -- the flags of the operands are put back after the one of the result is set
    have hnx₁ : (m₁ x).neg = true := by rw [h₁x]; exact hnx
    have hny₁ : (m₁ y).neg = true := by rw [h₁y]; exact hny
    obtain ⟨h₂x, h₂y⟩ := clear_two m₁ x y
    rw [h₁x] at h₂x
    rw [h₁y] at h₂y
    rw [gdevTimeAddPos_eq, h₂x, h₂y, update_setNeg, signed_addPos, addPos_signed_left,
      addPos_signed_right]
    obtain ⟨hr, ho⟩ := restore_two m₁ ret (addPos (m x) (m y) true) hnx₁ hny₁
    have hs : (addPos (m x) (m y) true).signed true = addPos (m x) (m y) true :=
      signed_same (addPos_neg ..)
    rw [result_iff fun p hp => (ho p hp).trans (hne p hp), hr, hs, ite_self, ← neg_add]
    have hfit' : Fits ((m x).mag + (m y).mag) := by
      unfold Fits at hfit ⊢
      omega
    exact ⟨fun _ => trivial, fun _ => addPos_true_is hx hy hfit'⟩

theorem gdevTimeSub_iff (hfit : Fits ((m x).val - (m y).val)) :
    Result m (gdevTimeSub m ret x y) ret x y ((m x).val - (m y).val) ↔ SubOk m ret x y := by
  rw [val_eq (m x), val_eq (m y)] at hfit ⊢
  obtain ⟨m₁, hm₁, hne, h₁x, h₁y, hneg⟩ := cleared (y := y) m hret
  unfold gdevTimeSub SubOk
  rw [hm₁]
  dsimp only
  rw [h₁x, h₁y]
  cases hnx : (m x).neg <;> cases hny : (m y).neg <;>
    simp only [hnx, hny, Bool.false_eq_true, Bool.true_eq_false, and_true, and_false, and_self,
      if_true, if_false, false_implies, true_implies, imp_true_iff] at hfit ⊢
  · -- `x - y`
    rw [gdevTimeSubPos_eq (by rw [h₁x]; exact hx.usec) (by rw [h₁y]; exact hy.usec)
      (by rw [h₁x]; exact hnx) (by rw [h₁y]; exact hny), h₁x, h₁y,
      result_iff fun p hp => (Function.update_of_ne hp ..).trans (hne p hp), Function.update_self]
    have h := subPos_is_iff hx hy False
    rw [if_neg not_false] at h
    exact h.trans ⟨fun h => h.1, fun h => ⟨h, False.elim⟩⟩
  · -- `x + |y|`; the second operand is not the result
    have hxy : x ≠ y := by
      rintro rfl
      rw [hnx] at hny; cases hny
    have hry : ret ≠ y := fun h => hxy ((hret h).symm.trans h)
    have hny₁ : (m₁ y).neg = true := by rw [h₁y]; exact hny
    have h₂x : m₁.setNeg y false x = m x := (setNeg_of_ne _ hxy).trans h₁x
    have h₂y : m₁.setNeg y false y = (m y).signed false := by rw [setNeg_self, h₁y]
    have hn : (m₁.setNeg y false ret).neg = false := by
      rw [setNeg_of_ne _ hry, hneg, hnx]
      split <;> rfl
    rw [gdevTimeAddPos_eq, h₂x, h₂y, hn, addPos_signed_right]
    obtain ⟨hr, ho⟩ := restore_one m₁ ret y (addPos (m x) (m y) false) hny₁
    rw [result_iff fun p hp => (ho p hp).trans (hne p hp), hr, if_neg hry, sub_neg_eq_add]
    rw [sub_neg_eq_add] at hfit
    exact ⟨fun _ => trivial, fun _ => addPos_false_is hx hy hfit⟩
  · -- `|x| + y`; the flag put back in the first operand is the one of the result already
    have hxy : y ≠ x := by
      rintro rfl
      rw [hnx] at hny; cases hny
    have hnx₁ : (m₁ x).neg = true := by rw [h₁x]; exact hnx
    have h₂y : m₁.setNeg x false y = m y := (setNeg_of_ne _ hxy).trans h₁y
    have h₂x : m₁.setNeg x false x = (m x).signed false := by rw [setNeg_self, h₁x]
    rw [gdevTimeAddPos_eq, h₂x, h₂y, update_setNeg, signed_addPos, addPos_signed_right]
    obtain ⟨hr, ho⟩ := restore_one m₁ ret x (addPos (m y) (m x) true) hnx₁
    have hs : (addPos (m y) (m x) true).signed true = addPos (m y) (m x) true :=
      signed_same (addPos_neg ..)
    have hv : -((m x).mag : ℤ) - (m y).mag = -(((m y).mag : ℤ) + (m x).mag) := by omega
    rw [result_iff fun p hp => (ho p hp).trans (hne p hp), hr, hs, ite_self, hv]
    have hfit' : Fits ((m y).mag + (m x).mag) := by
      unfold Fits at hfit ⊢
      omega
    exact ⟨fun _ => trivial, fun _ => addPos_true_is hy hx hfit'⟩
  · -- `|y| - |x|`; the flag put back in an operand may be the one of the result
    have hnx₁ : (m₁ x).neg = true := by rw [h₁x]; exact hnx
    have hny₁ : (m₁ y).neg = true := by rw [h₁y]; exact hny
    obtain ⟨h₂x, h₂y⟩ := clear_two m₁ x y
    rw [h₁x] at h₂x
    rw [h₁y] at h₂y
    rw [gdevTimeSubPos_eq (by rw [h₂y]; exact hy.usec) (by rw [h₂x]; exact hx.usec)
      (by rw [h₂y]; rfl) (by rw [h₂x]; rfl), h₂x, h₂y, subPos_signed_left, subPos_signed_right]
    obtain ⟨hr, ho⟩ := restore_two m₁ ret (subPos (m y) (m x)) hnx₁ hny₁
    rw [result_iff fun p hp => (ho p hp).trans (hne p hp), hr, neg_sub_neg, noBorrow_comm hx hy]
    refine (subPos_is_iff hy hx (ret = x ∨ ret = y)).trans
      (and_congr_right fun _ => ?_)
    exact ⟨fun h e => h (Or.inl e), fun h e => h (e.elim id hret)⟩

end Operations

/-- **Signed addition and subtraction**, of a separate result or in place in the first operand:
the result has the right value and the operands are as before iff no borrow is needed where the
signs make it a subtraction of magnitudes, and a negative first operand that is also the result
is at least as large as what the signs make it lose. -/
theorem gdevTime_iff (m : TimeMem) (ret x y : ℕ) (hret : ret = y → ret = x) (hx : (m x).Wf)
    (hy : (m y).Wf) :
    (Fits ((m x).val + (m y).val) →
      (Result m (gdevTimeAdd m ret x y) ret x y ((m x).val + (m y).val) ↔ AddOk m ret x y)) ∧
    (Fits ((m x).val - (m y).val) →
      (Result m (gdevTimeSub m ret x y) ret x y ((m x).val - (m y).val) ↔ SubOk m ret x y)) :=
  ⟨gdevTimeAdd_iff hret hx hy, gdevTimeSub_iff hret hx hy⟩

/-- Seven seconds and two hundred microseconds, and five seconds and one hundred microseconds
to take from it. -/
def sevenFive : TimeMem := fun p => if p = 0 then ⟨7, 200, false⟩ else ⟨5, 100, false⟩

theorem gdevTime_iff_sevenFive :
    (Result sevenFive (gdevTimeAdd sevenFive 0 0 1) 0 0 1 12000300 ↔ AddOk sevenFive 0 0 1) ∧
      (Result sevenFive (gdevTimeSub sevenFive 0 0 1) 0 0 1 2000100 ↔ SubOk sevenFive 0 0 1) := by
  have h := gdevTime_iff sevenFive 0 0 1 (by decide) ⟨by decide, by decide⟩ ⟨by decide, by decide⟩
  have hx : (sevenFive 0).val = 7000200 := by decide
  have hy : (sevenFive 1).val = 5000100 := by decide
  rw [hx, hy] at h
  exact ⟨h.1 (by unfold Fits; omega), h.2 (by unfold Fits; omega)⟩

/-- Five seconds and one hundred microseconds, and three seconds and two hundred microseconds:
the difference needs a borrow. -/
def borrowing : TimeMem := fun p => if p = 0 then ⟨5, 100, false⟩ else ⟨3, 200, false⟩

/-- Minus two seconds, and three seconds to add to it in place. -/
def owing : TimeMem := fun p => if p = 0 then ⟨2, 0, true⟩ else ⟨3, 0, false⟩

theorem gdevTime_wrong :
    (gdevTimeSub borrowing 2 0 1 2).val = 18446744073711551516 ∧
      (gdevTimeAdd owing 0 0 1 0).val = -1000000 ∧
      ¬ ∀ (m : TimeMem) (ret x y : ℕ), (ret = y → ret = x) → (m x).Wf → (m y).Wf →
        (Fits ((m x).val + (m y).val) →
          Result m (gdevTimeAdd m ret x y) ret x y ((m x).val + (m y).val)) ∧
        (Fits ((m x).val - (m y).val) →
          Result m (gdevTimeSub m ret x y) ret x y ((m x).val - (m y).val)) := by
  refine ⟨by decide +kernel, by decide +kernel, ?_⟩
  intro h
  have hx : (owing 0).val = -2000000 := by decide
  have hy : (owing 1).val = 3000000 := by decide
  have h' := (h owing 0 0 1 (by decide) ⟨by decide, by decide⟩ ⟨by decide, by decide⟩).1
  rw [hx, hy] at h'
  have hv := (h' (by unfold Fits; omega)).result.val
  revert hv
  decide +kernel

end Resch
