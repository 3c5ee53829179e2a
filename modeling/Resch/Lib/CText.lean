import Mathlib.Data.Int.ModEq
import Mathlib.Data.List.TakeWhile

/-!
# Text in C

`printf`, `fgets`, `strtok` and `atoi` on lists of characters, with the saturation of `strtol` and the
cut to an `int` in `atoi`.

* `atoi_fmtInt`: `atoi` reads what `%d` has written.
* `fgets_line`: a short line is read as a whole.
* `strtok_field`: a token ends at the next delimiter.
-/

namespace Resch.Lib

/-- A string in a buffer ends at the first zero. -/
def cString (s : List Char) : List Char := s.takeWhile fun c => decide (c.toNat ≠ 0)

/-- `%d` of `printf` -/
def fmtInt (z : ℤ) : List Char :=
  if z < 0 then '-' :: Nat.toDigits 10 z.natAbs else Nat.toDigits 10 z.natAbs

/-- `isspace` -/
def isSpace (c : Char) : Bool := decide (c.toNat = 32 ∨ 9 ≤ c.toNat ∧ c.toNat ≤ 13)

/-- The digits at the start of a string, as `strtol` takes them: a `long` that saturates -/
def digitsToLong (neg : Bool) (s : List Char) : ℤ :=
  let v : ℤ := Nat.ofDigitChars 10 (s.takeWhile Char.isDigit) 0
  max (-2 ^ 63) (min (2 ^ 63 - 1) (if neg then -v else v))

/-- `strtol` with base 10 -/
def strtol (s : List Char) : ℤ :=
  let s := s.dropWhile isSpace
  if s.head? = some '-' then digitsToLong true s.tail
  else if s.head? = some '+' then digitsToLong false s.tail
  else digitsToLong false s

/-- `atoi` -/
def atoi (s : List Char) : ℤ := Int.bmod (strtol s) (2 ^ 32)

/-- What `fgets` reads with room for `n` characters, and what is left of the file. It returns NULL at
the end of the file only. -/
def fgets : ℕ → List Char → List Char × List Char
  | 0, cs => ([], cs)
  | _ + 1, [] => ([], [])
  | n + 1, c :: cs => if c = '\n' then ([c], cs) else (c :: (fgets n cs).1, (fgets n cs).2)

/-- `strtok`: the next token and where to go on, or NULL -/
def strtok (isDelim : Char → Bool) (s : List Char) : Option (List Char × List Char) :=
  let s := s.dropWhile isDelim
  if s.isEmpty then none
  else some (s.takeWhile fun c => !isDelim c, (s.dropWhile fun c => !isDelim c).tail)

/-- The next `n` tokens -/
def tokens (isDelim : Char → Bool) : ℕ → List Char → Option (List (List Char))
  | 0, _ => some []
  | n + 1, s => (strtok isDelim s).bind fun r => (tokens isDelim n r.2).map (r.1 :: ·)

variable {z : ℤ} {n : ℕ} {c : Char} {s rest : List Char} {isDelim : Char → Bool}

/-! ## Numbers -/

theorem isDigit_toNat (h : c.isDigit = true) : 48 ≤ c.toNat ∧ c.toNat ≤ 57 := by
  unfold Char.isDigit at h
  rw [Bool.and_eq_true, decide_eq_true_iff, decide_eq_true_iff] at h
  exact ⟨UInt32.le_iff_toNat_le.1 h.1, UInt32.le_iff_toNat_le.1 h.2⟩

theorem isSpace_of_isDigit (h : c.isDigit = true) : isSpace c = false := by
  have hc := isDigit_toNat h
  exact decide_eq_false (by omega)

theorem ne_of_isDigit {d : Char} (h : c.isDigit = true) (hd : d.isDigit = false) : c ≠ d := by
  rintro rfl
  rw [h] at hd
  cases hd

theorem isDigit_of_mem_digits (hc : c ∈ Nat.toDigits 10 n) : c.isDigit = true :=
  Nat.isDigit_of_mem_toDigits (by decide) (by decide) hc

theorem takeWhile_digits (n : ℕ) (hr : ∀ c ∈ rest.head?, c.isDigit = false) :
    (Nat.toDigits 10 n ++ rest).takeWhile Char.isDigit = Nat.toDigits 10 n := by
  rw [List.takeWhile_append_of_pos fun c hc => isDigit_of_mem_digits hc]
  rcases rest with _ | ⟨c, rest⟩
  · exact List.append_nil _
  · rw [List.takeWhile_cons_of_neg, List.append_nil]
    rw [hr c rfl]
    exact Bool.false_ne_true

theorem digitsToLong_digits {neg : Bool} (hn : n ≤ 2 ^ 31) (hr : ∀ c ∈ rest.head?, c.isDigit = false) :
    digitsToLong neg (Nat.toDigits 10 n ++ rest) = if neg then -(n : ℤ) else n := by
  unfold digitsToLong
  rw [takeWhile_digits n hr, Nat.ofDigitChars_toDigits (by decide) (by decide)]
  cases neg <;> simp <;> omega

/-- **`atoi` after `%d`**, in front of anything but a digit -/
theorem atoi_fmtInt (h : -2 ^ 31 ≤ z) (h' : z < 2 ^ 31) (hr : ∀ c ∈ rest.head?, c.isDigit = false) :
    atoi (fmtInt z ++ rest) = z := by
  have hn : z.natAbs ≤ 2 ^ 31 := by omega
  have hlong : strtol (fmtInt z ++ rest) = z := by
    unfold fmtInt
    split
    · rename_i hneg
      unfold strtol
      rw [List.cons_append, List.dropWhile_cons_of_neg (by decide)]
      dsimp only
      rw [List.head?_cons, if_pos rfl, List.tail_cons, digitsToLong_digits hn hr, if_pos rfl]
      omega
    · rename_i hpos
      obtain ⟨c, cs, hcs⟩ := List.exists_cons_of_ne_nil (Nat.toDigits_ne_nil (n := z.natAbs) (b := 10))
      have hc : c.isDigit = true := isDigit_of_mem_digits (n := z.natAbs) (hcs ▸ List.mem_cons_self)
      have hdrop : (Nat.toDigits 10 z.natAbs ++ rest).dropWhile isSpace =
          Nat.toDigits 10 z.natAbs ++ rest := by
        rw [hcs, List.cons_append, List.dropWhile_cons_of_neg]
        rw [isSpace_of_isDigit hc]
        exact Bool.false_ne_true
      have hhead : (Nat.toDigits 10 z.natAbs ++ rest).head? = some c := by
        rw [hcs]
        rfl
      unfold strtol
      dsimp only
      rw [hdrop, hhead, if_neg, if_neg, digitsToLong_digits hn hr, if_neg Bool.false_ne_true]
      · omega
      · rw [Option.some.injEq]
        exact ne_of_isDigit hc (by decide)
      · rw [Option.some.injEq]
        exact ne_of_isDigit hc (by decide)
  unfold atoi
  rw [hlong, Int.bmod_eq_of_le] <;> omega

/-- What `%d` writes are digits, and at most a sign. -/
theorem mem_fmtInt (hc : c ∈ fmtInt z) : c = '-' ∨ c.isDigit = true := by
  unfold fmtInt at hc
  split at hc
  · rcases List.mem_cons.1 hc with rfl | hc
    · exact Or.inl rfl
    · exact Or.inr (isDigit_of_mem_digits hc)
  · exact Or.inr (isDigit_of_mem_digits hc)

theorem fmtInt_ne_nil : fmtInt z ≠ [] := by
  unfold fmtInt
  split
  · exact List.cons_ne_nil _ _
  · exact Nat.toDigits_ne_nil

theorem length_fmtInt (h : -2 ^ 31 ≤ z) (h' : z < 2 ^ 31) : (fmtInt z).length ≤ 11 := by
  have hdigits : (Nat.toDigits 10 z.natAbs).length ≤ 10 :=
    (Nat.length_toDigits_le_iff (by decide) (by decide)).2 (by omega)
  unfold fmtInt
  split
  · rw [List.length_cons]
    omega
  · omega

/-! ## Lines and tokens -/

/-- **A short line** is read up to its end. -/
theorem fgets_line {l : List Char} : ∀ {n : ℕ}, '\n' ∉ l → l.length < n →
    fgets n (l ++ '\n' :: rest) = (l ++ ['\n'], rest) := by
  induction l with
  | nil =>
    intro n _ hn
    obtain ⟨m, rfl⟩ : ∃ m, n = m + 1 := ⟨n - 1, by rw [List.length_nil] at hn; omega⟩
    rw [List.nil_append, fgets, if_pos rfl]
    rfl
  | cons c l ih =>
    intro n hl hn
    rw [List.length_cons] at hn
    obtain ⟨m, rfl⟩ : ∃ m, n = m + 1 := ⟨n - 1, by omega⟩
    obtain ⟨hc, hl⟩ := not_or.1 (fun h => hl (List.mem_cons.2 h))
    rw [List.cons_append, fgets, if_neg (Ne.symm hc), ih hl (by omega)]
    rfl

/-- All characters of a string that can be computed -/
theorem forall_mem_of_all {P : Char → Prop} [DecidablePred P] (h : s.all (fun c => decide (P c)) = true) :
    ∀ c ∈ s, P c := fun c hc => of_decide_eq_true (List.all_eq_true.1 h c hc)

/-- A string without a zero is the whole of what is in its buffer. -/
theorem cString_eq (h : ∀ c ∈ s, c.toNat ≠ 0) : cString s = s :=
  List.takeWhile_eq_self_iff.2 fun c hc => decide_eq_true (h c hc)

/-- **A token** that starts where `strtok` goes on, with the delimiter that ends it -/
theorem strtok_field {t : List Char} (hne : t ≠ []) (ht : ∀ c ∈ t, isDelim c = false)
    (hc : isDelim c = true) : strtok isDelim (t ++ c :: rest) = some (t, rest) := by
  obtain ⟨d, ds, rfl⟩ := List.exists_cons_of_ne_nil hne
  have hd : isDelim d = false := ht d List.mem_cons_self
  have hdrop : (d :: ds ++ c :: rest).dropWhile isDelim = d :: ds ++ c :: rest := by
    rw [List.cons_append, List.dropWhile_cons_of_neg]
    rw [hd]
    exact Bool.false_ne_true
  have hpos : ∀ x ∈ d :: ds, (!isDelim x) = true := by
    intro x hx
    rw [ht x hx]
    rfl
  have hstop : ¬ (!isDelim c) = true := by
    rw [hc]
    exact Bool.false_ne_true
  unfold strtok
  dsimp only
  rw [hdrop, List.cons_append, List.isEmpty_cons, if_neg Bool.false_ne_true, ← List.cons_append,
    List.takeWhile_append_of_pos hpos, List.dropWhile_append_of_pos hpos,
    List.takeWhile_cons_of_neg (p := fun c => !isDelim c) hstop,
    List.dropWhile_cons_of_neg (p := fun c => !isDelim c) hstop, List.append_nil, List.tail_cons]

/-- Delimiters before a token are skipped. -/
theorem strtok_cons (hc : isDelim c = true) : strtok isDelim (c :: s) = strtok isDelim s := by
  unfold strtok
  rw [List.dropWhile_cons_of_pos hc]

/-- The last token of a string -/
theorem strtok_last {t : List Char} (hne : t ≠ []) (ht : ∀ c ∈ t, isDelim c = false) :
    strtok isDelim t = some (t, []) := by
  obtain ⟨d, ds, rfl⟩ := List.exists_cons_of_ne_nil hne
  have hd : isDelim d = false := ht d List.mem_cons_self
  have hpos : ∀ x ∈ d :: ds, (!isDelim x) = true := by
    intro x hx
    rw [ht x hx]
    rfl
  unfold strtok
  dsimp only
  rw [List.dropWhile_cons_of_neg (by rw [hd]; exact Bool.false_ne_true), List.isEmpty_cons,
    if_neg Bool.false_ne_true, List.takeWhile_eq_self_iff.2 hpos, List.dropWhile_eq_nil_iff.2 hpos,
    List.tail_nil]

end Resch.Lib
