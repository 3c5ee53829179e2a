import Mathlib.Data.Int.GCD
import Mathlib.Data.Nat.ModEq
import Mathlib.Logic.Function.Iterate

/-!
# Counters that wrap

A counter begins at `a` and goes on by `p` modulo `M`.

* `iterate_stride`: its value after `n` turns.
* `stride_exceeds_iff`: it gets beyond a bound iff the bound is less than the last number below `M`
  that is `a` modulo the greatest common divisor of `p` and `M`.
-/

namespace Resch.Lib

variable {M p a B : ℕ}

theorem iterate_stride (ha : a < M) (n : ℕ) : (fun x => (x + p) % M)^[n] a = (a + n * p) % M := by
  induction n with
  | zero => rw [Function.iterate_zero_apply, Nat.zero_mul, Nat.add_zero, Nat.mod_eq_of_lt ha]
  | succ n ih => rw [Function.iterate_succ_apply', ih, Nat.mod_add_mod, Nat.succ_mul, Nat.add_assoc]

/-- No value is beyond the last one of its class. -/
theorem stride_le (hp : 0 < p) (hM : 0 < M) (n : ℕ) :
    (a + n * p) % M ≤ M - Nat.gcd p M + a % Nat.gcd p M := by
  have hgM : Nat.gcd p M ∣ M := Nat.gcd_dvd_right p M
  have hgp : Nat.gcd p M ∣ n * p := (Nat.gcd_dvd_left p M).mul_left n
  have hg : 0 < Nat.gcd p M := Nat.gcd_pos_of_pos_left M hp
  have hclass : (a + n * p) % M % Nat.gcd p M = a % Nat.gcd p M := by
    rw [Nat.mod_mod_of_dvd _ hgM, Nat.add_mod, Nat.mod_eq_zero_of_dvd hgp, Nat.add_zero, Nat.mod_mod]
  have hlt : (a + n * p) % M < M := Nat.mod_lt _ hM
  generalize (a + n * p) % M = v at hclass hlt
  generalize Nat.gcd p M = g at hgM hg hclass
  obtain ⟨m, rfl⟩ := hgM
  have hdm := Nat.div_add_mod v g
  have hq : v / g < m := Nat.div_lt_of_lt_mul hlt
  have hle : g * (v / g + 1) ≤ g * m := Nat.mul_le_mul_left g hq
  rw [Nat.mul_add, Nat.mul_one] at hle
  omega

/-- The last value of the class is reached. -/
theorem exists_stride_eq (hp : 0 < p) (hpM : p < M) :
    ∃ n, (a + n * p) % M = M - Nat.gcd p M + a % Nat.gcd p M := by
  have hg : 0 < Nat.gcd p M := Nat.gcd_pos_of_pos_left M hp
  have hgp : Nat.gcd p M ≤ p := Nat.gcd_le_left M hp
  have hlt : a % Nat.gcd p M < Nat.gcd p M := Nat.mod_lt _ hg
  obtain ⟨m, -, hm⟩ := Nat.exists_mul_mod_eq_gcd (hgp.trans_lt hpM)
  obtain ⟨k, hk⟩ := Nat.gcd_dvd_right p M
  generalize Nat.gcd p M = g at hg hgp hlt hm hk ⊢
  -- the distance to go is a multiple of the divisor, up to turns of the whole counter
  have hdist : a + (k - 1 + (a * k - a / g)) * g = M - g + a % g + a * M := by
    have hk1 : 1 ≤ k := by
      rcases Nat.eq_zero_or_pos k with h0 | h0
      · rw [h0] at hk
        omega
      · exact h0
    have hak : a / g ≤ a * k := (Nat.div_le_self a g).trans (Nat.le_mul_of_pos_right a hk1)
    have hdm := Nat.div_add_mod a g
    have h1 : (k - 1) * g = M - g := by rw [Nat.sub_mul, Nat.one_mul, Nat.mul_comm, hk]
    have h2 : (a * k - a / g) * g = a * M - g * (a / g) := by
      rw [Nat.sub_mul, Nat.mul_assoc, Nat.mul_comm k g, ← hk, Nat.mul_comm (a / g) g]
    have h3 : g * (a / g) ≤ a * M := by
      rw [hk, Nat.mul_comm g k, ← Nat.mul_assoc, Nat.mul_comm g]
      exact Nat.mul_le_mul_right g hak
    rw [Nat.add_mul, h1, h2]
    omega
  refine ⟨m * (k - 1 + (a * k - a / g)), ?_⟩
  have hmod : p * m ≡ g [MOD M] := by
    rw [Nat.ModEq, hm, Nat.mod_eq_of_lt (by omega)]
  have hn : m * (k - 1 + (a * k - a / g)) * p ≡ (k - 1 + (a * k - a / g)) * g [MOD M] := by
    have := hmod.mul_left (k - 1 + (a * k - a / g))
    rw [Nat.mul_comm m, Nat.mul_assoc, Nat.mul_comm m p]
    exact this
  have hsum := (Nat.ModEq.refl (n := M) a).add hn
  rw [hdist] at hsum
  rw [hsum, Nat.add_mul_mod_self_right, Nat.mod_eq_of_lt (by omega)]

theorem stride_exceeds_iff (hp : 0 < p) (hpM : p < M) :
    (∃ n, B < (a + n * p) % M) ↔ B < M - Nat.gcd p M + a % Nat.gcd p M := by
  constructor
  · rintro ⟨n, hn⟩
    exact hn.trans_le (stride_le hp (hp.trans hpM) n)
  · intro h
    obtain ⟨n, hn⟩ := exists_stride_eq (a := a) hp hpM
    exact ⟨n, hn ▸ h⟩

end Resch.Lib
