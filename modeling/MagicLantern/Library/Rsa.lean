import Mathlib.FieldTheory.Finite.Basic

/-!
# Exponents that are inverse to each other

For two different primes `p` and `q` and exponents with `e * d = 1` modulo `(p - 1) * (q - 1)`, the
two powers modulo `p * q` are inverse to each other, for all numbers and not only for those that are
coprime to `p * q`.
-/

namespace Rsa

variable {p q e d m : ℕ}

/-- The powers modulo a prime. -/
theorem pow_succ_mul_modEq (hp : p.Prime) (k : ℕ) : m ^ ((p - 1) * k + 1) ≡ m [MOD p] := by
  by_cases hdvd : p ∣ m
  · have hzero : m ≡ 0 [MOD p] := (Nat.modEq_zero_iff_dvd).2 hdvd
    refine (hzero.pow _).trans (Nat.ModEq.trans ?_ hzero.symm)
    rw [zero_pow (Nat.succ_ne_zero _)]
  · have hfermat : m ^ (p - 1) ≡ 1 [MOD p] := by
      rw [← Nat.totient_prime hp]
      exact Nat.ModEq.pow_totient ((Nat.Prime.coprime_iff_not_dvd hp).2 hdvd).symm
    rw [pow_succ, pow_mul]
    simpa using (hfermat.pow k).mul_right m

theorem pow_mul_modEq (hp : p.Prime) (hq : q.Prime) (hne : p ≠ q)
    (hed : e * d % ((p - 1) * (q - 1)) = 1) : m ^ (e * d) ≡ m [MOD p * q] := by
  have hdiv := Nat.div_add_mod (e * d) ((p - 1) * (q - 1))
  rw [hed] at hdiv
  refine (Nat.modEq_and_modEq_iff_modEq_mul ((Nat.coprime_primes hp hq).2 hne)).1 ⟨?_, ?_⟩
  · rw [← hdiv, mul_assoc]
    exact pow_succ_mul_modEq hp _
  · rw [← hdiv, mul_comm (p - 1), mul_assoc]
    exact pow_succ_mul_modEq hq _

theorem pow_pow_mod (hp : p.Prime) (hq : q.Prime) (hne : p ≠ q)
    (hed : e * d % ((p - 1) * (q - 1)) = 1) (hm : m < p * q) :
    (m ^ e % (p * q)) ^ d % (p * q) = m := by
  have hmod : m ^ (e * d) % (p * q) = m % (p * q) := pow_mul_modEq hp hq hne hed
  rw [← Nat.pow_mod, ← pow_mul, hmod, Nat.mod_eq_of_lt hm]

end Rsa
