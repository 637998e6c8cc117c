import Mathlib.Tactic

/-!
# Bit fields of 32-bit words

Masks and disjunctions of machine words, read as arithmetic: a mask of consecutive bits cuts out
a field, and a disjunction of words that use different fields is their sum.
-/

namespace BitField

/-- A mask of `w` bits from bit `k` on cuts out a field. -/
theorem and_field (a k w : ℕ) : a &&& (2 ^ w - 1) * 2 ^ k = a / 2 ^ k % 2 ^ w * 2 ^ k := by
  rw [← Nat.shiftLeft_eq, ← Nat.shiftLeft_eq, ← Nat.shiftRight_eq_div_pow]
  apply Nat.eq_of_testBit_eq
  intro i
  by_cases hi : k ≤ i
  · simp [hi, Bool.and_comm]
  · simp [hi]

theorem or_of_dvd {x y k : ℕ} (hx : 2 ^ k ∣ x) (hy : y < 2 ^ k) : x ||| y = x + y := by
  obtain ⟨a, rfl⟩ := hx
  exact (Nat.two_pow_add_eq_or_of_lt hy a).symm

theorem toNat_and_field (a m : UInt32) (k w : ℕ) (hm : m.toNat = (2 ^ w - 1) * 2 ^ k) :
    (a &&& m).toNat = a.toNat / 2 ^ k % 2 ^ w * 2 ^ k := by
  rw [UInt32.toNat_and, hm, and_field]

/-- A mask of the high bits rounds down. -/
theorem toNat_and_high (a m : UInt32) (k : ℕ) (hk : k ≤ 32)
    (hm : m.toNat = (2 ^ (32 - k) - 1) * 2 ^ k) :
    (a &&& m).toNat = a.toNat / 2 ^ k * 2 ^ k := by
  have hlt : a.toNat / 2 ^ k < 2 ^ (32 - k) := by
    rw [Nat.div_lt_iff_lt_mul (by positivity), ← pow_add, Nat.sub_add_cancel hk]
    exact a.toNat_lt
  rw [toNat_and_field a m k (32 - k) hm, Nat.mod_eq_of_lt hlt]

theorem toNat_and_low (a m : UInt32) (w : ℕ) (hm : m.toNat = 2 ^ w - 1) :
    (a &&& m).toNat = a.toNat % 2 ^ w := by
  rw [UInt32.toNat_and, hm, Nat.and_two_pow_sub_one_eq_mod]

theorem toNat_or_of_dvd {x y : UInt32} (k : ℕ) (hx : 2 ^ k ∣ x.toNat) (hy : y.toNat < 2 ^ k) :
    (x ||| y).toNat = x.toNat + y.toNat := by
  rw [UInt32.toNat_or, or_of_dvd hx hy]

end BitField
