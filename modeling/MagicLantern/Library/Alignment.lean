import Mathlib.Data.Nat.ModEq

/-!
# Alignment

The number of bytes from an address to the next multiple of an alignment, and that multiple.
Rounding up by adding `a - 1` and clearing the low bits is the same, also in machine words as long
as the result can be represented; otherwise it is zero.
-/

namespace Alignment

variable {n q a : ℕ}

/-- The distance to the next multiple of `a`. -/
def padding (n a : ℕ) : ℕ := (a - n % a) % a

/-- The next multiple of `a`. -/
def roundUp (n a : ℕ) : ℕ := n + padding n a

theorem padding_lt (ha : 0 < a) : padding n a < a := Nat.mod_lt _ ha

theorem le_roundUp : n ≤ roundUp n a := Nat.le_add_right _ _

theorem roundUp_lt (ha : 0 < a) : roundUp n a < n + a := Nat.add_lt_add_left (padding_lt ha) n

theorem padding_eq (ha : 0 < a) : padding n a = if n % a = 0 then 0 else a - n % a := by
  rw [padding]
  split_ifs with hzero
  · rw [hzero, Nat.sub_zero, Nat.mod_self]
  · exact Nat.mod_eq_of_lt (by omega)

theorem dvd_roundUp (ha : 0 < a) : a ∣ roundUp n a := by
  have hlt := Nat.mod_lt n ha
  have hdiv := Nat.div_add_mod n a
  rw [roundUp, padding_eq ha]
  split_ifs with hzero
  · exact Nat.dvd_of_mod_eq_zero hzero
  · refine ⟨n / a + 1, ?_⟩
    rw [Nat.mul_succ]
    omega

theorem roundUp_le_iff (ha : 0 < a) (hq : a ∣ q) : roundUp n a ≤ q ↔ n ≤ q := by
  refine ⟨le_trans le_roundUp, fun hle => ?_⟩
  have hlt := roundUp_lt (n := n) ha
  exact Nat.le_of_lt_add_of_dvd (by omega) (dvd_roundUp ha) hq

theorem div_mul_eq_roundUp (ha : 0 < a) : (n + (a - 1)) / a * a = roundUp n a := by
  have hdvd : a ∣ (n + (a - 1)) / a * a := Nat.dvd_mul_left _ _
  have hdiv := Nat.div_add_mod (n + (a - 1)) a
  have hlt := Nat.mod_lt (n + (a - 1)) ha
  rw [Nat.mul_comm] at hdiv
  refine le_antisymm ?_ ((roundUp_le_iff ha hdvd).2 (by omega))
  have hle : n ≤ roundUp n a := le_roundUp
  exact Nat.le_of_lt_add_of_dvd (by omega) hdvd (dvd_roundUp ha)

/-- Rounding up in words: the result is the next multiple, or zero if that is too large. -/
theorem mod_div_mul_eq_roundUp {m : ℕ} (ha : 0 < a) (hm : a ∣ m) (hn : n < m) :
    (n + (a - 1)) % m / a * a = if roundUp n a < m then roundUp n a else 0 := by
  have hround := div_mul_eq_roundUp (n := n) ha
  have hle : a ≤ m := Nat.le_of_dvd (by omega) hm
  have hup := roundUp_lt (n := n) ha
  split_ifs with hlt
  · have hsum : n + (a - 1) < m := by
      by_contra hge
      have hmul : m ≤ (n + (a - 1)) / a * a := by
        obtain ⟨i, rfl⟩ := hm
        rw [Nat.mul_comm]
        exact Nat.mul_le_mul_right a ((Nat.le_div_iff_mul_le ha).2 (by rw [Nat.mul_comm]; omega))
      omega
    rw [Nat.mod_eq_of_lt hsum, hround]
  · have hsub : (n + (a - 1)) % m = n + (a - 1) - m := by
      rw [Nat.mod_eq_sub_mod (by omega)]
      exact Nat.mod_eq_of_lt (by omega)
    rw [Nat.div_eq_of_lt (by omega), Nat.zero_mul]

end Alignment
