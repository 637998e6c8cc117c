import Mathlib.Data.Nat.Basic

/-!
# Cacheable and uncacheable addresses

RAM is below 1 GiB. It is seen a second time, past the data cache, in the GiB above that.

Source: `src/src/mem_defs.h`.
-/

namespace MagicLantern.Memory

/-- `UNCACHEABLE`. -/
def uncacheable (p : ℕ) : ℕ :=
  if p < 0x40000000 then p + 0x40000000 else p

/-- `CACHEABLE`: bit 30 is cleared. -/
def cacheable (p : ℕ) : ℕ :=
  if p / 0x40000000 % 2 = 1 then p - 0x40000000 else p

theorem uncacheable_spec (p : ℕ) :
    uncacheable p % 0x1000 = p % 0x1000 ∧ uncacheable p ≤ p + 0x40000000 := by
  rw [uncacheable]
  split_ifs <;> omega

variable {p : ℕ}

theorem cacheable_eq_mod (h : p < 0x80000000) : cacheable p = p % 0x40000000 := by
  rw [cacheable]
  split_ifs <;> omega

theorem cacheable_uncacheable (h : p < 0x80000000) : cacheable (uncacheable p) = cacheable p := by
  rw [uncacheable]
  split_ifs
  · rw [cacheable_eq_mod (by omega), cacheable_eq_mod h]
    omega
  · rfl

theorem cacheable_cacheable (h : p < 0x80000000) : cacheable (cacheable p) = cacheable p := by
  have hlt : p % 0x40000000 < 0x80000000 := by omega
  rw [cacheable_eq_mod h, cacheable_eq_mod hlt]
  omega

end MagicLantern.Memory
