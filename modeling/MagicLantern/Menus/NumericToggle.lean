import Mathlib.Algebra.Order.Ring.Abs
import Mathlib.Data.Int.ModEq
import Mathlib.Tactic.Ring
import MagicLantern.Library.CyclicOrder

/-!
# Editing a hexadecimal number with the caret

A number is edited at the digit under the caret: it is increased or decreased by a power of sixteen.
At the end of its range it continues from the other end, with the lower digits unchanged. The value
is computed in 64 bits, where no sum overflows.

Source: `src/src/menu.c`.

## Main results

* `menuNumericToggleHex_cyclic` — the next or previous value of the range.
-/

namespace MagicLantern.Menus

open CyclicOrder

/-- The value that `menu_numeric_toggle_hex` computes. -/
def toggleHexValue (oldVal delta min max : ℤ) : ℤ :=
  let newVal := oldVal + delta
  let adelta := |delta|
  let newVal := if newVal < min then max else if max < newVal then min else newVal
  let newVal := newVal + (oldVal.tmod adelta - newVal.tmod adelta)
  if newVal < min ∨ max < newVal then newVal + delta else newVal

/-- `menu_numeric_toggle_hex`. -/
def menuNumericToggleHex (val : UInt32) (delta : ℤ) (min max : UInt32) : UInt32 :=
  UInt32.ofInt (toggleHexValue val.toNat delta min.toNat max.toNat)

/-- The values of the range with the lower digits of `old`. -/
def sameLowDigits (old delta min max : ℤ) : Set ℤ :=
  {x | min ≤ x ∧ x ≤ max ∧ x ≡ old [ZMOD |delta|]}

variable {old delta min max x y a : ℤ}

theorem add_le_of_modEq (h : x ≡ y [ZMOD a]) (hlt : x < y) : x + a ≤ y := by
  have := Int.le_of_dvd (by omega) h.dvd
  omega

theorem add_modEq (x delta : ℤ) : x + delta ≡ x [ZMOD |delta|] := by
  rw [Int.modEq_iff_dvd, abs_dvd]
  exact ⟨-1, by ring⟩

/-- The lower digits are those of `old`, near `x`. -/
theorem keepDigits (hold : 0 ≤ old) (hx : 0 ≤ x) (ha : 0 < a) :
    x + (old.tmod a - x.tmod a) ≡ old [ZMOD a] ∧ x - a < x + (old.tmod a - x.tmod a) ∧
      x + (old.tmod a - x.tmod a) < x + a := by
  rw [Int.tmod_eq_emod_of_nonneg hold, Int.tmod_eq_emod_of_nonneg hx]
  have h₁ := Int.emod_nonneg old ha.ne'
  have h₂ := Int.emod_lt_of_pos old ha
  have h₃ := Int.emod_nonneg x ha.ne'
  have h₄ := Int.emod_lt_of_pos x ha
  refine ⟨?_, by omega, by omega⟩
  calc x + (old % a - x % a) ≡ x + (old - x) [ZMOD a] :=
        .add_left x (.sub (Int.mod_modEq ..) (Int.mod_modEq ..))
    _ ≡ old [ZMOD a] := by rw [add_sub_cancel]

section Toggle

variable (hold : min ≤ old) (hmax : old ≤ max)
include hold hmax

theorem isLeast_sameLowDigits (hy : y ≡ old [ZMOD |delta|]) (hle : min ≤ y)
    (hlt : y < min + |delta|) : IsLeast (sameLowDigits old delta min max) y := by
  have hleast (x : ℤ) (hx : x ≡ old [ZMOD |delta|]) (hmin : min ≤ x) : y ≤ x := by
    by_contra hxy
    have := add_le_of_modEq (hx.trans hy.symm) (by omega)
    omega
  exact ⟨⟨hle, (hleast old rfl hold).trans hmax, hy⟩, fun x hx => hleast x hx.2.2 hx.1⟩

theorem isGreatest_sameLowDigits (hy : y ≡ old [ZMOD |delta|]) (hle : y ≤ max)
    (hlt : max < y + |delta|) : IsGreatest (sameLowDigits old delta min max) y := by
  have hgreatest (x : ℤ) (hx : x ≡ old [ZMOD |delta|]) (hmax : x ≤ max) : x ≤ y := by
    by_contra hxy
    have := add_le_of_modEq (hy.trans hx.symm) (by omega)
    omega
  exact ⟨⟨hold.trans (hgreatest old rfl hmax), hle, hy⟩, fun x hx => hgreatest x hx.2.2 hx.2.1⟩

variable (hmin : 0 ≤ min)
include hmin

omit hmax in
theorem toggleHexValue_of_mem (hle : min ≤ old + delta) (hle' : old + delta ≤ max) :
    toggleHexValue old delta min max = old + delta := by
  have hmod : (old + delta).tmod |delta| = old.tmod |delta| := by
    rw [Int.tmod_eq_emod_of_nonneg (hmin.trans hle), Int.tmod_eq_emod_of_nonneg (hmin.trans hold)]
    exact add_modEq old delta
  rw [toggleHexValue, if_neg hle.not_gt, if_neg hle'.not_gt, hmod, sub_self, add_zero,
    if_neg (by omega)]

theorem next_toggleHexValue (hpos : 0 < delta) :
    Next (sameLowDigits old delta min max) old (toggleHexValue old delta min max) := by
  have habs := abs_of_pos hpos
  have hbehind (x : ℤ) (hx : x ∈ sameLowDigits old delta min max) (hlt : old < x) :
      old + delta ≤ x := habs ▸ add_le_of_modEq hx.2.2.symm hlt
  by_cases hwrap : max < old + delta
  · refine .inr ⟨fun x hx => not_lt.1 fun hlt => ?_, ?_⟩
    · exact absurd (hbehind x hx hlt) (by have := hx.2.1; omega)
    · obtain ⟨hmod, hlo, hhi⟩ := keepDigits (hmin.trans hold) hmin (abs_pos.2 hpos.ne')
      rw [toggleHexValue, if_neg (show ¬ old + delta < min by omega)]
      have hleast (h : min ≤ _) := isLeast_sameLowDigits hold hmax hmod h hhi
      split_ifs with hrange
      · rcases hrange with hlt | hgt
        · exact isLeast_sameLowDigits hold hmax ((add_modEq ..).trans hmod) (by omega) (by omega)
        · exact absurd (hleast (by omega)).1.2.1 hgt.not_ge
      · exact hleast (by omega)
  · rw [toggleHexValue_of_mem hold hmin (by omega) (by omega)]
    exact .inl ⟨⟨⟨by omega, by omega, add_modEq ..⟩, by omega⟩, fun x hx => hbehind x hx.1 hx.2⟩

theorem prev_toggleHexValue (hneg : delta < 0) :
    Prev (sameLowDigits old delta min max) old (toggleHexValue old delta min max) := by
  have habs := abs_of_neg hneg
  have hbefore (x : ℤ) (hx : x ∈ sameLowDigits old delta min max) (hlt : x < old) :
      x + |delta| ≤ old := add_le_of_modEq hx.2.2 hlt
  by_cases hwrap : old + delta < min
  · refine .inr ⟨fun x hx => not_lt.1 fun hlt => ?_, ?_⟩
    · exact absurd (hbefore x hx hlt) (by have := hx.1; omega)
    · obtain ⟨hmod, hlo, hhi⟩ := keepDigits (hmin.trans hold) (hmin.trans (hold.trans hmax))
        (abs_pos.2 hneg.ne)
      rw [toggleHexValue]
      have hgreatest (h : _ ≤ max) := isGreatest_sameLowDigits hold hmax hmod h (by omega)
      split_ifs with hrange
      · rcases hrange with hlt | hgt
        · exact absurd (hgreatest (by omega)).1.1 hlt.not_ge
        · exact isGreatest_sameLowDigits hold hmax ((add_modEq ..).trans hmod) (by omega) (by omega)
      · exact hgreatest (by omega)
  · rw [toggleHexValue_of_mem hold hmin (by omega) (by omega)]
    exact .inl ⟨⟨⟨by omega, by omega, add_modEq ..⟩, by omega⟩,
      fun x hx => by have := hbefore x hx.1 hx.2; omega⟩

end Toggle

/-- A value with the same lower digits has the same ones next to it. -/
theorem sameLowDigits_congr (h : x ≡ old [ZMOD |delta|]) :
    sameLowDigits x (-delta) min max = sameLowDigits old delta min max := by
  ext y
  rw [sameLowDigits, abs_neg]
  exact and_congr_right' (and_congr_right' ⟨fun hy => hy.trans h, fun hy => hy.trans h.symm⟩)

section Call

variable {val min max : UInt32}

theorem toNat_menuNumericToggleHex (h : toggleHexValue val.toNat delta min.toNat max.toNat ∈
      sameLowDigits val.toNat delta min.toNat max.toNat) :
    ((menuNumericToggleHex val delta min max).toNat : ℤ) =
      toggleHexValue val.toNat delta min.toNat max.toNat := by
  have hmax := max.toNat_lt
  obtain ⟨hle, hle', -⟩ := h
  rw [menuNumericToggleHex, UInt32.ofInt, UInt32.toNat_ofNat']
  omega

variable (hmin : min ≤ val) (hmax : val ≤ max)
include hmin hmax

theorem next_menuNumericToggleHex (hpos : 0 < delta) :
    Next (sameLowDigits val.toNat delta min.toNat max.toNat) val.toNat
      (menuNumericToggleHex val delta min max).toNat := by
  have hnext := next_toggleHexValue (Int.ofNat_le.2 hmin) (Int.ofNat_le.2 hmax)
    (Int.natCast_nonneg _) hpos
  rwa [toNat_menuNumericToggleHex hnext.mem]

theorem prev_menuNumericToggleHex (hneg : delta < 0) :
    Prev (sameLowDigits val.toNat delta min.toNat max.toNat) val.toNat
      (menuNumericToggleHex val delta min max).toNat := by
  have hprev := prev_toggleHexValue (Int.ofNat_le.2 hmin) (Int.ofNat_le.2 hmax)
    (Int.natCast_nonneg _) hneg
  rwa [toNat_menuNumericToggleHex hprev.mem]

/-- **The next or previous value**, around the ends of the range, among those with the same lower
digits. A step back undoes a step. -/
theorem menuNumericToggleHex_cyclic (hne : delta ≠ 0) :
    (0 < delta → Next (sameLowDigits val.toNat delta min.toNat max.toNat) val.toNat
      (menuNumericToggleHex val delta min max).toNat) ∧
    (delta < 0 → Prev (sameLowDigits val.toNat delta min.toNat max.toNat) val.toNat
      (menuNumericToggleHex val delta min max).toNat) ∧
    menuNumericToggleHex (menuNumericToggleHex val delta min max) (-delta) min max = val := by
  refine ⟨next_menuNumericToggleHex hmin hmax, prev_menuNumericToggleHex hmin hmax, ?_⟩
  have hval : (val.toNat : ℤ) ∈ sameLowDigits val.toNat delta min.toNat max.toNat :=
    ⟨Int.ofNat_le.2 hmin, Int.ofNat_le.2 hmax, rfl⟩
  rw [← UInt32.toNat_inj, ← Int.ofNat_inj]
  rcases lt_or_gt_of_ne hne with hneg | hpos
  · have hprev := prev_menuNumericToggleHex hmin hmax hneg
    obtain ⟨hle, hle', hmod⟩ := hprev.mem
    have hback := next_menuNumericToggleHex (Int.ofNat_le.1 hle) (Int.ofNat_le.1 hle')
      (neg_pos.2 hneg)
    rw [sameLowDigits_congr hmod] at hback
    exact hback.unique (hprev.next hval)
  · have hnext := next_menuNumericToggleHex hmin hmax hpos
    obtain ⟨hle, hle', hmod⟩ := hnext.mem
    have hback := prev_menuNumericToggleHex (Int.ofNat_le.1 hle) (Int.ofNat_le.1 hle')
      (neg_lt_zero.2 hpos)
    rw [sameLowDigits_congr hmod] at hback
    exact hback.unique (hnext.prev hval)

end Call

/-- From `0x1F`, one step up of the second digit in a range up to `0x25` goes around to `0xF`. -/
theorem menuNumericToggleHex_cyclic_wrap :
    menuNumericToggleHex (menuNumericToggleHex 0x1F 0x10 3 0x25) (-0x10) 3 0x25 = 0x1F :=
  (menuNumericToggleHex_cyclic (by decide) (by decide) (by decide)).2.2

end MagicLantern.Menus
