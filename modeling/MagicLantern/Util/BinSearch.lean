import Mathlib.Data.Int.ConditionallyCompleteOrder
import Mathlib.Data.Nat.Size
import Mathlib.Tactic

/-!
# Binary search

`bin_search` looks for the value at which a criterion is 0: the criterion is positive if the tested
value is too low and negative if it is too high.

Source: `src/src/util.c`.

## Main results

* `binSearch_found_iff` — when the value is found.
* `binSearch_overflow`.
-/

namespace MagicLantern.Util

variable {crit : ℤ → ℤ} {lo hi : ℤ}

/-- The values of an `int`. -/
def IsInt (a : ℤ) : Prop := -2 ^ 31 ≤ a ∧ a < 2 ^ 31

instance (a : ℤ) : Decidable (IsInt a) := inferInstanceAs (Decidable (_ ∧ _))

theorem middle_mem (h : lo < hi - 1) : lo < (lo + hi).tdiv 2 ∧ (lo + hi).tdiv 2 < hi ∧
    2 * (lo + hi).tdiv 2 ≤ lo + hi + 1 ∧ lo + hi - 1 ≤ 2 * (lo + hi).tdiv 2 ∧
    (0 ≤ lo + hi → 2 * (lo + hi).tdiv 2 ≤ lo + hi) := by
  have hsign : (2 : ℤ).sign = 1 := rfl
  rw [Int.tdiv_eq_ediv, hsign]
  split_ifs <;> omega

/-- `bin_search`, with the number of calls of the criterion; there is no result if `lo + hi`
overflows. -/
def binSearch (crit : ℤ → ℤ) (lo hi : ℤ) : Option (ℤ × ℕ) :=
  if _ : lo ≥ hi - 1 then some (lo, 0)
  else if ¬ IsInt (lo + hi) then none
  else
    let m := (lo + hi).tdiv 2
    if crit m = 0 then some (m, 1)
    else if crit m > 0 then (binSearch crit m hi).map fun r => (r.1, r.2 + 1)
    else (binSearch crit lo m).map fun r => (r.1, r.2 + 1)
termination_by (hi - lo).toNat
decreasing_by
  all_goals
    have := @middle_mem lo hi
    omega

/-- What a search is to return; `lo` is not tested. -/
def Found (crit : ℤ → ℤ) (lo hi m : ℤ) : Prop :=
  m ∈ Set.Ico lo hi ∧ ((∃ k ∈ Set.Ioo lo hi, crit k = 0) → crit m = 0) ∧
    ((¬ ∃ k ∈ Set.Ioo lo hi, crit k = 0) →
      IsGreatest {n ∈ Set.Ico lo hi | ∀ k ∈ Set.Ioo lo (n + 1), 0 < crit k} m)

/-- A call halves the interval. -/
theorem calls_succ_le {d e : ℤ} {calls : ℕ} (he : 2 * e ≤ d + 1) (hd : 2 ≤ d)
    (h : ∀ j : ℕ, e ≤ 2 ^ j → calls ≤ j) (j : ℕ) (hj : d ≤ 2 ^ j) : calls + 1 ≤ j := by
  cases j with
  | zero => omega
  | succ j =>
    rw [pow_succ] at hj
    exact Nat.succ_le_succ (h j (by omega))

/-- A search that returns ends at a value where the criterion is 0 or changes its sign. -/
theorem sign_of_binSearch (hlt : lo < hi) : ∀ r ∈ binSearch crit lo hi,
    (∀ j : ℕ, hi - lo ≤ 2 ^ j → r.2 ≤ j) ∧ r.1 ∈ Set.Ico lo hi ∧
      (crit r.1 = 0 ∨ (r.1 = lo ∨ 0 < crit r.1) ∧ (r.1 + 1 = hi ∨ crit (r.1 + 1) < 0)) := by
  fun_induction binSearch crit lo hi with
  | case1 lo hi hend =>
    rintro r ⟨⟩
    exact ⟨fun _ _ => Nat.zero_le _, ⟨le_rfl, hlt⟩, .inr ⟨.inl rfl, .inl (by omega)⟩⟩
  | case2 lo hi hend hsum => rintro r ⟨⟩
  | case3 lo hi hend hsum m hzero =>
    rintro r ⟨⟩
    obtain ⟨hlom, hmhi, -⟩ := middle_mem (not_le.1 hend)
    exact ⟨calls_succ_le (e := 1) (by omega) (by omega) fun _ _ => Nat.zero_le _,
      ⟨hlom.le, hmhi⟩, .inl hzero⟩
  | case4 lo hi hend hsum m hzero hpos ih =>
    intro r' hr'
    obtain ⟨r, heq, rfl⟩ := Option.map_eq_some_iff.1 hr'
    obtain ⟨hlom, hmhi, hle, hge, -⟩ := middle_mem (not_le.1 hend)
    obtain ⟨hcalls, ⟨hmr, hr⟩, hsign⟩ := ih hmhi r heq
    refine ⟨calls_succ_le (by omega) (by omega) hcalls, ⟨hlom.le.trans hmr, hr⟩,
      hsign.imp_right (.imp_left fun h => .inr ?_)⟩
    rcases h with h | h
    · exact h ▸ hpos
    · exact h
  | case5 lo hi hend hsum m hzero hpos ih =>
    intro r' hr'
    obtain ⟨r, heq, rfl⟩ := Option.map_eq_some_iff.1 hr'
    obtain ⟨hlom, hmhi, hle, hge, -⟩ := middle_mem (not_le.1 hend)
    obtain ⟨hcalls, ⟨hlor, hr⟩, hsign⟩ := ih hlom r heq
    refine ⟨calls_succ_le (by omega) (by omega) hcalls, ⟨hlor, hr.trans hmhi⟩,
      hsign.imp_right (.imp_right fun h => .inr ?_)⟩
    rcases h with h | h
    · exact h ▸ (not_lt.1 hpos).lt_of_ne hzero
    · exact h

/-- For a criterion that does not increase such a value is what is looked for. -/
theorem found_of_sign (hcrit : AntitoneOn crit (Set.Ico lo hi)) {m : ℤ} (hm : m ∈ Set.Ico lo hi)
    (h : crit m = 0 ∨ (m = lo ∨ 0 < crit m) ∧ (m + 1 = hi ∨ crit (m + 1) < 0)) :
    Found crit lo hi m := by
  obtain ⟨hlom, hmhi⟩ := hm
  refine ⟨⟨hlom, hmhi⟩, fun ⟨k, ⟨hlok, hkhi⟩, hzero⟩ => h.resolve_right fun ⟨hl, hr⟩ => ?_,
    fun hne => ⟨⟨⟨hlom, hmhi⟩, fun k ⟨hlok, hkm⟩ => ?_⟩, fun n ⟨⟨hlon, hnhi⟩, hpos⟩ => ?_⟩⟩
  · rcases le_or_gt k m with hkm | hkm
    · have := hcrit ⟨hlok.le, hkhi⟩ ⟨hlom, hmhi⟩ hkm
      omega
    · have := fun hm' => hcrit ⟨by omega, hm'⟩ ⟨hlok.le, hkhi⟩ (Int.add_one_le_of_lt hkm)
      omega
  · have := hcrit ⟨hlok.le, by omega⟩ ⟨hlom, hmhi⟩ (Int.lt_add_one_iff.1 hkm)
    have : m = lo ∨ crit m ≠ 0 := by
      by_contra! hm
      exact hne ⟨m, ⟨by omega, hmhi⟩, hm.2⟩
    omega
  · by_contra! hmn
    have hm' := hpos (m + 1) ⟨by omega, by omega⟩
    have := hcrit ⟨hlom, hmhi⟩ ⟨by omega, by omega⟩ (Int.le_add_one le_rfl : m ≤ m + 1)
    omega

/-! ### Overflow -/

/-- The lower end of the interval after `k` steps up, beginning with `lo`. -/
def lowerEnd (lo hi : ℤ) (k : ℕ) : ℤ := (fun a => (a + hi).tdiv 2)^[k] lo

/-- The upper end of the interval after `k` steps down, beginning with `hi`. -/
def upperEnd (lo hi : ℤ) (k : ℕ) : ℤ := (fun b => (lo + b).tdiv 2)^[k] hi

/-- The condition: where the sum of `hi` and a lower end overflows the criterion is not positive, so
that the search does not come there, and the same for `lo` and an upper end. -/
def SumsInRange (crit : ℤ → ℤ) (lo hi : ℤ) : Prop :=
  (∀ k, lowerEnd lo hi (k + 1) < hi - 1 → 2 ^ 31 ≤ lowerEnd lo hi (k + 1) + hi →
    crit (lowerEnd lo hi (k + 1)) ≤ 0) ∧
  ∀ k, lo < upperEnd lo hi (k + 1) - 1 → lo + upperEnd lo hi (k + 1) < -2 ^ 31 →
    0 ≤ crit (upperEnd lo hi (k + 1))

theorem tdiv_two_mem (h : lo ≤ hi) : lo ≤ (lo + hi).tdiv 2 ∧ (lo + hi).tdiv 2 ≤ hi := by
  have hsign : (2 : ℤ).sign = 1 := rfl
  rw [Int.tdiv_eq_ediv, hsign]
  split_ifs <;> omega

theorem lowerEnd_mem (h : lo ≤ hi) (k : ℕ) : lo ≤ lowerEnd lo hi k ∧ lowerEnd lo hi k ≤ hi := by
  induction k generalizing lo with
  | zero => exact ⟨le_rfl, h⟩
  | succ k ih =>
    obtain ⟨hle, hle'⟩ := tdiv_two_mem h
    exact ⟨hle.trans (ih hle').1, (ih hle').2⟩

theorem upperEnd_mem (h : lo ≤ hi) (k : ℕ) : lo ≤ upperEnd lo hi k ∧ upperEnd lo hi k ≤ hi := by
  induction k generalizing hi with
  | zero => exact ⟨h, le_rfl⟩
  | succ k ih =>
    obtain ⟨hle, hle'⟩ := tdiv_two_mem h
    exact ⟨(ih hle).1, (ih hle).2.trans hle'⟩

section Halves

variable {m : ℤ} (hm : m = (lo + hi).tdiv 2) (hlt : lo < hi - 1) (hsum : IsInt (lo + hi))
  (hcrit : AntitoneOn crit (Set.Ico lo hi))

include hm hlt hcrit

theorem crit_lowerEnd_le {k : ℕ} (h : lowerEnd lo hi (k + 1) < hi - 1) :
    crit (lowerEnd lo hi (k + 1)) ≤ crit m := by
  subst hm
  obtain ⟨hlom, hmhi, -⟩ := middle_mem hlt
  have hle := (lowerEnd_mem hmhi.le k).1
  exact hcrit ⟨hlom.le, hmhi⟩ ⟨hlom.le.trans hle, h.trans (by omega)⟩ hle

theorem crit_le_upperEnd (k : ℕ) : crit m ≤ crit (upperEnd lo hi (k + 1)) := by
  subst hm
  obtain ⟨hlom, hmhi, -⟩ := middle_mem hlt
  obtain ⟨hge, hle⟩ := upperEnd_mem hlom.le k
  exact hcrit ⟨hge, hle.trans_lt hmhi⟩ ⟨hlom.le, hmhi⟩ hle

include hsum

/-- The search goes up, and the upper end stays. -/
theorem sumsInRange_up (hpos : 0 < crit m) :
    SumsInRange crit lo hi ↔ (hi - 1 ≤ m ∨ IsInt (m + hi)) ∧ SumsInRange crit m hi := by
  obtain ⟨hlom, hmhi, hle, hge, -⟩ := middle_mem hlt
  rw [← hm] at hlom hmhi hle hge
  obtain ⟨hlow, hhigh⟩ := hsum
  constructor
  · rintro ⟨hup, -⟩
    refine ⟨?_, fun k => hm ▸ hup (k + 1), fun k _ hover => ?_⟩
    · have := hup 0
      rw [show lowerEnd lo hi (0 + 1) = m from hm.symm] at this
      by_contra! h
      exact h.2 ⟨by omega, by omega⟩
    · have := (upperEnd_mem hmhi.le (k + 1)).1
      omega
  · rintro ⟨hint, hup, -⟩
    refine ⟨fun k hk hover => ?_, fun k hk _ => ?_⟩
    · cases k with
      | zero =>
        rw [show lowerEnd lo hi (0 + 1) = m from hm.symm] at hk hover
        have := (hint.resolve_left (by omega)).2
        omega
      | succ k => exact (hm ▸ hup k : _) hk hover
    · exact hpos.le.trans (crit_le_upperEnd hm hlt hcrit k)

/-- The search goes down, and the lower end stays. -/
theorem sumsInRange_down (hneg : crit m < 0) :
    SumsInRange crit lo hi ↔ (m - 1 ≤ lo ∨ IsInt (lo + m)) ∧ SumsInRange crit lo m := by
  obtain ⟨hlom, hmhi, hle, hge, -⟩ := middle_mem hlt
  rw [← hm] at hlom hmhi hle hge
  obtain ⟨hlow, hhigh⟩ := hsum
  constructor
  · rintro ⟨-, hdown⟩
    refine ⟨?_, fun k _ hover => ?_, fun k => hm ▸ hdown (k + 1)⟩
    · have := hdown 0
      rw [show upperEnd lo hi (0 + 1) = m from hm.symm] at this
      by_contra! h
      exact h.2 ⟨by omega, by omega⟩
    · have := (lowerEnd_mem hlom.le (k + 1)).2
      omega
  · rintro ⟨hint, -, hdown⟩
    refine ⟨fun k hk _ => ?_, fun k hk hover => ?_⟩
    · exact (crit_lowerEnd_le hm hlt hcrit hk).trans hneg.le
    · cases k with
      | zero =>
        rw [show upperEnd lo hi (0 + 1) = m from hm.symm] at hk hover
        have := (hint.resolve_left (by omega)).1
        omega
      | succ k => exact (hm ▸ hdown k : _) hk hover

end Halves

/-- The search returns if no sum overflows. -/
theorem isSome_binSearch_iff (hlt : lo < hi) (hsum : hi - 1 ≤ lo ∨ IsInt (lo + hi))
    (hcrit : AntitoneOn crit (Set.Ico lo hi)) :
    (binSearch crit lo hi).isSome ↔ SumsInRange crit lo hi := by
  fun_induction binSearch crit lo hi with
  | case1 lo hi hend =>
    refine iff_of_true rfl ⟨fun k hk => ?_, fun k hk => ?_⟩
    · have := (lowerEnd_mem hlt.le (k + 1)).1
      omega
    · have := (upperEnd_mem hlt.le (k + 1)).2
      omega
  | case2 lo hi hend hover => exact absurd (hsum.resolve_left hend) hover
  | case3 lo hi hend hover m hzero =>
    have hle := not_le.1 hend
    refine iff_of_true rfl ⟨fun k hk _ => ?_, fun k hk _ => ?_⟩
    · exact (crit_lowerEnd_le rfl hle hcrit hk).trans_eq hzero
    · exact hzero.symm.trans_le (crit_le_upperEnd rfl hle hcrit k)
  | case4 lo hi hend hover m hzero hpos ih =>
    obtain ⟨hlom, hmhi, -⟩ := middle_mem (not_le.1 hend)
    rw [Option.isSome_map, sumsInRange_up rfl (not_le.1 hend) (not_not.1 hover) hcrit hpos]
    by_cases h : hi - 1 ≤ m ∨ IsInt (m + hi)
    · rw [ih hmhi h (hcrit.mono (Set.Ico_subset_Ico_left hlom.le)), and_iff_right h]
    · obtain ⟨hle, hint⟩ := not_or.1 h
      rw [binSearch, dif_neg hle, if_pos hint]
      exact iff_of_false Bool.false_ne_true fun h' => h h'.1
  | case5 lo hi hend hover m hzero hpos ih =>
    obtain ⟨hlom, hmhi, -⟩ := middle_mem (not_le.1 hend)
    have hneg : crit m < 0 := (not_lt.1 hpos).lt_of_ne hzero
    rw [Option.isSome_map, sumsInRange_down rfl (not_le.1 hend) (not_not.1 hover) hcrit hneg]
    by_cases h : m - 1 ≤ lo ∨ IsInt (lo + m)
    · rw [ih hlom h (hcrit.mono (Set.Ico_subset_Ico_right hmhi.le)), and_iff_right h]
    · obtain ⟨hle, hint⟩ := not_or.1 h
      rw [binSearch, dif_neg hle, if_pos hint]
      exact iff_of_false Bool.false_ne_true fun h' => h h'.1

/-- **The binary search is right** if and only if no sum on the way to the result overflows. -/
theorem binSearch_found_iff (hlt : lo < hi) (hsum : IsInt (lo + hi))
    (hcrit : AntitoneOn crit (Set.Ico lo hi)) :
    (∃ m calls, binSearch crit lo hi = some (m, calls) ∧ Found crit lo hi m ∧
      calls ≤ (hi - lo).toNat.size) ↔ SumsInRange crit lo hi := by
  rw [← isSome_binSearch_iff hlt (.inr hsum) hcrit, Option.isSome_iff_exists]
  refine ⟨fun ⟨m, calls, heq, _⟩ => ⟨(m, calls), heq⟩, fun ⟨⟨m, calls⟩, heq⟩ => ?_⟩
  obtain ⟨hcalls, hm, hsign⟩ := sign_of_binSearch hlt _ heq
  have hsize := (hi - lo).toNat.lt_size_self
  exact ⟨m, calls, heq, found_of_sign hcrit hm hsign,
    hcalls _ ((Int.self_le_toNat _).trans (by exact_mod_cast hsize.le))⟩

/-- The criterion is 0 at 1000; the first test is at `2 ^ 30 - 1`, and the search goes down. -/
theorem binSearch_found_thousand : IsInt (0 + (2 ^ 31 - 1)) ∧
    ∃ m calls, binSearch (1000 - ·) 0 (2 ^ 31 - 1) = some (m, calls) ∧
      Found (1000 - ·) 0 (2 ^ 31 - 1) m ∧ calls ≤ 31 := by
  refine ⟨by decide, (binSearch_found_iff (by decide) (by decide) ?_).2
    ⟨fun k _ _ => ?_, fun k _ _ => ?_⟩⟩
  · exact fun a _ b _ hab => Int.sub_le_sub_left hab 1000
  · have := (lowerEnd_mem (show (1073741823 : ℤ) ≤ 2 ^ 31 - 1 by decide) k).1
    have heq : lowerEnd 0 (2 ^ 31 - 1) (k + 1) = lowerEnd 1073741823 (2 ^ 31 - 1) k := rfl
    dsimp only
    omega
  · have := (upperEnd_mem (show (0 : ℤ) ≤ 2 ^ 31 - 1 by decide) (k + 1)).1
    omega

/-- The criterion is positive everywhere: `1073741823 + 2147483647` overflows. -/
theorem binSearch_overflow : binSearch (fun _ => 1) 0 (2 ^ 31 - 1) = none := by
  rw [← Option.not_isSome_iff_eq_none,
    isSome_binSearch_iff (by decide) (.inr (by decide)) antitoneOn_const]
  exact fun h => absurd (h.1 0 (by decide) (by decide)) (by decide)

end MagicLantern.Util
