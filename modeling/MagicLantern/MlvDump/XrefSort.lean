import Mathlib.Algebra.Group.End

/-!
# The order of the blocks of an MLV file

`xref_sort` sorts the table of the blocks by their times. After a pass only the entries before the
last exchange are looked at again.

Source: `src/modules/raw_video/mlv_rec/mlv_dump.c`.

## Main results

* `xrefSort_sorts` — the result is the stably sorted table.
-/

namespace MagicLantern.MlvDump

/-- `frame_xref_t`. -/
structure FrameXref where
  frameTime : ℕ
  frameOffset : ℕ
  fileNumber : ℕ
  frameType : ℕ

variable {table table' table'' : ℕ → FrameXref} {i j k m n : ℕ} {σ τ : Equiv.Perm ℕ}

/-- An iteration of the inner loop, with `newn`. -/
def sortStep (i : ℕ) : (ℕ → FrameXref) × ℕ → (ℕ → FrameXref) × ℕ
  | (table, newn) =>
    if (table i).frameTime > (table (i + 1)).frameTime then (table ∘ Equiv.swap i (i + 1), i + 1)
    else (table, newn)

/-- The first iterations of the inner loop. -/
def sortPass (table : ℕ → FrameXref) : ℕ → (ℕ → FrameXref) × ℕ
  | 0 => (table, 1)
  | i + 1 => sortStep i (sortPass table i)

theorem sortPass_snd_le (table : ℕ → FrameXref) (k : ℕ) : (sortPass table k).2 ≤ max 1 k := by
  induction k with
  | zero => exact le_max_left ..
  | succ k ih =>
    rw [sortPass, sortStep]
    split_ifs
    · exact le_max_right ..
    · exact ih.trans (by omega)

def xrefSort (table : ℕ → FrameXref) (n : ℕ) : ℕ → FrameXref :=
  if (sortPass table (n - 1)).2 > 1 then
    xrefSort (sortPass table (n - 1)).1 (sortPass table (n - 1)).2
  else (sortPass table (n - 1)).1
termination_by n
decreasing_by
  have := sortPass_snd_le table (n - 1)
  omega

/-- The entries up to `k` are rearranged; entries of the same time stay in their order. -/
def Rearranged (table table' : ℕ → FrameXref) (k : ℕ) (σ : Equiv.Perm ℕ) : Prop :=
  (∀ i, k < i → σ i = i) ∧ table' = table ∘ σ ∧
    ∀ i j, i < j → (table' i).frameTime = (table' j).frameTime → σ i < σ j

namespace Rearranged

theorem refl (table : ℕ → FrameXref) (k : ℕ) : Rearranged table table k 1 :=
  ⟨fun _ _ => rfl, rfl, fun _ _ hij _ => hij⟩

theorem trans (hσ : Rearranged table table' m σ) (hτ : Rearranged table' table'' k τ) (hm : m ≤ n)
    (hk : k ≤ n) : Rearranged table table'' n (σ * τ) := by
  obtain ⟨hfix, rfl, hstable⟩ := hσ
  obtain ⟨hfix', rfl, hstable'⟩ := hτ
  refine ⟨fun i hi => ?_, rfl, fun i j hij htime => hstable _ _ (hstable' i j hij htime) htime⟩
  rw [Equiv.Perm.mul_apply, hfix' i (hk.trans_lt hi), hfix i (hm.trans_lt hi)]

theorem swap (h : (table (k + 1)).frameTime < (table k).frameTime) :
    Rearranged table (table ∘ Equiv.swap k (k + 1)) (k + 1) (Equiv.swap k (k + 1)) := by
  refine ⟨fun i hi => Equiv.swap_apply_of_ne_of_ne (by omega) (by omega), rfl,
    fun i j hij htime => ?_⟩
  by_contra hlt
  have : i = k ∧ j = k + 1 := by
    rw [Equiv.swap_apply_def, Equiv.swap_apply_def] at hlt
    split_ifs at hlt <;> omega
  obtain ⟨rfl, rfl⟩ := this
  rw [Function.comp_apply, Function.comp_apply, Equiv.swap_apply_left,
    Equiv.swap_apply_right] at htime
  exact h.ne htime

theorem lt (h : Rearranged table table' k σ) (hij : i < j) (hj : k < j) : σ i < j := by
  by_contra! hle
  have := σ.injective (h.1 _ (hj.trans_le hle))
  omega

end Rearranged

/-- **A pass**: the entries from the last exchange on are in their places. -/
theorem sortPass_spec (table : ℕ → FrameXref) (k : ℕ) :
    (∃ σ, Rearranged table (sortPass table k).1 k σ) ∧
    ∀ i j, i < j → (sortPass table k).2 ≤ j → j ≤ k →
      ((sortPass table k).1 i).frameTime ≤ ((sortPass table k).1 j).frameTime := by
  induction k with
  | zero => exact ⟨⟨1, .refl table 0⟩, fun i j hij _ hj => by omega⟩
  | succ k ih =>
    obtain ⟨⟨σ, hσ⟩, hle⟩ := ih
    -- the entry at `k` has the latest time up to there
    have hlast : ∀ i < k,
        ((sortPass table k).1 i).frameTime ≤ ((sortPass table k).1 k).frameTime := by
      intro i hi
      have := sortPass_snd_le table k
      exact hle i k hi (by omega) le_rfl
    rw [sortPass, sortStep]
    split_ifs with hgt
    · refine ⟨⟨_, hσ.trans (.swap hgt) k.le_succ le_rfl⟩, fun i j hij hj hjk => ?_⟩
      obtain rfl : j = k + 1 := le_antisymm hjk hj
      simp only [Function.comp_apply, Equiv.swap_apply_right, Equiv.swap_apply_def]
      split_ifs with hi hi'
      · exact hgt.le
      · exact le_rfl
      · exact hlast i (by omega)
    · refine ⟨⟨_, hσ.trans (.refl _ 0) k.le_succ (Nat.zero_le _)⟩, fun i j hij hj hjk => ?_⟩
      rcases Nat.lt_or_eq_of_le hjk with hjk | rfl
      · exact hle i j hij hj (Nat.lt_succ_iff.1 hjk)
      · refine le_trans ?_ (not_lt.1 hgt)
        rcases Nat.lt_or_eq_of_le (Nat.lt_succ_iff.1 hij) with hi | rfl
        · exact hlast i hi
        · exact le_rfl

/-- The result is sorted if the entries from `n` on are in their places. -/
theorem exists_xrefSort (table : ℕ → FrameXref) (n entries : ℕ)
    (h : ∀ i j, i < j → n ≤ j → j < entries → (table i).frameTime ≤ (table j).frameTime) :
    (∃ σ, Rearranged table (xrefSort table n) (n - 1) σ) ∧ ∀ i j, i < j → j < entries →
      (xrefSort table n i).frameTime ≤ (xrefSort table n j).frameTime := by
  -- the entries from the last exchange on are in their places after a pass
  have hpass : ∀ table n,
      (∀ i j, i < j → n ≤ j → j < entries → (table i).frameTime ≤ (table j).frameTime) →
      ∀ i j, i < j → (sortPass table (n - 1)).2 ≤ j → j < entries →
        ((sortPass table (n - 1)).1 i).frameTime ≤ ((sortPass table (n - 1)).1 j).frameTime := by
    intro table n h i j hij hj hlt
    obtain ⟨⟨σ, hσ⟩, hle⟩ := sortPass_spec table (n - 1)
    rcases le_or_gt j (n - 1) with hjn | hjn
    · exact hle i j hij hj hjn
    · rw [hσ.2.1, Function.comp_apply, Function.comp_apply, hσ.1 j hjn]
      exact h _ j (hσ.lt hij hjn) (by omega) hlt
  fun_induction xrefSort table n with
  | case1 table n hnewn ih =>
    obtain ⟨⟨σ, hσ⟩, -⟩ := sortPass_spec table (n - 1)
    obtain ⟨⟨τ, hτ⟩, hle⟩ := ih (hpass table n h)
    have := sortPass_snd_le table (n - 1)
    exact ⟨⟨σ * τ, hσ.trans hτ le_rfl (by omega)⟩, hle⟩
  | case2 table n hnewn =>
    exact ⟨(sortPass_spec table (n - 1)).1, fun i j hij => hpass table n h i j hij (by omega)⟩

/-- **The table is sorted** by the times, and entries of the same time stay in their order. -/
theorem xrefSort_sorts (table : ℕ → FrameXref) (entries : ℕ) : ∃ σ : Equiv.Perm ℕ,
    (∀ i, entries ≤ i → σ i = i) ∧ xrefSort table entries = table ∘ σ ∧
    ∀ i j, i < j → j < entries →
      (table (σ i)).frameTime < (table (σ j)).frameTime ∨
        (table (σ i)).frameTime = (table (σ j)).frameTime ∧ σ i < σ j := by
  obtain ⟨⟨σ, hσ⟩, hle⟩ := exists_xrefSort table entries entries
    fun i j _ hn hlt => absurd hn (not_le.2 hlt)
  refine ⟨σ, fun i hi => ?_, hσ.2.1, fun i j hij hj => ?_⟩
  · rcases Nat.eq_zero_or_pos i with rfl | hpos
    · exact Nat.lt_one_iff.1 (hσ.lt Nat.zero_lt_one (by omega))
    · exact hσ.1 i (by omega)
  · have htime := hle i j hij hj
    have hstable := hσ.2.2 i j hij
    simp only [hσ.2.1, Function.comp_apply] at htime hstable
    omega

/-- No entries of a sorted table are exchanged. -/
theorem sortPass_of_sorted (h : ∀ i j, i < j → j < n → (table i).frameTime ≤ (table j).frameTime)
    (hk : k ≤ n - 1) : sortPass table k = (table, 1) := by
  induction k with
  | zero => rfl
  | succ k ih =>
    rw [sortPass, ih (by omega), sortStep, if_neg (not_lt.2 (h k _ k.lt_succ_self (by omega)))]

/-- **Sorting again** changes nothing. -/
theorem xrefSort_xrefSort (table : ℕ → FrameXref) (entries : ℕ) :
    xrefSort (xrefSort table entries) entries = xrefSort table entries := by
  have hsorted := (exists_xrefSort table entries entries fun i j _ hn hlt =>
    absurd hn (not_le.2 hlt)).2
  conv_lhs => rw [xrefSort, sortPass_of_sorted hsorted le_rfl]
  exact if_neg (lt_irrefl 1)

end MagicLantern.MlvDump
