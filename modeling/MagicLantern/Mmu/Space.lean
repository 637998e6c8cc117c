import MagicLantern.Library.Blocks

/-!
# The space for the tables

`calc_mmu_globals` lays out the pages, the L1 table, the L2 tables and the records about them in a
region of memory. It tries one number of pages after the other, beginning with the largest, and
works from the end of the region that is closer to a multiple of 64 KiB.

The computation is in 32 bits, and can run over either end of the address space.

Source: `src/src/patch_mmu.c`, `src/src/patch_mmu.h`, `src/src/mmu_utils.h`.

## Main results

* `calcMmuGlobals_layout_iff` — when the layout is right.
* `calcMmuGlobals_layout_wrong`.
-/

namespace MagicLantern.Mmu

open List

/-! ### The computation -/

/-- The fields of `global_mmu_conf` that hold the layout, and the local pointer to the L2 tables. -/
structure MmuGlobals where
  l1Table : ℕ
  maxL2Tables : ℕ
  /-- The address of the records about the L2 tables. -/
  l2Info : ℕ
  max64kPagesRemapped : ℕ
  physMemPages : ℕ
  /-- The address of the L2 tables. -/
  l2Tables : ℕ
  deriving DecidableEq

/-- Subtraction of 32-bit numbers. -/
def sub32 (a b : ℕ) : ℕ := (a + (2 ^ 32 - b)) % 2 ^ 32

/-- `ROUND_UP`. -/
def roundUp (x s : ℕ) : ℕ := (x + s - 1) % 2 ^ 32 / s * s

/-- `ROUND_DOWN`, for powers of two. -/
def roundDown (x s : ℕ) : ℕ := x - x % s

/-- `min_required_space`. -/
def minRequiredSpace : ℕ := 0x10000 + 0x4900 + 0x300 + 0x400 + 76

section

variable (start size : ℕ)

/-- `start_adjust`. -/
def startAdjust : ℕ :=
  if 0x10000 - start % 0x10000 = 0x10000 then 0 else 0x10000 - start % 0x10000

/-- `end_addr`. -/
def endAddr : ℕ := (start + size) % 2 ^ 32

/-- `end_adjust`. -/
def endAdjust : ℕ := endAddr start size % 0x10000

/-- `aligned_end`. -/
def alignedEnd : ℕ := roundDown (endAddr start size) 0x10000

/-- `aligned_start`. -/
def alignedStart : ℕ := (start + startAdjust start) % 2 ^ 32

/-- `fill_forwards`. -/
def fillForwards : Bool := !decide (endAdjust start size < startAdjust start)

/-- `aligned_space`. -/
def alignedSpace : ℕ :=
  if fillForwards start size then sub32 (sub32 (endAddr start size) start) (startAdjust start)
  else sub32 (alignedEnd start size) start

/-- An attempt with `n` pages at the start of the region. -/
def tryForwards (g : MmuGlobals) (n : ℕ) : Bool × MmuGlobals :=
  let l1Table := (alignedStart start + 0x10000 * n) % 2 ^ 32
  let l1TableEnd := (l1Table + 0x4900) % 2 ^ 32
  let l2Tables := roundUp l1TableEnd 0x400
  -- The size of the L2 tables is taken to be that of the constant.
  let l2TablesEnd := (l2Tables + 4 * n) % 2 ^ 32
  let l2Info := if sub32 l2Tables l1TableEnd > 76 * n then l1TableEnd else l2TablesEnd
  let l2InfoEnd := (l2Info + 76 * n) % 2 ^ 32
  (l2InfoEnd ≤ endAddr start size && l2TablesEnd ≤ endAddr start size,
    { g with
      max64kPagesRemapped := n, maxL2Tables := n, physMemPages := alignedStart start
      l1Table, l2Tables, l2Info })

/-- An attempt with `n` pages at the end of the region. -/
def tryBackwards (g : MmuGlobals) (n : ℕ) : Bool × MmuGlobals :=
  let g := { g with max64kPagesRemapped := n, maxL2Tables := n }
  let physMemStart := sub32 (alignedEnd start size) (0x10000 * n)
  if physMemStart < start then (false, g)
  else
    let l2Tables := sub32 physMemStart (0x400 * n)
    let g := { g with physMemPages := physMemStart, l2Tables }
    if l2Tables < start then (false, g)
    else
      let l1Table := roundDown (sub32 l2Tables 0x4900) 0x4000
      let g := { g with l1Table }
      if l1Table < start then (false, g)
      else
        let l1TableEnd := (l1Table + 0x4900) % 2 ^ 32
        let l2Info := if sub32 l2Tables l1TableEnd > 76 * n then l1TableEnd
          else sub32 l1Table (76 * n)
        if l2Info < start then (false, g) else (true, { g with l2Info })

/-- An iteration of the loop. -/
def tryPages (g : MmuGlobals) (n : ℕ) : Bool × MmuGlobals :=
  if fillForwards start size then tryForwards start size g n else tryBackwards start size g n

/-- The loop over the number of pages. -/
def fitPages (g : MmuGlobals) : ℕ → MmuGlobals
  | 0 => g
  | n + 1 =>
    let r := tryPages start size g (n + 1)
    if r.1 then r.2 else fitPages r.2 n

/-- `calc_mmu_globals`: the value that is returned, and the layout. The pointer to the L2 tables is
null at the beginning. -/
def calcMmuGlobals (g : MmuGlobals) : ℤ × MmuGlobals :=
  if size < minRequiredSpace then (-1, g)
  else if alignedSpace start size < minRequiredSpace then (-2, g)
  else
    let g := fitPages start size { g with l2Tables := 0 } (alignedSpace start size / 0x10000)
    if g.l2Tables = 0 then (-4, g) else (0, g)

end

/-! ### What the layout is for -/

/-- The pages, the L1 table, the L2 tables and the records. -/
def MmuGlobals.blocks (g : MmuGlobals) : List Block :=
  [⟨g.physMemPages, 0x10000 * g.max64kPagesRemapped⟩, ⟨g.l1Table, 0x4900⟩,
    ⟨g.l2Tables, 0x400 * g.maxL2Tables⟩, ⟨g.l2Info, 76 * g.maxL2Tables⟩]

/-- All structures are in the region, disjoint and aligned. -/
@[mk_iff]
structure LayoutOk (start size : ℕ) (g : MmuGlobals) : Prop where
  inside : ∀ b ∈ g.blocks, start ≤ b.start ∧ b.start + b.size ≤ start + size
  disjoint : g.blocks.Pairwise Block.Disjoint
  pagesAligned : g.physMemPages % 0x10000 = 0
  l1Aligned : g.l1Table % 0x4000 = 0
  l2Aligned : g.l2Tables % 0x400 = 0

variable {start size b : ℕ}

instance (g : MmuGlobals) : Decidable (LayoutOk start size g) :=
  decidable_of_iff _ (layoutOk_iff ..).symm

/-! ### Arithmetic -/

theorem minRequiredSpace_eq : minRequiredSpace = 0x1504C := rfl

theorem sub32_of_le {a : ℕ} (h : b ≤ a) (ha : a < 2 ^ 32) : sub32 a b = a - b := by
  rw [sub32]
  omega

theorem sub32_of_lt {a : ℕ} (h : a < b) (hb : b ≤ 2 ^ 32) : sub32 a b = 2 ^ 32 + a - b := by
  rw [sub32]
  omega

theorem startAdjust_lt (start : ℕ) : startAdjust start < 0x10000 := by
  rw [startAdjust]
  split_ifs <;> omega

theorem startAdjust_aligned (start : ℕ) : (start + startAdjust start) % 0x10000 = 0 := by
  rw [startAdjust]
  split_ifs <;> omega

theorem startAdjust_eq_zero_iff : startAdjust start = 0 ↔ start % 0x10000 = 0 := by
  rw [startAdjust]
  split_ifs <;> omega

/-! ### Filling forwards -/

/-- The layout with `n` pages from address `a`. -/
def forwardsLayout (a n : ℕ) : MmuGlobals where
  physMemPages := a
  max64kPagesRemapped := n
  l1Table := a + 0x10000 * n
  l2Tables := a + 0x10000 * n + 0x4C00
  maxL2Tables := n
  l2Info := if n ≤ 10 then a + 0x10000 * n + 0x4900
    else (a + 0x10000 * n + 0x4C00 + 4 * n) % 2 ^ 32

section

variable {a n : ℕ} (ha : alignedStart start = a) (haligned : a % 0x10000 = 0)
  (hn : a + 0x10000 * n < 2 ^ 32)

include ha haligned hn

theorem tryForwards_layout (g : MmuGlobals) :
    (tryForwards start size g n).2 = forwardsLayout a n := by
  have hl1 : (a + 0x10000 * n) % 2 ^ 32 = a + 0x10000 * n := Nat.mod_eq_of_lt hn
  have hl1End : (a + 0x10000 * n + 0x4900) % 2 ^ 32 = a + 0x10000 * n + 0x4900 := by omega
  have hl2 : roundUp (a + 0x10000 * n + 0x4900) 0x400 = a + 0x10000 * n + 0x4C00 := by
    rw [roundUp]
    omega
  have hgap : sub32 (a + 0x10000 * n + 0x4C00) (a + 0x10000 * n + 0x4900) = 0x300 := by
    rw [sub32_of_le (by omega) (by omega)]
    omega
  have hsmall : 0x300 > 76 * n ↔ n ≤ 10 := by omega
  simp only [tryForwards, ha, hl1, hl1End, hl2, hgap, hsmall, forwardsLayout]

theorem tryForwards_met_iff (g : MmuGlobals) : (tryForwards start size g n).1 = true ↔
    ((forwardsLayout a n).l2Info + 76 * n) % 2 ^ 32 ≤ endAddr start size ∧
      (a + 0x10000 * n + 0x4C00 + 4 * n) % 2 ^ 32 ≤ endAddr start size := by
  have hlayout : (tryForwards start size g n).2 = forwardsLayout a n :=
    tryForwards_layout ha haligned hn g
  have hinfo : (tryForwards start size g n).2.l2Info = (forwardsLayout a n).l2Info := by
    rw [hlayout]
  have hl2 : (tryForwards start size g n).2.l2Tables = (forwardsLayout a n).l2Tables := by
    rw [hlayout]
  rw [← hinfo, show a + 0x10000 * n + 0x4C00 = (forwardsLayout a n).l2Tables from rfl, ← hl2]
  simp [tryForwards]

end

/-- Up to ten pages, the records are before the L2 tables, and everything is right if there is
room for the L2 tables. -/
theorem layoutOk_forwards_small {a n : ℕ} (hstart : start ≤ a) (haligned : a % 0x10000 = 0)
    (hn : n ≤ 10) (hpos : 0 < n) : LayoutOk start size (forwardsLayout a n) ↔
      a + 0x10000 * n + 0x4C00 + 0x400 * n ≤ start + size := by
  rw [layoutOk_iff]
  simp only [forwardsLayout, MmuGlobals.blocks, if_pos hn, forall_mem_cons, not_mem_nil,
    IsEmpty.forall_iff, implies_true, pairwise_cons, List.Pairwise.nil, Block.Disjoint,
    and_true]
  omega

/-- With more pages, the records are in the L2 tables. -/
theorem not_layoutOk_forwards_large {a n : ℕ} (hend : start + size ≤ 2 ^ 32) (hn : 10 < n) :
    ¬ LayoutOk start size (forwardsLayout a n) := by
  rintro ⟨hinside, hdisjoint, -, -, -⟩
  simp only [forwardsLayout, MmuGlobals.blocks, if_neg (Nat.not_le.2 hn)] at hinside hdisjoint
  have hl2 := (hinside ⟨a + 0x10000 * n + 0x4C00, 0x400 * n⟩ (by simp)).2
  have hinfo : (a + 0x10000 * n + 0x4C00 + 4 * n) % 2 ^ 32 = a + 0x10000 * n + 0x4C00 + 4 * n :=
    Nat.mod_eq_of_lt (by dsimp only at hl2; omega)
  simp only [pairwise_cons, forall_mem_cons, Block.Disjoint] at hdisjoint
  omega

/-- The regions for which filling forwards is right, by the number `n` of pages in them and the rest
`r`. If the L2 tables do not fit behind the pages, the code must notice it. -/
def ForwardsOk (n r : ℕ) : Prop :=
  n ≤ 10 ∧ (r < 0x4C00 + 4 * n ∨ 0x4C00 + 0x400 * n ≤ r) ∨ n = 11 ∧ r < 0x4C00 + 80 * n

instance (n r : ℕ) : Decidable (ForwardsOk n r) :=
  inferInstanceAs (Decidable (_ ∨ _))

theorem fitPages_succ (g : MmuGlobals) (n : ℕ) : fitPages start size g (n + 1) =
    if (tryPages start size g (n + 1)).1 then (tryPages start size g (n + 1)).2
    else fitPages start size (tryPages start size g (n + 1)).2 n :=
  rfl

section

variable {a e n : ℕ} (hfill : fillForwards start size = true) (ha : alignedStart start = a)
  (haligned : a % 0x10000 = 0)

include hfill ha haligned

theorem fitPages_of_met (g : MmuGlobals) (hn : a + 0x10000 * n + 0x10000 < 2 ^ 32)
    (hmet : (tryForwards start size g (n + 1)).1 = true) :
    fitPages start size g (n + 1) = forwardsLayout a (n + 1) := by
  rw [fitPages_succ, tryPages, if_pos hfill, hmet, if_pos rfl,
    tryForwards_layout ha haligned (by rwa [Nat.mul_succ, ← Nat.add_assoc])]

theorem fitPages_of_not_met (g : MmuGlobals) (hn : a + 0x10000 * n + 0x10000 < 2 ^ 32)
    (hmet : ¬ (tryForwards start size g (n + 1)).1 = true) :
    fitPages start size g (n + 1) = fitPages start size (forwardsLayout a (n + 1)) n := by
  rw [fitPages_succ, tryPages, if_pos hfill, if_neg hmet,
    tryForwards_layout ha haligned (by rwa [Nat.mul_succ, ← Nat.add_assoc])]

omit hfill in
/-- Up to eleven pages, the tests are made without running over the end of the address space. -/
theorem met_iff_of_le (g : MmuGlobals) (he : endAddr start size = e) (hlt : e < 2 ^ 32)
    (hn : a + 0x10000 * n ≤ e) (hsmall : n ≤ 11) :
    (tryForwards start size g n).1 = true ↔
      a + 0x10000 * n + 0x4C00 + (if n ≤ 10 then 4 * n else 80 * n) ≤ e := by
  have hpages : a + 0x10000 * n ≤ 2 ^ 32 - 0x10000 := by omega
  have hl2End : (a + 0x10000 * n + 0x4C00 + 4 * n) % 2 ^ 32 = a + 0x10000 * n + 0x4C00 + 4 * n :=
    Nat.mod_eq_of_lt (by omega)
  rw [tryForwards_met_iff ha haligned (by omega), he, forwardsLayout]
  dsimp only
  rw [hl2End]
  split_ifs with hten
  · rw [Nat.mod_eq_of_lt (by omega)]
    omega
  · rw [Nat.mod_eq_of_lt (by omega)]
    omega

/-- From twelve pages on, at least eleven pages are laid out. -/
theorem exists_fitPages_large (he : endAddr start size = e) (hlt : e < 2 ^ 32)
    (hroom : a + 0x10000 * 12 ≤ e) (k : ℕ) (g : MmuGlobals) (hk : a + 0x10000 * (11 + k) ≤ e) :
    ∃ n, 10 < n ∧ fitPages start size g (11 + k) = forwardsLayout a n := by
  induction k generalizing g with
  | zero =>
    have hmet : (tryForwards start size g 11).1 = true :=
      (met_iff_of_le ha haligned g he hlt (by omega) le_rfl).2 (by rw [if_neg (by omega)]; omega)
    exact ⟨11, by omega, fitPages_of_met (n := 10) hfill ha haligned g (by omega) hmet⟩
  | succ k ih =>
    rw [← Nat.add_assoc]
    by_cases hmet : (tryForwards start size g (11 + k + 1)).1 = true
    · exact ⟨11 + k + 1, by omega,
        fitPages_of_met (n := 11 + k) hfill ha haligned g (by omega) hmet⟩
    · rw [fitPages_of_not_met (n := 11 + k) hfill ha haligned g (by omega) hmet]
      exact ih _ (by omega)

/-- **Filling forwards.** -/
theorem layoutOk_fitPages_forwards (he : endAddr start size = e) (hlt : e < 2 ^ 32)
    (hend : start + size = e) (hstart : start ≤ a) (hmin : minRequiredSpace ≤ e - a)
    (g : MmuGlobals) : LayoutOk start size (fitPages start size g ((e - a) / 0x10000)) ↔
      ForwardsOk ((e - a) / 0x10000) ((e - a) % 0x10000) := by
  rw [minRequiredSpace_eq] at hmin
  obtain ⟨k, hk⟩ : ∃ k, (e - a) / 0x10000 = k + 1 := ⟨(e - a) / 0x10000 - 1, by omega⟩
  obtain ⟨r, hr⟩ : ∃ r, (e - a) % 0x10000 = r := ⟨_, rfl⟩
  have hroom : a + 0x10000 * k + 0x10000 + r = e := by omega
  have hrlt : r < 0x10000 := by omega
  replace hmin : 1 ≤ k ∨ 0x504C ≤ r := by omega
  rw [hk, hr, ForwardsOk]
  clear hk hr
  rcases Nat.lt_or_ge k 11 with hsmall | hlarge
  swap
  · obtain ⟨n, hn, heq⟩ := exists_fitPages_large hfill ha haligned he hlt (by omega) (k - 10) g
      (by omega)
    rw [show 11 + (k - 10) = k + 1 by omega] at heq
    rw [heq]
    exact iff_of_false (not_layoutOk_forwards_large (by omega) hn) (by omega)
  have hmet := met_iff_of_le (n := k + 1) ha haligned g he hlt (by rw [Nat.mul_succ]; omega)
    (by omega)
  rw [Nat.mul_succ, ← Nat.add_assoc] at hmet
  by_cases h : (tryForwards start size g (k + 1)).1 = true
  · -- The largest number of pages is accepted.
    rw [fitPages_of_met (n := k) hfill ha haligned g (by omega) h]
    rw [h, eq_self_iff_true, true_iff] at hmet
    by_cases hten : k + 1 ≤ 10
    · rw [if_pos hten] at hmet
      rw [layoutOk_forwards_small hstart haligned hten (by omega), Nat.mul_succ]
      omega
    · rw [if_neg hten] at hmet
      exact iff_of_false (not_layoutOk_forwards_large (by omega) (by omega)) (by omega)
  · -- One page less is accepted, and leaves more than enough room.
    have hrest := mt hmet.2 h
    obtain ⟨j, rfl⟩ : ∃ j, k = j + 1 := by
      refine ⟨k - 1, ?_⟩
      split_ifs at hrest <;> omega
    rw [fitPages_of_not_met (n := j + 1) hfill ha haligned g (by omega) h]
    have hmet' : (tryForwards start size (forwardsLayout a (j + 1 + 1)) (j + 1)).1 = true := by
      rw [met_iff_of_le (n := j + 1) ha haligned _ he hlt (by rw [Nat.mul_succ]; omega) (by omega),
        if_pos (by omega), Nat.mul_succ]
      omega
    rw [fitPages_of_met (n := j) hfill ha haligned _ (by omega) hmet',
      layoutOk_forwards_small hstart haligned (by omega) (by omega), Nat.mul_succ]
    split_ifs at hrest <;> omega

omit hfill in
/-- No layout is accepted if the region ends at the end of the address space. -/
theorem not_met_of_endAddr_zero (he : endAddr start size = 0) (g : MmuGlobals) (hpos : 0 < n)
    (hn : a + 0x10000 * n < 2 ^ 32) : ¬ (tryForwards start size g n).1 = true := by
  rw [tryForwards_met_iff ha haligned hn, he, forwardsLayout]
  dsimp only
  split_ifs <;> omega

/-- Then the last attempt, with one page, remains. -/
theorem fitPages_of_endAddr_zero (he : endAddr start size = 0) (g : MmuGlobals)
    (hn : a + 0x10000 * n + 0x10000 < 2 ^ 32) :
    fitPages start size g (n + 1) = forwardsLayout a 1 := by
  induction n generalizing g with
  | zero =>
    rw [fitPages_of_not_met hfill ha haligned g hn
      (not_met_of_endAddr_zero ha haligned he g (by omega) (by omega))]
    rfl
  | succ n ih =>
    rw [fitPages_of_not_met hfill ha haligned g hn (not_met_of_endAddr_zero ha haligned he g
      (by omega) (by rwa [Nat.mul_succ, ← Nat.add_assoc]))]
    exact ih _ (by omega)

end

/-! ### Filling backwards -/

/-- The space before the pages that the L2 tables and the L1 table take. -/
def l1Need (n : ℕ) : ℕ := (0x400 * n + 0x4900 + 0x3FFF) / 0x4000 * 0x4000

/-- The space before the pages that everything takes. The records are behind the L1 table if there
is a gap, and else before it. -/
def infoNeed (n : ℕ) : ℕ :=
  if 76 * n < l1Need n - (0x400 * n + 0x4900) then l1Need n else l1Need n + 76 * n

/-- Everything fits between the start of the region and the pages, which begin at `p`. -/
def Fits (start p n : ℕ) : Prop := start + infoNeed n ≤ p

/-- Something does not fit, and the first test that concerns it does not run below address `0`; or
only the start of the L1 table is below address `0`, and the records behind it are before the
region. -/
def Refused (start p n : ℕ) : Prop :=
  (p < start + 0x400 * n ∧ 0x400 * n ≤ p) ∨
  (start + 0x400 * n ≤ p ∧ p < start + l1Need n ∧ l1Need n ≤ p) ∨
  (start + l1Need n ≤ p ∧ p < start + infoNeed n ∧ infoNeed n ≤ p) ∨
  (start + 0x400 * n ≤ p ∧ p + 0x4000 = l1Need n ∧ 0x400 * n + 0x900 + 76 * n < p ∧ 0x900 < start)

instance (start p n : ℕ) : Decidable (Fits start p n) := inferInstanceAs (Decidable (_ ≤ _))

instance (start p n : ℕ) : Decidable (Refused start p n) := inferInstanceAs (Decidable (_ ∨ _))

theorem l1Need_mod (n : ℕ) : l1Need n % 0x4000 = 0 := Nat.mul_mod_left _ _

theorem le_l1Need (n : ℕ) : 0x400 * n + 0x4900 ≤ l1Need n := by
  rw [l1Need]
  omega

theorem l1Need_lt (n : ℕ) : l1Need n < 0x400 * n + 0x4900 + 0x4000 := by
  rw [l1Need]
  omega

theorem l1Need_le_infoNeed (n : ℕ) : l1Need n ≤ infoNeed n := by
  rw [infoNeed]
  split_ifs <;> omega

theorem infoNeed_eq {n : ℕ} (h : l1Need n < infoNeed n) :
    ¬ l1Need n - (0x400 * n + 0x4900) > 76 * n ∧ infoNeed n = l1Need n + 76 * n := by
  rw [infoNeed] at h ⊢
  split_ifs at h ⊢ with hgap
  · exact absurd h (lt_irrefl _)
  · exact ⟨hgap, rfl⟩

theorem roundDown_sub {p n : ℕ} (hp : p % 0x4000 = 0) (h : 0x400 * n + 0x4900 ≤ p) :
    roundDown (p - (0x400 * n + 0x4900)) 0x4000 = p - l1Need n := by
  have h₁ := l1Need_mod n
  have h₂ := le_l1Need n
  have h₃ := l1Need_lt n
  rw [roundDown]
  omega

/-- The layout with `n` pages from address `p`. -/
def backwardsLayout (p n : ℕ) : MmuGlobals where
  physMemPages := p
  max64kPagesRemapped := n
  l2Tables := p - 0x400 * n
  maxL2Tables := n
  l1Table := p - l1Need n
  l2Info := if 76 * n < l1Need n - (0x400 * n + 0x4900) then p - l1Need n + 0x4900
    else p - l1Need n - 76 * n

theorem layoutOk_backwards {p n : ℕ} (hp : p % 0x10000 = 0) (hpos : 0 < n)
    (hend : p + 0x10000 * n ≤ start + size) (h : Fits start p n) :
    LayoutOk start size (backwardsLayout p n) := by
  have h₁ := l1Need_mod n
  have h₂ := le_l1Need n
  rw [Fits, infoNeed] at h
  rw [layoutOk_iff]
  simp only [backwardsLayout, MmuGlobals.blocks, forall_mem_cons, not_mem_nil,
    IsEmpty.forall_iff, implies_true, pairwise_cons, List.Pairwise.nil, Block.Disjoint,
    and_true]
  generalize l1Need n = x at h h₁ h₂ ⊢
  obtain ⟨y, rfl⟩ := Nat.exists_eq_add_of_le h₂
  rw [Nat.add_sub_cancel_left] at h ⊢
  obtain ⟨l, rfl⟩ : ∃ l, p = l + (0x400 * n + 0x4900 + y) :=
    ⟨p - (0x400 * n + 0x4900 + y), by split_ifs at h <;> omega⟩
  rw [show l + (0x400 * n + 0x4900 + y) - 0x400 * n = l + 0x4900 + y by omega]
  split_ifs at h ⊢
  · and_intros <;> omega
  · and_intros <;> omega

/-- The addresses of the tables, if they are not below address `0`. -/
theorem backwards_addresses {p n : ℕ} (hp : p % 0x10000 = 0) (hlt : p < 2 ^ 32)
    (h : l1Need n ≤ p) : sub32 p (0x400 * n) = p - 0x400 * n ∧
    roundDown (sub32 (p - 0x400 * n) 0x4900) 0x4000 = p - l1Need n ∧
    (p - l1Need n + 0x4900) % 2 ^ 32 = p - l1Need n + 0x4900 ∧
    sub32 (p - 0x400 * n) (p - l1Need n + 0x4900) = l1Need n - (0x400 * n + 0x4900) := by
  have hneed := le_l1Need n
  refine ⟨sub32_of_le (by omega) hlt, ?_, Nat.mod_eq_of_lt (by omega), ?_⟩
  · rw [sub32_of_le (by omega) (by omega), Nat.sub_sub, roundDown_sub (by omega) (by omega)]
  · rw [sub32_of_le (by omega) (by omega)]
    omega

theorem backwards_below {p n : ℕ} (hp : p % 0x10000 = 0) (hroom : 0x400 * n ≤ p)
    (h : p + 0x4000 = l1Need n) :
    roundDown (sub32 (p - 0x400 * n) 0x4900) 0x4000 = 2 ^ 32 - 0x4000 ∧
      (2 ^ 32 - 0x4000 + 0x4900) % 2 ^ 32 = 0x900 := by
  have h₁ := le_l1Need n
  have h₂ := l1Need_lt n
  rw [sub32_of_lt (by omega) (by omega), roundDown]
  omega

section

variable {p n l2 l1 info : ℕ} (hphys : sub32 (alignedEnd start size) (0x10000 * n) = p)
  (hstart : start ≤ p)

include hphys hstart

theorem tryBackwards_spec (hl2 : sub32 p (0x400 * n) = l2)
    (hl1 : roundDown (sub32 l2 0x4900) 0x4000 = l1)
    (hinfo : (if sub32 l2 ((l1 + 0x4900) % 2 ^ 32) > 76 * n then (l1 + 0x4900) % 2 ^ 32
      else sub32 l1 (76 * n)) = info) (g : MmuGlobals) :
    ((tryBackwards start size g n).1 = true ↔ start ≤ l2 ∧ start ≤ l1 ∧ start ≤ info) ∧
      (start ≤ l2 → (tryBackwards start size g n).2.l1Table = l1) ∧
      ((tryBackwards start size g n).1 = true →
        (tryBackwards start size g n).2 = ⟨l1, n, info, n, p, l2⟩) := by
  simp only [tryBackwards, hphys, hl2, hl1, hinfo]
  split_ifs <;> simp <;> omega

variable (hp : p % 0x10000 = 0) (hlt : p < 2 ^ 32)

include hp hlt

theorem tryBackwards_of_fits (h : Fits start p n) (g : MmuGlobals) :
    tryBackwards start size g n = (true, backwardsLayout p n) := by
  have hneed := le_l1Need n
  have hl1 := l1Need_le_infoNeed n
  rw [Fits] at h
  obtain ⟨hl2, hl1Table, hl1End, hgap⟩ := backwards_addresses hp hlt (show l1Need n ≤ p by omega)
  have hinfo : (if l1Need n - (0x400 * n + 0x4900) > 76 * n then p - l1Need n + 0x4900
      else sub32 (p - l1Need n) (76 * n)) = (backwardsLayout p n).l2Info := by
    rw [infoNeed] at h
    simp only [backwardsLayout]
    split_ifs at h ⊢
    · rfl
    · exact sub32_of_le (by omega) (by omega)
  rw [← hgap, ← hl1End] at hinfo
  obtain ⟨hmet, -, heq⟩ := tryBackwards_spec hphys hstart hl2 hl1Table hinfo g
  have hall : (tryBackwards start size g n).1 = true := by
    refine hmet.2 ⟨by omega, by omega, ?_⟩
    rw [infoNeed] at h
    simp only [backwardsLayout]
    split_ifs at h ⊢ <;> omega
  refine Prod.ext hall ((heq hall).trans ?_)
  simp only [backwardsLayout]

theorem tryBackwards_of_refused (h : Refused start p n) (g : MmuGlobals) :
    (tryBackwards start size g n).1 = false := by
  rw [← Bool.not_eq_true, (tryBackwards_spec hphys hstart rfl rfl rfl g).1]
  rintro ⟨hl2, hl1, hinfo⟩
  rcases h with ⟨hroom, hle⟩ | ⟨hroom, hbelow, hle⟩ | ⟨hroom, hbelow, hle⟩ | ⟨hroom, hbelow, hgap,
      hlow⟩
  · rw [sub32_of_le hle hlt] at hl2
    omega
  · obtain ⟨hl2Tables, hl1Table, -, -⟩ := backwards_addresses hp hlt hle
    rw [hl2Tables] at hl1
    omega
  · obtain ⟨hl2Tables, hl1Table, hl1End, hgap⟩ :=
      backwards_addresses hp hlt (show l1Need n ≤ p by omega)
    obtain ⟨hnogap, hneed'⟩ := infoNeed_eq (show l1Need n < infoNeed n by omega)
    rw [hl2Tables, hl1Table, hl1End, hgap, if_neg hnogap,
      sub32_of_le (by omega) (by omega)] at hinfo
    omega
  · obtain ⟨hl1Table, hl1End⟩ := backwards_below hp (show 0x400 * n ≤ p by omega) hbelow
    have hrecords : sub32 (p - 0x400 * n) 0x900 > 76 * n := by
      rw [sub32_of_le (by omega) (by omega)]
      omega
    rw [sub32_of_le (show 0x400 * n ≤ p by omega) hlt, hl1Table, hl1End, if_pos hrecords] at hinfo
    omega

/-- An attempt that is neither: some table is laid out below address `0`. -/
theorem tryBackwards_of_wraps (hn : n < 2 ^ 16) (hend : start + size ≤ 2 ^ 32)
    (hpages : start + size < p + 0x10000 * n + 0x10000) (hpages' : p + 0x10000 * n ≤ 2 ^ 32)
    (hfits : ¬ Fits start p n) (hrefused : ¬ Refused start p n) (g : MmuGlobals) :
    (tryBackwards start size g n).1 = true ∧
      ¬ LayoutOk start size (tryBackwards start size g n).2 := by
  have hneed := le_l1Need n
  have hneed' := l1Need_lt n
  rw [Fits, Nat.not_le] at hfits
  obtain ⟨l2, hl2Tables⟩ : ∃ l2, sub32 p (0x400 * n) = l2 := exists_eq'
  obtain ⟨l1, hl1Table⟩ : ∃ l1, roundDown (sub32 l2 0x4900) 0x4000 = l1 := exists_eq'
  obtain ⟨info, hinfo⟩ : ∃ info, (if sub32 l2 ((l1 + 0x4900) % 2 ^ 32) > 76 * n then
      (l1 + 0x4900) % 2 ^ 32 else sub32 l1 (76 * n)) = info := exists_eq'
  obtain ⟨hmet, -, heq⟩ := tryBackwards_spec hphys hstart hl2Tables hl1Table hinfo g
  -- It is enough that the tests are met, and that the layout is wrong.
  suffices h : (start ≤ l2 ∧ start ≤ l1 ∧ start ≤ info) ∧
      ¬ LayoutOk start size ⟨l1, n, info, n, p, l2⟩ by
    rw [heq (hmet.2 h.1)]
    exact ⟨hmet.2 h.1, h.2⟩
  by_cases hl2 : p < 0x400 * n
  · -- The L2 tables are below address `0`.
    have hl2eq : l2 + 0x400 * n = 2 ^ 32 + p := by
      rw [← hl2Tables, sub32_of_lt hl2 (by omega)]
      omega
    have hl1le : 2 ^ 31 ≤ l1 ∧ l1 + 0x4900 < 2 ^ 32 := by
      rw [← hl1Table, sub32_of_le (by omega) (by omega), roundDown]
      omega
    rw [sub32_of_le (show 76 * n ≤ l1 by omega) (by omega)] at hinfo
    refine ⟨⟨by omega, by omega, by split_ifs at hinfo <;> omega⟩, fun hok => ?_⟩
    have hinside := (hok.inside ⟨l2, 0x400 * n⟩ (by simp [MmuGlobals.blocks])).2
    simp only at hinside
    omega
  have hroom : start + 0x400 * n ≤ p := by
    by_contra hroom
    exact hrefused (.inl ⟨by omega, by omega⟩)
  by_cases hl1 : p < l1Need n
  · -- The L1 table is below address `0`.
    have hmod := l1Need_mod n
    have hl2eq : l2 + 0x400 * n = p := by
      rw [← hl2Tables, sub32_of_le (by omega) hlt]
      omega
    have hl1eq : l1 + l1Need n = 2 ^ 32 + p := by
      rw [← hl1Table, sub32_of_lt (by omega) (by omega), roundDown]
      omega
    rw [sub32_of_le (show 76 * n ≤ l1 by omega) (by omega)] at hinfo
    refine ⟨⟨by omega, by omega, ?_⟩, fun hok => ?_⟩
    · by_cases hlow : p + 0x4000 = l1Need n
      · have hl1End : (l1 + 0x4900) % 2 ^ 32 = 0x900 := by omega
        rw [sub32_of_le (by omega) (by omega)] at hinfo
        split_ifs at hinfo with hgap
        · by_contra hstart'
          exact hrefused (.inr (.inr (.inr ⟨hroom, hlow, by omega, by omega⟩)))
        · omega
      · split_ifs at hinfo <;> omega
    · have hinside := (hok.inside ⟨l1, 0x4900⟩ (by simp [MmuGlobals.blocks])).2
      simp only at hinside
      omega
  · -- The records are below address `0`.
    have hl1' : start + l1Need n ≤ p := by
      by_contra hl1'
      exact hrefused (.inr (.inl ⟨hroom, by omega, by omega⟩))
    have hbelow : p < infoNeed n := by
      by_contra hbelow
      exact hrefused (.inr (.inr (.inl ⟨hl1', hfits, by omega⟩)))
    obtain ⟨hl2eq, hl1eq, hl1End, hgap⟩ := backwards_addresses hp hlt (show l1Need n ≤ p by omega)
    obtain ⟨hnogap, hrecords⟩ := infoNeed_eq (show l1Need n < infoNeed n by omega)
    rw [hl2Tables] at hl2eq
    rw [← hl2eq, hl1Table] at hl1eq
    rw [← hl2eq, ← hl1eq] at hgap
    rw [← hl1eq] at hl1End
    rw [hl1End, hgap, if_neg hnogap, sub32_of_lt (by omega) (by omega)] at hinfo
    refine ⟨⟨by omega, by omega, by omega⟩, fun hok => ?_⟩
    have hinside := (hok.inside ⟨info, 76 * n⟩ (by simp [MmuGlobals.blocks])).2
    simp only at hinside
    omega

end

theorem Refused.not_fits {p n : ℕ} (h : Refused start p n) : ¬ Fits start p n := by
  have hneed := le_l1Need n
  have hl1 := l1Need_le_infoNeed n
  rw [Fits]
  rcases h with h | h | h | h <;> omega

/-- The last multiple of 64 KiB in a region. -/
def lastPage (start size : ℕ) : ℕ := (start + size) / 0x10000 * 0x10000

/-- Some number of pages up to `n` fits, and all larger ones are refused. -/
def FitsFrom (start size n : ℕ) : Prop :=
  ∃ k ≤ n, 0 < k ∧ Fits start (lastPage start size - 0x10000 * k) k ∧
    ∀ m ≤ n, k < m → Refused start (lastPage start size - 0x10000 * m) m

instance (start size n : ℕ) : Decidable (FitsFrom start size n) :=
  inferInstanceAs (Decidable (∃ k ≤ n, _))

theorem not_fitsFrom_zero : ¬ FitsFrom start size 0 := by
  rintro ⟨k, hk, hpos, -⟩
  omega

/-- The largest number of pages fits, or is refused and some smaller one fits. -/
theorem fitsFrom_succ {p n : ℕ} (hp : p + 0x10000 * n + 0x10000 = lastPage start size) :
    FitsFrom start size (n + 1) ↔
      Fits start p (n + 1) ∨ Refused start p (n + 1) ∧ FitsFrom start size n := by
  have heq : lastPage start size - 0x10000 * (n + 1) = p := by
    rw [← hp, Nat.mul_succ, Nat.add_assoc, Nat.add_sub_cancel]
  constructor
  · rintro ⟨k, hk, hpos, hfits, hrefused⟩
    rcases hk.lt_or_eq with hlt | rfl
    · refine .inr ⟨heq ▸ hrefused (n + 1) le_rfl hlt, k, by omega, hpos, hfits, fun m hm => ?_⟩
      exact hrefused m (by omega)
    · exact .inl (heq ▸ hfits)
  · rintro (hfits | ⟨htop, k, hk, hpos, hfits, hrefused⟩)
    · exact ⟨n + 1, le_rfl, by omega, heq ▸ hfits, fun m hm hlt => by omega⟩
    · refine ⟨k, by omega, hpos, hfits, fun m hm hlt => ?_⟩
      rcases hm.lt_or_eq with hm | rfl
      · exact hrefused m (by omega) hlt
      · exact heq ▸ htop

section

variable (hfill : fillForwards start size = false) (hend : start + size ≤ 2 ^ 32)

include hfill hend

omit hfill in
theorem sub32_alignedEnd {p : ℕ} (hpos : 0 < b) (hp : p + b = lastPage start size) :
    sub32 (alignedEnd start size) b = p := by
  rw [lastPage] at hp
  rw [alignedEnd, endAddr, roundDown]
  rcases hend.lt_or_eq with hlt | heq
  · rw [Nat.mod_eq_of_lt hlt, sub32_of_le (by omega) (by omega)]
    omega
  · rw [heq, Nat.mod_self, sub32_of_lt (by omega) (by omega)]
    omega

theorem tryPages_backwards {n p : ℕ} (hpos : 0 < n) (hp : p + 0x10000 * n = lastPage start size)
    (hstart : start ≤ p) (g : MmuGlobals) :
    (Fits start p n ∧ (tryPages start size g n).1 = true ∧
        LayoutOk start size (tryPages start size g n).2) ∨
      (Refused start p n ∧ (tryPages start size g n).1 = false) ∨
      (¬ Fits start p n ∧ ¬ Refused start p n ∧ (tryPages start size g n).1 = true ∧
        ¬ LayoutOk start size (tryPages start size g n).2) := by
  have hphys := sub32_alignedEnd hend (show 0 < 0x10000 * n by omega) hp
  have hunaligned : startAdjust start ≠ 0 := by
    intro hzero
    simp [fillForwards, hzero] at hfill
  rw [ne_eq, startAdjust_eq_zero_iff] at hunaligned
  rw [lastPage] at hp
  have hpaligned : p % 0x10000 = 0 := by omega
  rw [tryPages, hfill, if_neg Bool.false_ne_true]
  by_cases hfits : Fits start p n
  · refine .inl ⟨hfits, ?_⟩
    rw [tryBackwards_of_fits hphys hstart hpaligned (by omega) hfits]
    exact ⟨rfl, layoutOk_backwards hpaligned hpos (by omega) hfits⟩
  by_cases hrefused : Refused start p n
  · exact .inr (.inl ⟨hrefused,
      tryBackwards_of_refused hphys hstart hpaligned (by omega) hrefused g⟩)
  · exact .inr (.inr ⟨hfits, hrefused, tryBackwards_of_wraps hphys hstart hpaligned (by omega)
      (by omega) hend (by omega) (by omega) hfits hrefused g⟩)

/-- A single page that does not fit leaves the L1 table before the region. -/
theorem not_layoutOk_of_refused_one {p : ℕ} (hp : p + 0x10000 = lastPage start size)
    (hmin : start + 0x504C ≤ p) (hrefused : Refused start p 1) (g : MmuGlobals) :
    ¬ LayoutOk start size (tryPages start size g 1).2 := by
  have hphys := sub32_alignedEnd hend (show 0 < 0x10000 * 1 by decide) hp
  have hneed : l1Need 1 = 0x8000 := rfl
  have hneed' : infoNeed 1 = 0x8000 := rfl
  have hpaligned : p % 0x10000 = 0 := by
    rw [lastPage] at hp
    omega
  have hlt : p < 2 ^ 32 := by
    rw [lastPage] at hp
    omega
  have hl1 : p < start + 0x8000 := by
    rw [Refused, hneed, hneed'] at hrefused
    omega
  obtain ⟨hl2, hl1Table, -, -⟩ := backwards_addresses (n := 1) hpaligned hlt (by omega)
  have hleft := (tryBackwards_spec hphys (by omega) hl2 hl1Table rfl g).2.1 (by omega)
  rw [tryPages, hfill, if_neg Bool.false_ne_true]
  intro hok
  have hinside := (hok.inside ⟨_, 0x4900⟩ (mem_cons_of_mem _ mem_cons_self)).1
  rw [hleft] at hinside
  simp only at hinside
  omega

/-- One attempt of the loop, if what comes after it is known. -/
theorem layoutOk_fitPages_succ {n p : ℕ} (hp : p + 0x10000 * n + 0x10000 = lastPage start size)
    (hstart : start ≤ p) (g : MmuGlobals) (hrest : Refused start p (n + 1) →
      (LayoutOk start size (fitPages start size (tryPages start size g (n + 1)).2 n) ↔
        FitsFrom start size n)) :
    LayoutOk start size (fitPages start size g (n + 1)) ↔ FitsFrom start size (n + 1) := by
  have hp' : p + 0x10000 * (n + 1) = lastPage start size := by rwa [Nat.mul_succ, ← Nat.add_assoc]
  rw [fitPages_succ, fitsFrom_succ hp]
  rcases tryPages_backwards hfill hend (Nat.succ_pos n) hp' hstart g with
    ⟨hfits, hmet, hok⟩ | ⟨hrefused, hmet⟩ | ⟨hfits, hrefused, hmet, hok⟩
  · rw [hmet, if_pos rfl]
    exact iff_of_true hok (.inl hfits)
  · rw [hmet, if_neg Bool.false_ne_true, hrest hrefused, or_iff_right hrefused.not_fits,
      and_iff_right hrefused]
  · rw [hmet, if_pos rfl]
    exact iff_of_false hok fun h => h.elim hfits fun h => hrefused h.1

theorem layoutOk_fitPages_backwards {n : ℕ}
    (hn : start + 0x10000 * n + 0x10000 ≤ lastPage start size)
    (hmin : start + 0x1504C ≤ lastPage start size) (g : MmuGlobals) :
    LayoutOk start size (fitPages start size g (n + 1)) ↔ FitsFrom start size (n + 1) := by
  obtain ⟨p, hp⟩ : ∃ p, p + 0x10000 * n + 0x10000 = lastPage start size :=
    ⟨lastPage start size - (0x10000 * n + 0x10000), by omega⟩
  refine layoutOk_fitPages_succ hfill hend hp (by omega) g fun hrefused => ?_
  induction n generalizing g p with
  | zero =>
    exact iff_of_false (not_layoutOk_of_refused_one hfill hend hp (by omega) hrefused g)
      not_fitsFrom_zero
  | succ n ih =>
    rw [Nat.mul_succ] at hn hp
    exact layoutOk_fitPages_succ hfill hend (p := p + 0x10000) (by omega) (by omega) _
      (ih (by omega) _ _ (by omega))

end

/-! ### The whole computation -/

/-- The regions for which the layout is right: those that are filled forwards, by the number of
pages and the rest, and those that are filled backwards. -/
def SpaceOk (start size : ℕ) : Prop :=
  (startAdjust start ≤ (start + size) % 0x10000 ∧ (start + size = 2 ^ 32 ∨
    ForwardsOk ((start + size - (start + startAdjust start)) / 0x10000)
      ((start + size - (start + startAdjust start)) % 0x10000))) ∨
  ((start + size) % 0x10000 < startAdjust start ∧
    FitsFrom start size ((lastPage start size - start) / 0x10000))

instance (start size : ℕ) : Decidable (SpaceOk start size) :=
  inferInstanceAs (Decidable (_ ∨ _))

theorem fillForwards_iff : fillForwards start size = true ↔
    startAdjust start ≤ (start + size) % 0x10000 := by
  have hmod : endAdjust start size = (start + size) % 0x10000 := by
    rw [endAdjust, endAddr]
    omega
  simp [fillForwards, hmod]

/-- Filling forwards, up to the end of the address space: no attempt is accepted, and the last one
is right. -/
theorem layoutOk_of_end (hsize : size < 2 ^ 32) (hend : start + size = 2 ^ 32)
    (hfill : fillForwards start size = true) (hmin : minRequiredSpace ≤ size) (g : MmuGlobals) :
    LayoutOk start size (fitPages start size g (size / 0x10000)) := by
  have hzero : startAdjust start = 0 := by
    have hle := fillForwards_iff.1 hfill
    rw [hend] at hle
    omega
  have haligned := startAdjust_eq_zero_iff.1 hzero
  rw [minRequiredSpace_eq] at hmin
  have ha : alignedStart start = start := by
    rw [alignedStart, hzero]
    omega
  have he : endAddr start size = 0 := by rw [endAddr, hend, Nat.mod_self]
  obtain ⟨n, hn⟩ : ∃ n, size = 0x10000 * n + 0x10000 + 0x10000 := ⟨size / 0x10000 - 2, by omega⟩
  have hpages : size / 0x10000 = n + 1 + 1 := by omega
  -- The first attempt puts the L1 table at address `0`.
  have hfirst : (tryForwards start size g (n + 1 + 1)).1 = false := by
    have hl1 : (start + 0x10000 * (n + 1 + 1)) % 2 ^ 32 = 0 := by
      rw [Nat.mul_succ, Nat.mul_succ, ← hn, hend, Nat.mod_self]
    have hl2 : roundUp ((0 + 0x4900) % 2 ^ 32) 0x400 = 0x4C00 := rfl
    have hpast : ¬ (0x4C00 + 4 * (n + 1 + 1)) % 2 ^ 32 ≤ 0 := by omega
    simp only [tryForwards, ha, he, hl1, hl2, decide_eq_false hpast, Bool.and_false]
  rw [hpages, fitPages_succ, tryPages, if_pos hfill, hfirst, if_neg Bool.false_ne_true,
    fitPages_of_endAddr_zero hfill ha haligned he _ (by omega),
    layoutOk_forwards_small le_rfl haligned (by decide) (by decide)]
  omega

theorem calcMmuGlobals_of_ok (g : MmuGlobals) (hok : (calcMmuGlobals start size g).1 = 0) :
    minRequiredSpace ≤ size ∧ minRequiredSpace ≤ alignedSpace start size ∧
      (calcMmuGlobals start size g).2 =
        fitPages start size { g with l2Tables := 0 } (alignedSpace start size / 0x10000) := by
  rw [calcMmuGlobals] at hok ⊢
  split_ifs at hok ⊢ with hmin hspace
  · simp at hok
  · simp at hok
  · refine ⟨Nat.le_of_not_lt hmin, Nat.le_of_not_lt hspace, ?_⟩
    dsimp only
    split_ifs <;> rfl

/-- **The layout of the tables.** For every region that does not run over the end of the address
space, if `calc_mmu_globals` returns `0`, then its layout is right if and only if the region is one
of those of `SpaceOk`. -/
theorem calcMmuGlobals_layout_iff (hsize : size < 2 ^ 32) (hend : start + size ≤ 2 ^ 32)
    (g : MmuGlobals) (hok : (calcMmuGlobals start size g).1 = 0) :
    LayoutOk start size (calcMmuGlobals start size g).2 ↔ SpaceOk start size := by
  have hadjust := startAdjust_lt start
  obtain ⟨hmin, hspace, hresult⟩ := calcMmuGlobals_of_ok g hok
  rw [hresult]
  clear hok hresult
  generalize ({ g with l2Tables := 0 } : MmuGlobals) = g
  rw [SpaceOk, ← fillForwards_iff]
  cases hfill : fillForwards start size with
  | true =>
    have hnot : ¬ (start + size) % 0x10000 < startAdjust start :=
      Nat.not_lt.2 (fillForwards_iff.1 hfill)
    have hsub : sub32 (endAddr start size) start = size := by
      rw [endAddr, sub32]
      omega
    have heq : alignedSpace start size = size - startAdjust start := by
      rw [minRequiredSpace_eq] at hmin
      rw [alignedSpace, if_pos hfill, hsub, sub32_of_le (by omega) hsize]
    rw [or_iff_left fun h => hnot h.1, eq_self_iff_true, true_and]
    rcases hend.lt_or_eq with hlt | hlast
    · have ha : alignedStart start = start + startAdjust start := by
        rw [minRequiredSpace_eq] at hmin
        rw [alignedStart, Nat.mod_eq_of_lt (by omega)]
      have hdiff : start + size - (start + startAdjust start) = size - startAdjust start := by omega
      have hforwards := layoutOk_fitPages_forwards (e := start + size) hfill ha
        (startAdjust_aligned start) (Nat.mod_eq_of_lt hlt) hlt rfl (by omega)
        (by rw [hdiff, ← heq]; exact hspace) g
      rw [or_iff_right (Nat.ne_of_lt hlt), heq]
      rwa [hdiff] at hforwards ⊢
    · have hzero : startAdjust start = 0 := by
        have hle := fillForwards_iff.1 hfill
        rw [hlast] at hle
        omega
      rw [heq, hzero, Nat.sub_zero]
      exact iff_of_true (layoutOk_of_end hsize hlast hfill hmin g) (.inl hlast)
  | false =>
    have hback : (start + size) % 0x10000 < startAdjust start := by
      rw [← Nat.not_le, ← fillForwards_iff, hfill]
      exact Bool.false_ne_true
    have hpos : 0 < start := by
      rw [Nat.pos_iff_ne_zero]
      rintro rfl
      exact absurd hback (by rw [startAdjust_eq_zero_iff.2 rfl]; omega)
    have hlast : start ≤ lastPage start size := by
      rw [minRequiredSpace_eq] at hmin
      rw [lastPage]
      omega
    have heq : alignedSpace start size = lastPage start size - start := by
      rw [alignedSpace, hfill, if_neg Bool.false_ne_true,
        sub32_alignedEnd hend hpos (Nat.sub_add_cancel hlast)]
    rw [or_iff_right (by simp), and_iff_right hback, heq]
    rw [heq, minRequiredSpace_eq] at hspace
    obtain ⟨n, hn⟩ : ∃ n, (lastPage start size - start) / 0x10000 = n + 1 :=
      ⟨(lastPage start size - start) / 0x10000 - 1, by omega⟩
    rw [hn]
    exact layoutOk_fitPages_backwards hfill hend (by omega) (by omega) g

/-- A region with two pages and just enough room behind them. -/
theorem calcMmuGlobals_layout_two :
    LayoutOk 0x100000 0x25400 (calcMmuGlobals 0x100000 0x25400 ⟨0, 0, 0, 0, 0, 0⟩).2 :=
  (calcMmuGlobals_layout_iff (by decide) (by decide) ⟨0, 0, 0, 0, 0, 0⟩ (by decide +kernel)).2
    (by decide +kernel)

/-- A region with two pages and less room behind them: `0` is returned, and the L2 tables run over
its end. -/
theorem calcMmuGlobals_layout_wrong :
    let r := calcMmuGlobals 0x100000 0x24C10 ⟨0, 0, 0, 0, 0, 0⟩
    r.1 = 0 ∧ r.2.l2Tables + 0x400 * r.2.maxL2Tables = 0x125400 ∧
      ¬ LayoutOk 0x100000 0x24C10 r.2 := by
  decide +kernel

end MagicLantern.Mmu
