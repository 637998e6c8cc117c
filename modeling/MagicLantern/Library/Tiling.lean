import Mathlib.Tactic
import Mathlib.Order.Interval.Set.Disjoint
import Mathlib.Order.CompletePartialOrder

/-!
# Blocks of memory and tilings

A type of memory blocks is a type whose values have a start and a size (`Extent`). A list of
blocks is *separate* when no two blocks share a cell; it *tiles* an interval when each block
starts where the block before it ends. Re-partitioning a part of a separate list inside the cells
that the part covered leaves the list separate (`Separate.replace`), and any tiling is such a
re-partitioning of any other tiling of a larger interval.

A list of blocks falls into maximal parts that tile an interval. A sum over these intervals
(`sumBlocks`) does not change when a tiling in the list is replaced by another tiling of the same
interval.
-/

/-- Values that stand for a block of memory. -/
class Extent (σ : Type*) where
  /-- The first address of the block. -/
  start : σ → ℕ
  /-- The number of bytes of the block. -/
  size : σ → ℕ

namespace Tiling

open Extent

variable {σ : Type*} [Extent σ]

/-- The first address after the block. -/
def finish (s : σ) : ℕ := start s + size s

/-- The addresses of the block. -/
def cells (s : σ) : Set ℕ := Set.Ico (start s) (finish s)

/-- The addresses of the blocks of a list. -/
def covered (l : List σ) : Set ℕ := {x | ∃ s ∈ l, x ∈ cells s}

/-- No two blocks of the list share an address. -/
def Separate (l : List σ) : Prop := l.Pairwise fun s t => Disjoint (cells s) (cells t)

/-- The blocks of the list follow each other without gaps from `p` to `q`. -/
def Tiles : List σ → ℕ → ℕ → Prop
  | [], p, q => p = q
  | s :: l, p, q => start s = p ∧ Tiles l (finish s) q

variable {s : σ} {a b b' c l l' : List σ} {p q r : ℕ}

@[simp] theorem covered_nil : covered ([] : List σ) = ∅ := by
  simp [covered]

@[simp] theorem covered_cons : covered (s :: l) = cells s ∪ covered l := by
  ext x
  simp [covered]

@[simp] theorem covered_append : covered (a ++ b) = covered a ∪ covered b := by
  ext x
  simp [covered, or_and_right, exists_or]

@[simp] theorem tiles_nil : Tiles ([] : List σ) p q ↔ p = q := Iff.rfl

@[simp] theorem tiles_cons : Tiles (s :: l) p q ↔ start s = p ∧ Tiles l (finish s) q := Iff.rfl

theorem tiles_append : Tiles (a ++ b) p q ↔ ∃ r, Tiles a p r ∧ Tiles b r q := by
  induction a generalizing p with
  | nil => simp
  | cons s a ih => simp [ih, and_assoc]

theorem Tiles.le (h : Tiles l p q) : p ≤ q := by
  induction l generalizing p with
  | nil => exact h.le
  | cons s l ih =>
    obtain ⟨rfl, hl⟩ := h
    exact (Nat.le_add_right _ _).trans (ih hl)

theorem Tiles.le_mul_length (h : Tiles l p q) {m : ℕ} (hsize : ∀ x ∈ l, Extent.size x ≤ m) :
    q ≤ p + m * l.length := by
  induction l generalizing p with
  | nil =>
    obtain rfl : p = q := h
    simp
  | cons x l ih =>
    obtain ⟨hx, hl⟩ := List.forall_mem_cons.1 hsize
    obtain ⟨rfl, htiles⟩ := h
    have hle := ih htiles hl
    rw [finish] at hle
    rw [List.length_cons, Nat.mul_succ]
    omega

/-- A tiling covers its interval. -/
theorem Tiles.covered_eq (h : Tiles l p q) : covered l = Set.Ico p q := by
  induction l generalizing p with
  | nil => simp [tiles_nil.1 h]
  | cons s l ih =>
    obtain ⟨rfl, hl⟩ := h
    have hs : start s ≤ finish s := Nat.le_add_right _ _
    rw [covered_cons, ih hl, cells, Set.Ico_union_Ico_eq_Ico hs hl.le]

theorem separate_cons : Separate (s :: l) ↔ Disjoint (cells s) (covered l) ∧ Separate l := by
  rw [Separate, List.pairwise_cons]
  refine and_congr_left fun _ => ⟨fun h => ?_, fun h t ht => ?_⟩
  · rw [Set.disjoint_left]
    rintro x hx ⟨t, ht, hxt⟩
    exact Set.disjoint_left.1 (h t ht) hx hxt
  · refine h.mono_right fun x hx => ?_
    exact ⟨t, ht, hx⟩

theorem separate_append :
    Separate (a ++ b) ↔ Separate a ∧ Separate b ∧ Disjoint (covered a) (covered b) := by
  induction a with
  | nil => simp [Separate]
  | cons s a ih =>
    simp only [List.cons_append, separate_cons, covered_append, covered_cons,
      Set.disjoint_union_left, Set.disjoint_union_right]
    tauto

theorem covered_congr (h : l.map cells = l'.map cells) : covered l = covered l' := by
  have key (l : List σ) : covered l = {x | ∃ c ∈ l.map cells, x ∈ c} := by
    simp [covered]
  rw [key, key, h]

theorem separate_congr (h : l.map cells = l'.map cells) : Separate l ↔ Separate l' := by
  have key (l : List σ) : Separate l ↔ (l.map cells).Pairwise Disjoint := List.pairwise_map.symm
  rw [key, key, h]

/-- The blocks of a tiling are separate. -/
theorem Tiles.separate (h : Tiles l p q) : Separate l := by
  induction l generalizing p with
  | nil => exact List.Pairwise.nil
  | cons s l ih =>
    obtain ⟨rfl, hl⟩ := h
    rw [separate_cons, hl.covered_eq]
    exact ⟨Set.Ico_disjoint_Ico_same, ih hl⟩

/-- **Re-partitioning.** A part of a separate list may be replaced by any separate list within the
cells that it covered. -/
theorem Separate.replace (h : Separate (a ++ (b ++ c))) (hb : Separate b')
    (hsub : covered b' ⊆ covered b) : Separate (a ++ (b' ++ c)) := by
  rw [separate_append, separate_append, covered_append, Set.disjoint_union_right] at h ⊢
  obtain ⟨ha, ⟨-, hc, hbc⟩, hab, hac⟩ := h
  exact ⟨ha, ⟨hb, hc, hbc.mono_left hsub⟩, hab.mono_right hsub, hac⟩

theorem covered_replace (hsub : covered b' ⊆ covered b) :
    covered (a ++ (b' ++ c)) ⊆ covered (a ++ (b ++ c)) := by
  simp only [covered_append]
  exact Set.union_subset_union_right _ (Set.union_subset_union_left _ hsub)

/-! ### Sums over contiguous parts -/

/-- The sum of `g` over the lengths of the contiguous parts of a list, the first of which goes on
from the interval from `p` to `q`. -/
def sumBlocks (g : ℕ → ℕ) (p q : ℕ) : List σ → ℕ
  | [] => g (q - p)
  | s :: l =>
    if start s = q then sumBlocks g p (finish s) l
    else g (q - p) + sumBlocks g (start s) (finish s) l

variable {g : ℕ → ℕ} {p' q' : ℕ}

/-- A tiling only contributes its interval. -/
theorem sumBlocks_tiles (h : Tiles (s :: l) p q) :
    sumBlocks g p' q' (s :: (l ++ b)) =
      if p = q' then sumBlocks g p' q b else g (q' - p') + sumBlocks g p q b := by
  induction l generalizing s p p' q' with
  | nil =>
    obtain ⟨rfl, rfl⟩ := h
    rfl
  | cons t l ih =>
    obtain ⟨rfl, ht⟩ := h
    rw [sumBlocks, List.cons_append, ih ht, ih ht, if_pos rfl, if_pos rfl]

theorem sumBlocks_replace (h : Tiles b p q) (h' : Tiles b' p q) (hb : b ≠ []) (hb' : b' ≠ []) :
    sumBlocks g p' q' (a ++ (b' ++ c)) = sumBlocks g p' q' (a ++ (b ++ c)) := by
  induction a generalizing p' q' with
  | nil =>
    obtain ⟨s, l, rfl⟩ := List.exists_cons_of_ne_nil hb
    obtain ⟨s', l', rfl⟩ := List.exists_cons_of_ne_nil hb'
    simp only [List.nil_append, List.cons_append, sumBlocks_tiles h, sumBlocks_tiles h']
  | cons s a ih => simp only [List.cons_append, sumBlocks, ih]

end Tiling
