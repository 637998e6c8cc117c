import Mathlib.Order.Interval.Finset.Nat
import Mathlib.Tactic

/-!
# Disjoint blocks of memory

A block is an interval of addresses. In a list of disjoint blocks an address belongs to one block
only.
-/

/-- A block of memory. -/
structure Block where
  start : ℕ
  size : ℕ
  deriving DecidableEq

namespace Block

open Finset

/-- The address is in the block. -/
def Contains (b : Block) (p : ℕ) : Prop :=
  b.start ≤ p ∧ p < b.start + b.size

/-- One block is before the other, and both do not begin at one address. -/
def Disjoint (b c : Block) : Prop :=
  b.start ≠ c.start ∧ (b.start + b.size ≤ c.start ∨ c.start + c.size ≤ b.start)

instance (b c : Block) : Decidable (b.Disjoint c) :=
  inferInstanceAs (Decidable (_ ∧ _))

variable {b c : Block} {p : ℕ} {bs : List Block}

theorem Disjoint.symm (h : b.Disjoint c) : c.Disjoint b :=
  ⟨h.1.symm, h.2.symm⟩

instance : Std.Symm Disjoint :=
  ⟨fun _ _ h => h.symm⟩

theorem Disjoint.not_contains (h : b.Disjoint c) (hb : b.Contains p) : ¬ c.Contains p := by
  intro hc
  have := h.2
  have := hb.1
  have := hb.2
  have := hc.1
  have := hc.2
  omega

section

variable (h : bs.Pairwise Disjoint) (hb : b ∈ bs) (hc : c ∈ bs)

include h hb hc

/-- Two blocks are equal or disjoint. -/
theorem eq_or_disjoint :
    b = c ∨ b.Disjoint c := by
  by_cases hbc : b = c
  · exact .inl hbc
  · exact .inr (h.forall hb hc hbc)

/-- An address is in one block only. -/
theorem eq_of_contains (hpb : b.Contains p) (hpc : c.Contains p) : b = c :=
  (eq_or_disjoint h hb hc).resolve_right fun hd => hd.not_contains hpb hpc

/-- Blocks begin at different addresses. -/
theorem eq_of_start_eq (hstart : b.start = c.start) : b = c :=
  (eq_or_disjoint h hb hc).resolve_right fun hd => hd.1 hstart

end

/-- The addresses of some blocks. -/
def cover (bs : List Block) : Finset ℕ :=
  bs.foldr (fun b cells => Finset.Ico b.start (b.start + b.size) ∪ cells) ∅

theorem mem_cover : p ∈ cover bs ↔ ∃ b ∈ bs, b.Contains p := by
  induction bs with
  | nil => simp [cover]
  | cons b bs ih =>
    rw [cover, List.foldr_cons, ← cover, mem_union, ih, mem_Ico, List.exists_mem_cons_iff]
    rfl

theorem card_cover (h : bs.Pairwise Disjoint) : (cover bs).card = (bs.map Block.size).sum := by
  induction bs with
  | nil => rfl
  | cons b bs ih =>
    obtain ⟨hb, hbs⟩ := List.pairwise_cons.1 h
    rw [cover, List.foldr_cons, ← cover, card_union_of_disjoint, ih hbs, Nat.card_Ico,
      Nat.add_sub_cancel_left, List.map_cons, List.sum_cons]
    refine disjoint_left.2 fun p hp hcover => ?_
    obtain ⟨c, hc, hpc⟩ := mem_cover.1 hcover
    exact (hb c hc).not_contains (mem_Ico.1 hp) hpc

/-- Disjoint blocks in a memory of `n` bytes are not longer than the memory. -/
theorem sum_size_le {n : ℕ} (h : bs.Pairwise Disjoint) (hn : ∀ b ∈ bs, b.start + b.size ≤ n) :
    (bs.map Block.size).sum ≤ n := by
  have hsub : cover bs ⊆ Finset.range n := by
    intro p hp
    obtain ⟨b, hb, hpb⟩ := mem_cover.1 hp
    exact mem_range.2 (hpb.2.trans_le (hn b hb))
  calc
    (bs.map Block.size).sum = (cover bs).card := (card_cover h).symm
    _ ≤ (Finset.range n).card := card_le_card hsub
    _ = n := card_range n

end Block
