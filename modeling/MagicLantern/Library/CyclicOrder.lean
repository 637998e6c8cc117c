import Mathlib.Order.Bounds.Basic

/-!
# Going around an ordered set

The elements of a set are visited in their order, and the last one is followed by the first one.
-/

namespace CyclicOrder

variable {α : Type*} [LinearOrder α] {s : Set α} {a b c : α}

/-- `b` is the next element after `a`. -/
def Next (s : Set α) (a b : α) : Prop :=
  IsLeast {x ∈ s | a < x} b ∨ (∀ x ∈ s, x ≤ a) ∧ IsLeast s b

/-- `b` is the element before `a`. -/
def Prev (s : Set α) (a b : α) : Prop :=
  IsGreatest {x ∈ s | x < a} b ∨ (∀ x ∈ s, a ≤ x) ∧ IsGreatest s b

theorem Next.unique (hb : Next s a b) (hc : Next s a c) : b = c := by
  rcases hb with hb | ⟨hle, hb⟩ <;> rcases hc with hc | ⟨hle', hc⟩
  · exact hb.unique hc
  · exact absurd hb.1.2 (hle' b hb.1.1).not_gt
  · exact absurd hc.1.2 (hle c hc.1.1).not_gt
  · exact hb.unique hc

theorem Prev.unique (hb : Prev s a b) (hc : Prev s a c) : b = c :=
  Next.unique (α := αᵒᵈ) hb hc

theorem Next.prev (h : Next s a b) (ha : a ∈ s) : Prev s b a := by
  rcases h with hb | ⟨hle, hb⟩
  · exact .inl ⟨⟨ha, hb.1.2⟩, fun x hx => not_lt.1 fun hlt => (hb.2 ⟨hx.1, hlt⟩).not_gt hx.2⟩
  · exact .inr ⟨fun x hx => hb.2 hx, ha, fun x hx => hle x hx⟩

theorem Prev.next (h : Prev s a b) (ha : a ∈ s) : Next s b a :=
  Next.prev (α := αᵒᵈ) h ha

theorem Next.mem (h : Next s a b) : b ∈ s := by
  rcases h with hb | ⟨-, hb⟩
  · exact hb.1.1
  · exact hb.1

theorem Prev.mem (h : Prev s a b) : b ∈ s :=
  Next.mem (α := αᵒᵈ) h

end CyclicOrder
