import Mathlib.Data.List.Basic

/-!
# Order by priority

Elements are ordered by decreasing priority `key`, and elements with the same priority by
the time when they came. A new element is put behind all elements with at least its priority.
-/

namespace StableOrder

open List

variable {α : Type*} (key : α → ℕ)

/-- An element is put behind all elements with at least its priority. -/
def insertBehind (x : α) : List α → List α
  | [] => [x]
  | a :: l => if key a < key x then x :: a :: l else a :: insertBehind x l

/-- The elements of `live`, by priority, and in the order of `live` for the same priority. -/
structure OrderOf (l live : List α) : Prop where
  perm : l.Perm live
  sorted : l.Pairwise fun a b => key b ≤ key a
  stable : ∀ k, l.filter (key · = k) = live.filter (key · = k)

variable {key} {x : α} {l live : List α}

theorem insertBehind_append {l₁ l₂ : List α} (h₁ : ∀ a ∈ l₁, key x ≤ key a)
    (h₂ : ∀ a ∈ l₂.head?, key a < key x) : insertBehind key x (l₁ ++ l₂) = l₁ ++ x :: l₂ := by
  induction l₁ with
  | nil =>
    cases l₂ with
    | nil => rfl
    | cons a l₂ => exact if_pos (h₂ a rfl)
  | cons a l₁ ih =>
    obtain ⟨ha, hl⟩ := forall_mem_cons.1 h₁
    rw [cons_append, insertBehind, if_neg (Nat.not_lt.2 ha), ih hl, cons_append]

theorem perm_insertBehind : (insertBehind key x l).Perm (x :: l) := by
  induction l with
  | nil => exact Perm.refl _
  | cons a l ih =>
    rw [insertBehind]
    split_ifs
    · exact Perm.refl _
    · exact (ih.cons a).trans (Perm.swap x a l)

theorem pairwise_insertBehind (h : l.Pairwise fun a b => key b ≤ key a) :
    (insertBehind key x l).Pairwise fun a b => key b ≤ key a := by
  induction l with
  | nil => exact pairwise_singleton _ _
  | cons a l ih =>
    obtain ⟨ha, hl⟩ := pairwise_cons.1 h
    rw [insertBehind]
    split_ifs with hlt
    · refine pairwise_cons.2 ⟨fun b hb => ?_, h⟩
      rcases mem_cons.1 hb with rfl | hb
      · exact Nat.le_of_lt hlt
      · exact Nat.le_trans (ha b hb) (Nat.le_of_lt hlt)
    · refine pairwise_cons.2 ⟨fun b hb => ?_, ih hl⟩
      rcases mem_cons.1 (perm_insertBehind.mem_iff.1 hb) with rfl | hb
      · exact Nat.le_of_not_lt hlt
      · exact ha b hb

theorem filter_insertBehind (h : l.Pairwise fun a b => key b ≤ key a) (k : ℕ) :
    (insertBehind key x l).filter (key · = k) =
      l.filter (key · = k) ++ [x].filter (key · = k) := by
  induction l with
  | nil => rfl
  | cons a l ih =>
    obtain ⟨ha, hl⟩ := pairwise_cons.1 h
    rw [insertBehind]
    split_ifs with hlt
    · by_cases hk : key x = k
      · -- no element behind it has its priority
        have hnil : (a :: l).filter (key · = k) = [] := by
          refine filter_eq_nil_iff.2 fun b hb => ?_
          have hle : key b ≤ key a := by
            rcases mem_cons.1 hb with rfl | hb
            · exact Nat.le_refl _
            · exact ha b hb
          simp only [decide_eq_true_eq]
          omega
        rw [filter_cons_of_pos (by simpa using hk), hnil]
        simp [hk]
      · simp [hk]
    · simp only [filter_cons, ih hl]
      split_ifs <;> rfl

theorem OrderOf.nil : OrderOf key ([] : List α) [] :=
  ⟨Perm.refl _, List.Pairwise.nil, fun _ => rfl⟩

/-- A new element comes. -/
theorem OrderOf.insert (h : OrderOf key l live) :
    OrderOf key (insertBehind key x l) (live ++ [x]) where
  perm := perm_insertBehind.trans ((h.perm.cons x).trans (perm_append_singleton x live).symm)
  sorted := pairwise_insertBehind h.sorted
  stable k := by rw [filter_insertBehind h.sorted, h.stable, filter_append]

/-- Some elements go. -/
theorem OrderOf.filter (h : OrderOf key l live) (p : α → Bool) :
    OrderOf key (l.filter p) (live.filter p) where
  perm := h.perm.filter p
  sorted := h.sorted.filter p
  stable k := by rw [filter_comm, h.stable, filter_comm]

end StableOrder
