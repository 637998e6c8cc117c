import Mathlib.Data.List.Basic
import MagicLantern.Library.LinkedList

/-!
# Doubly linked lists

Nodes with pointers `next` and `prev`. A list is doubly linked if one comes from its first node over
`next` through all nodes, and from its last node over `prev` through all nodes in reverse order.
-/

namespace LinkedList

variable {ι : Type*} {next next' : ι → Option ι} {p q : Option ι} {a b : ι} {l l₁ l₂ : List ι}

/-- The nodes one meets from `p`, at most `fuel` of them. -/
def follow (next : ι → Option ι) : ℕ → Option ι → List ι
  | 0, _ => []
  | _ + 1, none => []
  | fuel + 1, some a => a :: follow next fuel (next a)

theorem Seg.follow_eq {fuel : ℕ} (h : Seg next p l none) (hfuel : l.length ≤ fuel) :
    follow next fuel p = l := by
  induction l generalizing p fuel with
  | nil =>
    obtain rfl := h
    cases fuel <;> rfl
  | cons a l ih =>
    obtain ⟨rfl, hl⟩ := h
    cases fuel with
    | zero => exact absurd hfuel (by simp)
    | succ fuel =>
      rw [follow, ih hl (Nat.le_of_succ_le_succ hfuel)]

end LinkedList

open List LinkedList

/-- The nodes `l`, of which `head` is the first, are linked in both directions. -/
structure DoublyLinked {ι : Type*} (next prev : ι → Option ι) (head : Option ι) (l : List ι) :
    Prop where
  forward : Seg next head l none
  backward : Seg prev l.getLast? l.reverse none

namespace DoublyLinked

variable {ι : Type*} {next next' prev prev' : ι → Option ι} {head : Option ι} {a b : ι}
  {l l₁ l₂ : List ι}

theorem nil : DoublyLinked next prev none [] :=
  ⟨rfl, rfl⟩

section

variable (h : DoublyLinked next prev head l)
include h

theorem nodup : l.Nodup :=
  h.forward.nodup

theorem head_eq : head = l.head? :=
  h.forward.head_eq

/-- Only the pointers of its nodes matter for a list. -/
theorem congr (hnext : ∀ a ∈ l, next' a = next a) (hprev : ∀ a ∈ l, prev' a = prev a) :
    DoublyLinked next' prev' head l :=
  ⟨h.forward.congr hnext, h.backward.congr fun a ha => hprev a (mem_reverse.1 ha)⟩

end

section

variable (h : DoublyLinked next prev head (l₁ ++ b :: l₂))
include h

theorem next_eq : next b = l₂.head? :=
  h.forward.tail.2.head_eq

theorem backward_eq : Seg prev (l₁ ++ b :: l₂).getLast? (l₂.reverse ++ b :: l₁.reverse) none := by
  have hback := h.backward
  rwa [reverse_append, reverse_cons, append_assoc] at hback

/-- What is behind a node, in reverse order. -/
theorem seg_prev : Seg prev (prev b) l₁.reverse none :=
  h.backward_eq.tail.2

theorem prev_eq : prev b = l₁.getLast? := by
  rw [h.seg_prev.head_eq, head?_reverse]

end

/-- A node is put at the end of a list. -/
theorem append (h : DoublyLinked next prev head l) (hb : b ∉ l) (hnext : next' b = none)
    (hprev : prev' b = l.getLast?) (hlast : ∀ a ∈ l.getLast?, next' a = some b)
    (hrest : ∀ a, a ∉ l.getLast? → a ≠ b → next' a = next a) (hback : ∀ a ≠ b, prev' a = prev a) :
    DoublyLinked next' prev' (head.or (some b)) (l ++ [b]) := by
  have hforward : Seg next head (l ++ []) none := by rw [append_nil]; exact h.forward
  have hseg := hforward.insert (by rwa [append_nil]) hlast hnext hrest
  rw [hseg.head_eq, head?_append, ← h.head_eq] at hseg
  refine ⟨hseg, ?_⟩
  rw [reverse_append, getLast?_append]
  refine ⟨rfl, ?_⟩
  rw [hprev]
  exact h.backward.congr fun a ha => hback a (ne_of_mem_of_not_mem (mem_reverse.1 ha) hb)

/-- A node is taken out of a list. -/
theorem remove [DecidableEq ι] (h : DoublyLinked next prev head (l₁ ++ b :: l₂))
    (hlast : ∀ a ∈ prev b, next' a = next b) (hnext : ∀ c, c ∉ prev b → c ≠ b → next' c = next c)
    (hfirst : ∀ a ∈ next b, prev' a = prev b) (hprev : ∀ c, c ∉ next b → c ≠ b → prev' c = prev c) :
    DoublyLinked next' prev' (if head = some b then next b else head) (l₁ ++ l₂) := by
  have hhead : head = some b ↔ l₁.getLast? = none := by
    rw [h.head_eq]
    have hnodup := h.nodup
    cases l₁ <;> simp_all
  rw [h.prev_eq] at hlast hnext
  rw [h.next_eq, ← getLast?_reverse] at hfirst hprev
  constructor
  · simp only [hhead]
    exact h.forward.remove hlast hnext
  · have hseg := h.backward_eq.remove hfirst hprev
    rwa [hseg.head_eq, ← reverse_append, head?_reverse] at hseg

end DoublyLinked
