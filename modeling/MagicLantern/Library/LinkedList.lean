import Mathlib.Logic.Function.Basic

/-!
# Linked lists

Nodes of type `ι` with a pointer `next : ι → Option ι` to another node. `Seg next p l q` says that
one comes from `p` to `q` over the nodes `l`; with `q = none` these are all nodes of the list that
begins at `p`. A list is not changed if the pointers of other nodes are changed.
-/

namespace LinkedList

open List

variable {ι : Type*}

/-- One comes from `p` to `q` over the nodes `l`. -/
def Seg (next : ι → Option ι) : Option ι → List ι → Option ι → Prop
  | p, [], q => p = q
  | p, a :: l, q => p = some a ∧ Seg next (next a) l q

variable {next next' : ι → Option ι} {p q r : Option ι} {a b : ι} {l l₁ l₂ : List ι}

@[simp] theorem seg_nil : Seg next p [] q ↔ p = q := Iff.rfl

@[simp] theorem seg_cons : Seg next p (a :: l) q ↔ p = some a ∧ Seg next (next a) l q := Iff.rfl

theorem seg_append : Seg next p (l₁ ++ l₂) q ↔ ∃ r, Seg next p l₁ r ∧ Seg next r l₂ q := by
  induction l₁ generalizing p with
  | nil => simp
  | cons a l₁ ih => simp [ih, and_assoc]

theorem Seg.congr (h : Seg next p l q) (heq : ∀ a ∈ l, next' a = next a) : Seg next' p l q := by
  induction l generalizing p with
  | nil => exact h
  | cons a l ih =>
    obtain ⟨rfl, hl⟩ := h
    refine ⟨rfl, ?_⟩
    rw [heq a mem_cons_self]
    exact ih hl fun b hb => heq b (mem_cons_of_mem a hb)

/-- A list is determined by its beginning. -/
theorem Seg.unique (h₁ : Seg next p l₁ none) (h₂ : Seg next p l₂ none) : l₁ = l₂ := by
  induction l₁ generalizing p l₂ with
  | nil =>
    obtain rfl := h₁
    cases l₂ with
    | nil => rfl
    | cons b l₂ => exact absurd h₂.1 (by simp)
  | cons a l₁ ih =>
    obtain ⟨rfl, h₁⟩ := h₁
    cases l₂ with
    | nil => exact absurd h₂ (by simp)
    | cons b l₂ =>
      obtain ⟨heq, h₂⟩ := h₂
      cases heq
      rw [ih h₁ h₂]

/-- No node is twice in a list. -/
theorem Seg.nodup (h : Seg next p l none) : l.Nodup := by
  induction l generalizing p with
  | nil => exact nodup_nil
  | cons a l ih =>
    obtain ⟨rfl, hl⟩ := h
    refine nodup_cons.2 ⟨fun hmem => ?_, ih hl⟩
    -- the list behind the second occurrence would be the whole list
    obtain ⟨x, y, rfl⟩ := append_of_mem hmem
    obtain ⟨r, -, -, hy⟩ := seg_append.1 hl
    have hlen := congrArg length (hl.unique hy)
    rw [length_append, length_cons] at hlen
    omega

theorem Seg.head_eq (h : Seg next p l none) : p = l.head? := by
  cases l with
  | nil => exact h
  | cons a l => exact h.1

theorem Seg.tail (h : Seg next p (l₁ ++ l₂) none) : Seg next l₂.head? l₂ none := by
  obtain ⟨r, -, h₂⟩ := seg_append.1 h
  exact h₂.head_eq ▸ h₂

/-- What is behind the nodes `l₁` is exchanged: the pointer to it, in the last of these nodes or in
front of the list, is now `q`. -/
theorem Seg.splice (h : Seg next p (l₁ ++ l₂) none) (hlast : ∀ a ∈ l₁.getLast?, next' a = q)
    (hrest : ∀ a ∈ l₁, a ∉ l₁.getLast? → next' a = next a) (hl : Seg next' q l none) :
    Seg next' (if l₁.getLast? = none then q else p) (l₁ ++ l) none := by
  induction l₁ generalizing p with
  | nil => exact hl
  | cons a l₁ ih =>
    have ha : a ∉ l₁ := fun hmem =>
      (nodup_cons.1 h.nodup).1 (mem_append_left l₂ hmem)
    obtain ⟨rfl, h⟩ := h
    refine ⟨rfl, ?_⟩
    cases l₁ with
    | nil =>
      rw [hlast a rfl]
      exact hl
    | cons b l₁ =>
      have hne : a ∉ (a :: b :: l₁).getLast? := fun hmem => ha (mem_of_getLast? hmem)
      rw [hrest a mem_cons_self hne]
      exact ih h hlast fun c hc => hrest c (mem_cons_of_mem a hc)

/-- A node is put into a list. -/
theorem Seg.insert (h : Seg next p (l₁ ++ l₂) none) (hb : b ∉ l₁ ++ l₂)
    (hlast : ∀ a ∈ l₁.getLast?, next' a = some b) (hnext : next' b = l₂.head?)
    (hrest : ∀ a, a ∉ l₁.getLast? → a ≠ b → next' a = next a) :
    Seg next' (if l₁.getLast? = none then some b else p) (l₁ ++ b :: l₂) none := by
  have hne {c : ι} (hc : c ∈ l₁ ++ l₂) : c ≠ b := ne_of_mem_of_not_mem hc hb
  refine h.splice hlast (fun a ha hl => hrest a hl (hne (mem_append_left l₂ ha))) ⟨rfl, ?_⟩
  rw [hnext]
  refine h.tail.congr fun c hc => hrest c (fun hl => ?_) (hne (mem_append_right l₁ hc))
  exact (nodup_append.1 h.nodup).2.2 c (mem_of_getLast? hl) c hc rfl

/-- A node is taken out of a list. -/
theorem Seg.remove (h : Seg next p (l₁ ++ b :: l₂) none)
    (hlast : ∀ a ∈ l₁.getLast?, next' a = next b)
    (hrest : ∀ a, a ∉ l₁.getLast? → a ≠ b → next' a = next a) :
    Seg next' (if l₁.getLast? = none then next b else p) (l₁ ++ l₂) none := by
  obtain ⟨-, hnodup, hne⟩ := nodup_append.1 h.nodup
  refine h.splice hlast (fun a ha hl => hrest a hl (hne a ha b mem_cons_self)) ?_
  refine h.tail.2.congr fun c hc => hrest c (fun hl => ?_) ?_
  · exact hne c (mem_of_getLast? hl) c (mem_cons_of_mem b hc) rfl
  · exact ne_of_mem_of_not_mem hc (nodup_cons.1 hnodup).1

end LinkedList
