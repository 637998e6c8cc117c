import MagicLantern.Menus.Navigation

/-!
# The selected entry of a menu

The first entry that is added to a menu is selected, and `menu_entry_move` moves the selection to
another entry of the menu. When the selected entry is removed, no other one is selected in its
place. So exactly one entry of each menu is selected, as long as the selected entry is removed only
together with all other entries of its menu.

## Main results

* `run_selection_iff` — when one entry is selected.
* `run_selection_lost`.
-/

namespace MagicLantern.Menus

open List MenuTree LinkedList

/-! ### Moving the selection -/

variable {α : Type} {s : MenuTree α} {a : List (Added α)} {x : Added α} {menu : String}
  {fuel e n : ℕ} {view : View} {direction : ℤ}

/-- The selection is moved to another entry of the menu. -/
theorem OneSelected.move (h : Linked s a) (hone : OneSelected s a) {e' : ℕ}
    (he : e ∈ nodesOf a menu) (hselected : (s.entries e).selected = true)
    (he' : e' ∈ nodesOf a menu) :
    OneSelected (s.select e e') a := by
  intro m hm
  by_cases hmm : m = menu
  · subst hmm
    have hnodup := (h.lists m).nodup
    obtain ⟨n, hn, honly⟩ := (countP_eq_one_iff hnodup).1 (hone m hm)
    obtain rfl := (honly e he).1 hselected
    exact (countP_eq_one_iff hnodup).2 ⟨e', he', MenuTree.OnlySelected.select honly⟩
  · rw [← hone m hm]
    refine countP_congr fun n hn => ?_
    have hne (k : ℕ) (hk : k ∈ nodesOf a menu) : n ≠ k := by
      rintro rfl
      exact h.not_mem_nodesOf hk hmm hn
    change Function.update (Function.update (fun n => (s.entries n).selected) e false) e' true n =
      true ↔ _
    rw [Function.update_of_ne (hne e' he'), Function.update_of_ne (hne e he)]

/-! ### Removing entries -/

/-- What is left when several entries of a menu have been removed. The selection is not changed. -/
theorem exists_foldl_menuRemoveEntry [Zero α] {l : List ℕ} (h : Linked s a)
    (hl : ∀ e ∈ l, e ∈ nodesOf a menu) (hnodup : l.Nodup)
    (hown : Runs.Meets (removeStep fuel menu) (NotOwn menu) s l) :
    ∃ a', Linked (l.foldl (MenuTree.menuRemoveEntry fuel · menu ·) s) a' ∧ (∀ x ∈ a', x ∈ a) ∧
      a'.length ≤ a.length ∧ nodesOf a' menu = (nodesOf a menu).filter (fun n => !l.contains n) ∧
      (∀ m ≠ menu, nodesOf a' m = nodesOf a m ∨ nodesOf a' m = []) ∧
      ∀ n, ((l.foldl (MenuTree.menuRemoveEntry fuel · menu ·) s).entries n).selected =
        (s.entries n).selected := by
  induction l generalizing s a with
  | nil =>
    refine ⟨a, h, fun _ hx => hx, Nat.le.refl, ?_, fun m _ => .inl rfl, fun _ => rfl⟩
    exact (filter_eq_self.2 fun _ _ => rfl).symm
  | cons e l ih =>
    obtain ⟨hel, hrest⟩ := nodup_cons.1 hnodup
    obtain ⟨x, hx, rfl, rfl⟩ := mem_nodesOf.1 (hl e mem_cons_self)
    have hnodes := nodesOf_remaining_self (a := a) hown.1
    obtain ⟨a', hlinked, hsub, hlen, hself, hother, hselected⟩ := ih (h.menuRemoveEntry hx)
      (fun n hn => by
        rw [hnodes]
        refine mem_filter.2 ⟨hl n (mem_cons_of_mem _ hn), ?_⟩
        simpa using ne_of_mem_of_not_mem hn hel)
      hrest (hown.2 _ rfl)
    refine ⟨a', hlinked, fun y hy => (mem_remaining.1 (hsub y hy)).1, ?_, ?_, fun m hm => ?_,
      fun n => (hselected n).trans (fields_menuRemoveEntry h hx n).2⟩
    · exact Nat.le_trans hlen (Nat.le_trans (length_filter_le ..) (length_filter_le ..))
    · rw [hself, hnodes, filter_filter]
      refine filter_congr fun n _ => ?_
      rw [contains_cons, Bool.not_or, Bool.and_comm]
      rfl
    · rcases hother m hm with heq | heq
      · rw [heq]
        exact nodesOf_remaining_other h hx hm
      · exact .inr heq

/-! ### Sequences of calls -/

/-- Exactly one entry of each menu that is not empty is selected. -/
def MenuTree.UniqueSelection (s : MenuTree α) : Prop :=
  ∀ m, ∃ nodes, DoublyLinked (fun n => (s.entries n).next) (fun n => (s.entries n).prev)
    (s.menus m).children nodes ∧ (nodes ≠ [] → nodes.countP (fun n => (s.entries n).selected) = 1)

section Run

variable [Zero α] (fuel : ℕ) (childCount : ℕ → ℕ)

/-- The menus remain doubly linked lists: two entries that a call adds to the same menu under the
same name have no submenus, and no entry is removed from its own submenu. -/
def MenuOp.ListsKept (r : MenuRun α) : MenuOp → Prop
  | .add name newEntry count => AddGood fuel childCount r name newEntry count
  | .remove name oldEntry count =>
    Runs.Meets (removeStep fuel name) (NotOwn name) (r.tree.menuFindByName name 0)
      (removedNodes fuel r name oldEntry count)
  | _ => True

/-- The selected entry is removed only with all other entries of its menu. -/
def MenuOp.SelectionKept (r : MenuRun α) : MenuOp → Prop
  | .remove name oldEntry count =>
    (∃ e ∈ removedNodes fuel r name oldEntry count, (r.tree.entries e).selected = true) →
      ∀ e ∈ r.tree.forward fuel (r.tree.menus name).children,
        e ∈ removedNodes fuel r name oldEntry count
  | _ => True

instance (menu : String) (s : MenuTree α) (e : ℕ) : Decidable (NotOwn menu s e) :=
  inferInstanceAs (Decidable (_ → _))

instance (r : MenuRun α) : DecidablePred (MenuOp.ListsKept fuel childCount r) := by
  rintro ⟨⟩ <;> dsimp only [MenuOp.ListsKept] <;> infer_instance

instance (r : MenuRun α) : DecidablePred (MenuOp.SelectionKept fuel r) := by
  rintro ⟨⟩ <;> dsimp only [MenuOp.SelectionKept] <;> infer_instance

end Run

/-- The invariant: there is a record `a` of what is in the menus. -/
structure SelectionInv (fuel : ℕ) (r : MenuRun α) (a : List (Added α)) : Prop where
  linked : Linked r.tree a
  selected : OneSelected r.tree a
  ever : ∀ x ∈ a, x.node ∈ r.ever
  length_le : a.length ≤ r.ever.length
  ever_le : r.ever.length ≤ fuel

namespace SelectionInv

variable {r r' : MenuRun α} {childCount : ℕ → ℕ}

section

variable (h : SelectionInv fuel r a)

include h

theorem unique : r.tree.UniqueSelection :=
  fun m => ⟨nodesOf a m, h.linked.lists m, h.selected m⟩

theorem a_le : a.length ≤ fuel :=
  Nat.le_trans h.length_le h.ever_le

theorem length_nodesOf_le (menu : String) : (nodesOf a menu).length ≤ fuel :=
  Nat.le_trans Menus.length_nodesOf_le h.a_le

theorem isSome_menuEntryMove (view : View) (menu : String) (direction : ℤ) :
    (r.tree.menuEntryMove fuel view menu direction).isSome = true := by
  rcases exists_menuEntryMove (h.linked.lists menu) (h.length_nodesOf_le menu) view direction with
    heq | ⟨_, _, _, _, _, heq⟩ <;> rw [heq] <;> rfl

end

variable [Zero α] {op : MenuOp}

/-- What is left when `menu_remove` returns. -/
theorem exists_menuRemove (h : SelectionInv fuel r a) {name : String} {oldEntry count : ℕ}
    (hlists : MenuOp.ListsKept fuel childCount r (.remove name oldEntry count)) :
    ∃ a', Linked (r.tree.menuRemove fuel name oldEntry count) a' ∧ (∀ x ∈ a', x ∈ a) ∧
      a'.length ≤ a.length ∧ nodesOf a' name = (nodesOf a name).filter
        (fun n => !(removedNodes fuel r name oldEntry count).contains n) ∧
      (∀ m ≠ name, nodesOf a' m = nodesOf a m ∨ nodesOf a' m = []) ∧
      ∀ n, ((r.tree.menuRemove fuel name oldEntry count).entries n).selected =
        (r.tree.entries n).selected := by
  have hnodes : removedNodes fuel r name oldEntry count =
      (nodesOf a name).filter fun e => oldEntry ≤ e ∧ e < oldEntry + count := by
    rw [removedNodes, h.linked.forward_eq h.a_le]
  by_cases hzero : count = 0
  · subst hzero
    refine ⟨a, h.linked, fun _ hx => hx, Nat.le.refl, ?_, fun _ _ => .inl rfl, fun _ => rfl⟩
    rw [MenuRun.Inv.removedNodes_zero]
    exact (filter_eq_self.2 fun _ _ => rfl).symm
  · have hfound : Linked (r.tree.menuFindByName name 0) a := h.linked.of_sameLinks .menuFindByName
    rw [MenuOp.ListsKept, hnodes] at hlists
    rw [h.linked.menuRemove_eq h.a_le hzero hlists, hnodes]
    exact exists_foldl_menuRemoveEntry hfound (fun e he => mem_of_mem_filter he)
      ((h.linked.lists name).nodup.filter _) hlists

/-- **What one call keeps.** -/
theorem step (h : SelectionInv fuel r a) (hlists : op.ListsKept fuel childCount r)
    (hkept : op.SelectionKept fuel r) (hr : op.step fuel childCount r = some r') :
    ∃ a', SelectionInv fuel r' a' := by
  cases op with
  | find name icon =>
    cases hr
    exact ⟨a, h.linked.of_sameLinks .menuFindByName, h.selected.of_sameLinks .menuFindByName,
      h.ever, h.length_le, h.ever_le⟩
  | add name newEntry count =>
    rw [MenuOp.step] at hr
    split at hr
    · next hfresh =>
      cases hr
      have hext := extends_menuAdd h.linked h.ever h.length_le hfresh hlists
      have hlen := h.length_le
      refine ⟨_, hext.linked, hext.selected h.selected, fun x hx => ?_, ?_, hfresh.length_le⟩
      · rcases mem_append.1 hx with hx | hx
        · exact mem_append_left _ (h.ever x hx)
        · exact mem_append_right _ (mem_map_of_mem hx)
      · simp only [length_append, length_map]
        omega
    · exact absurd hr (by simp)
  | remove name oldEntry count =>
    cases hr
    obtain ⟨a', hlinked, hsub, hlen, hself, hother, hselected⟩ := h.exists_menuRemove hlists
    refine ⟨a', hlinked, fun m hm => ?_, fun x hx => h.ever x (hsub x hx),
      Nat.le_trans hlen h.length_le, h.ever_le⟩
    have hcount (l : List ℕ) : l.countP (fun n =>
        ((r.tree.menuRemove fuel name oldEntry count).entries n).selected) =
        l.countP fun n => (r.tree.entries n).selected :=
      countP_congr fun n _ => by rw [hselected]
    rw [hcount]
    by_cases hmn : m = name
    · subst hmn
      rw [hself] at hm ⊢
      -- the selected entry is still there, because another one is
      obtain ⟨n, hn⟩ := exists_mem_of_ne_nil _ hm
      obtain ⟨hn, hnot⟩ := mem_filter.1 hn
      rw [← h.selected m (ne_nil_of_mem hn), countP_filter]
      refine countP_congr fun k _ => ?_
      rw [Bool.and_eq_true]
      refine ⟨fun hk => hk.1, fun hk => ⟨hk, ?_⟩⟩
      by_contra hremoved
      rw [Bool.not_eq_true', Bool.not_eq_false, contains_iff_mem] at hremoved
      have hall := hkept ⟨k, hremoved, hk⟩ n (by rw [h.linked.forward_eq h.a_le]; exact hn)
      rw [Bool.not_eq_true', ← Bool.not_eq_true, contains_iff_mem] at hnot
      exact hnot hall
    · rcases hother m hmn with heq | heq
      · rw [heq] at hm ⊢
        exact h.selected m hm
      · exact absurd heq hm
  | move view menu direction =>
    obtain ⟨t, ht, rfl⟩ := Option.map_eq_some_iff.1 hr
    rcases exists_menuEntryMove (h.linked.lists menu) (h.length_nodesOf_le menu) view direction with
      heq | ⟨e, he, hsel, e', he', heq⟩
    · obtain rfl := Option.some.inj (heq.symm.trans ht)
      exact ⟨a, h⟩
    · obtain rfl := Option.some.inj (heq.symm.trans ht)
      exact ⟨a, h.linked.congr (fun _ => rfl) (fun _ => rfl) (fun _ => rfl) fun _ => rfl,
        h.selected.move h.linked he hsel he', h.ever, h.length_le, h.ever_le⟩

/-- If the selected entry is removed and another one is left, then none is selected. -/
theorem not_unique (h : SelectionInv fuel r a) (hlists : op.ListsKept fuel childCount r)
    (hkept : ¬ op.SelectionKept fuel r) (hr : op.step fuel childCount r = some r') :
    ¬ r'.tree.UniqueSelection := by
  cases op with
  | remove name oldEntry count =>
    cases hr
    obtain ⟨a', hlinked, -, -, hself, -, hselected⟩ := h.exists_menuRemove hlists
    simp only [MenuOp.SelectionKept, not_forall] at hkept
    obtain ⟨⟨e, he, hsel⟩, n, hn, hleft⟩ := hkept
    rw [h.linked.forward_eq h.a_le] at hn
    have hea : e ∈ nodesOf a name := by
      rw [← h.linked.forward_eq h.a_le]
      exact mem_of_mem_filter he
    have hna : n ∈ nodesOf a' name := by
      rw [hself]
      exact mem_filter.2 ⟨hn, by simpa using hleft⟩
    intro hunique
    obtain ⟨nodes, hlist, hone⟩ := hunique name
    obtain rfl := hlist.forward.unique (hlinked.lists name).forward
    have hone := hone (ne_nil_of_mem hna)
    -- the entry that was selected and the one that is selected now are two
    obtain ⟨k, hk, hksel⟩ := countP_pos_iff.1 (hone ▸ Nat.one_pos)
    rw [hselected] at hksel
    rw [hself] at hk
    obtain ⟨hk, hkleft⟩ := mem_filter.1 hk
    obtain ⟨j, -, honly⟩ := (countP_eq_one_iff (h.linked.lists name).nodup).1
      (h.selected name (ne_nil_of_mem hn))
    obtain rfl := ((honly k hk).1 hksel).trans ((honly e hea).1 hsel).symm
    simp [he] at hkleft
  | find | add | move => exact absurd trivial hkept

end SelectionInv

/-- **Exactly one entry of each menu is selected, and `menu_entry_move` returns**, in every state of
a sequence of calls whose menus remain doubly linked lists, exactly if the selected entry is removed
only with all other entries of its menu. -/
theorem run_selection_iff [Zero α] (fuel : ℕ) (childCount : ℕ → ℕ) (entries : ℕ → MenuEntry α)
    (ops : List MenuOp) (r : MenuRun α)
    (hrun : ops.foldlM (MenuOp.step fuel childCount) (.init entries) = some r)
    (hlists : Runs.Meets (MenuOp.step fuel childCount) (MenuOp.ListsKept fuel childCount)
      (.init entries) ops) :
    Runs.Always (MenuOp.step fuel childCount) (fun r => r.tree.UniqueSelection ∧
        ∀ view menu direction, (r.tree.menuEntryMove fuel view menu direction).isSome = true)
      (.init entries) ops ↔
    Runs.Meets (MenuOp.step fuel childCount) (MenuOp.SelectionKept fuel) (.init entries) ops :=
  Runs.always_iff_meets_of_meets (J := fun r => ∃ a, SelectionInv fuel r a)
    (fun _ ⟨_, h⟩ => ⟨h.unique, h.isSome_menuEntryMove⟩)
    (fun _ _ _ ⟨_, h⟩ hQ hP hs => h.step hQ hP hs)
    (fun _ _ _ ⟨_, h⟩ hQ hP hs hI => h.not_unique hQ hP hs hI.1) hlists hrun
    ⟨[], ⟨fun _ => .nil, nodup_nil, nofun⟩, fun _ hm => absurd rfl hm, nofun, Nat.le.refl,
      Nat.zero_le fuel⟩

/-- Two entries are added, the second one is selected, and the first one is removed. -/
theorem run_selection_moved :
    let ops : List MenuOp := [.add "Expo" 20 2, .move fullView "Expo" 1, .remove "Expo" 20 1]
    (∃ r, ops.foldlM (MenuOp.step 4 someCounts) (.init someEntries) = some r ∧
      (r.tree.entries 21).selected = true) ∧
    Runs.Meets (MenuOp.step 4 someCounts) (MenuOp.SelectionKept 4) (.init someEntries) ops ∧
    Runs.Always (MenuOp.step 4 someCounts) (fun r => r.tree.UniqueSelection ∧
        ∀ view menu direction, (r.tree.menuEntryMove 4 view menu direction).isSome = true)
      (.init someEntries) ops :=
  ⟨⟨_, rfl, by decide +kernel⟩, by decide +kernel,
    (run_selection_iff 4 someCounts someEntries _ _ rfl (by decide +kernel)).2 (by decide +kernel)⟩

/-- The selected entry is removed, and the other one is not selected. -/
theorem run_selection_lost :
    ∃ r, [MenuOp.add "Expo" 20 2, .remove "Expo" 20 1].foldlM (MenuOp.step 4 someCounts)
        (.init someEntries) = some r ∧
      (r.tree.menus "Expo").children = some 21 ∧ (r.tree.entries 21).next = none ∧
      (r.tree.entries 21).selected = false :=
  ⟨_, rfl, by decide +kernel, by decide +kernel, by decide +kernel⟩

end MagicLantern.Menus
