import MagicLantern.Menus.Adding

/-!
# Removing entries

`menu_remove_entry` takes one entry out of its menu, empties its submenu, and turns the next entry
before it that has the same name into a placeholder. `menu_remove` does this for all entries of an
array that are in the menu.
-/

namespace MagicLantern.Menus

open List MenuTree LinkedList

variable {α : Type} {s s' : MenuTree α} {a : List (Added α)} {x y : Added α} {menu : String}
  {fuel e n : ℕ}

/-! ### The links -/

namespace MenuTree

@[simp] theorem entries_unlinkHead : (s.unlinkHead menu e).entries = s.entries := by
  unfold unlinkHead
  split <;> rfl

theorem entries_modify_link (o : Option ℕ) (f : MenuEntry α → MenuEntry α) (n : ℕ) :
    (match o with
      | some p => s.modifyEntry p f
      | none => s).entries n = if o = some n then f (s.entries n) else s.entries n := by
  cases o with
  | none => rfl
  | some p =>
    rcases eq_or_ne n p with rfl | hn
    · simp [entries_modifyEntry_self]
    · simp [entries_modifyEntry_of_ne f hn, hn.symm]

theorem entries_unlinkPrev (n : ℕ) : (s.unlinkPrev e).entries n =
    { s.entries n with
      next := if (s.entries e).prev = some n then (s.entries e).next else (s.entries n).next } := by
  refine (entries_modify_link ..).trans ?_
  split_ifs <;> rfl

theorem entries_unlinkNext (n : ℕ) : (s.unlinkNext e).entries n =
    { s.entries n with
      prev := if (s.entries e).next = some n then (s.entries e).prev else (s.entries n).prev } := by
  refine (entries_modify_link ..).trans ?_
  split_ifs <;> rfl

theorem entries_unlink (hprev : (s.entries e).prev ≠ some e) (n : ℕ) :
    (s.unlink menu e).entries n =
      { s.entries n with
        next := if (s.entries e).prev = some n then (s.entries e).next else (s.entries n).next
        prev := if (s.entries e).next =
          some n then (s.entries e).prev else (s.entries n).prev } := by
  rw [unlink, entries_unlinkNext, entries_unlinkPrev, entries_unlinkPrev, entries_unlinkHead,
    if_neg hprev]

theorem menus_unlink : (s.unlink menu e).menus = (s.unlinkHead menu e).menus := by
  have hnext (t : MenuTree α) : (t.unlinkNext e).menus = t.menus := by
    unfold unlinkNext
    split <;> rfl
  have hprev (t : MenuTree α) : (t.unlinkPrev e).menus = t.menus := by
    unfold unlinkPrev
    split <;> rfl
  rw [unlink, hnext, hprev]

theorem children_unlink (m : String) : ((s.unlink menu e).menus m).children =
    if m = menu ∧ (s.menus m).children =
    some e then (s.entries e).next else (s.menus m).children := by
  rw [menus_unlink, unlinkHead]
  by_cases hm : m = menu
  · subst hm
    split
    · next h => rw [menus_modifyMenu_self, if_pos ⟨rfl, h⟩]
    · next h => rw [if_neg fun h' => h h'.2]
  · rw [if_neg (c := m = menu ∧ _) fun h => hm h.1]
    split
    · rw [menus_modifyMenu_of_ne _ hm]
    · rfl

theorem hasPlaceholders_unlink (m : String) :
    ((s.unlink menu e).menus m).hasPlaceholders = (s.menus m).hasPlaceholders := by
  rw [menus_unlink, unlinkHead]
  split
  · exact modifyMenu_field Menu.hasPlaceholders rfl m
  · rfl

end MenuTree

namespace Linked

variable (h : Linked s a) (hx : x ∈ a)

include h hx

theorem exists_nodesOf_eq : ∃ l₁ l₂, nodesOf a x.menu = l₁ ++ x.node :: l₂ ∧
    (s.entries x.node).prev = l₁.getLast? ∧ (s.entries x.node).next = l₂.head? ∧
    x.node ∉ l₁ ∧ x.node ∉ l₂ := by
  obtain ⟨l₁, l₂, heq⟩ := append_of_mem (Added.mem_nodesOf hx)
  have hlist := heq ▸ h.lists x.menu
  obtain ⟨-, hnodup, hdisj⟩ := nodup_append.1 hlist.nodup
  exact ⟨l₁, l₂, heq, hlist.prev_eq, hlist.next_eq, fun hmem => hdisj _ hmem _ mem_cons_self rfl,
    (nodup_cons.1 hnodup).1⟩

theorem prev_ne : (s.entries x.node).prev ≠ some x.node := by
  obtain ⟨l₁, l₂, -, hprev, -, hl₁, -⟩ := h.exists_nodesOf_eq hx
  rw [hprev]
  exact fun hlast => hl₁ (mem_of_getLast? hlast)

theorem next_ne : (s.entries x.node).next ≠ some x.node := by
  obtain ⟨l₁, l₂, -, -, hnext, -, hl₂⟩ := h.exists_nodesOf_eq hx
  rw [hnext]
  exact fun hhead => hl₂ (mem_of_mem_head? hhead)

/-- The entry that was taken out still points to its neighbours. -/
theorem entries_unlink_self : (s.unlink x.menu x.node).entries x.node = s.entries x.node := by
  rw [entries_unlink (h.prev_ne hx), if_neg (h.prev_ne hx), if_neg (h.next_ne hx)]

theorem unlink : Linked (s.unlink x.menu x.node) (a.filter (·.node != x.node)) where
  lists m := by
    have hnodes : nodesOf (a.filter (·.node != x.node)) m = (nodesOf a m).filter (· != x.node) := by
      rw [nodesOf, nodesOf, filter_map, filter_filter, filter_filter]
      congr 2
      funext y
      exact Bool.and_comm ..
    rw [hnodes, children_unlink]
    by_cases hm : m = x.menu
    · subst hm
      obtain ⟨l₁, l₂, heq, hprev, hnext, hl₁, hl₂⟩ := h.exists_nodesOf_eq hx
      have hself (l : List ℕ) (hl : x.node ∉ l) : l.filter (· != x.node) = l := by
        refine filter_eq_self.2 fun n hn => ?_
        simpa using ne_of_mem_of_not_mem hn hl
      rw [heq, filter_append, filter_cons_of_neg (by simp), hself l₁ hl₁, hself l₂ hl₂]
      have hlist := heq ▸ h.lists x.menu
      have hremove : DoublyLinked (fun n => ((s.unlink x.menu x.node).entries n).next)
          (fun n => ((s.unlink x.menu x.node).entries n).prev) _ (l₁ ++ l₂) := hlist.remove
        (fun n hn => by rw [entries_unlink (h.prev_ne hx)]; exact if_pos hn)
        (fun n hn _ => by rw [entries_unlink (h.prev_ne hx)]; exact if_neg hn)
        (fun n hn => by rw [entries_unlink (h.prev_ne hx)]; exact if_pos hn)
        (fun n hn _ => by rw [entries_unlink (h.prev_ne hx)]; exact if_neg hn)
      simpa using hremove
    · have hout : x.node ∉ nodesOf a m := h.not_mem_nodesOf (Added.mem_nodesOf hx) hm
      rw [if_neg fun h' => hm h'.1, filter_eq_self.2 fun n hn => by
        simpa using ne_of_mem_of_not_mem hn hout]
      -- The neighbours are in the menu of the entry.
      obtain ⟨l₁, l₂, heq, hprev, hnext, -⟩ := h.exists_nodesOf_eq hx
      have hother (n : ℕ) (hn : n ∈ nodesOf a m) : n ∉ l₁ ++ x.node :: l₂ :=
        fun hmem => h.not_mem_nodesOf (heq ▸ hmem) hm hn
      refine (h.lists m).congr (fun n hn => ?_) fun n hn => ?_
      · rw [entries_unlink (h.prev_ne hx)]
        refine if_neg fun hsome => hother n hn (mem_append_left _ ?_)
        exact mem_of_getLast? (hprev ▸ hsome)
      · rw [entries_unlink (h.prev_ne hx)]
        refine if_neg fun hsome => hother n hn (mem_append_right _ (mem_cons_of_mem _ ?_))
        exact mem_of_mem_head? (hnext ▸ hsome)
  nodup := h.nodup.sublist (filter_sublist.map _)
  names y hy := by
    rw [entries_unlink (h.prev_ne hx)]
    exact h.names y (mem_of_mem_filter hy)

end Linked

/-! ### The submenu and the placeholder -/

/-- What is left in the menus when an entry has been removed: its submenu is empty. -/
def remaining (s : MenuTree α) (a : List (Added α)) (e : ℕ) : List (Added α) :=
  (a.filter (·.node != e)).filter fun y =>
    !((s.entries e).children.isSome && y.menu == (s.entries e).name)

theorem mem_remaining : y ∈ remaining s a e ↔ y ∈ a ∧ y.node ≠ e ∧
    ((s.entries e).children.isSome = true → y.menu ≠ (s.entries e).name) := by
  rw [remaining, mem_filter, mem_filter, and_assoc]
  cases (s.entries e).children.isSome <;> simp

theorem entries_clearSubmenu : (s.clearSubmenu e).entries = s.entries := by
  unfold clearSubmenu
  split <;> rfl

theorem hasPlaceholders_clearSubmenu (m : String) :
    ((s.clearSubmenu e).menus m).hasPlaceholders = (s.menus m).hasPlaceholders := by
  unfold clearSubmenu
  split
  · rw [modifyMenu_field Menu.hasPlaceholders rfl]
    exact modifyMenu_field Menu.hasPlaceholders (by split <;> rfl) m
  · rfl

theorem Linked.clearSubmenu (h : Linked s a) (e : ℕ) : Linked (s.clearSubmenu e) (a.filter fun y =>
    !((s.entries e).children.isSome && y.menu == (s.entries e).name)) where
  lists m := by
    unfold MenuTree.clearSubmenu
    split
    · next hsome =>
      rw [hsome]
      by_cases hm : m = (s.entries e).name
      · have hnil : nodesOf (a.filter fun y => !(true && y.menu == (s.entries e).name)) m = [] := by
          rw [nodesOf, map_eq_nil_iff, filter_eq_nil_iff]
          simp [hm]
        rw [hnil, hm, menus_modifyMenu_self]
        exact .nil
      · have hsame : nodesOf (a.filter fun y => !(true && y.menu == (s.entries e).name)) m =
            nodesOf a m := by
          rw [nodesOf, filter_filter]
          refine congrArg (map _) (filter_congr fun y _ => ?_)
          by_cases hy : y.menu = m
          · simp [hy, hm]
          · simp [hy]
        rw [hsame, menus_modifyMenu_of_ne _ hm, menuFindByName, menus_modifyMenu_of_ne _ hm]
        exact h.lists m
    · next hsome =>
      simp only [hsome, Bool.false_and, Bool.not_false, filter_true]
      exact h.lists m
  nodup := h.nodup.sublist (filter_sublist.map _)
  names y hy := by
    rw [entries_clearSubmenu]
    exact h.names y (mem_of_mem_filter hy)

section Remove

variable [Zero α]

theorem Linked.menuRemoveEntry (h : Linked s a) (hx : x ∈ a) :
    Linked (s.menuRemoveEntry fuel x.menu x.node) (remaining s a x.node) := by
  have hclear := (h.unlink hx).clearSubmenu x.node
  rw [h.entries_unlink_self hx] at hclear
  exact hclear.of_sameLinks .restorePlaceholder

variable {b₁ b₂ : List (Added α)} {oldEntry count : ℕ}

/-- The entry that is turned into a placeholder: the last one before `x` that has the same name. -/
def restored (b₁ : List (Added α)) (x : Added α) : Option ℕ :=
  (named b₁ x.menu x.name).getLast?.map Added.node

omit [Zero α] in
theorem find?_restored (h : Linked s (b₁ ++ x :: b₂)) (hlen : (b₁ ++ x :: b₂).length ≤ fuel) :
    (((s.unlink x.menu x.node).backward fuel (s.entries x.node).prev).find? fun p =>
      ((s.unlink x.menu x.node).entries p).name == (s.entries x.node).name) = restored b₁ x := by
  have hx : x ∈ b₁ ++ x :: b₂ := by simp
  have hnodes : nodesOf (b₁ ++ x :: b₂) x.menu =
      nodesOf b₁ x.menu ++ x.node :: nodesOf b₂ x.menu := by
    rw [nodesOf_append]
    simp [nodesOf]
  have hlist := hnodes ▸ h.lists x.menu
  have hnext := hlist.next_eq
  obtain ⟨-, -, hdisj⟩ := nodup_append.1 hlist.nodup
  have hseg : Seg (fun n => ((s.unlink x.menu x.node).entries n).prev) (s.entries x.node).prev
      (nodesOf b₁ x.menu).reverse none := by
    refine hlist.seg_prev.congr fun n hn => ?_
    rw [entries_unlink (h.prev_ne hx)]
    refine if_neg fun heq => hdisj n (mem_reverse.1 hn) n ?_ rfl
    exact mem_cons_of_mem _ (mem_of_mem_head? (hnext ▸ heq))
  have hle : (nodesOf b₁ x.menu).reverse.length ≤ fuel := by
    rw [length_reverse]
    refine Nat.le_trans length_nodesOf_le (Nat.le_trans ?_ hlen)
    rw [length_append]
    exact Nat.le_add_right ..
  rw [backward, hseg.follow_eq hle, ← head?_filter, filter_reverse, head?_reverse, nodesOf,
    filter_map, filter_filter, getLast?_map, restored, named]
  congr 2
  refine filter_congr fun y hy => ?_
  rw [Function.comp_apply, entries_unlink (h.prev_ne hx), h.names x hx]
  have hname : (s.entries y.node).name = y.name := h.names y (mem_append_left _ hy)
  rw [hname, Bool.and_comm]

theorem entries_menuRemoveEntry (h : Linked s (b₁ ++ x :: b₂))
    (hlen : (b₁ ++ x :: b₂).length ≤ fuel)
    (n : ℕ) : (s.menuRemoveEntry fuel x.menu x.node).entries n =
      if restored b₁ x = some n then
        placeholderCopy ((s.unlink x.menu x.node).entries n) (menuPlaceholder (s.entries n).name)
      else (s.unlink x.menu x.node).entries n := by
  have hx : x ∈ b₁ ++ x :: b₂ := by simp
  have hfind := find?_restored h hlen
  have hentries : ((s.unlink x.menu x.node).clearSubmenu x.node).entries =
      (s.unlink x.menu x.node).entries := entries_clearSubmenu
  have hback (p : Option ℕ) : ((s.unlink x.menu x.node).clearSubmenu x.node).backward fuel p =
      (s.unlink x.menu x.node).backward fuel p := by
    rw [backward, backward, hentries]
  rw [MenuTree.menuRemoveEntry, MenuTree.restorePlaceholder, hentries, hback,
    h.entries_unlink_self hx, hfind]
  cases hrest : restored b₁ x with
  | none => rw [if_neg (by simp), hentries]
  | some p =>
    by_cases hn : n = p
    · subst hn
      rw [entries_modifyEntry_self, if_pos rfl, hentries, entries_unlink (h.prev_ne hx)]
    · rw [entries_modifyEntry_of_ne _ hn, if_neg fun h => hn (Option.some.inj h).symm, hentries]

/-- Links and selection of the entries when one has been removed. -/
theorem fields_menuRemoveEntry (h : Linked s a) (hx : x ∈ a) (n : ℕ) :
    ((s.menuRemoveEntry fuel x.menu x.node).entries n).next =
      (if (s.entries x.node).prev = some n then (s.entries x.node).next else (s.entries n).next) ∧
    ((s.menuRemoveEntry fuel x.menu x.node).entries n).selected = (s.entries n).selected := by
  have hsame : SameLinks ((s.unlink x.menu x.node).clearSubmenu x.node)
      (s.menuRemoveEntry fuel x.menu x.node) := .restorePlaceholder
  rw [hsame.next, hsame.selected, entries_clearSubmenu, entries_unlink (h.prev_ne hx)]
  exact ⟨rfl, rfl⟩

omit [Zero α] in
/-- What is left of the menu the entry was in, unless it is its submenu. -/
theorem nodesOf_remaining_self
    (hown : (s.entries x.node).children.isSome = true → (s.entries x.node).name ≠ x.menu) :
    nodesOf (remaining s a x.node) x.menu = (nodesOf a x.menu).filter (· != x.node) := by
  rw [nodesOf, nodesOf, filter_map, remaining, filter_filter, filter_filter,
    filter_filter]
  refine congrArg (map _) (filter_congr fun y _ => ?_)
  by_cases hy : y.menu = x.menu
  · by_cases hsome : (s.entries x.node).children.isSome = true
    · simp [hy, (hown hsome).symm]
    · simp [hy, hsome]
  · simp [beq_eq_false_iff_ne.2 hy]

omit [Zero α] in
/-- Any other menu is the same, or it is empty. -/
theorem nodesOf_remaining_other (h : Linked s a) (hx : x ∈ a) {m : String} (hm : m ≠ x.menu) :
    nodesOf (remaining s a x.node) m = nodesOf a m ∨ nodesOf (remaining s a x.node) m = [] := by
  by_cases hwiped : (s.entries x.node).children.isSome = true ∧ m = (s.entries x.node).name
  · right
    rw [nodesOf, map_eq_nil_iff]
    refine filter_eq_nil_iff.2 fun y hy => ?_
    simp [hwiped.2, (mem_remaining.1 hy).2.2 hwiped.1]
  · left
    rw [nodesOf, nodesOf, remaining, filter_filter, filter_filter]
    refine congrArg (map _) (filter_congr fun y hy => ?_)
    by_cases hym : y.menu = m
    · have hne : y.node ≠ x.node := by
        intro hnode
        obtain rfl := eq_of_node_eq h.nodup hy hx hnode
        exact hm hym.symm
      rw [hym]
      by_cases hsome : (s.entries x.node).children.isSome = true
      · simp [hne, beq_eq_false_iff_ne.2 fun heq => hwiped ⟨hsome, heq⟩]
      · simp [hne, hsome]
    · simp [beq_eq_false_iff_ne.2 hym]

omit [Zero α] in
theorem filter_append_cons {l₁ l₂ : List ℕ} (hnodup : (l₁ ++ e :: l₂).Nodup) :
    (l₁ ++ e :: l₂).filter (· != e) = l₁ ++ l₂ := by
  obtain ⟨-, hnodup₂, hdisj⟩ := nodup_append.1 hnodup
  have hself (l : List ℕ) (hl : e ∉ l) : l.filter (· != e) = l := by
    refine filter_eq_self.2 fun n hn => ?_
    simpa using ne_of_mem_of_not_mem hn hl
  rw [filter_append, filter_cons_of_neg (by simp),
    hself l₁ fun hmem => hdisj _ hmem _ mem_cons_self rfl,
    hself l₂ (nodup_cons.1 hnodup₂).1]

/-! ### The loop -/

/-- One entry after the other. -/
def removeStep (fuel : ℕ) (menu : String) (s : MenuTree α) (e : ℕ) : Option (MenuTree α) :=
  some (s.menuRemoveEntry fuel menu e)

/-- An entry is not in its own submenu. -/
def NotOwn (menu : String) (s : MenuTree α) (e : ℕ) : Prop :=
  (s.entries e).children.isSome = true → (s.entries e).name ≠ menu

theorem Linked.removeLoop_eq {kept rest : List ℕ} {steps removed : ℕ} (h : Linked s a)
    (hnodes : nodesOf a menu = kept ++ rest)
    (hown : Runs.Meets (removeStep fuel menu) (NotOwn menu) s
      (rest.filter fun e => oldEntry ≤ e ∧ e < oldEntry + count))
    (hcount : removed + (rest.filter fun e => oldEntry ≤ e ∧ e < oldEntry + count).length ≤ count)
    (hsteps : rest.length ≤ steps) :
    removeLoop fuel menu oldEntry count steps s removed rest.head? =
      (rest.filter fun e => oldEntry ≤ e ∧ e < oldEntry + count).foldl
        (MenuTree.menuRemoveEntry fuel · menu ·) s := by
  induction rest generalizing s a kept removed steps with
  | nil => cases steps <;> rfl
  | cons v rest ih =>
    obtain ⟨steps, rfl⟩ : ∃ k, steps = k + 1 := ⟨steps - 1, by simp at hsteps; omega⟩
    have hsteps' : rest.length ≤ steps := by simpa using hsteps
    have hmem : v ∈ nodesOf a menu := by simp [hnodes]
    obtain ⟨x, hx, rfl, rfl⟩ := mem_nodesOf.1 hmem
    have hnext : (s.entries x.node).next = rest.head? := (hnodes ▸ h.lists x.menu).next_eq
    rw [head?_cons, MenuTree.removeLoop]
    by_cases hv : oldEntry ≤ x.node ∧ x.node < oldEntry + count
    · rw [filter_cons_of_pos (by simpa using hv)] at hown hcount ⊢
      rw [length_cons] at hcount
      rw [if_pos (by omega), if_pos hv]
      have hkept : ((s.menuRemoveEntry fuel x.menu x.node).entries x.node).next = rest.head? := by
        rw [(fields_menuRemoveEntry h hx x.node).1, if_neg (h.prev_ne hx), hnext]
      dsimp only
      rw [hkept]
      have hnodup := (h.lists x.menu).nodup
      have hnodes' : nodesOf (remaining s a x.node) x.menu = kept ++ rest := by
        rw [hnodes] at hnodup
        rw [nodesOf_remaining_self hown.1, hnodes, filter_append_cons hnodup]
      exact ih (h.menuRemoveEntry hx) hnodes' (hown.2 _ rfl) (by omega) hsteps'
    · rw [filter_cons_of_neg (by simpa using hv)] at hown hcount ⊢
      rw [hnext]
      split
      · have hnodes' : nodesOf a x.menu = (kept ++ [x.node]) ++ rest := by
          rw [hnodes, append_assoc, singleton_append]
        exact ih h hnodes' hown hcount hsteps'
      · have hnil : rest.filter (fun e => oldEntry ≤ e ∧ e < oldEntry + count) = [] := by
          refine length_eq_zero_iff.1 ?_
          omega
        rw [hnil]
        rfl

omit [Zero α] in
theorem length_filter_le_count {l : List ℕ} (hl : l.Nodup) (oldEntry count : ℕ) :
    (l.filter fun e => oldEntry ≤ e ∧ e < oldEntry + count).length ≤ count := by
  have hsub : l.filter (fun e => oldEntry ≤ e ∧ e < oldEntry + count) ⊆ range' oldEntry count := by
    intro e he
    rw [mem_range'_1]
    simpa using (mem_filter.1 he).2
  simpa using (Nodup.subperm (hl.filter _) hsub).length_le

/-- **`menu_remove` removes the entries of the array one after the other.** -/
theorem Linked.menuRemove_eq (h : Linked s a) (hlen : a.length ≤ fuel) (hzero : count ≠ 0) (hown :
      Runs.Meets (removeStep fuel menu) (NotOwn menu) (s.menuFindByName menu 0)
        ((nodesOf a menu).filter
      fun e => oldEntry ≤ e ∧ e < oldEntry + count)) :
    s.menuRemove fuel menu oldEntry count =
      ((nodesOf a menu).filter fun e => oldEntry ≤ e ∧ e < oldEntry + count).foldl
        (MenuTree.menuRemoveEntry fuel · menu ·) (s.menuFindByName menu 0) := by
  have hfound : Linked (s.menuFindByName menu 0) a := h.of_sameLinks .menuFindByName
  have hcount := length_filter_le_count (h.lists menu).nodup oldEntry count
  rw [MenuTree.menuRemove, if_neg hzero]
  dsimp only
  rw [hfound.children_eq]
  exact hfound.removeLoop_eq (nil_append _).symm hown (by omega)
    (Nat.le_trans length_nodesOf_le hlen)

end Remove

end MagicLantern.Menus
