import MagicLantern.Menus.Tree

/-!
# The lists of the menus

Each menu is a doubly linked list of the entries that are recorded for it. This file says what one
entry that is put at the end of a menu, and what one entry that is taken out, does to these lists,
to the selected entries, to the pointers to the menus, and to what is shown in the place of the
placeholders.
-/

namespace MagicLantern.Menus

open Function List MenuTree

variable {α : Type} {s s' s'' : MenuTree α} {a : List (Added α)} {x y : Added α} {menu m : String}
  {fuel e p n : ℕ} {f : MenuEntry α → MenuEntry α}

/-! ### Entries and menus -/

namespace MenuTree

@[simp] theorem entries_modifyMenu (f : Menu → Menu) : (s.modifyMenu menu f).entries = s.entries :=
    rfl

@[simp] theorem menus_modifyEntry (f : MenuEntry α → MenuEntry α) :
    (s.modifyEntry e f).menus = s.menus := rfl

theorem entries_modifyEntry_self (f : MenuEntry α → MenuEntry α) :
    (s.modifyEntry e f).entries e = f (s.entries e) := update_self ..

theorem entries_modifyEntry_of_ne (f : MenuEntry α → MenuEntry α) (h : p ≠ e) :
    (s.modifyEntry e f).entries p = s.entries p := update_of_ne h ..

theorem menus_modifyMenu_self (f : Menu → Menu) :
    (s.modifyMenu menu f).menus menu = f (s.menus menu) := update_self ..

theorem menus_modifyMenu_of_ne (f : Menu → Menu) (h : m ≠ menu) :
    (s.modifyMenu menu f).menus m = s.menus m := update_of_ne h ..

variable {β : Type}

theorem modifyEntry_field (g : MenuEntry α → β) (h : g (f (s.entries e)) = g (s.entries e))
    (n : ℕ) : g ((s.modifyEntry e f).entries n) = g (s.entries n) := by
  by_cases hn : n = e
  · subst hn
    rw [entries_modifyEntry_self, h]
  · rw [entries_modifyEntry_of_ne f hn]

theorem modifyMenu_field (g : Menu → β) {f : Menu → Menu}
    (h : g (f (s.menus menu)) = g (s.menus menu))
    (m : String) : g ((s.modifyMenu menu f).menus m) = g (s.menus m) := by
  by_cases hm : m = menu
  · subst hm
    rw [menus_modifyMenu_self, h]
  · rw [menus_modifyMenu_of_ne f hm]

end MenuTree

/-- The links, the names and the selection are the same. -/
structure SameLinks (s s' : MenuTree α) : Prop where
  next (n : ℕ) : (s'.entries n).next = (s.entries n).next
  prev (n : ℕ) : (s'.entries n).prev = (s.entries n).prev
  name (n : ℕ) : (s'.entries n).name = (s.entries n).name
  selected (n : ℕ) : (s'.entries n).selected = (s.entries n).selected
  children (m : String) : (s'.menus m).children = (s.menus m).children

namespace SameLinks

theorem refl : SameLinks s s :=
  ⟨fun _ => rfl, fun _ => rfl, fun _ => rfl, fun _ => rfl, fun _ => rfl⟩

theorem trans (h : SameLinks s s') (h' : SameLinks s' s'') : SameLinks s s'' where
  next n := (h'.next n).trans (h.next n)
  prev n := (h'.prev n).trans (h.prev n)
  name n := (h'.name n).trans (h.name n)
  selected n := (h'.selected n).trans (h.selected n)
  children m := (h'.children m).trans (h.children m)

theorem modifyEntry (hnext : (f (s.entries e)).next = (s.entries e).next)
    (hprev : (f (s.entries e)).prev = (s.entries e).prev)
    (hname : (f (s.entries e)).name = (s.entries e).name) (hselected : (f (s.entries e)).selected =
      (s.entries e).selected) :
    SameLinks s (s.modifyEntry e f) where
  next := modifyEntry_field MenuEntry.next hnext
  prev := modifyEntry_field MenuEntry.prev hprev
  name := modifyEntry_field MenuEntry.name hname
  selected := modifyEntry_field MenuEntry.selected hselected
  children _ := rfl

theorem modifyMenu {f : Menu → Menu}
    (hchildren : (f (s.menus menu)).children = (s.menus menu).children) :
    SameLinks s (s.modifyMenu menu f) where
  next _ := rfl
  prev _ := rfl
  name _ := rfl
  selected _ := rfl
  children := modifyMenu_field Menu.children hchildren

theorem menuFindByName {name : String} {icon : ℤ} : SameLinks s (s.menuFindByName name icon) :=
  .modifyMenu (by split <;> rfl)

theorem menuUpdatePlaceholder {newEntry : ℕ} :
    SameLinks s (s.menuUpdatePlaceholder fuel menu newEntry) := by
  unfold MenuTree.menuUpdatePlaceholder
  split
  · exact .modifyMenu rfl
  · split
    · split
      · exact .trans (.modifyEntry rfl rfl rfl rfl) (.modifyEntry rfl rfl rfl rfl)
      · exact .refl
    · exact .refl

variable {entry : ℕ}

theorem raiseChild {child : ℕ} : SameLinks s (s.raiseChild entry child) :=
  .trans (.modifyEntry rfl rfl rfl rfl) (.modifyEntry rfl rfl rfl rfl)

theorem restorePlaceholder [Zero α] : SameLinks s (s.restorePlaceholder fuel entry) := by
  unfold MenuTree.restorePlaceholder
  split
  · exact .modifyEntry rfl rfl rfl rfl
  · exact .refl

end SameLinks

/-! ### What is recorded for a menu -/

theorem mem_nodesOf : n ∈ nodesOf a menu ↔ ∃ x ∈ a, x.menu = menu ∧ x.node = n := by
  simp [nodesOf, and_assoc]

theorem Added.mem_nodesOf (hx : x ∈ a) : x.node ∈ nodesOf a x.menu :=
  Menus.mem_nodesOf.2 ⟨x, hx, rfl, rfl⟩

theorem mem_node_of_mem_nodesOf (h : n ∈ nodesOf a menu) : n ∈ a.map Added.node := by
  obtain ⟨x, hx, -, rfl⟩ := mem_nodesOf.1 h
  exact mem_map_of_mem hx

theorem nodesOf_append (a b : List (Added α)) :
    nodesOf (a ++ b) menu = nodesOf a menu ++ nodesOf b menu := by
  rw [nodesOf, filter_append, map_append]
  rfl

theorem nodesOf_concat (h : x.menu = menu) :
    nodesOf (a ++ [x]) menu = nodesOf a menu ++ [x.node] := by
  simp [nodesOf, h]

theorem nodesOf_concat_of_ne (h : x.menu ≠ menu) : nodesOf (a ++ [x]) menu = nodesOf a menu := by
  simp [nodesOf, h]

theorem length_nodesOf_le : (nodesOf a menu).length ≤ a.length := by
  rw [nodesOf, length_map]
  exact length_filter_le ..

theorem eq_of_node_eq (hnodup : (a.map Added.node).Nodup) (hx : x ∈ a) (hy : y ∈ a)
    (h : x.node = y.node) : x = y :=
  inj_on_of_nodup_map hnodup hx hy h

/-- The menus are doubly linked lists of the entries that are recorded. -/
structure Linked (s : MenuTree α) (a : List (Added α)) : Prop where
  lists (m : String) : DoublyLinked (fun n => (s.entries n).next) (fun n => (s.entries n).prev)
    (s.menus m).children (nodesOf a m)
  nodup : (a.map Added.node).Nodup
  names : ∀ x ∈ a, (s.entries x.node).name = x.name

/-- Exactly one entry of each menu is selected. -/
def OneSelected (s : MenuTree α) (a : List (Added α)) : Prop :=
  ∀ m, nodesOf a m ≠ [] → (nodesOf a m).countP (fun n => (s.entries n).selected) = 1

/-- Each entry points to its menu. -/
def Parents (s : MenuTree α) (a : List (Added α)) : Prop :=
  ∀ x ∈ a, (s.entries x.node).parentMenu = some x.menu

namespace Linked

variable (h : Linked s a)

include h

theorem congr (hnext : ∀ n, (s'.entries n).next = (s.entries n).next)
    (hprev : ∀ n, (s'.entries n).prev = (s.entries n).prev)
    (hname : ∀ n, (s'.entries n).name = (s.entries n).name)
    (hchildren : ∀ m, (s'.menus m).children = (s.menus m).children) : Linked s' a where
  lists m := by
    rw [hchildren]
    exact (h.lists m).congr (fun n _ => hnext n) fun n _ => hprev n
  nodup := h.nodup
  names x hx := (hname x.node).trans (h.names x hx)

theorem of_sameLinks (hsame : SameLinks s s') : Linked s' a :=
  h.congr hsame.next hsame.prev hsame.name hsame.children

/-- The entries one meets from the first one of a menu. -/
theorem forward_eq (hlen : a.length ≤ fuel) (m : String) :
    s.forward fuel (s.menus m).children = nodesOf a m :=
  (h.lists m).forward.follow_eq (Nat.le_trans length_nodesOf_le hlen)

/-- The entries one meets from the one before `e` back to the first one of its menu. -/
theorem backward_eq {l₁ l₂ : List ℕ} (hlen : a.length ≤ fuel)
    (heq : nodesOf a menu = l₁ ++ e :: l₂) : s.backward fuel (s.entries e).prev = l₁.reverse := by
  have hseg := (heq ▸ h.lists menu).seg_prev
  refine hseg.follow_eq ?_
  have hle : (nodesOf a menu).length ≤ fuel := Nat.le_trans length_nodesOf_le hlen
  rw [heq, length_append] at hle
  rw [length_reverse]
  omega

theorem children_eq (m : String) : (s.menus m).children = (nodesOf a m).head? :=
  (h.lists m).head_eq

theorem not_mem_nodesOf (hn : n ∈ nodesOf a menu) (hm : m ≠ menu) : n ∉ nodesOf a m := by
  intro hn'
  obtain ⟨x, hx, hxm, hxn⟩ := mem_nodesOf.1 hn
  obtain ⟨y, hy, hym, hyn⟩ := mem_nodesOf.1 hn'
  obtain rfl := eq_of_node_eq h.nodup hx hy (hxn.trans hyn.symm)
  exact hm (hym.symm.trans hxm)

end Linked

theorem OneSelected.of_sameLinks (h : OneSelected s a) (hsame : SameLinks s s') :
    OneSelected s' a := by
  intro m hm
  rw [← h m hm]
  exact countP_congr fun n _ => by rw [hsame.selected]

/-! ### An entry is put at the end of a menu -/

section Append

variable (h : Linked s a) (hx : x.node ∉ a.map Added.node)

include hx

theorem not_mem_nodesOf_of_fresh (m : String) : x.node ∉ nodesOf a m :=
  fun hmem => hx (mem_node_of_mem_nodesOf hmem)

theorem nodup_concat (hnodup : (a.map Added.node).Nodup) : ((a ++ [x]).map Added.node).Nodup := by
  rw [map_append]
  refine hnodup.append (nodup_singleton _) ?_
  simpa using hx

end Append

/-- The entry `x` has been linked behind the last one of its menu, and nothing else has changed but
the pointer to it. -/
structure Appended (s : MenuTree α) (a : List (Added α)) (x : Added α) (t : MenuTree α) : Prop where
  linked : Linked t (a ++ [x])
  others : ∀ n ≠ x.node, t.entries n = { s.entries n with next := (t.entries n).next }
  frame : ∀ n ∉ (a ++ [x]).map Added.node, t.entries n = s.entries n
  placeholder : (t.entries x.node).placeholder = (s.entries x.node).placeholder
  content : (t.entries x.node).content = (s.entries x.node).content
  children : (t.entries x.node).children = (s.entries x.node).children
  parentMenu : (t.entries x.node).parentMenu = some x.menu
  selected : (t.entries x.node).selected = (nodesOf a x.menu).isEmpty
  hasPlaceholders : ∀ m, (t.menus m).hasPlaceholders = (s.menus m).hasPlaceholders

section Append

variable (h : Linked s a) (hx : x.node ∉ a.map Added.node)
  (hname : (s.entries x.node).name = x.name) (hnext : (s.entries x.node).next = none)

include h hx hname hnext

/-- The new entry points to the last one of its menu, which points to it, and the other entries are
the same. -/
theorem Appended.of_entries {t : MenuTree α}
    (hself : t.entries x.node =
      { s.entries x.node with
        parent := (t.entries x.node).parent
        dependsOn := (t.entries x.node).dependsOn
        worksBestIn := (t.entries x.node).worksBestIn
        parentMenu := some x.menu
        selected := (nodesOf a x.menu).isEmpty
        prev := (nodesOf a x.menu).getLast? })
    (hlast : ∀ n ∈ (nodesOf a x.menu).getLast?,
      t.entries n = { s.entries n with next := some x.node })
    (hother : ∀ n ≠ x.node, n ∉ (nodesOf a x.menu).getLast? → t.entries n = s.entries n)
    (hmenu : (t.menus x.menu).children = (s.menus x.menu).children.or (some x.node))
    (hmenus : ∀ m ≠ x.menu, (t.menus m).children = (s.menus m).children)
    (hflag : ∀ m, (t.menus m).hasPlaceholders = (s.menus m).hasPlaceholders) :
      Appended s a x t := by
  have hmem (n : ℕ) (hn : n ∈ (nodesOf a x.menu).getLast?) : n ∈ nodesOf a x.menu :=
    mem_of_getLast? hn
  have hothers (n : ℕ) (hn : n ≠ x.node) :
      t.entries n = { s.entries n with next := (t.entries n).next } := by
    by_cases hn' : n ∈ (nodesOf a x.menu).getLast?
    · rw [hlast n hn']
    · rw [hother n hn hn']
  have hnexts (n : ℕ) (hn : n ∉ (nodesOf a x.menu).getLast?) :
      (t.entries n).next = (s.entries n).next := by
    by_cases hn' : n = x.node
    · rw [hn', hself]
    · rw [hother n hn' hn]
  have hprevs (n : ℕ) (hn : n ≠ x.node) :
      (t.entries n).prev = (s.entries n).prev := by rw [hothers n hn]
  refine ⟨⟨fun m => ?_, nodup_concat hx h.nodup, fun y hy => ?_⟩, hothers,
    fun n hn => ?_, ?_, ?_, ?_, ?_, ?_, hflag⟩
  · by_cases hm : m = x.menu
    · subst hm
      rw [nodesOf_concat rfl, hmenu]
      refine (h.lists x.menu).append (not_mem_nodesOf_of_fresh hx _) ?_ ?_ (fun n hn => ?_)
        (fun n hn _ => hnexts n hn) hprevs
      · rw [hself, hnext]
      · rw [hself]
      · rw [hlast n hn]
    · rw [nodesOf_concat_of_ne (Ne.symm hm), hmenus m hm]
      refine (h.lists m).congr (fun n hn => hnexts n fun hn' => ?_) fun n hn => hprevs n ?_
      · exact h.not_mem_nodesOf (hmem n hn') hm hn
      · exact ne_of_mem_of_not_mem hn (not_mem_nodesOf_of_fresh hx m)
  · rcases mem_append.1 hy with hy | hy
    · rw [hothers y.node (ne_of_mem_of_not_mem (mem_map_of_mem hy) hx), h.names y hy]
    · obtain rfl := mem_singleton.1 hy
      rw [hself, hname]
  · rw [map_append, mem_append, not_or, map_singleton, mem_singleton] at hn
    exact hother n hn.2 fun hn' => hn.1 (mem_node_of_mem_nodesOf (hmem n hn'))
  all_goals rw [hself]

theorem appended_first (hprev : (s.entries x.node).prev = none) (hnil : nodesOf a x.menu = [])
    (parent : Option ℕ) :
    Appended s a x ((s.modifyMenu x.menu ({ · with children := some x.node })).initEntry x.menu
      parent true x.node) := by
  have hchildren := h.children_eq x.menu
  rw [hnil] at hchildren
  set t := s.modifyMenu x.menu ({ · with children := some x.node }) with ht
  refine .of_entries h hx hname hnext ?_ ?_
    (fun n hn _ => entries_modifyEntry_of_ne _ hn) ?_ (fun m hm => ?_) fun m => ?_
  · rw [initEntry, entries_modifyEntry_self, hnil, getLast?_nil, ← hprev]
    rfl
  · rw [hnil]
    exact nofun
  · rw [hchildren, initEntry, menus_modifyEntry, menus_modifyMenu_self]
    rfl
  · rw [initEntry, menus_modifyEntry, menus_modifyMenu_of_ne _ hm]
  · rw [initEntry, menus_modifyEntry]
    exact modifyMenu_field Menu.hasPlaceholders rfl m

theorem appended_next {head : ℕ} (hlast : (nodesOf a x.menu).getLast? = some head)
    (parent : Option ℕ) :
    Appended s a x (((s.initEntry x.menu parent false x.node).modifyEntry x.node
      ({ · with prev := some head })).modifyEntry head ({ · with next := some x.node })) := by
  have hmem : head ∈ nodesOf a x.menu := mem_of_getLast? hlast
  have hne : x.node ≠ head := fun heq => not_mem_nodesOf_of_fresh hx x.menu (heq ▸ hmem)
  refine .of_entries h hx hname hnext ?_ (fun n hn => ?_)
    (fun n hn hn' => ?_) ?_ (fun m hm => rfl) fun m => rfl
  · rw [hlast, isEmpty_eq_false_iff_exists_mem.2 ⟨head, hmem⟩, entries_modifyEntry_of_ne _ hne,
      entries_modifyEntry_self, initEntry, entries_modifyEntry_self]
  · rw [hlast] at hn
    cases hn
    rw [entries_modifyEntry_self, entries_modifyEntry_of_ne _ hne.symm, initEntry,
      entries_modifyEntry_of_ne _ hne.symm]
  · have hhead : n ≠ head := fun heq => hn' (heq ▸ hlast)
    rw [entries_modifyEntry_of_ne _ hhead, entries_modifyEntry_of_ne _ hn, initEntry,
      entries_modifyEntry_of_ne _ hn]
  · rw [h.children_eq, Option.or_of_isSome (isSome_head?.2 (ne_nil_of_mem hmem)), ← h.children_eq]
    rfl

end Append

end MagicLantern.Menus
