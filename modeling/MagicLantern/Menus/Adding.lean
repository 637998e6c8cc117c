import MagicLantern.Menus.Placeholders

/-!
# Adding entries

`menu_add` links the entries of an array one after the other, and then those of their submenus. All
it does is to put entries at the ends of menus, so that what holds for one entry holds for the whole
call.

While it goes through the submenus, it reads the arrays again. They must not have been changed in
the meantime by an entry that took the place of a placeholder of the same call.
-/

namespace MagicLantern.Menus

open List MenuTree

variable {α : Type} {s s' s'' t : MenuTree α} {a new new' K : List (Added α)} {x y z : Added α}
  {menu name : String} {fuel e p base count : ℕ} {T T' : List ℕ} {top : ℕ → Added α}

/-- The entries `new` have been put at the ends of the menus. Of the entries `K`, only those of `T`
point to another submenu than before. -/
structure Extends (K : List (Added α)) (T : List ℕ) (s : MenuTree α) (a : List (Added α))
    (s' : MenuTree α) (new : List (Added α)) : Prop where
  linked : Linked s' (a ++ new)
  frame : ∀ n ∉ (a ++ new).map Added.node, s'.entries n = s.entries n
  childless : ∀ x ∈ K, (s.entries x.node).children = none → (s'.entries x.node).children = none
  children : ∀ x ∈ K, x.node ∉ T → (s'.entries x.node).children = (s.entries x.node).children
  parents : Parents s a → Parents s' (a ++ new)
  selected : OneSelected s a → OneSelected s' (a ++ new)
  shown : Shown s a → Shown s' (a ++ new)

namespace Extends

theorem of_same (h : Linked s a) (hsame : SameLinks s s')
    (hframe : ∀ n ∉ a.map Added.node, s'.entries n = s.entries n)
    (hparentMenu : ∀ n, (s'.entries n).parentMenu = (s.entries n).parentMenu)
    (hplaceholder : ∀ n, (s'.entries n).placeholder = (s.entries n).placeholder)
    (hcontent : ∀ n, (s'.entries n).content = (s.entries n).content)
    (hflag : ∀ m, (s'.menus m).hasPlaceholders = (s.menus m).hasPlaceholders)
    (hchildless : ∀ x ∈ K, (s.entries x.node).children = none → (s'.entries x.node).children = none)
    (hchildren : ∀ x ∈ K, x.node ∉ T → (s'.entries x.node).children = (s.entries x.node).children) :
    Extends K T s a s' [] := by
  refine ⟨?_, ?_, hchildless, hchildren, ?_, ?_, ?_⟩ <;> rw [append_nil]
  · exact h.of_sameLinks hsame
  · exact hframe
  · intro hparents x hx
    rw [hparentMenu, hparents x hx]
  · exact fun hselected => hselected.of_sameLinks hsame
  · intro hshown
    refine ⟨fun m n => ?_, fun x hx hx' => ?_⟩
    · rw [← hshown.places]
      refine map_congr_left fun y _ => ?_
      rw [shownAt, shownAt, hplaceholder, hcontent]
    · rw [hflag]
      exact hshown.flag x hx ((hplaceholder x.node).symm.trans hx')

theorem refl (h : Linked s a) : Extends K T s a s [] :=
  .of_same h .refl (fun _ _ => rfl) (fun _ => rfl) (fun _ => rfl) (fun _ => rfl) (fun _ => rfl)
    (fun _ _ h => h) fun _ _ _ => rfl

theorem trans (h : Extends K T s a s' new) (h' : Extends K T' s' (a ++ new) s'' new') :
    Extends K (T ++ T') s a s'' (new ++ new') := by
  have heq : a ++ (new ++ new') = a ++ new ++ new' := (append_assoc ..).symm
  refine ⟨?_, fun n hn => ?_, fun x hx hnone => h'.childless x hx (h.childless x hx hnone),
    fun x hx hT => ?_, ?_, ?_, ?_⟩
  · exact heq ▸ h'.linked
  · rw [heq] at hn
    rw [h'.frame n hn, h.frame n fun hmem => hn ?_]
    rw [map_append]
    exact mem_append_left _ hmem
  · rw [mem_append, not_or] at hT
    rw [h'.children x hx hT.2, h.children x hx hT.1]
  · exact fun hparents => heq ▸ h'.parents (h.parents hparents)
  · exact fun hselected => heq ▸ h'.selected (h.selected hselected)
  · exact fun hshown => heq ▸ h'.shown (h.shown hshown)

theorem trans_left (h : Extends K T s a s' []) (h' : Extends K T' s' a s'' new) :
    Extends K (T ++ T') s a s'' new :=
  h.trans (by rwa [append_nil])

theorem mono (h : Extends K T s a s' new) (hT : T ⊆ T') : Extends K T' s a s' new :=
  { h with children := fun x hx hx' => h.children x hx fun hmem => hx' (hT hmem) }

theorem modifyMenu {f : Menu → Menu} (h : Linked s a)
    (hchildren : (f (s.menus menu)).children = (s.menus menu).children)
    (hflag : (f (s.menus menu)).hasPlaceholders = (s.menus menu).hasPlaceholders) :
    Extends K T s a (s.modifyMenu menu f) [] :=
  .of_same h (.modifyMenu hchildren) (fun _ _ => rfl) (fun _ => rfl) (fun _ => rfl) (fun _ => rfl)
    (modifyMenu_field Menu.hasPlaceholders hflag) (fun _ _ h => h) fun _ _ _ => rfl

theorem menuFindByName {icon : ℤ} (h : Linked s a) :
    Extends K T s a (s.menuFindByName name icon) [] :=
  .modifyMenu h (by split <;> rfl) (by split <;> rfl)

end Extends

/-- What is known before the entries `new` are added, which are some of the entries `K` of a call.
The memory was `entries` when the call began. -/
structure Ready (entries : ℕ → MenuEntry α) (K : List (Added α)) (fuel : ℕ) (s : MenuTree α)
    (a new : List (Added α)) : Prop where
  linked : Linked s a
  untouched : ∀ n ∉ a.map Added.node, s.entries n = entries n
  links : ∀ x ∈ new, (entries x.node).next = none ∧ (entries x.node).prev = none
  name : ∀ x ∈ new, (entries x.node).name = x.name
  placeholder : ∀ x ∈ new, (entries x.node).placeholder = x.placeholder
  content : ∀ x ∈ new, (entries x.node).content = x.content
  nodup : ((a ++ new).map Added.node).Nodup
  mem : ∀ x ∈ new, x ∈ K
  nodupK : (K.map Added.node).Nodup
  once : ∀ x ∈ a, ∀ y ∈ K, x.node = y.node → x = y
  childless : ∀ x ∈ K, ∀ y ∈ K, x.node ≠ y.node → x.menu = y.menu → x.name = y.name →
    (s.entries x.node).children = none
  length_le : (a ++ new).length ≤ fuel

namespace Ready

variable {entries : ℕ → MenuEntry α}

theorem left (h : Ready entries K fuel s a (new ++ new')) : Ready entries K fuel s a new := by
  have hmem (x : Added α) (hx : x ∈ new) : x ∈ new ++ new' := mem_append_left _ hx
  have hnodup := h.nodup
  have hlen := h.length_le
  rw [← append_assoc, map_append] at hnodup
  rw [← append_assoc, length_append] at hlen
  exact
    { h with
      links := fun x hx => h.links x (hmem x hx)
      name := fun x hx => h.name x (hmem x hx)
      placeholder := fun x hx => h.placeholder x (hmem x hx)
      content := fun x hx => h.content x (hmem x hx)
      nodup := (nodup_append.1 hnodup).1
      mem := fun x hx => h.mem x (hmem x hx)
      length_le := Nat.le_trans (Nat.le_add_right ..) hlen }

theorem right (h : Ready entries K fuel s a (new ++ new')) (hext : Extends K T s a s' new) :
    Ready entries K fuel s' (a ++ new) new' := by
  have hmem (x : Added α) (hx : x ∈ new') : x ∈ new ++ new' := mem_append_right _ hx
  refine
    { linked := hext.linked
      untouched := fun n hn => ?_
      links := fun x hx => h.links x (hmem x hx)
      name := fun x hx => h.name x (hmem x hx)
      placeholder := fun x hx => h.placeholder x (hmem x hx)
      content := fun x hx => h.content x (hmem x hx)
      nodup := ?_
      mem := fun x hx => h.mem x (hmem x hx)
      nodupK := h.nodupK
      once := fun x hx y hy heq => ?_
      childless := fun x hx y hy hne hm hn => hext.childless x hx (h.childless x hx y hy hne hm hn)
      length_le := ?_ }
  · rw [hext.frame n hn, h.untouched n fun hmem => hn ?_]
    rw [map_append]
    exact mem_append_left _ hmem
  · rw [append_assoc]
    exact h.nodup
  · rcases mem_append.1 hx with hx | hx
    · exact h.once x hx y hy heq
    · exact eq_of_node_eq h.nodupK (h.mem x (mem_append_left _ hx)) hy heq
  · rw [append_assoc]
    exact h.length_le

theorem not_mem (h : Ready entries K fuel s a new) (hx : x ∈ new) : x.node ∉ a.map Added.node := by
  have hnodup := h.nodup
  rw [map_append] at hnodup
  intro hmem
  exact (nodup_append.1 hnodup).2.2 _ hmem _ (mem_map_of_mem hx) rfl

/-- A new entry is as it was when the call began. -/
theorem fresh (h : Ready entries K fuel s a new) (hx : x ∈ new) :
    (s.entries x.node).name = x.name ∧ (s.entries x.node).next = none ∧
      (s.entries x.node).prev = none := by
  rw [h.untouched x.node (h.not_mem hx)]
  exact ⟨h.name x hx, h.links x hx⟩

end Ready

/-! ### One entry -/

/-- What `menu_update_placeholder` does to each entry. -/
theorem entries_menuUpdatePlaceholder (h : Linked t (a ++ [x])) (hlen : (a ++ [x]).length ≤ fuel)
    (n : ℕ) :
    (t.menuUpdatePlaceholder fuel x.menu x.node).entries n = t.entries n ∨
    (n = x.node ∧ (t.menuUpdatePlaceholder fuel x.menu x.node).entries n =
      { t.entries n with shidden := true, placeholder := true }) ∨
    ∃ y ∈ a, y.menu = x.menu ∧ y.name = x.name ∧ n = y.node ∧
      (t.menuUpdatePlaceholder fuel x.menu x.node).entries n =
        { placeholderCopy (t.entries n) (t.entries x.node) with shidden := false } := by
  rcases menuUpdatePlaceholder_cases h
      hlen with ⟨-, heq⟩ | ⟨-, heq, -⟩ | ⟨-, c₁, y, c₂, hnamed, -, -, heq⟩
  · exact .inl (by rw [heq, entries_modifyMenu])
  · exact .inl (by rw [heq])
  · rw [heq]
    obtain ⟨hy, hmenu, hname⟩ := mem_named.1 (hnamed ▸ by simp : y ∈ named a x.menu x.name)
    have hne : y.node ≠ x.node := by
      have hnodup := h.nodup
      rw [map_append] at hnodup
      exact (nodup_append.1 hnodup).2.2 _ (mem_map_of_mem hy) _ (mem_singleton_self _)
    by_cases hn : n = x.node
    · subst hn
      exact .inr (.inl ⟨rfl, exchange_entries_new t hne⟩)
    · by_cases hn' : n = y.node
      · subst hn'
        exact .inr (.inr ⟨y, hy, hmenu, hname, rfl, exchange_entries_placeholder t hne⟩)
      · exact .inl (exchange_entries_of_ne t hn' hn)

theorem Appended.oneSelected (h : Appended s a x t) (hselected : OneSelected s a) :
    OneSelected t (a ++ [x]) := by
  have hsame (m : String) : (nodesOf a m).countP (fun n => (t.entries n).selected) =
      (nodesOf a m).countP (fun n => (s.entries n).selected) := by
    refine countP_congr fun n hn => ?_
    obtain ⟨y, hy, -, rfl⟩ := mem_nodesOf.1 hn
    rw [h.others y.node (h.ne_of_mem hy)]
  intro m hm
  by_cases hmx : x.menu = m
  · subst hmx
    rw [nodesOf_concat rfl, countP_append, hsame, countP_singleton, h.selected]
    by_cases hnil : nodesOf a x.menu = []
    · rw [hnil]
      rfl
    · rw [hselected _ hnil, isEmpty_eq_false_iff.2 hnil]
      rfl
  · rw [nodesOf_concat_of_ne hmx] at hm ⊢
    rw [hsame, hselected m hm]

/-- A new entry is linked and takes the place of its placeholder. -/
theorem Appended.extends {entries : ℕ → MenuEntry α} (h : Appended s a x t)
    (hready : Ready entries K fuel s a [x]) :
    Extends K [] s a (t.menuUpdatePlaceholder fuel x.menu x.node) [x] := by
  have hxK : x ∈ K := hready.mem x mem_cons_self
  have hlen := hready.length_le
  have hfresh : s.entries x.node = entries x.node :=
    hready.untouched x.node (hready.not_mem mem_cons_self)
  have hcases := entries_menuUpdatePlaceholder h.linked hlen
  have hchildren (z : Added α) (hz : z ∈ K) :
      ((t.menuUpdatePlaceholder fuel x.menu x.node).entries z.node).children =
        (s.entries z.node).children := by
    have ht : (t.entries z.node).children = (s.entries z.node).children := by
      by_cases hzx : z.node = x.node
      · rw [hzx, h.children]
      · rw [h.others z.node hzx]
    rcases hcases z.node with heq | ⟨-, heq⟩ | ⟨y, hy, hmenu, hname, hnode, heq⟩
    · rw [heq, ht]
    · rw [heq, ht]
    · -- the placeholder is one of the call: then neither entry has a submenu
      obtain rfl := hready.once y hy z hz hnode.symm
      have hne := h.ne_of_mem hy
      rw [heq, hready.childless y hz x hxK hne hmenu hname]
      exact h.children.trans (hready.childless x hxK y hz hne.symm hmenu.symm hname.symm)
  refine ⟨h.linked.of_sameLinks .menuUpdatePlaceholder, fun n hn => ?_,
    fun z hz hnone => (hchildren z hz).trans hnone, fun z hz _ => hchildren z hz,
      fun hparents => ?_,
    fun hselected => (h.oneSelected hselected).of_sameLinks .menuUpdatePlaceholder,
    fun hshown => h.shown hshown hlen ?_ ?_⟩
  · rw [← h.frame n hn]
    rcases hcases n with heq | ⟨rfl, -⟩ | ⟨y, hy, -, -, rfl, -⟩
    · exact heq
    · exact absurd (mem_map_of_mem (by simp)) hn
    · exact absurd (mem_map_of_mem (mem_append_left _ hy)) hn
  · have ht (z : Added α) (hz : z ∈ a ++ [x]) : (t.entries z.node).parentMenu = some z.menu := by
      rcases mem_append.1 hz with hz | hz
      · rw [h.others z.node (h.ne_of_mem hz), hparents z hz]
      · obtain rfl := mem_singleton.1 hz
        exact h.parentMenu
    intro z hz
    rcases hcases z.node with heq | ⟨-, heq⟩ | ⟨y, hy, hmenu, -, hnode, heq⟩
    · rw [heq, ht z hz]
    · rw [heq, ht z hz]
    · obtain rfl := eq_of_node_eq h.linked.nodup (mem_append_left _ hy) hz hnode.symm
      rw [heq, hmenu]
      exact h.parentMenu
  · rw [hfresh, hready.placeholder x mem_cons_self]
  · rw [hfresh, hready.content x mem_cons_self]

/-! ### The entries of an array -/

section Array

variable {entries : ℕ → MenuEntry α} {head : ℕ}

section

variable (htop : ∀ e, (top e).menu = menu ∧ (top e).node = e)

include htop

theorem nodesOf_map_range' (base count : ℕ) :
    nodesOf ((range' base count).map top) menu = range' base count := by
  rw [nodesOf, filter_eq_self.2, map_map]
  · exact (map_congr_left fun e _ => (htop e).2).trans (map_id _)
  · intro x hx
    obtain ⟨e, -, rfl⟩ := mem_map.1 hx
    simp [(htop e).1]

theorem getLast?_nodesOf_append_map
    (hhead : (nodesOf a menu).getLast? = some head) (base count : ℕ) :
    (nodesOf (a ++ (range' base count).map top) menu).getLast? =
      some (if count = 0 then head else base + count - 1) := by
  rw [nodesOf_append, nodesOf_map_range' htop, getLast?_append, hhead]
  cases count with
  | zero => rfl
  | succ count =>
    rw [range'_concat]
    simp

theorem extends_addLoop (parent : Option ℕ)
    (hready : Ready entries K fuel s a ((range' base count).map top))
    (hhead : (nodesOf a menu).getLast? = some head) :
    Extends K [] s a (addLoop fuel menu parent s head base count).1 ((range' base count).map top) ∧
      (addLoop fuel menu parent s head base count).2 =
        if count = 0 then head else base + count - 1 := by
  induction count generalizing s a head base with
  | zero => exact ⟨.refl hready.linked, rfl⟩
  | succ count ih =>
    rw [range'_succ, map_cons, ← singleton_append] at hready
    have hfirst := hready.left
    have hmem : top base ∈ [top base] := mem_cons_self
    have hnode : (top base).node = base := (htop base).2
    have hmenu : (top base).menu = menu := (htop base).1
    obtain ⟨hname, hnext, -⟩ := hfirst.fresh hmem
    have happ := appended_next hfirst.linked (hfirst.not_mem hmem) hname hnext (hmenu ▸ hhead)
      parent
    have hext := happ.extends hfirst
    rw [hnode, hmenu] at hext
    have hlast := getLast?_nodesOf_append_map htop hhead base 1
    obtain ⟨hrest, heq⟩ := ih (hready.right hext) hlast
    refine ⟨?_, ?_⟩
    · exact hext.trans hrest
    · refine heq.trans ?_
      by_cases hcount : count = 0
      · rw [hcount]
        rfl
      · rw [if_neg hcount, if_neg (Nat.succ_ne_zero count)]
        omega

/-- The entries of a call of `menu_add_internal` are linked. -/
theorem extends_addEntries (hcount : count ≠ 0)
    (hready : Ready entries K fuel s a ((range' base count).map top)) :
    Extends K [] s a (s.addEntries fuel menu base count).1 ((range' base count).map top) ∧
      (s.addEntries fuel menu base count).2 = base + count - 1 := by
  set parent := if (s.menus menu).isSubmenu then (s.menus menu).parentEntry else none with hparent
  have hchildren := hready.linked.children_eq menu
  unfold addEntries
  rw [← hparent]
  cases hnodes : nodesOf a menu with
  | nil =>
    rw [hnodes] at hchildren
    rw [hchildren]
    obtain ⟨count, rfl⟩ := Nat.exists_eq_succ_of_ne_zero hcount
    rw [range'_succ, map_cons, ← singleton_append] at hready ⊢
    have hfirst := hready.left
    have hmem : top base ∈ [top base] := mem_cons_self
    have hnode : (top base).node = base := (htop base).2
    have hmenu : (top base).menu = menu := (htop base).1
    obtain ⟨hname, hnext, hprev⟩ := hfirst.fresh hmem
    have happ := appended_first hfirst.linked (hfirst.not_mem hmem)
      hname hnext hprev (hmenu ▸ hnodes) parent
    have hext := happ.extends hfirst
    rw [hnode, hmenu] at hext
    have hlast : (nodesOf (a ++ [top base]) menu).getLast? = some base := by
      rw [nodesOf_concat hmenu, hnodes, hnode]
      rfl
    obtain ⟨hrest, heq⟩ := extends_addLoop htop parent (hready.right hext) hlast
    refine ⟨hext.trans hrest, heq.trans ?_⟩
    split <;> omega
  | cons head l =>
    rw [hnodes] at hchildren
    have hforward : s.forward fuel (some head) = nodesOf a menu := by
      have hlen := hready.length_le
      rw [length_append] at hlen
      rw [← hready.linked.forward_eq (Nat.le_trans (Nat.le_add_right ..) hlen) menu, hchildren]
      rfl
    have hlast : (nodesOf a menu).getLast? = some ((s.forward fuel (some head)).getLastD head) := by
      rw [hforward, hnodes, getLast?_cons, getLastD_cons, getLastD_eq_getLast?]
    rw [hchildren]
    obtain ⟨hext, heq⟩ := extends_addLoop htop parent hready hlast
    exact ⟨hext, heq.trans (if_neg hcount)⟩

end

end Array

/-! ### Submenus -/

section Submenus

variable {entries : ℕ → MenuEntry α} {childCount : ℕ → ℕ} {child depth c : ℕ} {owners : List ℕ}

theorem extends_raiseChild (h : Linked s a) (he : e ∈ a.map Added.node)
    (hchild : child ∈ a.map Added.node) (hsome : (s.entries e).children ≠ none) :
    Extends K [e] s a (s.raiseChild e child) [] := by
  have hother (n : ℕ) (hn : n ≠ e) : ((s.raiseChild e child).entries n).children =
      (s.entries n).children := by
    rw [raiseChild, modifyEntry_field MenuEntry.children rfl, entries_modifyEntry_of_ne _ hn]
  refine .of_same h .raiseChild (fun n hn => ?_) (fun n => ?_) (fun n => ?_) (fun n => ?_)
    (fun _ => rfl) (fun x _ hnone => ?_) fun x _ hx => hother x.node (ne_of_not_mem_cons hx)
  · rw [raiseChild, entries_modifyEntry_of_ne _ (ne_of_mem_of_not_mem hchild hn).symm,
      entries_modifyEntry_of_ne _ (ne_of_mem_of_not_mem he hn).symm]
  · rw [raiseChild, modifyEntry_field MenuEntry.parentMenu rfl,
      modifyEntry_field MenuEntry.parentMenu rfl]
  · rw [raiseChild, modifyEntry_field MenuEntry.placeholder rfl,
      modifyEntry_field MenuEntry.placeholder rfl]
  · rw [raiseChild, modifyEntry_field MenuEntry.content rfl,
      modifyEntry_field MenuEntry.content rfl]
  · rw [hother x.node, hnone]
    rintro rfl
    exact hsome hnone

theorem extends_foldl_raiseChild {l : List ℕ} (h : Linked s a) (he : e ∈ a.map Added.node)
    (hl : ∀ c ∈ l, c ∈ a.map Added.node) (hsome : (s.entries e).children ≠ none) :
    Extends K [e] s a (l.foldl (raiseChild · e) s) [] := by
  induction l generalizing s with
  | nil => exact .refl h
  | cons c l ih =>
    have hext : Extends K [e] s a (s.raiseChild e c) [] :=
      extends_raiseChild h he (hl c mem_cons_self) hsome
    have hlinked : Linked (s.raiseChild e c) a := h.of_sameLinks .raiseChild
    have hsome' : ((s.raiseChild e c).entries e).children ≠ none := by
      rw [raiseChild, modifyEntry_field MenuEntry.children rfl, entries_modifyEntry_self]
      exact Option.some_ne_none c
    have hrest := ih hlinked (fun c' hc' => hl c' (mem_cons_of_mem c hc')) hsome'
    exact (hext.trans_left hrest).mono (by simp)

/-- The pointer to a submenu is set to its first entry. -/
theorem extends_raiseChildren (h : Linked s a) (hlen : a.length ≤ fuel) (he : e ∈ a.map Added.node)
    (hchildren : (s.entries e).children = some child)
    (hchild : child ∈ a.map Added.node ∨ (s.entries child).prev = none) :
    Extends K [e] s a (s.raiseChildren fuel e) [] := by
  rw [raiseChildren, hchildren]
  have hsome : (s.entries e).children ≠ none := by
    rw [hchildren]
    exact Option.some_ne_none child
  refine extends_foldl_raiseChild h he (fun c hc => ?_) hsome
  rcases hchild with hchild | hprev
  · obtain ⟨x, hx, rfl⟩ := mem_map.1 hchild
    obtain ⟨l₁, l₂, heq⟩ := append_of_mem (Added.mem_nodesOf hx)
    rw [h.backward_eq hlen heq, mem_reverse] at hc
    have hmem : c ∈ nodesOf a x.menu := heq ▸ mem_append_left _ hc
    exact mem_node_of_mem_nodesOf hmem
  · rw [hprev] at hc
    cases fuel <;> exact absurd hc (by simp [backward, LinkedList.follow])

/-- The entries of the submenu of an entry, in the order in which they are added. -/
def submenuEntries (childCount : ℕ → ℕ) (entries : ℕ → MenuEntry α) (depth : ℕ) (owners : List ℕ)
    (e : ℕ) : List (Added α) :=
  match (entries e).children with
  | none => []
  | some child =>
    newEntries childCount entries depth (entries e).name child (childCount child) (owners ++ [e])

/-- What `menu_add_internal` does, for submenus that are nested less than `depth` times. -/
def AddsEntries (fuel : ℕ) (childCount : ℕ → ℕ) (entries : ℕ → MenuEntry α) (K : List (Added α))
    (depth : ℕ) : Prop :=
  ∀ (s : MenuTree α) (a : List (Added α)) (name : String) (base count : ℕ) (owners : List ℕ),
    Ready entries K fuel s a (newEntries childCount entries depth name base count owners) →
    Nested childCount entries depth base count →
    Extends K ((newEntries childCount entries depth name base count owners).map Added.node) s a
      (menuAddInternal fuel childCount depth s name base count)
      (newEntries childCount entries depth name base count owners)

theorem mem_newEntries (hnested : Nested childCount entries depth base count) (hcount : count ≠ 0)
    (name : String) (owners : List ℕ) :
    base ∈ (newEntries childCount entries depth name base count owners).map Added.node := by
  cases depth with
  | zero => exact absurd hnested hcount
  | succ depth =>
    rw [newEntries, map_append, map_map]
    refine mem_append_left _ (mem_map.2 ⟨base, ?_, rfl⟩)
    rw [mem_range'_1]
    omega

theorem newEntries_zero : newEntries childCount entries depth name base 0 owners = [] := by
  cases depth <;> rfl

theorem data_of_mem_newEntries
    (hx : x ∈ newEntries childCount entries depth name base count owners) :
    (entries x.node).name = x.name ∧ (entries x.node).placeholder = x.placeholder ∧
      (entries x.node).content = x.content := by
  induction depth generalizing name base count owners with
  | zero => exact absurd hx not_mem_nil
  | succ depth ih =>
    rcases mem_append.1 hx with hx | hx
    · obtain ⟨e, -, rfl⟩ := mem_map.1 hx
      exact ⟨rfl, rfl, rfl⟩
    · obtain ⟨e, -, hx⟩ := mem_flatMap.1 hx
      split at hx
      · exact absurd hx not_mem_nil
      · exact ih hx

theorem extends_addSubmenu (hadd : AddsEntries fuel childCount entries K depth) (menu : String)
    (hready : Ready entries K fuel s a (submenuEntries childCount entries depth owners x.node))
    (hx : x ∈ a) (hxK : x ∈ K) (hname : (entries x.node).name = x.name)
    (hchildren : (s.entries x.node).children = (entries x.node).children)
    (hnested : ∀ child ∈ (entries x.node).children,
      Nested childCount entries depth child (childCount child))
    (hmarker : ∀ child ∈ (entries x.node).children, childCount child = 0 →
      (entries child).prev = none) :
    Extends K ((submenuEntries childCount entries depth owners x.node).map Added.node ++ [x.node])
      s a (s.addSubmenu fuel childCount (menuAddInternal fuel childCount depth) menu x.node)
      (submenuEntries childCount entries depth owners x.node) := by
  unfold addSubmenu submenuEntries at *
  rw [hchildren]
  cases hsome : (entries x.node).children with
  | none => exact .refl hready.linked
  | some child =>
    rw [hsome] at hready
    have hnested := hnested child hsome
    set new := newEntries childCount entries depth (entries x.node).name child (childCount child)
      (owners ++ [x.node]) with hnew
    rw [hready.linked.names x hx, ← hname]
    set n := (entries x.node).name with hn
    set s₁ := (s.menuFindByName n iconMlSubmenu).modifyMenu n
      ({ · with parentMenu := some menu, parentEntry := some x.node }) with hs₁
    have hfound : Extends K [] s a s₁ [] := by
      have hfind : Extends K [] s a (s.menuFindByName n iconMlSubmenu) [] :=
        .menuFindByName hready.linked
      exact hfind.trans_left (.modifyMenu (hready.linked.of_sameLinks .menuFindByName) rfl rfl)
    have hready₁ : Ready entries K fuel s₁ a new := by
      rw [← append_nil a]
      exact Ready.right (by rwa [nil_append]) hfound
    -- the array is added unless it is empty
    set s₂ := if (s₁.menus n).children ≠ some child then
      menuAddInternal fuel childCount depth s₁ n child (childCount child) else s₁ with hs₂
    have hadded : Extends K (new.map Added.node) s₁ a s₂ new := by
      rw [hs₂]
      split
      · exact hadd s₁ a n child (childCount child) (owners ++ [x.node]) hready₁ hnested
      · next hhead =>
        rw [not_not] at hhead
        have hcount : childCount child = 0 := by
          by_contra hcount
          obtain ⟨y, hy, hnode⟩ :=
            mem_map.1 (mem_newEntries hnested hcount n (owners ++ [x.node]))
          have hmem : child ∈ nodesOf a n := by
            refine mem_of_mem_head? ?_
            rw [← hready₁.linked.children_eq, hhead]
            rfl
          refine hready₁.not_mem hy ?_
          rw [hnode]
          exact mem_node_of_mem_nodesOf hmem
        have hnil : new = [] := by rw [hnew, hcount, newEntries_zero]
        rw [hnil]
        exact .refl hready₁.linked
    have hxnew : x.node ∉ new.map Added.node := by
      intro hmem
      obtain ⟨y, hy, hnode⟩ := mem_map.1 hmem
      exact hready₁.not_mem hy (hnode ▸ mem_map_of_mem hx)
    have hchildren₂ : (s₂.entries x.node).children = some child := by
      rw [hadded.children x hxK hxnew, ← hsome, ← hchildren]
      rfl
    have hmem : x.node ∈ (a ++ new).map Added.node := mem_map_of_mem (mem_append_left _ hx)
    have hraise : Extends K [x.node] s₂ (a ++ new) (s₂.raiseChildren fuel x.node) [] := by
      refine extends_raiseChildren hadded.linked hready₁.length_le hmem hchildren₂ ?_
      by_cases hchild : child ∈ (a ++ new).map Added.node
      · exact .inl hchild
      · right
        have hcount : childCount child = 0 := by
          by_contra hcount
          refine hchild ?_
          rw [map_append]
          exact mem_append_right _ (mem_newEntries hnested hcount _ _)
        have hchild' : child ∉ a.map Added.node := fun h => hchild (by
          rw [map_append]
          exact mem_append_left _ h)
        rw [hadded.frame child hchild, hready₁.untouched child hchild']
        exact hmarker child hsome hcount
    have hall := (hfound.trans_left hadded).trans hraise
    rw [append_nil] at hall
    exact hall

theorem prev_eq_of_range' (h : Linked s a) {l₁ l₂ : List ℕ} (hc : c + 1 < count)
    (hnodes : nodesOf a menu = l₁ ++ range' base count ++ l₂) :
    (s.entries (base + (c + 1))).prev = some (base + c) := by
  obtain ⟨k, rfl⟩ : ∃ k, count = c + 1 + (k + 1) := ⟨count - (c + 2), by omega⟩
  have hsplit : range' base (c + 1 + (k + 1)) =
      range' base (c + 1) ++ (base + (c + 1)) :: range' (base + (c + 1) + 1) k := by
    rw [← range'_succ, range'_append_1]
  rw [hsplit, append_assoc, append_assoc, ← append_assoc] at hnodes
  have hprev := (hnodes ▸ h.lists menu).prev_eq
  rw [hprev, range'_concat]
  simp

theorem extends_submenuLoop (hadd : AddsEntries fuel childCount entries K depth)
    (htop : ∀ e, (top e).node = e ∧ (top e).name = (entries e).name) (hc : c ≤ count)
    (hready : Ready entries K fuel s a
      ((range' base c).reverse.flatMap (submenuEntries childCount entries depth owners)))
    (hnodes : ∃ l₁ l₂, nodesOf a menu = l₁ ++ range' base count ++ l₂)
    (htops : ∀ e ∈ range' base count, top e ∈ a ∧ top e ∈ K)
    (hchildren : ∀ e ∈ range' base c, (s.entries e).children = (entries e).children) (hnested : ∀ e
      ∈ range' base count, ∀ child ∈ (entries e).children, Nested childCount entries depth child
      (childCount child)) (hmarker : ∀ e ∈ range' base count, ∀ child ∈ (entries e).children,
      childCount child = 0 → (entries child).prev = none) :
    Extends K (((range' base c).reverse.flatMap
        (submenuEntries childCount entries depth owners)).map Added.node ++ range' base c) s a
      (submenuLoop fuel childCount (menuAddInternal fuel childCount depth) menu s (base + c - 1) c)
      ((range' base c).reverse.flatMap (submenuEntries childCount entries depth owners)) := by
  induction c generalizing s a with
  | zero => exact .refl hready.linked
  | succ c ih =>
    have hrange : range' base (c + 1) = range' base c ++ [base + c] := by
      rw [range'_concat, Nat.one_mul]
    have hmem : base + c ∈ range' base count := by
      rw [mem_range'_1]
      omega
    rw [hrange, reverse_append, reverse_singleton, singleton_append, flatMap_cons]
      at hready ⊢
    obtain ⟨htopa, htopK⟩ := htops _ hmem
    obtain ⟨hnode, hname⟩ := htop (base + c)
    have hfirst := hready.left
    have hext := extends_addSubmenu hadd menu (by rwa [hnode]) htopa htopK
      (by rw [hnode, hname]) (by rw [hnode]; exact hchildren _ (by simp [hrange]))
      (by rw [hnode]; exact hnested _ hmem) (by rw [hnode]; exact hmarker _ hmem)
    rw [hnode] at hext
    set s' := s.addSubmenu fuel childCount (menuAddInternal fuel childCount depth)
      menu (base + c) with hs'
    have hready' := hready.right hext
    obtain ⟨l₁, l₂, hnodes⟩ := hnodes
    have hnodes' : nodesOf (a ++ submenuEntries childCount entries depth owners (base + c)) menu =
        l₁ ++ range' base count ++
          (l₂ ++ nodesOf (submenuEntries childCount entries depth owners (base + c)) menu) := by
      rw [nodesOf_append, hnodes, append_assoc]
    -- the entries that come later have not been changed yet
    have hchildren' (e : ℕ) (he : e ∈ range' base c) :
        (s'.entries e).children = (entries e).children := by
      have hlt := mem_range'_1.1 he
      have he' : e ∈ range' base count := by
        rw [mem_range'_1]
        omega
      obtain ⟨hea, heK⟩ := htops e he'
      have hkept := hext.children (top e) heK
      rw [(htop e).1] at hkept
      rw [hkept, hchildren e (by rw [hrange]; exact mem_append_left _ he)]
      rw [mem_append, mem_singleton, not_or]
      refine ⟨fun hmem => ?_, by omega⟩
      obtain ⟨y, hy, hnode⟩ := mem_map.1 hmem
      refine hfirst.not_mem hy ?_
      rw [hnode, ← (htop e).1]
      exact mem_map_of_mem hea
    have hrest := ih (by omega) hready' ⟨l₁, _, hnodes'⟩
      (fun e he => ⟨mem_append_left _ (htops e he).1, (htops e he).2⟩) hchildren'
    have hloop : submenuLoop fuel childCount (menuAddInternal fuel childCount depth) menu s
        (base + (c + 1) - 1) (c + 1) =
        submenuLoop fuel childCount (menuAddInternal fuel childCount depth) menu s' (base + c - 1)
          c := by
      rw [submenuLoop, Nat.add_succ_sub_one]
      cases c with
      | zero => cases (s'.entries (base + 0)).prev <;> rfl
      | succ c =>
        rw [prev_eq_of_range' hready'.linked (by omega) hnodes']
        rfl
    rw [hloop]
    refine (hext.trans hrest).mono ?_
    intro n hn
    simp only [mem_append, map_append, mem_singleton] at hn ⊢
    tauto

end Submenus

/-- **What `menu_add` does**: it puts the entries of the array and of the submenus at the ends of
their menus. -/
theorem extends_menuAddInternal {entries : ℕ → MenuEntry α} {childCount : ℕ → ℕ}
    (hmarker : ∀ x ∈ K, ∀ child ∈ (entries x.node).children, childCount child = 0 →
      (entries child).prev = none) (depth : ℕ) : AddsEntries fuel childCount entries K depth := by
  induction depth with
  | zero =>
    intro s a name base count owners hready hnested
    exact .refl hready.linked
  | succ depth ih =>
    intro s a name base count owners hready hnested
    rw [menuAddInternal]
    split
    · next hcount =>
      rw [hcount]
      exact .refl hready.linked
    · next hcount =>
      set top : ℕ → Added α := fun e =>
        ⟨name, e, (entries e).name, (entries e).placeholder, (entries e).content, owners⟩ with htop
      have hnew : newEntries childCount entries (depth + 1) name base count owners =
          (range' base count).map top ++
            (range' base count).reverse.flatMap (submenuEntries childCount entries depth owners) :=
        rfl
      rw [hnew] at hready ⊢
      have hfind : Extends K [] s a (s.menuFindByName name 0) [] := .menuFindByName hready.linked
      have hready₁ := Ready.right (by rwa [nil_append]) hfind
      rw [append_nil] at hready₁
      have hspec (e : ℕ) : (top e).menu = name ∧ (top e).node = e := ⟨rfl, rfl⟩
      obtain ⟨hext, hlast⟩ := extends_addEntries hspec hcount hready₁.left
      have hready₂ := hready₁.right hext
      have hnodes : nodesOf (a ++ (range' base count).map top) name =
          nodesOf a name ++ range' base count ++ [] := by
        rw [nodesOf_append, append_nil, nodesOf_map_range' hspec]
      have htops (e : ℕ) (he : e ∈ range' base count) :
          top e ∈ a ++ (range' base count).map top ∧ top e ∈ K :=
        ⟨mem_append_right _ (mem_map_of_mem he), hready₁.left.mem _ (mem_map_of_mem he)⟩
      have hspec' (e : ℕ) : (top e).node = e ∧ (top e).name = (entries e).name := ⟨rfl, rfl⟩
      have hchildren (e : ℕ) (he : e ∈ range' base count) :
          (((s.menuFindByName name 0).addEntries fuel name base count).1.entries e).children =
            (entries e).children := by
        refine (hext.children (top e) (htops e he).2 not_mem_nil).trans ?_
        have hfresh := hready₁.left.not_mem (mem_map_of_mem he)
        rw [hready₁.untouched _ hfresh]
      have hloop := extends_submenuLoop ih hspec' Nat.le.refl hready₂ ⟨_, _, hnodes⟩ htops hchildren
        hnested fun e he => hmarker (top e) (htops e he).2
      rw [← hlast] at hloop
      refine (hfind.trans_left (hext.trans hloop)).mono ?_
      intro n hn
      simpa [htop, Function.comp_def, or_comm] using hn

/-- Two entries that a call adds to the same menu under the same name have no submenus. -/
def AddGood (fuel : ℕ) (childCount : ℕ → ℕ) (r : MenuRun α) (name : String) (newEntry count : ℕ) :
    Prop :=
  ∀ x ∈ newEntries childCount r.tree.entries fuel name newEntry count [],
    ∀ y ∈ newEntries childCount r.tree.entries fuel name newEntry count [],
      x.node ≠ y.node → x.menu = y.menu → x.name = y.name →
        (r.tree.entries x.node).children.isNone = true

instance (fuel : ℕ) (childCount : ℕ → ℕ) (r : MenuRun α) (name : String) (newEntry count : ℕ) :
    Decidable (AddGood fuel childCount r name newEntry count) :=
  inferInstanceAs (Decidable
    (∀ x ∈ newEntries childCount r.tree.entries fuel name newEntry count [], _))

/-- What a call of `menu_add` with fresh arrays does. -/
theorem extends_menuAdd {r : MenuRun α} {childCount : ℕ → ℕ} {newEntry : ℕ}
    (hlinked : Linked r.tree a) (hever : ∀ x ∈ a, x.node ∈ r.ever) (hlen : a.length ≤ r.ever.length)
    (hfresh : Fresh fuel childCount r name newEntry count)
    (hgood : AddGood fuel childCount r name newEntry count) :
    Extends (newEntries childCount r.tree.entries fuel name newEntry count [])
      ((newEntries childCount r.tree.entries fuel name newEntry count []).map Added.node) r.tree a
      (r.tree.menuAddInternal fuel childCount fuel name newEntry count)
      (newEntries childCount r.tree.entries fuel name newEntry count []) := by
  obtain ⟨-, hnodup, hdisj⟩ := nodup_append.1 hfresh.nodup
  have hdisj' (x : Added α) (hx : x ∈ a) (y : Added α)
      (hy : y ∈ newEntries childCount r.tree.entries fuel name newEntry count []) :
        x.node ≠ y.node :=
    hdisj _ (hever x hx) _ (mem_map_of_mem hy)
  refine extends_menuAddInternal hfresh.markers fuel r.tree a name newEntry count []
    { linked := hlinked
      untouched := fun _ _ => rfl
      links := fun x hx => ⟨(hfresh.links x hx).1, (hfresh.links x hx).2.1⟩
      name := fun x hx => (data_of_mem_newEntries hx).1
      placeholder := fun x hx => (data_of_mem_newEntries hx).2.1
      content := fun x hx => (data_of_mem_newEntries hx).2.2
      nodup := ?_
      mem := fun _ hx => hx
      nodupK := hnodup
      once := fun x hx y hy hnode => absurd hnode (hdisj' x hx y hy)
      childless := fun x hx y hy hne hm hn =>
        Option.isNone_iff_eq_none.1 (hgood x hx y hy hne hm hn)
      length_le := ?_ } hfresh.nested
  · rw [map_append]
    refine hlinked.nodup.append hnodup fun n hn hn' => ?_
    obtain ⟨x, hx, rfl⟩ := mem_map.1 hn
    obtain ⟨y, hy, hnode⟩ := mem_map.1 hn'
    exact hdisj' x hx y hy hnode.symm
  · have hle := hfresh.length_le
    rw [length_append, length_map] at hle
    rw [length_append]
    omega

end MagicLantern.Menus
