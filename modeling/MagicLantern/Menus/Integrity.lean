import MagicLantern.Menus.Removing

/-!
# The integrity of the menu tree

In every sequence of calls the menus are doubly linked lists of what was added and not removed, and
the entries stand in the place of their placeholders, if three conditions are met: two entries of
one call that have the same name and are added to the same menu have no submenus; a submenu contains
exactly what was added with its entry when this entry is removed; and an entry that is removed is
the first one of its name, or stands in the place of the only placeholder before it.

A placeholder that is restored does not point to its menu any more. So each entry points to its menu
only if no placeholder is restored.

## Main results

* `run_integrity` — the menus in every sequence of calls.
* `run_integrity_fails` — why the conditions are needed.
-/

namespace MagicLantern.Menus

open List MenuTree

variable {α : Type} {s s' : MenuTree α} {a : List (Added α)} {x y : Added α} {menu : String}
  {fuel e : ℕ}

/-! ### What is shown when an entry has been removed -/

/-- An entry can be removed: it is the first one of its name, and no placeholder of another entry;
or just one placeholder is before it, whose place it has; or it is a placeholder behind an empty
place. -/
def CanRemove (before : List (Added α)) (x : Added α) (after : List (Added α)) : Prop :=
  if before.length = 0 then x.placeholder = true → (contents after).length = 0
  else if x.placeholder then (contents after).length < placeholders before
  else placeholders before = 1 ∧ (contents after).length = 0

instance (before : List (Added α)) (x : Added α) (after : List (Added α)) :
    Decidable (CanRemove before x after) := by
  unfold CanRemove
  infer_instance

theorem CanRemove.placeholders_ne_zero {before after : List (Added α)}
    (h : CanRemove before x after) (hne : before ≠ []) : placeholders before ≠ 0 := by
  rw [CanRemove, if_neg fun hnil => hne (length_eq_zero_iff.1 hnil)] at h
  split at h <;> omega

theorem Shown.flag_of_placeholders (h : Shown s a) (name : String)
    (hne : placeholders (named a menu name) ≠ 0) : (s.menus menu).hasPlaceholders = true := by
  have hnone : (none : Option α) ∈ (named a menu name).map (s.shownAt ·.node) := by
    rw [h.places]
    exact mem_append_right _ (mem_replicate.2 ⟨hne, rfl⟩)
  obtain ⟨y, hy, hempty⟩ := mem_map.1 hnone
  obtain ⟨hya, rfl, -⟩ := mem_named.1 hy
  refine h.flag y hya ?_
  by_contra hflag
  have hsome : s.shownAt y.node = some (s.entries y.node).content := if_neg hflag
  exact Option.some_ne_none _ (hsome.symm.trans hempty)

section Lists

variable {β : Type}

/-- The last place of a list of places becomes empty. -/
def clearLast (l : List (Option β)) : List (Option β) :=
  if l.length = 0 then [] else l.dropLast ++ [none]

theorem clearLast_concat (l : List (Option β)) (v : Option β) :
    clearLast (l ++ [v]) = l ++ [none] := by
  rw [clearLast, if_neg (by simp), dropLast_concat]

theorem places_removed {c₁ c₂ : List (Added α)} {v₁ v₂ : List (Option α)} {v : Option α}
    (h : v₁ ++ v :: v₂ = (contents (c₁ ++ x :: c₂)).map some ++
      replicate (placeholders (c₁ ++ x :: c₂)) none)
    (hv₁ : v₁.length = c₁.length) (hcan : CanRemove c₁ x c₂) :
    clearLast v₁ ++ v₂ =
      (contents (c₁ ++ c₂)).map some ++ replicate (placeholders (c₁ ++ c₂)) none := by
  have hlen₁ := length_contents_add_placeholders (l := c₁)
  have hcontents : contents (c₁ ++ x :: c₂) = contents c₁ ++ (contents [x] ++ contents c₂) := by
    rw [← contents_append, ← contents_append, singleton_append]
  have hplaceholders : placeholders (c₁ ++ x :: c₂) =
      placeholders c₁ + (placeholders [x] + placeholders c₂) := by
    rw [← placeholders_append, ← placeholders_append, singleton_append]
  rw [hcontents, hplaceholders] at h
  rw [contents_append, placeholders_append]
  unfold CanRemove at hcan
  split at hcan
  · next hc₁ =>
    -- the first one of its name
    obtain rfl := length_eq_zero_iff.1 hc₁
    obtain rfl := length_eq_zero_iff.1 hv₁
    cases hx : x.placeholder with
    | false =>
      rw [contents_singleton hx, placeholders_singleton hx] at h
      simpa [clearLast, contents, placeholders] using (cons.inj h).2
    | true =>
      have hc₂ := length_eq_zero_iff.1 (hcan hx)
      rw [contents_singleton_of_placeholder hx, placeholders_singleton_of_placeholder hx, hc₂,
        Nat.add_comm 1] at h
      rw [hc₂]
      simpa [clearLast, contents, placeholders, replicate_succ] using (cons.inj h).2
  · split at hcan
    · next hx =>
      -- a placeholder behind an empty place
      rw [contents_singleton_of_placeholder hx, placeholders_singleton_of_placeholder hx,
        nil_append] at h
      obtain ⟨k, hk⟩ : ∃ k, placeholders c₁ = (contents c₂).length + (k + 1) :=
        ⟨placeholders c₁ - (contents c₂).length - 1, by omega⟩
      have hsplit : placeholders c₁ + (1 + placeholders c₂) =
          k + 1 + ((contents c₂).length + placeholders c₂ + 1) := by omega
      rw [hsplit, replicate_add, ← append_assoc] at h
      obtain ⟨rfl, hv₂⟩ := append_inj h (by
        simp only [length_append, length_map, length_replicate]
        omega)
      rw [replicate_succ', ← append_assoc, clearLast_concat, (cons.inj hv₂).2,
        append_assoc _ _ [none], ← replicate_succ', append_assoc, ← replicate_add]
      congr 2
      omega
    · next hx =>
      -- the place of the only placeholder before it
      rw [Bool.not_eq_true] at hx
      obtain ⟨hone, hc₂⟩ := hcan
      rw [contents_singleton hx, placeholders_singleton hx, hone, length_eq_zero_iff.1 hc₂,
        append_nil] at h
      obtain ⟨rfl, hv₂⟩ := append_inj h (by
        simp only [length_append, length_map, length_singleton]
        omega)
      rw [Nat.zero_add, Nat.add_comm] at hv₂
      rw [map_append, map_singleton, clearLast_concat, (cons.inj hv₂).2, hone,
        length_eq_zero_iff.1 hc₂, Nat.add_comm, replicate_succ]
      simp

end Lists

section Remove

variable [Zero α] {b₁ b₂ : List (Added α)} {m n : String}

omit [Zero α] in
theorem named_remaining
    (hwiped : ¬ ((s.entries x.node).children.isSome = true ∧ m = (s.entries x.node).name)) :
    named (remaining s a x.node) m n = (named a m n).filter (·.node != x.node) := by
  rw [named, named, remaining, filter_filter, filter_filter, filter_filter]
  refine filter_congr fun y _ => ?_
  by_cases hy : y.menu = m
  · rw [hy]
    by_cases hsome : (s.entries x.node).children.isSome = true
    · have hm : (m == (s.entries x.node).name) = false :=
        beq_eq_false_iff_ne.2 fun heq => hwiped ⟨hsome, heq⟩
      simp [hm, Bool.and_comm]
    · simp [hsome, Bool.and_comm]
  · simp [beq_eq_false_iff_ne.2 hy]

variable (h : Linked s (b₁ ++ x :: b₂)) (hlen : (b₁ ++ x :: b₂).length ≤ fuel)

include h

omit [Zero α] in
theorem node_ne_of_mem (hy : y ∈ b₁ ++ b₂) : y.node ≠ x.node := by
  have hnodup := h.nodup
  rw [map_append, map_cons] at hnodup
  obtain ⟨-, hnodup₂, hdisj⟩ := nodup_append.1 hnodup
  rcases mem_append.1 hy with hy | hy
  · exact hdisj _ (mem_map_of_mem hy) _ mem_cons_self
  · exact ne_of_mem_of_not_mem (mem_map_of_mem hy) (nodup_cons.1 hnodup₂).1

omit [Zero α] in
theorem filter_named : (named (b₁ ++ x :: b₂) m n).filter (·.node != x.node) =
    named b₁ m n ++ named b₂ m n := by
  have hself (b : List (Added α)) (hb : ∀ y ∈ b, y ∈ b₁ ++ b₂) :
      (named b m n).filter (·.node != x.node) = named b m n := by
    refine filter_eq_self.2 fun y hy => ?_
    simpa using node_ne_of_mem h (hb y (mem_named.1 hy).1)
  have hx : (named [x] m n).filter (·.node != x.node) = [] := by
    refine filter_eq_nil_iff.2 fun y hy => ?_
    obtain rfl := mem_singleton.1 (mem_named.1 hy).1
    simp
  rw [← singleton_append, named_append, named_append, filter_append, filter_append, hx,
    hself b₁ fun y hy => mem_append_left _ hy, hself b₂ fun y hy => mem_append_right _ hy]
  rfl

include hlen

/-- The place of an entry that was turned into a placeholder is empty, and the others show what they
showed. -/
theorem shownAt_menuRemoveEntry (n : ℕ) : (s.menuRemoveEntry fuel x.menu x.node).shownAt n =
    if restored b₁ x = some n then none else s.shownAt n := by
  have hx : x ∈ b₁ ++ x :: b₂ := by simp
  rw [shownAt, entries_menuRemoveEntry h hlen]
  split
  · rfl
  · rw [entries_unlink (h.prev_ne hx), shownAt]

theorem map_shownAt_before : (named b₁ x.menu x.name).map
    ((s.menuRemoveEntry fuel x.menu x.node).shownAt ·.node) =
      clearLast ((named b₁ x.menu x.name).map (s.shownAt ·.node)) := by
  have hnodup : ((named b₁ x.menu x.name).map Added.node).Nodup := by
    have hnodup := h.nodup
    rw [map_append] at hnodup
    exact (nodup_append.1 hnodup).1.sublist (filter_sublist.map _)
  have hrest : restored b₁ x = (named b₁ x.menu x.name).getLast?.map Added.node := rfl
  rcases (named b₁ x.menu x.name).eq_nil_or_concat' with hnil | ⟨c, z, hc⟩
  · rw [hnil]
    rfl
  · rw [hc] at hnodup hrest ⊢
    rw [getLast?_append] at hrest
    change restored b₁ x = some z.node at hrest
    rw [map_append, map_append, map_singleton, map_singleton, clearLast_concat,
      shownAt_menuRemoveEntry h hlen, hrest, if_pos rfl]
    congr 1
    refine map_congr_left fun y hy => ?_
    rw [shownAt_menuRemoveEntry h hlen, hrest, if_neg]
    intro heq
    rw [map_append] at hnodup
    exact (nodup_append.1 hnodup).2.2 _ (mem_map_of_mem hy) _ (mem_singleton_self _)
      (Option.some.inj heq).symm

/-- Only entries of the same menu and name are turned into placeholders. -/
theorem map_shownAt_eq {b : List (Added α)} (hb : ∀ y ∈ b, y ∈ b₁ ++ x :: b₂)
    (hout : ∀ y ∈ b, y ∉ named b₁ x.menu x.name) :
    b.map ((s.menuRemoveEntry fuel x.menu x.node).shownAt ·.node) = b.map (s.shownAt ·.node) := by
  refine map_congr_left fun y hy => ?_
  rw [shownAt_menuRemoveEntry h hlen, if_neg]
  intro hrest
  obtain ⟨z, hz, hnode⟩ := Option.map_eq_some_iff.1 hrest
  have hz' := mem_of_getLast? hz
  obtain rfl := eq_of_node_eq h.nodup (mem_append_left _ (mem_named.1 hz').1) (hb y hy) hnode
  exact hout z hy hz'

/-- **What is shown when an entry has been removed.** -/
theorem Shown.remove (hshown : Shown s (b₁ ++ x :: b₂))
    (hcan : CanRemove (named b₁ x.menu x.name) x (named b₂ x.menu x.name)) :
    Shown (s.menuRemoveEntry fuel x.menu x.node) (remaining s (b₁ ++ x :: b₂) x.node) := by
  have hx : x ∈ b₁ ++ x :: b₂ := by simp
  have hmem₁ (y : Added α) (hy : y ∈ b₁) : y ∈ b₁ ++ x :: b₂ := mem_append_left _ hy
  have hmem₂ (y : Added α) (hy : y ∈ b₂) : y ∈ b₁ ++ x :: b₂ := by simp [hy]
  constructor
  · intro m n
    by_cases hwiped : (s.entries x.node).children.isSome = true ∧ m = (s.entries x.node).name
    · have hnil : named (remaining s (b₁ ++ x :: b₂) x.node) m n = [] := by
        refine filter_eq_nil_iff.2 fun y hy => ?_
        simp [hwiped.2, (mem_remaining.1 hy).2.2 hwiped.1]
      rw [hnil]
      rfl
    rw [named_remaining hwiped, filter_named h]
    have hplaces := hshown.places m n
    rw [← singleton_append, named_append, named_append] at hplaces
    by_cases hmn : x.menu = m ∧ x.name = n
    · obtain ⟨rfl, rfl⟩ := hmn
      rw [named_singleton_of_eq rfl rfl, map_append, map_append, map_singleton] at hplaces
      have hafter : (named b₂ x.menu x.name).map
          ((s.menuRemoveEntry fuel x.menu x.node).shownAt ·.node) =
            (named b₂ x.menu x.name).map (s.shownAt ·.node) := by
        refine map_shownAt_eq h hlen (fun y hy => hmem₂ y (mem_named.1 hy).1) fun y hy hy' => ?_
        have hnodup := Nodup.of_map _ h.nodup
        exact (nodup_append.1 hnodup).2.2 y (mem_named.1 hy').1 y
          (mem_cons_of_mem _ (mem_named.1 hy).1) rfl
      rw [map_append, map_shownAt_before h hlen, hafter]
      exact places_removed hplaces (length_map ..) hcan
    · rw [named_singleton_of_ne hmn, nil_append, ← named_append] at hplaces
      rw [← named_append, ← hplaces]
      refine map_shownAt_eq h hlen (fun y hy => ?_) fun y hy hy' => hmn ?_
      · rcases mem_append.1 (mem_named.1 hy).1 with hy | hy
        · exact hmem₁ y hy
        · exact hmem₂ y hy
      · obtain ⟨-, hm, hn⟩ := mem_named.1 hy
        obtain ⟨-, hm', hn'⟩ := mem_named.1 hy'
        exact ⟨hm'.symm.trans hm, hn'.symm.trans hn⟩
  · intro y hy hflag
    have hya := (mem_remaining.1 hy).1
    have hmenus : ((s.menuRemoveEntry fuel x.menu x.node).menus y.menu).hasPlaceholders =
        (s.menus y.menu).hasPlaceholders := by
      have hrestore (t : MenuTree α) : (t.restorePlaceholder fuel x.node).menus = t.menus := by
        unfold restorePlaceholder
        split <;> rfl
      rw [MenuTree.menuRemoveEntry, hrestore, hasPlaceholders_clearSubmenu, hasPlaceholders_unlink]
    rw [hmenus]
    rw [entries_menuRemoveEntry h hlen] at hflag
    split at hflag
    · next hrest =>
      obtain ⟨z, hz, hnode⟩ := Option.map_eq_some_iff.1 hrest
      have hz := mem_of_getLast? hz
      obtain rfl := eq_of_node_eq h.nodup (hmem₁ z (mem_named.1 hz).1) hya hnode
      rw [(mem_named.1 hz).2.1]
      have hne := hcan.placeholders_ne_zero (ne_nil_of_mem hz)
      refine hshown.flag_of_placeholders x.name ?_
      rw [named_append, placeholders_append]
      omega
    · rw [entries_unlink (h.prev_ne hx)] at hflag
      exact hshown.flag y hya hflag

end Remove

/-! ### Moving the selection -/

/-- The selection is changed. -/
def MenuTree.withSelected (s : MenuTree α) (f : ℕ → Bool) : MenuTree α :=
  { s with entries := fun n => { s.entries n with selected := f n } }

theorem modifyEntry_selected (s : MenuTree α) (e : ℕ) (b : Bool) :
    s.modifyEntry e ({ · with selected := b }) =
      s.withSelected (Function.update (fun n => (s.entries n).selected) e b) := by
  refine congrArg (MenuTree.mk · _) (funext fun n => ?_)
  by_cases hn : n = e
  · subst hn
    simp
  · simp [Function.update_of_ne hn]

theorem withSelected_trans {s'' : MenuTree α} {f g : ℕ → Bool} (h : s' = s.withSelected f)
    (h' : s'' = s'.withSelected g) : s'' = s.withSelected g := by
  subst h
  exact h'

/-- `menu_entry_move` only changes the selection. -/
theorem exists_withSelected {view : View} {direction : ℤ}
    (h : s.menuEntryMove fuel view menu direction = some s') : ∃ f, s' = s.withSelected f := by
  unfold menuEntryMove at h
  split at h
  · split at h
    · exact ⟨_, (Option.some.inj h).symm⟩
    · obtain ⟨e, -, rfl⟩ := Option.map_eq_some_iff.1 h
      exact ⟨_, withSelected_trans (modifyEntry_selected ..) (modifyEntry_selected ..)⟩
  · exact ⟨_, (Option.some.inj h).symm⟩

/-! ### Sequences of calls -/

/-- The entries before `x` with the same name in the same menu. -/
def before (a : List (Added α)) (x : Added α) : List (Added α) :=
  named (a.takeWhile (·.node != x.node)) x.menu x.name

/-- The entries behind `x` with the same name in the same menu. -/
def after (a : List (Added α)) (x : Added α) : List (Added α) :=
  named (a.dropWhile (·.node != x.node)).tail x.menu x.name

/-- One entry is removed. -/
def MenuRun.removeEntry [Zero α] (fuel : ℕ) (menu : String) (r : MenuRun α) (e : ℕ) :
    Option (MenuRun α) :=
  some { r with tree := r.tree.menuRemoveEntry fuel menu e, added := withoutEntry r.added e }

/-- An entry can be removed from a menu: it is there, its submenu is another menu and has exactly
those entries that were added with it, and the entries that have the same name allow it. -/
def MenuRun.RemoveGood (menu : String) (r : MenuRun α) (e : ℕ) : Prop :=
  ∃ x ∈ r.added, x.node = e ∧ x.menu = menu ∧
    ((r.tree.entries e).children.isSome = true → (r.tree.entries e).name ≠ menu) ∧
    (∀ y ∈ r.added, y.node ≠ e →
      (((r.tree.entries e).children.isSome = true ∧ y.menu = (r.tree.entries e).name) ↔
        e ∈ y.owners)) ∧
    CanRemove (before r.added x) x (after r.added x)

instance (menu : String) (r : MenuRun α) (e : ℕ) : Decidable (r.RemoveGood menu e) :=
  inferInstanceAs (Decidable (∃ x ∈ r.added, _))

/-- No placeholder is restored for an entry: no entry before it has the same name. -/
def MenuRun.NotRestored (r : MenuRun α) (e : ℕ) : Prop :=
  ∀ x ∈ r.added, x.node = e → (before r.added x).length = 0

instance (r : MenuRun α) (e : ℕ) : Decidable (r.NotRestored e) :=
  inferInstanceAs (Decidable (∀ x ∈ r.added, _))

section Run

variable [Zero α] (fuel : ℕ) (childCount : ℕ → ℕ)

/-- The condition on a call. Two entries that a call adds to the same menu under the same name have
no submenus; and each entry can be removed that is removed. -/
def MenuOp.Good (r : MenuRun α) : MenuOp → Prop
  | .add name newEntry count => AddGood fuel childCount r name newEntry count
  | .remove name oldEntry count =>
    Runs.Meets (MenuRun.removeEntry fuel name) (MenuRun.RemoveGood name)
      { r with tree := r.tree.menuFindByName name 0 } (removedNodes fuel r name oldEntry count)
  | _ => True

/-- No call restores a placeholder. -/
def MenuOp.NotRestored (r : MenuRun α) : MenuOp → Prop
  | .remove name oldEntry count =>
    Runs.Meets (MenuRun.removeEntry fuel name) MenuRun.NotRestored
      { r with tree := r.tree.menuFindByName name 0 } (removedNodes fuel r name oldEntry count)
  | _ => True

instance (r : MenuRun α) : DecidablePred (MenuOp.Good fuel childCount r) := fun op => by
  cases op <;> dsimp only [MenuOp.Good] <;> infer_instance

instance (r : MenuRun α) : DecidablePred (MenuOp.NotRestored fuel r) := fun op => by
  cases op <;> dsimp only [MenuOp.NotRestored] <;> infer_instance

end Run

/-- Each menu is a doubly linked list of the entries that were added and not removed, in the order
of insertion, and the entries that are no placeholders stand in the first places of their names. -/
structure MenuRun.Right (r : MenuRun α) : Prop where
  lists (m : String) :
    DoublyLinked (fun n => (r.tree.entries n).next) (fun n => (r.tree.entries n).prev)
    (r.tree.menus m).children (nodesOf r.added m)
  names : ∀ x ∈ r.added, (r.tree.entries x.node).name = x.name
  places (m n : String) : (named r.added m n).map (r.tree.shownAt ·.node) =
    (contents (named r.added m n)).map some ++ List.replicate (placeholders (named r.added m n))
      none

/-- The invariant. -/
structure MenuRun.Inv (fuel : ℕ) (r : MenuRun α) : Prop where
  linked : Linked r.tree r.added
  shown : Shown r.tree r.added
  ever : ∀ x ∈ r.added, x.node ∈ r.ever
  length_le : r.added.length ≤ r.ever.length
  ever_le : r.ever.length ≤ fuel

namespace MenuRun.Inv

variable {r r' : MenuRun α} {childCount : ℕ → ℕ}

theorem right (h : r.Inv fuel) : r.Right :=
  ⟨h.linked.lists, h.linked.names, h.shown.places⟩

theorem init (fuel : ℕ) (entries : ℕ → MenuEntry α) : (MenuRun.init entries).Inv fuel where
  linked := ⟨fun _ => .nil, nodup_nil, nofun⟩
  shown := ⟨fun _ _ => rfl, nofun⟩
  ever := nofun
  length_le := Nat.le.refl
  ever_le := Nat.zero_le fuel

theorem of_tree (h : r.Inv fuel) {t : MenuTree α} (hlinked : Linked t r.added)
    (hshown : Shown t r.added) : Inv fuel { r with tree := t } :=
  ⟨hlinked, hshown, h.ever, h.length_le, h.ever_le⟩

theorem menuFindByName (h : r.Inv fuel) (name : String) (icon : ℤ) :
    Inv fuel { r with tree := r.tree.menuFindByName name icon } := by
  have hext : Extends [] [] r.tree r.added (r.tree.menuFindByName name icon) [] :=
    .menuFindByName h.linked
  have hlinked := hext.linked
  have hshown := hext.shown h.shown
  rw [append_nil] at hlinked hshown
  exact h.of_tree hlinked hshown

theorem move (h : r.Inv fuel) (f : ℕ → Bool) : Inv fuel { r with tree := r.tree.withSelected f } :=
  h.of_tree (h.linked.congr (fun _ => rfl) (fun _ => rfl) (fun _ => rfl) fun _ => rfl)
    ⟨h.shown.places, h.shown.flag⟩

variable [Zero α] {name : String} {count oldEntry : ℕ} {op : MenuOp}

theorem add (h : r.Inv fuel) {newEntry : ℕ} (hfresh : Fresh fuel childCount r name newEntry count)
    (hgood : MenuOp.Good fuel childCount r (.add name newEntry count)) :
    Extends (newEntries childCount r.tree.entries fuel name newEntry count [])
      ((newEntries childCount r.tree.entries fuel name newEntry count []).map Added.node)
        r.tree r.added
      (r.tree.menuAddInternal fuel childCount fuel name newEntry count)
      (newEntries childCount r.tree.entries fuel name newEntry count []) :=
  extends_menuAdd h.linked h.ever h.length_le hfresh hgood

omit [Zero α] in
theorem exists_before_after (hnodup : (a.map Added.node).Nodup) (hx : x ∈ a) :
    ∃ b₁ b₂, a = b₁ ++ x :: b₂ ∧ before a x = named b₁ x.menu x.name ∧
      after a x = named b₂ x.menu x.name := by
  obtain ⟨b₁, b₂, rfl⟩ := append_of_mem hx
  rw [map_append, map_cons] at hnodup
  have hb₁ (y : Added α) (hy : y ∈ b₁) : (y.node != x.node) = true := by
    simpa using (nodup_append.1 hnodup).2.2 _ (mem_map_of_mem hy) _ mem_cons_self
  refine ⟨b₁, b₂, rfl, ?_, ?_⟩
  · rw [before, takeWhile_append_of_pos hb₁, takeWhile_cons_of_neg (by simp), append_nil]
  · rw [after, dropWhile_append_of_pos hb₁, dropWhile_cons_of_neg (by simp), tail_cons]

theorem removeEntry (h : r.Inv fuel) (hgood : r.RemoveGood menu e)
    (hr : r.removeEntry fuel menu e = some r') : r'.Inv fuel := by
  cases hr
  obtain ⟨x, hx, rfl, rfl, -, hsub, hcan⟩ := hgood
  have hrest : withoutEntry r.added x.node = remaining r.tree r.added x.node := by
    rw [remaining, filter_filter]
    refine filter_congr fun y hy => ?_
    by_cases hne : y.node = x.node
    · simp [hne]
    · have hiff := hsub y hy hne
      by_cases howner : x.node ∈ y.owners
      · obtain ⟨hsome, hmenu⟩ := hiff.2 howner
        simp [howner, hsome, hmenu]
      · have hnot (hsome : (r.tree.entries x.node).children.isSome = true) :
            y.menu ≠ (r.tree.entries x.node).name := fun hmenu => howner (hiff.1 ⟨hsome, hmenu⟩)
        by_cases hsome : (r.tree.entries x.node).children.isSome = true
        · simp [hne, howner, hnot hsome]
        · simp [hne, howner, hsome]
  have hlen := Nat.le_trans h.length_le h.ever_le
  refine ⟨?_, ?_, fun y hy => h.ever y (mem_of_mem_filter hy),
    Nat.le_trans (length_filter_le ..) h.length_le, h.ever_le⟩
  · rw [hrest]
    exact h.linked.menuRemoveEntry hx
  · rw [hrest]
    obtain ⟨b₁, b₂, heq, hbefore, hafter⟩ := exists_before_after h.linked.nodup hx
    rw [hbefore, hafter] at hcan
    have hlinked := h.linked
    have hshown := h.shown
    rw [heq] at hlinked hshown hlen ⊢
    exact hshown.remove hlinked hlen hcan

/-- The entry that was removed was the first one of its name: the others still point to their menus.
-/
theorem parents_removeEntry (h : r.Inv fuel) (hgood : r.RemoveGood menu e) (hrest : r.NotRestored e)
    (hparents : Parents r.tree r.added) (hr : r.removeEntry fuel menu e = some r') :
    Parents r'.tree r'.added := by
  cases hr
  obtain ⟨x, hx, rfl, rfl, -⟩ := hgood
  obtain ⟨b₁, b₂, heq, hbefore, -⟩ := exists_before_after h.linked.nodup hx
  have hlen := Nat.le_trans h.length_le h.ever_le
  have hlinked := h.linked
  rw [heq] at hlinked hlen
  have hnone : restored b₁ x = none := by
    have hnil := length_eq_zero_iff.1 (hrest x hx rfl)
    rw [restored, ← hbefore, hnil]
    rfl
  intro y hy
  have hentry : ((r.tree.menuRemoveEntry fuel x.menu x.node).entries y.node).parentMenu =
      (r.tree.entries y.node).parentMenu := by
    rw [entries_menuRemoveEntry hlinked hlen, hnone, if_neg (by simp),
      entries_unlink (h.linked.prev_ne hx)]
  exact hentry.trans (hparents y (mem_of_mem_filter hy))

omit [Zero α] in
theorem removedNodes_zero : removedNodes fuel r name oldEntry 0 = [] := by
  refine filter_eq_nil_iff.2 fun e _ => ?_
  simp only [decide_eq_true_eq]
  omega

theorem foldlM_removeEntry (h : r.Inv fuel) (hzero : count ≠ 0)
    (hgood : MenuOp.Good fuel childCount r (.remove name oldEntry count))
    (hr : MenuOp.step fuel childCount r (.remove name oldEntry count) = some r') :
    (removedNodes fuel r name oldEntry count).foldlM (MenuRun.removeEntry fuel name)
      { r with tree := r.tree.menuFindByName name 0 } = some r' := by
  cases hr
  have hlen := Nat.le_trans h.length_le h.ever_le
  have hnodes : removedNodes fuel r name oldEntry count =
      (nodesOf r.added name).filter fun e => oldEntry ≤ e ∧ e < oldEntry + count := by
    rw [removedNodes, h.linked.forward_eq hlen]
  have hown : Runs.Meets (removeStep fuel name) (NotOwn name) (r.tree.menuFindByName name 0)
      ((nodesOf r.added name).filter fun e => oldEntry ≤ e ∧ e < oldEntry + count) := by
    rw [← hnodes]
    exact Runs.Meets.map (f := MenuRun.tree) (fun _ _ => rfl)
      (fun _ _ ⟨_, _, _, _, hown, _⟩ => hown) hgood
  -- the tree and the record are changed independently
  have hfold (l : List ℕ) (q : MenuRun α) : l.foldlM (MenuRun.removeEntry fuel name) q =
      some { q with
        tree := l.foldl (MenuTree.menuRemoveEntry fuel · name ·) q.tree
        added := l.foldl withoutEntry q.added } := by
    induction l generalizing q with
    | nil => rfl
    | cons e l ih =>
      exact ih _
  rw [hfold, h.linked.menuRemove_eq hlen hzero hown, hnodes]

theorem step_remove_zero (r : MenuRun α) (name : String) (oldEntry : ℕ) :
    MenuOp.step fuel childCount r (.remove name oldEntry 0) = some r := by
  rw [MenuOp.step, removedNodes_zero]
  rfl

/-- **What one call keeps.** The entries still point to their menus if no placeholder is restored.
-/
theorem step (h : r.Inv fuel) (hgood : op.Good fuel childCount r)
    (hr : op.step fuel childCount r = some r') : r'.Inv fuel ∧
      (Parents r.tree r.added → op.NotRestored fuel r → Parents r'.tree r'.added) := by
  cases op with
  | find name icon =>
    cases hr
    exact ⟨h.menuFindByName name icon, fun hparents _ => hparents⟩
  | add name newEntry count =>
    rw [MenuOp.step] at hr
    split at hr
    · next hfresh =>
      cases hr
      have hext := h.add hfresh hgood
      have hlen := h.length_le
      refine ⟨⟨hext.linked, hext.shown h.shown, fun x hx => ?_, ?_, hfresh.length_le⟩,
        fun hparents _ => hext.parents hparents⟩
      · rcases mem_append.1 hx with hx | hx
        · exact mem_append_left _ (h.ever x hx)
        · exact mem_append_right _ (mem_map_of_mem hx)
      · simp only [length_append, length_map]
        omega
    · exact absurd hr (by simp)
  | remove name oldEntry count =>
    by_cases hzero : count = 0
    · subst hzero
      obtain rfl := Option.some.inj ((step_remove_zero ..).symm.trans hr)
      exact ⟨h, fun hparents _ => hparents⟩
    · have hrun := h.foldlM_removeEntry hzero hgood hr
      refine ⟨Runs.invariant_of_meets (I := MenuRun.Inv fuel)
        (fun _ _ _ hI hP hs => hI.removeEntry hP hs) hgood hrun (h.menuFindByName name 0),
        fun hparents hrest => ?_⟩
      exact (Runs.invariant_of_meets (I := fun q => MenuRun.Inv fuel q ∧ Parents q.tree q.added)
        (fun _ _ _ hI hP hs =>
          ⟨hI.1.removeEntry hP.1 hs, hI.1.parents_removeEntry hP.1 hP.2 hI.2 hs⟩)
        (hgood.and hrest) hrun ⟨h.menuFindByName name 0, hparents⟩).2
  | move view menu direction =>
    obtain ⟨t, ht, rfl⟩ := Option.map_eq_some_iff.1 hr
    obtain ⟨f, rfl⟩ := exists_withSelected ht
    exact ⟨h.move f, fun hparents _ => hparents⟩

end MenuRun.Inv

/-- **The integrity of the menu tree.** In every sequence of calls that meet the condition, each
menu is a doubly linked list of the entries that were added and not removed, in the order of
insertion, and the entries stand in the places of their placeholders, which are restored when the
entries are removed. If no placeholder is restored, then each entry points to its menu. -/
theorem run_integrity [Zero α] (fuel : ℕ) (childCount : ℕ → ℕ) (entries : ℕ → MenuEntry α)
    (ops : List MenuOp)
    (hgood : Runs.Meets (MenuOp.step fuel childCount) (MenuOp.Good fuel childCount) (.init entries)
      ops) :
    Runs.Always (MenuOp.step fuel childCount) MenuRun.Right (.init entries) ops ∧
    (Runs.Meets (MenuOp.step fuel childCount) (MenuOp.NotRestored fuel) (.init entries) ops →
      Runs.Always (MenuOp.step fuel childCount) (fun r => r.Right ∧ Parents r.tree r.added)
        (.init entries) ops) := by
  refine ⟨hgood.always (J := MenuRun.Inv fuel) (fun _ h => h.right)
    (fun _ _ _ h hP hs => (h.step hP hs).1) (.init fuel entries), fun hrest => ?_⟩
  exact (hgood.and hrest).always (J := fun r => MenuRun.Inv fuel r ∧ Parents r.tree r.added)
    (fun _ h => ⟨h.1.right, h.2⟩)
    (fun _ _ _ h hP hs => ⟨(h.1.step hP.1 hs).1, (h.1.step hP.1 hs).2 h.2 hP.2⟩)
    ⟨.init fuel entries, nofun⟩

/-- An entry of an array. -/
def arrayEntry (name : String) (placeholder : Bool) (content : ℕ) (children : Option ℕ) :
    MenuEntry ℕ :=
  { (menuPlaceholder name : MenuEntry ℕ) with
    shidden := placeholder, placeholder := placeholder, content := content, children := children }

/-- Some arrays: a placeholder; its entry, and one with a submenu, which has a submenu itself; a
second entry for the placeholder; and another entry with a submenu. -/
def someEntries : ℕ → MenuEntry ℕ
  | 0 => arrayEntry "ISO" true 0 none
  | 1 => arrayEntry "ISO" false 1 none
  | 2 => arrayEntry "HDR" false 2 (some 4)
  | 4 => arrayEntry "Steps" false 4 (some 6)
  | 6 => arrayEntry "Size" false 6 none
  | 8 => arrayEntry "ISO" false 8 none
  | 11 => arrayEntry "Bulb" false 11 (some 13)
  | 13 => arrayEntry "Time" false 13 none
  | n => arrayEntry "Delay" false n none

/-- The lengths of the submenus. -/
def someCounts : ℕ → ℕ
  | 4 => 1
  | 6 => 1
  | 13 => 1
  | _ => 0

/-- A placeholder gets its entry, and an entry without placeholder is removed again. -/
theorem run_integrity_iso :
    let ops : List MenuOp :=
      [.add "Expo" 0 1, .add "Expo" 1 1, .add "Expo" 11 1, .remove "Expo" 11 1]
    Runs.Meets (MenuOp.step 4 someCounts) (MenuOp.Good 4 someCounts) (.init someEntries) ops ∧
    Runs.Meets (MenuOp.step 4 someCounts) (MenuOp.NotRestored 4) (.init someEntries) ops ∧
    Runs.Always (MenuOp.step 4 someCounts) (fun r => r.Right ∧ Parents r.tree r.added)
      (.init someEntries) ops :=
  ⟨by decide +kernel, by decide +kernel,
    (run_integrity 4 someCounts someEntries _ (by decide +kernel)).2 (by decide +kernel)⟩

/-- What the conditions on removals exclude. A placeholder that is restored does not point to its
menu. The submenu of an entry of a submenu is left behind. An entry that was added to a submenu by
itself is lost. An entry is turned into a placeholder when another one of its name is removed. -/
theorem run_integrity_fails :
    (∃ r, [MenuOp.add "Expo" 0 1, .add "Expo" 1 1, .remove "Expo" 1 1].foldlM
        (MenuOp.step 4 someCounts) (.init someEntries) = some r ∧
      (r.tree.menus "Expo").children = some 0 ∧ (r.tree.entries 0).parentMenu = none) ∧
    (∃ r, [MenuOp.add "Expo" 2 1, .remove "Expo" 2 1].foldlM
        (MenuOp.step 4 someCounts) (.init someEntries) = some r ∧
      nodesOf r.added "Steps" = [] ∧ (r.tree.menus "Steps").children = some 6) ∧
    (∃ r, [MenuOp.add "Expo" 2 1, .add "HDR" 20 1, .remove "Expo" 2 1].foldlM
        (MenuOp.step 4 someCounts) (.init someEntries) = some r ∧
      nodesOf r.added "HDR" = [20] ∧ (r.tree.menus "HDR").children = none) ∧
    ∃ r, [MenuOp.add "Expo" 1 1, .add "Expo" 8 1, .remove "Expo" 8 1].foldlM
        (MenuOp.step 4 someCounts) (.init someEntries) = some r ∧
      nodesOf r.added "Expo" = [1] ∧ r.tree.shownAt 1 = none := by
  refine ⟨?_, ?_, ?_, ?_⟩
  all_goals exact ⟨_, rfl, by decide +kernel, by decide +kernel⟩

end MagicLantern.Menus
