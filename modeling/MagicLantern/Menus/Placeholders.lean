import MagicLantern.Menus.Links

/-!
# Placeholders

Among the entries of a menu that have the same name, those that were added as placeholders keep a
place for the others. So the first places show the entries that are no placeholders, in the order of
insertion, and nothing is shown in the remaining places.
-/

namespace MagicLantern.Menus

open List MenuTree

variable {α : Type} {s t : MenuTree α} {a : List (Added α)} {x y : Added α} {menu name : String}
  {fuel e p : ℕ}

/-- What is shown in a place: nothing if there is a placeholder. -/
def MenuTree.shownAt (s : MenuTree α) (n : ℕ) : Option α :=
  if (s.entries n).placeholder then none else some (s.entries n).content

/-- The entries of a menu with the same name. -/
def named (a : List (Added α)) (menu name : String) : List (Added α) :=
  a.filter fun x => x.menu == menu && x.name == name

/-- The contents of the entries that are no placeholders. -/
def contents (l : List (Added α)) : List α :=
  (l.filter (!·.placeholder)).map Added.content

/-- The number of placeholders. -/
def placeholders (l : List (Added α)) : ℕ := l.countP (·.placeholder)

/-- The first places of each name show the entries that are no placeholders, and the others nothing.
-/
structure Shown (s : MenuTree α) (a : List (Added α)) : Prop where
  places (m n : String) : (named a m n).map (s.shownAt ·.node) =
    (contents (named a m n)).map some ++ List.replicate (placeholders (named a m n)) none
  flag : ∀ x ∈ a, (s.entries x.node).placeholder = true → (s.menus x.menu).hasPlaceholders = true

theorem mem_named : x ∈ named a menu name ↔ x ∈ a ∧ x.menu = menu ∧ x.name = name := by
  simp [named]

theorem named_append (a b : List (Added α)) :
    named (a ++ b) menu name = named a menu name ++ named b menu name :=
  filter_append ..

theorem named_singleton_of_eq (hm : x.menu = menu) (hn : x.name = name) :
    named [x] menu name = [x] := by
  simp [named, hm, hn]

theorem named_singleton_of_ne (h : ¬ (x.menu = menu ∧ x.name = name)) :
    named [x] menu name = [] := by
  simpa [named] using h

section Lists

variable {l l₁ l₂ : List (Added α)}

theorem contents_append : contents (l₁ ++ l₂) = contents l₁ ++ contents l₂ := by
  rw [contents, filter_append, map_append]
  rfl

theorem placeholders_append : placeholders (l₁ ++ l₂) = placeholders l₁ + placeholders l₂ :=
  countP_append

theorem contents_singleton_of_placeholder (h : x.placeholder = true) : contents [x] = [] := by
  simp [contents, h]

theorem contents_singleton (h : x.placeholder = false) : contents [x] = [x.content] := by
  simp [contents, h]

theorem placeholders_singleton_of_placeholder (h : x.placeholder = true) :
    placeholders [x] = 1 := by
  simp [placeholders, h]

theorem placeholders_singleton (h : x.placeholder = false) : placeholders [x] = 0 := by
  simp [placeholders, h]

theorem length_contents_add_placeholders : (contents l).length + placeholders l = l.length := by
  induction l with
  | nil => rfl
  | cons x l ih =>
    rw [← singleton_append, contents_append, placeholders_append, length_append,
      length_append]
    cases hx : x.placeholder with
    | false =>
      rw [contents_singleton hx, placeholders_singleton hx]
      simp only [length_singleton]
      omega
    | true =>
      rw [contents_singleton_of_placeholder hx, placeholders_singleton_of_placeholder hx]
      simp only [length_singleton, length_nil]
      omega

/-- The first empty place is behind all that are not empty. -/
theorem split_first_none {β : Type} {c : List β} {k : ℕ} {v₁ v₂ : List (Option β)}
    (h : v₁ ++ none :: v₂ = c.map some ++ replicate k none) (hv : none ∉ v₁) :
    v₁ = c.map some ∧ none :: v₂ = replicate k none := by
  induction c generalizing v₁ with
  | nil =>
    cases v₁ with
    | nil => exact ⟨rfl, h⟩
    | cons v v₁ =>
      have hmem : v ∈ replicate k (none : Option β) := by
        rw [map_nil, nil_append] at h
        rw [← h]
        simp
      obtain rfl := eq_of_mem_replicate hmem
      exact absurd mem_cons_self hv
  | cons b c ih =>
    cases v₁ with
    | nil => simp at h
    | cons v v₁ =>
      obtain ⟨rfl, htail⟩ := cons.inj h
      obtain ⟨rfl, hrest⟩ := ih htail fun hmem => hv (mem_cons_of_mem _ hmem)
      exact ⟨rfl, hrest⟩

end Lists

/-! ### A new entry -/

/-- The exchange of a placeholder and a new entry. -/
def MenuTree.exchange (t : MenuTree α) (p newEntry : ℕ) : MenuTree α :=
  (t.modifyEntry p fun y =>
      { placeholderCopy y (t.entries newEntry) with shidden := false }).modifyEntry newEntry
    ({ · with shidden := true, placeholder := true })

section Update

variable (h : Linked t (a ++ [x])) (hlen : (a ++ [x]).length ≤ fuel)

include h hlen

/-- The placeholder that `menu_update_placeholder` looks for. -/
theorem find?_placeholder :
    ((t.forward fuel (t.menus x.menu).children).find? fun e =>
      e ≠ x.node && (t.entries e).placeholder && (t.entries e).name == (t.entries x.node).name) =
    ((named a x.menu x.name).find? fun y => (t.entries y.node).placeholder).map Added.node := by
  have hself : ([x.node].find? fun e =>
      e ≠ x.node && (t.entries e).placeholder && (t.entries e).name == (t.entries x.node).name) =
      none := by
    simp
  rw [h.forward_eq hlen, nodesOf_concat rfl, find?_append, hself, Option.or_none, nodesOf,
    find?_map, find?_filter, named, find?_filter, ← head?_filter,
    ← head?_filter]
  congr 2
  have hnodup := h.nodup
  rw [map_append] at hnodup
  refine filter_congr fun y hy => ?_
  have hne : y.node ≠ x.node := by
    refine ne_of_mem_of_not_mem (mem_map_of_mem hy) fun hmem => ?_
    exact (nodup_append.1 hnodup).2.2 _ hmem _ (mem_singleton_self _) rfl
  rw [Function.comp_apply, h.names y (mem_append_left _ hy), h.names x (by simp)]
  cases (t.entries y.node).placeholder <;> simp [hne]

/-- What `menu_update_placeholder` does: it sets the flag of the menu, finds no placeholder, or
exchanges the first placeholder of that name and the new entry. -/
theorem menuUpdatePlaceholder_cases :
    ((t.entries x.node).placeholder = true ∧ t.menuUpdatePlaceholder fuel x.menu x.node =
      t.modifyMenu x.menu ({ · with hasPlaceholders := true })) ∨
    ((t.entries x.node).placeholder = false ∧ t.menuUpdatePlaceholder fuel x.menu x.node = t ∧
      ((t.menus x.menu).hasPlaceholders = true →
        ∀ y ∈ named a x.menu x.name, (t.entries y.node).placeholder = false)) ∨
    ((t.entries x.node).placeholder = false ∧ ∃ c₁ y c₂, named a x.menu x.name = c₁ ++ y :: c₂ ∧
      (∀ z ∈ c₁, (t.entries z.node).placeholder = false) ∧ (t.entries y.node).placeholder = true ∧
      t.menuUpdatePlaceholder fuel x.menu x.node = t.exchange y.node x.node) := by
  cases hph : (t.entries x.node).placeholder with
  | true =>
    refine .inl ⟨rfl, ?_⟩
    rw [menuUpdatePlaceholder, if_pos hph]
  | false =>
    right
    rw [menuUpdatePlaceholder, if_neg (by simp [hph])]
    cases hflag : (t.menus x.menu).hasPlaceholders with
    | false => exact .inl ⟨rfl, if_neg (by simp), fun h => absurd h (by simp)⟩
    | true =>
      rw [find?_placeholder h hlen]
      cases hfind : (named a x.menu x.name).find? fun y => (t.entries y.node).placeholder with
      | none =>
        refine .inl ⟨rfl, rfl, fun _ y hy => ?_⟩
        simpa using find?_eq_none.1 hfind y hy
      | some y =>
        obtain ⟨hy, c₁, c₂, heq, hc₁⟩ := find?_eq_some_iff_append.1 hfind
        exact .inr ⟨rfl, c₁, y, c₂, heq, fun z hz => by simpa using hc₁ z hz, hy, rfl⟩

end Update

namespace MenuTree

variable (t)

theorem exchange_entries_of_ne {n : ℕ} (hp : n ≠ p) (he : n ≠ e) :
    (t.exchange p e).entries n = t.entries n := by
  rw [exchange, entries_modifyEntry_of_ne _ he, entries_modifyEntry_of_ne _ hp]

theorem exchange_entries_placeholder (hne : p ≠ e) :
    (t.exchange p e).entries p =
      { placeholderCopy (t.entries p) (t.entries e) with shidden := false } := by
  rw [exchange, entries_modifyEntry_of_ne _ hne, entries_modifyEntry_self]

theorem exchange_entries_new (hne : p ≠ e) :
    (t.exchange p e).entries e = { t.entries e with shidden := true, placeholder := true } := by
  rw [exchange, entries_modifyEntry_self, entries_modifyEntry_of_ne _ hne.symm]

end MenuTree

namespace Appended

variable (h : Appended s a x t) (hshown : Shown s a)
  (hph : (s.entries x.node).placeholder = x.placeholder)
  (hcontent : (s.entries x.node).content = x.content)

include h

theorem ne_of_mem (hy : y ∈ a) : y.node ≠ x.node := by
  have hnodup := h.linked.nodup
  rw [map_append] at hnodup
  exact (nodup_append.1 hnodup).2.2 _ (mem_map_of_mem hy) _ (mem_singleton_self _)

theorem placeholder_of_mem (hy : y ∈ a) :
    (t.entries y.node).placeholder = (s.entries y.node).placeholder := by
  rw [h.others y.node (h.ne_of_mem hy)]

theorem shownAt_of_mem (hy : y ∈ a) : t.shownAt y.node = s.shownAt y.node := by
  rw [shownAt, shownAt, h.others y.node (h.ne_of_mem hy)]

theorem map_shownAt (m n : String) :
    (named a m n).map (t.shownAt ·.node) = (named a m n).map (s.shownAt ·.node) :=
  map_congr_left fun _ hy => h.shownAt_of_mem (mem_named.1 hy).1

include hph in
theorem shownAt_self_of_placeholder (hx : x.placeholder = true) : t.shownAt x.node = none := by
  rw [shownAt, h.placeholder, hph, hx, if_pos rfl]

include hph hcontent in
theorem shownAt_self (hx : x.placeholder = false) : t.shownAt x.node = some x.content := by
  rw [shownAt, h.placeholder, hph, hx, h.content, hcontent]
  rfl

include hshown in
/-- If no placeholder has the name of the new entry, then all places of this name are taken. -/
theorem placeholders_eq_zero
    (hall : ∀ y ∈ named a x.menu x.name, (t.entries y.node).placeholder = false) :
    placeholders (named a x.menu x.name) = 0 := by
  by_contra hne
  have hnone : (none : Option α) ∈ (named a x.menu x.name).map (t.shownAt ·.node) := by
    rw [h.map_shownAt, hshown.places]
    exact mem_append_right _ (mem_replicate.2 ⟨hne, rfl⟩)
  obtain ⟨y, hy, hnone⟩ := mem_map.1 hnone
  rw [shownAt, hall y hy] at hnone
  exact absurd hnone (by simp)

theorem map_shownAt_other {t' : MenuTree α} {m n : String} (hmn : ¬ (x.menu = m ∧ x.name = n))
    (hsame : ∀ y ∈ named a m n, t'.shownAt y.node = t.shownAt y.node) :
    (named (a ++ [x]) m n).map (t'.shownAt ·.node) = (named a m n).map (s.shownAt ·.node) := by
  rw [named_append, named_singleton_of_ne hmn, append_nil, ← h.map_shownAt]
  exact map_congr_left hsame

include hshown hph

theorem shown_placeholder (hx : x.placeholder = true) :
    Shown (t.modifyMenu x.menu ({ · with hasPlaceholders := true })) (a ++ [x]) where
  places m n := by
    by_cases hmn : x.menu = m ∧ x.name = n
    · obtain ⟨rfl, rfl⟩ := hmn
      rw [named_append, named_singleton_of_eq rfl rfl, map_append, contents_append,
        placeholders_append, contents_singleton_of_placeholder hx,
        placeholders_singleton_of_placeholder hx, append_nil, replicate_succ', ← append_assoc,
        ← hshown.places, ← h.map_shownAt]
      congr 1
      exact congrArg ([·]) (h.shownAt_self_of_placeholder hph hx)
    · refine (h.map_shownAt_other hmn fun _ _ => rfl).trans ?_
      rw [named_append, named_singleton_of_ne hmn, append_nil, hshown.places]
  flag y hy hflag := by
    by_cases hm : y.menu = x.menu
    · rw [hm, menus_modifyMenu_self]
    · rw [menus_modifyMenu_of_ne _ hm, h.hasPlaceholders]
      have hy : y ∈ a := by
        rcases mem_append.1 hy with hy | hy
        · exact hy
        · exact absurd (congrArg Added.menu (mem_singleton.1 hy)) hm
      exact hshown.flag y hy ((h.placeholder_of_mem hy).symm.trans hflag)

variable (hx : x.placeholder = false)

include hx hcontent

theorem shown_kept (hall : ∀ y ∈ named a x.menu x.name, (t.entries y.node).placeholder = false) :
    Shown t (a ++ [x]) where
  places m n := by
    by_cases hmn : x.menu = m ∧ x.name = n
    · obtain ⟨rfl, rfl⟩ := hmn
      rw [named_append, named_singleton_of_eq rfl rfl, map_append, contents_append,
        placeholders_append, contents_singleton hx, placeholders_singleton hx, h.map_shownAt,
          hshown.places,
        h.placeholders_eq_zero hshown hall, map_append, map_singleton,
        h.shownAt_self hph hcontent hx]
      simp
    · rw [h.map_shownAt_other hmn fun _ _ => rfl, named_append, named_singleton_of_ne hmn,
        append_nil, hshown.places]
  flag y hy hflag := by
    rcases mem_append.1 hy with hy | hy
    · rw [h.hasPlaceholders]
      exact hshown.flag y hy ((h.placeholder_of_mem hy).symm.trans hflag)
    · obtain rfl := mem_singleton.1 hy
      exact absurd hflag (by simp [h.placeholder, hph, hx])

theorem shown_exchange {c₁ c₂ : List (Added α)} (heq : named a x.menu x.name = c₁ ++ y :: c₂)
    (hc₁ : ∀ z ∈ c₁, (t.entries z.node).placeholder = false)
    (hy : (t.entries y.node).placeholder = true) : Shown (t.exchange y.node x.node) (a ++ [x]) := by
  have hmem (z : Added α) (hz : z ∈ c₁ ++ y :: c₂) : z ∈ a := (mem_named.1 (heq ▸ hz)).1
  have hya : y ∈ a := hmem y (by simp)
  have hne : y.node ≠ x.node := h.ne_of_mem hya
  have hym : y.menu = x.menu := (mem_named.1 (heq ▸ by simp : y ∈ named a x.menu x.name)).2.1
  have hnodup : (a.map Added.node).Nodup := by
    have hnodup := h.linked.nodup
    rw [map_append] at hnodup
    exact (nodup_append.1 hnodup).1
  -- the other places
  have hother (z : Added α) (hz : z ∈ a) (hzy : z ≠ y) :
      (t.exchange y.node x.node).shownAt z.node = t.shownAt z.node := by
    rw [shownAt, shownAt, exchange_entries_of_ne t _ (h.ne_of_mem hz)]
    exact fun hnode => hzy (eq_of_node_eq hnodup hz hya hnode)
  have hyc : y ∉ c₁ ∧ y ∉ c₂ := by
    have hnodup : (c₁ ++ y :: c₂).Nodup := heq ▸ (Nodup.of_map _ hnodup).filter _
    obtain ⟨-, hyc₂, hdisj⟩ := nodup_append.1 hnodup
    exact ⟨fun hy => hdisj y hy y mem_cons_self rfl, (nodup_cons.1 hyc₂).1⟩
  constructor
  · intro m n
    by_cases hmn : x.menu = m ∧ x.name = n
    · obtain ⟨rfl, rfl⟩ := hmn
      have hplaces := hshown.places x.menu x.name
      rw [← h.map_shownAt, heq, map_append, map_cons] at hplaces
      have hnone : t.shownAt y.node = none := by rw [shownAt, hy, if_pos rfl]
      rw [hnone] at hplaces
      obtain ⟨hc₁', hc₂'⟩ := split_first_none hplaces fun hmem => by
        obtain ⟨z, hz, hzn⟩ := mem_map.1 hmem
        rw [shownAt, hc₁ z hz] at hzn
        exact absurd hzn (by simp)
      have hnew : (t.exchange y.node x.node).shownAt y.node = some x.content := by
        rw [shownAt, exchange_entries_placeholder t hne]
        simp [placeholderCopy, h.placeholder, hph, hx, h.content, hcontent]
      have hself : (t.exchange y.node x.node).shownAt x.node = none := by
        rw [shownAt, exchange_entries_new t hne, if_pos rfl]
      have hmap₁ : c₁.map ((t.exchange y.node x.node).shownAt ·.node) = c₁.map (t.shownAt ·.node) :=
        map_congr_left fun z hz =>
          hother z (hmem z (by simp [hz])) (ne_of_mem_of_not_mem hz hyc.1)
      have hmap₂ : c₂.map ((t.exchange y.node x.node).shownAt ·.node) = c₂.map (t.shownAt ·.node) :=
        map_congr_left fun z hz =>
          hother z (hmem z (by simp [hz])) (ne_of_mem_of_not_mem hz hyc.2)
      -- the place of the new entry itself is one more empty place at the end
      have hend : c₂.map (t.shownAt ·.node) ++ [none] =
          replicate (placeholders (c₁ ++ y :: c₂)) none := by
        rw [← hc₂']
        cases hk : placeholders (c₁ ++ y :: c₂) with
        | zero => exact absurd hc₂' (by simp [hk])
        | succ k =>
          rw [hk] at hc₂'
          rw [(cons.inj hc₂').2, ← replicate_succ, ← replicate_succ']
      rw [named_append, named_singleton_of_eq rfl rfl, heq, map_append, map_append, map_cons,
        map_singleton, contents_append, placeholders_append, contents_singleton hx,
        placeholders_singleton hx, hmap₁, hmap₂, hnew, hself, hc₁', Nat.add_zero, ← hend]
      simp
    · rw [h.map_shownAt_other hmn fun z hz => hother z (mem_named.1 hz).1 ?_, named_append,
        named_singleton_of_ne hmn, append_nil, hshown.places]
      rintro rfl
      obtain ⟨-, rfl, rfl⟩ := mem_named.1 hz
      exact hmn ⟨hym.symm, (mem_named.1 (heq ▸ by simp : z ∈ named a x.menu x.name)).2.2.symm⟩
  · intro z hz hflag
    change (t.menus z.menu).hasPlaceholders = true
    rw [h.hasPlaceholders]
    have hflag_y := hshown.flag y hya ((h.placeholder_of_mem hya).symm.trans hy)
    rcases mem_append.1 hz with hz | hz
    · by_cases hzy : z = y
      · rw [hzy, hflag_y]
      · rw [exchange_entries_of_ne t (fun hnode => hzy (eq_of_node_eq hnodup hz hya hnode))
          (h.ne_of_mem hz)] at hflag
        exact hshown.flag z hz ((h.placeholder_of_mem hz).symm.trans hflag)
    · obtain rfl := mem_singleton.1 hz
      rw [← hym, hflag_y]

end Appended

/-- **A new entry takes the place of the first placeholder of its name**, if there is one. -/
theorem Appended.shown (h : Appended s a x t) (hshown : Shown s a) (hlen : (a ++ [x]).length ≤ fuel)
    (hph : (s.entries x.node).placeholder = x.placeholder)
    (hcontent : (s.entries x.node).content = x.content) :
    Shown (t.menuUpdatePlaceholder fuel x.menu x.node) (a ++ [x]) := by
  have hph' := h.placeholder.trans hph
  rcases menuUpdatePlaceholder_cases h.linked hlen with ⟨hx, heq⟩ | ⟨hx, heq, hall⟩ |
    ⟨hx, c₁, y, c₂, hnamed, hc₁, hy, heq⟩
  · rw [heq]
    exact h.shown_placeholder hshown hph (hph'.symm.trans hx)
  · rw [heq]
    refine h.shown_kept hshown hph hcontent (hph'.symm.trans hx) fun y hy => ?_
    by_contra hflag
    rw [Bool.not_eq_false] at hflag
    obtain ⟨hya, hym, -⟩ := mem_named.1 hy
    have hmenu := hshown.flag y hya ((h.placeholder_of_mem hya).symm.trans hflag)
    rw [hym, ← h.hasPlaceholders] at hmenu
    exact absurd (hall hmenu y hy) (by simp [hflag])
  · rw [heq]
    exact h.shown_exchange hshown hph hcontent (hph'.symm.trans hx) hnamed hc₁ hy

end MagicLantern.Menus
