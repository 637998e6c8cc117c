import Mathlib.Data.List.Nodup
import Mathlib.Tactic
import MagicLantern.Library.DoublyLinked
import MagicLantern.Library.Runs

/-!
# The menu tree

The entries of a menu are elements of arrays that belong to the callers of `menu_add`; they are
linked in place. A placeholder is an entry that keeps a place in a menu for an entry that is added
later: the two are then exchanged, but for their links, and exchanged back when the later one is
removed. An entry can have a submenu, which is the menu with the name of the entry.

The memory of the entries is a function of their addresses, counted in entries. All menus are in one
list where they are looked up by their names, and created if there is none. Here a menu is given by
its name, and it is empty before it is used for the first time. A loop along the links makes at most
`fuel` steps.

Source: `src/src/menu.c`, `src/src/menu.h`.

## Main definitions

* `MenuTree`, `MenuRun`, `MenuOp.step`.
-/

namespace MagicLantern.Menus

/-- `struct menu_entry`. The fields that only tell what the entry shows and does are `content`. -/
structure MenuEntry (α : Type) where
  next : Option ℕ
  prev : Option ℕ
  children : Option ℕ
  parent : Option ℕ
  parentMenu : Option String
  name : String
  selected : Bool
  starred : Bool
  hidden : Bool
  jhidden : Bool
  shidden : Bool
  placeholder : Bool
  advanced : Bool
  dependsOn : UInt32
  worksBestIn : UInt32
  usageCounters : UInt64
  content : α

/-- `struct menu`. -/
structure Menu where
  children : Option ℕ
  parentEntry : Option ℕ
  parentMenu : Option String
  icon : ℤ
  hasPlaceholders : Bool

/-- `ICON_ML_SUBMENU`. -/
def iconMlSubmenu : ℤ := -100

/-- `IS_SUBMENU`. -/
def Menu.isSubmenu (menu : Menu) : Bool := menu.icon == iconMlSubmenu

/-- The menu that `menu_find_by_name` creates. -/
def Menu.empty : Menu := ⟨none, none, none, 0, false⟩

/-- The memory of the entries, and the menus. -/
structure MenuTree (α : Type) where
  entries : ℕ → MenuEntry α
  menus : String → Menu

variable {α : Type}

/-- `MENU_PLACEHOLDER`. -/
def menuPlaceholder [Zero α] (name : String) : MenuEntry α where
  next := none
  prev := none
  children := none
  parent := none
  parentMenu := none
  name := name
  selected := false
  starred := false
  hidden := false
  jhidden := false
  shidden := true
  placeholder := true
  advanced := false
  dependsOn := 0
  worksBestIn := 0
  usageCounters := 0
  content := 0

/-- `placeholder_copy`: the links, the name and the customization flags are kept. -/
def placeholderCopy (dst src : MenuEntry α) : MenuEntry α :=
  { src with
    next := dst.next
    prev := dst.prev
    name := dst.name
    selected := dst.selected
    starred := dst.starred
    hidden := dst.hidden
    jhidden := dst.jhidden
    usageCounters := dst.usageCounters }

namespace MenuTree

variable (fuel : ℕ) (childCount : ℕ → ℕ) (s : MenuTree α)

def modifyEntry (e : ℕ) (f : MenuEntry α → MenuEntry α) : MenuTree α :=
  { s with entries := Function.update s.entries e (f (s.entries e)) }

def modifyMenu (menu : String) (f : Menu → Menu) : MenuTree α :=
  { s with menus := Function.update s.menus menu (f (s.menus menu)) }

/-- The entries from `p` on. -/
def forward (p : Option ℕ) : List ℕ := LinkedList.follow (fun e => (s.entries e).next) fuel p

/-- The entries from `p` back to the first one. -/
def backward (p : Option ℕ) : List ℕ := LinkedList.follow (fun e => (s.entries e).prev) fuel p

/-- `menu_find_by_name`, `menu_find_by_name_internal`. -/
def menuFindByName (name : String) (icon : ℤ) : MenuTree α :=
  s.modifyMenu name fun menu => if icon ≠ 0 ∧
    menu.icon = 0 then { menu with icon := icon } else menu

/-! ### Adding entries -/

/-- `menu_update_placeholder`. -/
def menuUpdatePlaceholder (menu : String) (newEntry : ℕ) : MenuTree α :=
  if (s.entries newEntry).placeholder then s.modifyMenu menu ({ · with hasPlaceholders := true })
  else if (s.menus menu).hasPlaceholders then
    match (s.forward fuel (s.menus menu).children).find? fun e =>
        e ≠ newEntry && (s.entries e).placeholder && (s.entries e).name ==
          (s.entries newEntry).name with
    | some e =>
      (s.modifyEntry e fun x =>
          { placeholderCopy x (s.entries newEntry) with shidden := false }).modifyEntry newEntry
        ({ · with shidden := true, placeholder := true })
    | none => s
  else s

/-- The fields that `menu_add_internal` sets in a new entry, but for the links. -/
def initEntry (menu : String) (parent : Option ℕ) (selected : Bool) (newEntry : ℕ) : MenuTree α :=
  s.modifyEntry newEntry fun x =>
    { x with
      parent := parent
      dependsOn := x.dependsOn ||| parent.elim 0 fun p => (s.entries p).dependsOn
      worksBestIn := x.worksBestIn ||| parent.elim 0 fun p => (s.entries p).worksBestIn
      parentMenu := some menu
      selected := selected }

/-- The first entry of a menu. -/
def addFirst (menu : String) (parent : Option ℕ) (newEntry : ℕ) : MenuTree α :=
  ((s.modifyMenu menu ({ · with children := some newEntry })).initEntry menu parent true
    newEntry).menuUpdatePlaceholder fuel menu newEntry

/-- An entry is put behind the last one of a menu, which is `head`. -/
def addNext (menu : String) (parent : Option ℕ) (head newEntry : ℕ) : MenuTree α :=
  (((s.initEntry menu parent false newEntry).modifyEntry newEntry
    ({ · with prev := some head })).modifyEntry head
      ({ · with next := some newEntry })).menuUpdatePlaceholder fuel menu newEntry

/-- The loop over the new entries, which also gives the last one. -/
def addLoop (menu : String) (parent : Option ℕ) : MenuTree α → ℕ → ℕ → ℕ → MenuTree α × ℕ
  | s, head, _, 0 => (s, head)
  | s, head, newEntry, count + 1 =>
    addLoop menu parent (s.addNext fuel menu parent head newEntry) newEntry (newEntry + 1) count

/-- The first entry of the submenu is one further to the front. -/
def raiseChild (entry child : ℕ) : MenuTree α :=
  (s.modifyEntry entry ({ · with children := some child })).modifyEntry child fun x =>
    { x with
      parent := some entry
      dependsOn := x.dependsOn ||| (s.entries entry).dependsOn
      worksBestIn := x.worksBestIn ||| (s.entries entry).worksBestIn }

/-- `while (entry->children->prev)`: one goes back to the first entry of the submenu. -/
def raiseChildren (entry : ℕ) : MenuTree α :=
  match (s.entries entry).children with
  | none => s
  | some child => (s.backward fuel (s.entries child).prev).foldl (raiseChild · entry) s

/-- The submenu of a new entry. Its entries are added by `add`, which is `menu_add_internal`. -/
def addSubmenu (add : MenuTree α → String → ℕ → ℕ → MenuTree α) (menu : String) (entry : ℕ) :
    MenuTree α :=
  match (s.entries entry).children with
  | none => s
  | some child =>
    let name := (s.entries entry).name
    let s := (s.menuFindByName name iconMlSubmenu).modifyMenu name
      ({ · with parentMenu := some menu, parentEntry := some entry })
    let s := if (s.menus name).children ≠ some child then add s name child (childCount child) else s
    s.raiseChildren fuel entry

/-- The loop that creates the submenus, from the last new entry backwards. -/
def submenuLoop (add : MenuTree α → String → ℕ → ℕ → MenuTree α) (menu : String) :
    MenuTree α → ℕ → ℕ → MenuTree α
  | s, _, 0 => s
  | s, entry, count + 1 =>
    let s := s.addSubmenu fuel childCount add menu entry
    match (s.entries entry).prev with
    | none => s
    | some prev => submenuLoop add menu s prev count

/-- The entries of a call of `menu_add_internal` are linked. -/
def addEntries (menu : String) (newEntry count : ℕ) : MenuTree α × ℕ :=
  let parent := if (s.menus menu).isSubmenu then (s.menus menu).parentEntry else none
  match (s.menus menu).children with
  | none =>
    addLoop fuel menu parent (s.addFirst fuel menu parent newEntry) newEntry (newEntry + 1)
      (count - 1)
  | some head =>
    addLoop fuel menu parent s ((s.forward fuel (some head)).getLastD head) newEntry count

/-- `menu_add_internal`. The submenus are nested at most `depth` times. `childCount` gives the
number of entries of a submenu, up to the marker `MENU_EOL`. -/
def menuAddInternal : ℕ → MenuTree α → String → ℕ → ℕ → MenuTree α
  | 0, s, _, _, _ => s
  | depth + 1, s, name, newEntry, count =>
    if count = 0 then s
    else
      let (s, head) := (s.menuFindByName name 0).addEntries fuel name newEntry count
      submenuLoop fuel childCount (menuAddInternal depth) name s head count

/-! ### Removing entries -/

/-- `if (menu->children == entry)`. -/
def unlinkHead (menu : String) (entry : ℕ) : MenuTree α :=
  if (s.menus menu).children = some entry then
    s.modifyMenu menu ({ · with children := (s.entries entry).next })
  else s

/-- `if (entry->prev)`. -/
def unlinkPrev (entry : ℕ) : MenuTree α :=
  match (s.entries entry).prev with
  | some prev => s.modifyEntry prev ({ · with next := (s.entries entry).next })
  | none => s

/-- `if (entry->next)`. -/
def unlinkNext (entry : ℕ) : MenuTree α :=
  match (s.entries entry).next with
  | some next => s.modifyEntry next ({ · with prev := (s.entries entry).prev })
  | none => s

/-- The links of `menu_remove_entry`. -/
def unlink (menu : String) (entry : ℕ) : MenuTree α :=
  ((s.unlinkHead menu entry).unlinkPrev entry).unlinkNext entry

/-- The submenu of a removed entry. -/
def clearSubmenu (entry : ℕ) : MenuTree α :=
  if (s.entries entry).children.isSome then
    (s.menuFindByName (s.entries entry).name iconMlSubmenu).modifyMenu (s.entries entry).name
      ({ · with children := none })
  else s

/-- The placeholder of a removed entry. -/
def restorePlaceholder [Zero α] (entry : ℕ) : MenuTree α :=
  match (s.backward fuel (s.entries entry).prev).find? fun p =>
      (s.entries p).name == (s.entries entry).name with
  | some p => s.modifyEntry p fun x => placeholderCopy x (menuPlaceholder x.name)
  | none => s

/-- `menu_remove_entry`. -/
def menuRemoveEntry [Zero α] (menu : String) (entry : ℕ) : MenuTree α :=
  ((s.unlink menu entry).clearSubmenu entry).restorePlaceholder fuel entry

/-- The loop of `menu_remove`. -/
def removeLoop [Zero α] (menu : String) (oldEntry count : ℕ) :
    ℕ → MenuTree α → ℕ → Option ℕ → MenuTree α
  | 0, s, _, _ => s
  | _, s, _, none => s
  | steps + 1, s, removed, some entry =>
    if removed < count then
      if oldEntry ≤ entry ∧ entry < oldEntry + count then
        let s := s.menuRemoveEntry fuel menu entry
        removeLoop menu oldEntry count steps s (removed + 1) (s.entries entry).next
      else removeLoop menu oldEntry count steps s removed (s.entries entry).next
    else s

/-- `menu_remove`. -/
def menuRemove [Zero α] (name : String) (oldEntry count : ℕ) : MenuTree α :=
  if count = 0 then s
  else
    let s := s.menuFindByName name 0
    removeLoop fuel name oldEntry count fuel s 0 (s.menus name).children

/-! ### Selecting entries -/

/-- What the visibility of entries depends on, besides their fields. -/
structure View where
  junkieMode : ℕ
  customizeMode : Bool
  advancedMode : Bool
  customizeMenu : ℕ
  /-- `config_var_was_changed`. -/
  changed : ℕ → Bool

variable (view : View)

/-- `is_visible`. -/
def isVisible (e : ℕ) : Bool :=
  let x := s.entries e
  let currentHidden := (view.junkieMode == 0 && x.hidden) || (view.junkieMode != 0 && x.jhidden)
  let implicitHiding := view.junkieMode != 0 && x.starred
  (!(currentHidden || implicitHiding) || view.customizeMode || view.junkieMode == 3) &&
    !x.shidden && (view.advancedMode || !x.advanced || x.selected || view.changed e)

/-- `menu_has_visible_items`. -/
def menuHasVisibleItems (menu : String) : Bool :=
  !(view.junkieMode != 0 && (menu == "Modules" || menu == "Help" || menu == "Modified")) &&
    (s.forward fuel (s.menus menu).children).any fun e =>
      e != view.customizeMenu && s.isVisible view e

/-- The entry above or below, around the ends of the menu. -/
def neighbour (direction : ℤ) (entry : ℕ) : ℕ :=
  if direction < 0 then
    match (s.entries entry).prev with
    | some prev => prev
    | none => (s.forward fuel (some entry)).getLastD entry
  else
    match (s.entries entry).next with
    | some next => next
    | none => (s.backward fuel (some entry)).getLastD entry

/-- The loop of `menu_entry_move`, which skips hidden items. -/
def moveLoop (menu : String) (direction : ℤ) : ℕ → ℕ → Option ℕ
  | 0, _ => none
  | steps + 1, entry =>
    let entry := s.neighbour fuel direction entry
    if !s.isVisible view entry && s.menuHasVisibleItems fuel view menu then
      moveLoop menu direction steps entry
    else some entry

/-- `menu_entry_move`. It is `none` if the loop does not end. -/
def menuEntryMove (menu : String) (direction : ℤ) : Option (MenuTree α) :=
  if s.menuHasVisibleItems fuel view menu then
    match (s.forward fuel (s.menus menu).children).find? fun e => (s.entries e).selected with
    | none => some s
    | some entry =>
      let s := s.modifyEntry entry ({ · with selected := false })
      (s.moveLoop fuel view menu direction fuel entry).map fun entry =>
        s.modifyEntry entry ({ · with selected := true })
  else some s

end MenuTree

/-! ### What was added -/

/-- An entry that was added to a menu, with its name and its content. `owners` are the entries it is
in the submenus of. -/
structure Added (α : Type) where
  menu : String
  node : ℕ
  name : String
  placeholder : Bool
  content : α
  owners : List ℕ

/-- The entries that are added by `menu_add`, in the order in which they are linked. -/
def newEntries (childCount : ℕ → ℕ) (entries : ℕ → MenuEntry α) :
    ℕ → String → ℕ → ℕ → List ℕ → List (Added α)
  | 0, _, _, _, _ => []
  | depth + 1, menu, base, count, owners =>
    (List.range' base count).map (fun e =>
      ⟨menu, e, (entries e).name, (entries e).placeholder, (entries e).content, owners⟩) ++
    (List.range' base count).reverse.flatMap fun e =>
      match (entries e).children with
      | none => []
      | some child =>
        newEntries childCount entries depth (entries e).name child (childCount child)
          (owners ++ [e])

/-- The submenus are nested less than `depth` times. -/
def Nested (childCount : ℕ → ℕ) (entries : ℕ → MenuEntry α) : ℕ → ℕ → ℕ → Prop
  | 0, _, count => count = 0
  | depth + 1, base, count =>
    ∀ e ∈ List.range' base count, ∀ child ∈ (entries e).children,
      Nested childCount entries depth child (childCount child)

instance decidableNested (childCount : ℕ → ℕ) (entries : ℕ → MenuEntry α) :
    ∀ depth base count, Decidable (Nested childCount entries depth base count)
  | 0, _, count => inferInstanceAs (Decidable (count = 0))
  | depth + 1, base, count =>
    have (child : ℕ) : Decidable (Nested childCount entries depth child (childCount child)) :=
      decidableNested childCount entries depth child (childCount child)
    inferInstanceAs (Decidable (∀ e ∈ List.range' base count, ∀ child ∈ (entries e).children,
      Nested childCount entries depth child (childCount child)))

/-- An entry and all entries in its submenus are removed. -/
def withoutEntry (added : List (Added α)) (entry : ℕ) : List (Added α) :=
  added.filter fun x => x.node ≠ entry && !x.owners.contains entry

/-- The entries that were added to a menu and not removed, in the order of insertion. -/
def nodesOf (added : List (Added α)) (menu : String) : List ℕ :=
  (added.filter (·.menu == menu)).map Added.node

/-- The menus, the entries that were added and not removed, and all that were ever added. -/
structure MenuRun (α : Type) where
  tree : MenuTree α
  added : List (Added α)
  ever : List ℕ

/-- The menus are empty at first. -/
def MenuRun.init (entries : ℕ → MenuEntry α) : MenuRun α :=
  ⟨⟨entries, fun _ => .empty⟩, [], []⟩

/-- A call. -/
inductive MenuOp where
  /-- `menu_find_by_name` -/
  | find (name : String) (icon : ℤ)
  /-- `menu_add` -/
  | add (name : String) (newEntry count : ℕ)
  /-- `menu_remove` -/
  | remove (name : String) (oldEntry count : ℕ)
  /-- `menu_entry_move` -/
  | move (view : MenuTree.View) (menu : String) (direction : ℤ)

section Step

variable (fuel : ℕ) (childCount : ℕ → ℕ)

/-- The arrays are fresh: no entry was added before, and each of them is in one array. At most
`fuel` entries are added in all. -/
@[mk_iff]
structure Fresh (r : MenuRun α) (name : String) (newEntry count : ℕ) : Prop where
  nested : Nested childCount r.tree.entries fuel newEntry count
  nodup : (r.ever ++
    (newEntries childCount r.tree.entries fuel name newEntry count []).map Added.node).Nodup
  length_le : (r.ever ++
    (newEntries childCount r.tree.entries fuel name newEntry count []).map Added.node).length ≤ fuel
  links : ∀ x ∈ newEntries childCount r.tree.entries fuel name newEntry count [],
    (r.tree.entries x.node).next = none ∧ (r.tree.entries x.node).prev = none ∧
      (r.tree.entries x.node).parentMenu = none
  /-- A submenu without entries begins with the marker `MENU_EOL`, which has no links. -/
  markers : ∀ x ∈ newEntries childCount r.tree.entries fuel name newEntry count [],
    ∀ child ∈ (r.tree.entries x.node).children, childCount child = 0 →
      (r.tree.entries child).prev = none

instance (r : MenuRun α) (name : String) (newEntry count : ℕ) :
    Decidable (Fresh fuel childCount r name newEntry count) :=
  decidable_of_iff _ (fresh_iff ..).symm

/-- The entries that `menu_remove` finds. -/
def removedNodes (r : MenuRun α) (name : String) (oldEntry count : ℕ) : List ℕ :=
  (r.tree.forward fuel (r.tree.menus name).children).filter fun e =>
    oldEntry ≤ e ∧ e < oldEntry + count

/-- What a call does. Only fresh arrays are added. -/
def MenuOp.step [Zero α] (r : MenuRun α) : MenuOp → Option (MenuRun α)
  | .find name icon => some { r with tree := r.tree.menuFindByName name icon }
  | .add name newEntry count =>
    if Fresh fuel childCount r name newEntry count then
      let new := newEntries childCount r.tree.entries fuel name newEntry count []
      some
        { tree := r.tree.menuAddInternal fuel childCount fuel name newEntry count
          added := r.added ++ new
          ever := r.ever ++ new.map Added.node }
    else none
  | .remove name oldEntry count =>
    some
      { r with
        tree := r.tree.menuRemove fuel name oldEntry count
        added := (removedNodes fuel r name oldEntry count).foldl withoutEntry r.added }
  | .move view menu direction =>
    (r.tree.menuEntryMove fuel view menu direction).map ({ r with tree := · })

end Step

end MagicLantern.Menus
