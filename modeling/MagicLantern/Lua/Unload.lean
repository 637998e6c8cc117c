import MagicLantern.Library.Runs
import Mathlib.Data.Finset.Basic

/-!
# Unloading Lua scripts

When the main part of a script has ended, `load_script` closes the Lua state, unless something is
left that can call into it: event handlers, property handlers, tasks, menus or LVInfo items. This is
recorded in `cant_unload`, with a bit for each kind and for each event. The bits of the events are
given out when any script registers the event for the first time.

`lua_set_cant_unload` also counts the tasks. It recognises the bit of the tasks by `mask &
LUA_TASK_UNLOAD_MASK`. But the masks are numbers of bits, and so all bits with an odd number are
taken for tasks. If the count is not zero when such a bit is to be cleared, then the bit before it
is cleared instead. A task is recorded when it starts, and not when it is created.

The model has one script, from the start of `load_script` to its end; operations of its main part,
its tasks and its handlers come in any order. Of the other scripts, only the first registration of
an event matters. There is always memory for an entry.

Source: `src/modules/lua/lua.c`, `src/modules/lua/lua_task.c`, `src/modules/lua/lua_property.c`,
`src/modules/lua/lua_menu.c`, `src/modules/lua/lua_lv.c`, `src/modules/lua/lua_common.h`.

## Main results

* `unload_iff` — the state is closed exactly if nothing is left.
* `unload_in_use`.
-/

namespace MagicLantern.Lua

open Finset Function Option

/-! ### Scripts -/

/-- `LUA_MENU_UNLOAD_MASK`. -/
def luaMenuUnloadMask : ℕ := 0

/-- `LUA_TASK_UNLOAD_MASK`. -/
def luaTaskUnloadMask : ℕ := 1

/-- `LUA_PROP_UNLOAD_MASK`. -/
def luaPropUnloadMask : ℕ := 2

/-- `LUA_LVINFO_UNLOAD_MASK`. -/
def luaLvinfoUnloadMask : ℕ := 3

/-- `LUA_EVENT_UNLOAD_MASK`. -/
def luaEventUnloadMask : ℕ := 4

/-- The events. -/
inductive Event
  | preShoot
  | postShoot
  | shootTask
  | secondsClock
  | keypress
  | customPictureTaking
  | intervalometer
  | configSave
  deriving DecidableEq

/-- Where `load_script` is. -/
inductive Phase
  /-- The main part of the script runs. -/
  | running
  /-- The handlers of `config_save` are called. -/
  | saving
  /-- Before the test of `cant_unload`. -/
  | deciding
  | closed
  | background
  deriving DecidableEq

/-- The variables for a script. -/
structure Script where
  /-- The mask of an event that has an entry, of any script. -/
  masks : Event → Option ℕ
  eventMasks : ℕ
  /-- The bits of `cant_unload`. -/
  cantUnload : Finset ℕ
  tasksStarted : ℤ
  /-- The events for which the script has a handler. -/
  handlers : Finset Event
  /-- The properties for which the script has a handler. -/
  props : Finset ℕ
  /-- The tasks that were created and have not started. -/
  pending : ℕ
  /-- The tasks that run. -/
  tasks : ℕ
  menus : ℕ
  lvinfos : ℕ
  phase : Phase

namespace Script

/-- The start of `load_script`, before any event was registered. -/
def init : Script where
  masks _ := none
  eventMasks := luaEventUnloadMask
  cantUnload := ∅
  tasksStarted := 0
  handlers := ∅
  props := ∅
  pending := 0
  tasks := 0
  menus := 0
  lvinfos := 0
  phase := .running

variable (s : Script)

/-- `lua_set_cant_unload`. -/
def luaSetCantUnload (cantUnload : Bool) (mask : ℕ) : Script :=
  let isTask := mask &&& luaTaskUnloadMask ≠ 0
  let tasksStarted :=
    if isTask then s.tasksStarted + (if cantUnload then 1 else -1) else s.tasksStarted
  -- `mask &= ~LUA_TASK_UNLOAD_MASK`
  let mask :=
    if isTask ∧ !cantUnload ∧ tasksStarted ≠ 0 then mask - (mask &&& luaTaskUnloadMask) else mask
  { s with
    tasksStarted
    cantUnload := if cantUnload then insert mask s.cantUnload else s.cantUnload.erase mask }

/-- The mask of an event is taken when it gets its first entry. -/
def registerEvent (e : Event) : Script :=
  if s.masks e = none then
    { s with
      masks := Function.update s.masks e (some s.eventMasks)
      eventMasks := s.eventMasks + 1 }
  else s

/-- `set_event_script_entry`, with a handler or without one. -/
@[simp] def setEventScriptEntry (e : Event) (active : Bool) : Script :=
  let s := if active then s.registerEvent e else s
  let s := { s with handlers := if active then insert e s.handlers else s.handlers.erase e }
  match s.masks e with
  | none => s
  | some mask => s.luaSetCantUnload active mask

/-- `luaCB_property_newindex`, with a handler or without one. -/
def setPropHandler (id : ℕ) (active : Bool) : Script :=
  let s := { s with props := if active then insert id s.props else s.props.erase id }
  s.luaSetCantUnload (decide s.props.Nonempty) luaPropUnloadMask

end Script

/-! ### Runs -/

/-- The steps. -/
inductive ScriptOp
  /-- Another script registers an event. -/
  | otherScript (e : Event)
  | setEvent (e : Event) (active : Bool)
  | setProp (id : ℕ) (active : Bool)
  /-- `luaCB_task_create`. -/
  | createTask
  /-- `lua_run_task` up to the call. -/
  | startTask
  /-- `lua_run_task` after the call. -/
  | finishTask
  /-- `luaCB_menu_new`. -/
  | createMenu
  /-- `luaCB_lv_info`. -/
  | createLvinfo
  /-- The main part has ended, and `load_script` looks for a handler of `config_save`. -/
  | mainDone
  /-- The handlers of `config_save` have been called. -/
  | saved
  /-- The test of `cant_unload`. -/
  | decide

/-- What a step does, until the end of `load_script`. -/
def ScriptOp.step (s : Script) (op : ScriptOp) : Option Script :=
  if s.phase = .closed ∨ s.phase = .background then none
  else
    match op with
    | .otherScript e => some (s.registerEvent e)
    | .setEvent e active => some (s.setEventScriptEntry e active)
    | .setProp id active => some (s.setPropHandler id active)
    | .createTask => some { s with pending := s.pending + 1 }
    | .startTask =>
      if s.pending = 0 then none
      else some ({ s with pending := s.pending - 1, tasks := s.tasks + 1 }.luaSetCantUnload true
        luaTaskUnloadMask)
    | .finishTask =>
      if s.tasks = 0 then none
      else some ({ s with tasks := s.tasks - 1 }.luaSetCantUnload false luaTaskUnloadMask)
    | .createMenu =>
      some ({ s with menus := s.menus + 1 }.luaSetCantUnload true luaMenuUnloadMask)
    | .createLvinfo =>
      some ({ s with lvinfos := s.lvinfos + 1 }.luaSetCantUnload true luaLvinfoUnloadMask)
    | .mainDone =>
      if s.phase ≠ .running then none
      else if ∃ mask ∈ s.masks .configSave, mask ∈ s.cantUnload then
        some { s with phase := .saving }
      else some { s with phase := .deciding }
    | .saved =>
      if s.phase ≠ .saving then none
      else
        match s.masks .configSave with
        | none => none
        | some mask => some ({ s with phase := .deciding }.luaSetCantUnload false mask)
    | .decide =>
      if s.phase ≠ .deciding then none
      else if s.cantUnload ≠ ∅ then some { s with phase := .background }
      else some { s.setEventScriptEntry .configSave false with phase := .closed }

/-- The test of `cant_unload` keeps the script or closes it. -/
theorem ScriptOp.step_decide {s t : Script} (h : ScriptOp.step s .decide = some t) :
    s.phase = .deciding ∧ ((s.cantUnload ≠ ∅ ∧ t = { s with phase := .background }) ∨
      (s.cantUnload = ∅ ∧
        t = { s.setEventScriptEntry .configSave false with phase := .closed })) := by
  unfold ScriptOp.step at h
  split at h
  · cases h
  simp only at h
  split at h
  · cases h
  rename_i hdeciding
  refine ⟨not_not.1 hdeciding, ?_⟩
  split at h
  · exact .inl ⟨‹_›, (some.inj h).symm⟩
  · exact .inr ⟨not_not.1 ‹_›, (some.inj h).symm⟩

/-! ### The property -/

namespace Script

/-- Nothing can call into the script, apart from a handler of `config_save`. -/
structure Idle (s : Script) : Prop where
  handlers : ∀ e ∈ s.handlers, e = .configSave
  props : s.props = ∅
  pending : s.pending = 0
  tasks : s.tasks = 0
  menus : s.menus = 0
  lvinfos : s.lvinfos = 0

/-- Nothing can call into the script. -/
structure Unused (s : Script) : Prop extends s.Idle where
  noHandlers : s.handlers = ∅

/-- A bit can be cleared by `lua_set_cant_unload`; `left` tells whether something that it stands for
is left. For an odd number, either the count becomes zero and nothing is left, or something is left
and the bit before it is not set. -/
def ClearOk (s : Script) (mask : ℕ) (left : Prop) : Prop :=
  mask % 2 = 1 → if s.tasksStarted = 1 then ¬ left else left ∧ mask - 1 ∉ s.cantUnload

instance (s : Script) (mask : ℕ) (left : Prop) [Decidable left] : Decidable (s.ClearOk mask left) :=
  inferInstanceAs (Decidable (mask % 2 = 1 →
    if s.tasksStarted = 1 then ¬ left else left ∧ mask - 1 ∉ s.cantUnload))

end Script

/-- The condition: bits are cleared only if this is possible, no handler of `config_save` is set
after they have been called, and the test comes when no task is waiting to start, unless something
else is left. -/
def ScriptOp.Good (s : Script) : ScriptOp → Prop
  | .setEvent e true => s.phase = .deciding → e ≠ .configSave
  | .setEvent e false => ∀ mask ∈ s.masks e, s.ClearOk mask False
  | .finishTask => s.ClearOk luaTaskUnloadMask (1 < s.tasks)
  | .saved => ∀ mask ∈ s.masks .configSave, s.ClearOk mask False
  | .decide => s.pending = 0 ∨ s.cantUnload ≠ ∅
  | _ => True

instance (s : Script) : DecidablePred (ScriptOp.Good s) := fun op =>
  match op with
  | .setEvent _ true => inferInstanceAs (Decidable (_ → _))
  | .setEvent _ false => inferInstanceAs (Decidable (∀ mask ∈ _, _))
  | .finishTask => inferInstanceAs (Decidable (s.ClearOk _ _))
  | .saved => inferInstanceAs (Decidable (∀ mask ∈ _, _))
  | .decide => inferInstanceAs (Decidable (_ ∨ _))
  | .otherScript _ | .setProp _ _ | .createTask | .startTask | .createMenu | .createLvinfo
  | .mainDone => isTrue trivial

/-! ### The bits -/

namespace Script

variable {s t : Script} {mask : ℕ} {e : Event}

theorem luaSetCantUnload_true (mask : ℕ) :
    (s.luaSetCantUnload true mask).cantUnload = insert mask s.cantUnload := by
  simp [luaSetCantUnload]

theorem mem_luaSetCantUnload_false {left : Prop} (h : s.ClearOk mask left)
    (hmem : left → mask ∈ s.cantUnload) (hodd : left → mask % 2 = 1) (k : ℕ) :
    k ∈ (s.luaSetCantUnload false mask).cantUnload ↔
      if k = mask then left else k ∈ s.cantUnload := by
  have hand : mask &&& luaTaskUnloadMask = mask % 2 := Nat.and_one_is_mod mask
  by_cases hmask : mask % 2 = 1
  · have hok := h hmask
    by_cases hone : s.tasksStarted = 1
    · rw [if_pos hone] at hok
      have hset : (s.luaSetCantUnload false mask).cantUnload = s.cantUnload.erase mask := by
        simp [luaSetCantUnload, hand, hmask, hone]
      rw [hset]
      by_cases hk : k = mask <;> simp [hk, hok]
    · rw [if_neg hone] at hok
      have hcount : s.tasksStarted + -1 ≠ 0 := by omega
      have hset : (s.luaSetCantUnload false mask).cantUnload = s.cantUnload.erase (mask - 1) := by
        simp [luaSetCantUnload, hand, hmask, hcount]
      rw [hset, erase_eq_of_notMem hok.2]
      by_cases hk : k = mask
      · simp [hk, hok.1, hmem hok.1]
      · simp [hk]
  · have hleft : ¬ left := fun hleft => hmask (hodd hleft)
    have hset : (s.luaSetCantUnload false mask).cantUnload = s.cantUnload.erase mask := by
      simp [luaSetCantUnload, hand, hmask]
    rw [hset]
    by_cases hk : k = mask <;> simp [hk, hleft]

/-- The handler of an event prevents unloading; that of `config_save` does so until it has been
called. -/
def Counts (s : Script) (e : Event) : Prop :=
  e ∈ s.handlers ∧ (e = .configSave → s.phase = .running ∨ s.phase = .saving)

/-- Something is left for which a bit stands. -/
def Alive (s : Script) (k : ℕ) : Prop :=
  (k = luaMenuUnloadMask ∧ 0 < s.menus) ∨ (k = luaTaskUnloadMask ∧ 0 < s.tasks) ∨
    (k = luaPropUnloadMask ∧ s.props.Nonempty) ∨ (k = luaLvinfoUnloadMask ∧ 0 < s.lvinfos) ∨
    ∃ e, s.masks e = some k ∧ s.Counts e

/-- Every event has a bit of its own, after the bits of the kinds. -/
structure MasksOk (s : Script) : Prop where
  bounds : ∀ e mask, s.masks e = some mask → luaEventUnloadMask ≤ mask ∧ mask < s.eventMasks
  first : luaEventUnloadMask ≤ s.eventMasks
  distinct : ∀ e e' mask, s.masks e = some mask → s.masks e' = some mask → e = e'
  registered : ∀ e ∈ s.handlers, s.masks e ≠ none

/-- The invariant: the bits tell what is left. -/
structure Inv (s : Script) : Prop extends s.MasksOk where
  bits : ∀ k, k ∈ s.cantUnload ↔ s.Alive k

theorem Inv.init : Inv Script.init where
  bounds _ _ h := nomatch h
  first := le_rfl
  distinct _ _ _ h := nomatch h
  registered _ h := absurd h (notMem_empty _)
  bits k := by simp [Script.init, Alive]

/-- Something new is there, and its bit is set. -/
theorem Inv.setBit (h : s.Inv) (ht : t.MasksOk) (hbits : t.cantUnload = s.cantUnload)
    (halive : ∀ k, t.Alive k ↔ k = mask ∨ s.Alive k) : (t.luaSetCantUnload true mask).Inv where
  toMasksOk := { ht with }
  bits k := by
    rw [luaSetCantUnload_true, mem_insert, hbits, h.bits k]
    exact (halive k).symm

/-- Something has gone, and its bit is cleared unless something else of the kind is left. -/
theorem Inv.clearBit (h : s.Inv) (left : Prop) (ht : t.MasksOk)
    (hbits : t.cantUnload = s.cantUnload) (hok : t.ClearOk mask left) (hmem : left → s.Alive mask)
    (hodd : left → mask % 2 = 1) (halive : ∀ k, t.Alive k ↔ if k = mask then left else s.Alive k) :
    (t.luaSetCantUnload false mask).Inv where
  toMasksOk := { ht with }
  bits k := by
    have hset : left → mask ∈ t.cantUnload := by
      rw [hbits, h.bits]
      exact hmem
    rw [mem_luaSetCantUnload_false hok hset hodd k, hbits, h.bits k]
    exact (halive k).symm

/-! ### Events -/

theorem MasksOk.registerEvent (h : s.MasksOk) (e : Event) : (s.registerEvent e).MasksOk := by
  unfold Script.registerEvent
  split_ifs with hnone
  · constructor
    · intro e' mask he'
      dsimp only at he'
      rw [update_apply] at he'
      split_ifs at he' with he
      · cases he'
        exact ⟨h.first, Nat.lt_succ_self _⟩
      · have := h.bounds e' mask he'
        exact ⟨this.1, Nat.lt_succ_of_lt this.2⟩
    · exact Nat.le_succ_of_le h.first
    · intro e₁ e₂ mask h₁ h₂
      dsimp only at h₁ h₂
      rw [update_apply] at h₁ h₂
      split_ifs at h₁ h₂ with he₁ he₂ he₂
      · exact he₁.trans he₂.symm
      · cases h₁
        exact absurd (h.bounds e₂ _ h₂).2 (lt_irrefl _)
      · cases h₂
        exact absurd (h.bounds e₁ _ h₁).2 (lt_irrefl _)
      · exact h.distinct e₁ e₂ mask h₁ h₂
    · intro e' he'
      dsimp only
      rw [update_apply]
      split_ifs with he
      · simp
      · exact h.registered e' he'
  · exact h

/-- The new bit stands for nothing yet. -/
theorem alive_registerEvent (h : s.MasksOk) (e : Event) (k : ℕ) :
    (s.registerEvent e).Alive k ↔ s.Alive k := by
  unfold Script.registerEvent
  split_ifs with hnone
  · have hevent : (∃ e', update s.masks e (some s.eventMasks) e' = some k ∧ s.Counts e') ↔
        ∃ e', s.masks e' = some k ∧ s.Counts e' := by
      refine exists_congr fun e' => and_congr_left fun hcounts => ?_
      have hne : e' ≠ e := by
        rintro rfl
        exact h.registered e' hcounts.1 hnone
      rw [update_of_ne hne]
    exact or_congr_right (or_congr_right (or_congr_right (or_congr_right hevent)))
  · rfl

theorem Inv.registerEvent (h : s.Inv) (e : Event) : (s.registerEvent e).Inv where
  toMasksOk := h.toMasksOk.registerEvent e
  bits k := by
    rw [alive_registerEvent h.toMasksOk, ← h.bits]
    unfold Script.registerEvent
    split_ifs <;> rfl

theorem registerEvent_phase (e : Event) : (s.registerEvent e).phase = s.phase := by
  unfold registerEvent
  split_ifs <;> rfl

theorem exists_masks_registerEvent (e : Event) :
    ∃ mask, (s.registerEvent e).masks e = some mask := by
  unfold registerEvent
  split_ifs with hnone
  · exact ⟨_, update_self ..⟩
  · exact ne_none_iff_exists'.1 hnone

section

variable (h : s.Inv) (hmask : s.masks e = some mask)

include h hmask

theorem Inv.setHandler (hphase : e = .configSave → s.phase = .running ∨ s.phase = .saving) :
    ({ s with handlers := insert e s.handlers }.luaSetCantUnload true mask).Inv := by
  refine h.setBit { h.toMasksOk with registered := ?_ } rfl fun k => ?_
  · intro e' he'
    rcases mem_insert.1 he' with rfl | he'
    · rw [hmask]
      exact some_ne_none _
    · exact h.registered e' he'
  · have hevent : (∃ e', s.masks e' = some k ∧
          Counts { s with handlers := insert e s.handlers } e') ↔
        k = mask ∨ ∃ e', s.masks e' = some k ∧ s.Counts e' := by
      constructor
      · rintro ⟨e', hk, hmem, hcs⟩
        rcases mem_insert.1 hmem with rfl | hmem
        · exact .inl (some.inj (hk.symm.trans hmask))
        · exact .inr ⟨e', hk, hmem, hcs⟩
      · rintro (rfl | ⟨e', hk, hmem, hcs⟩)
        · exact ⟨e, hmask, mem_insert_self _ _, hphase⟩
        · exact ⟨e', hk, mem_insert_of_mem hmem, hcs⟩
    simp only [Alive, hevent, or_left_comm (b := k = mask)]

/-- The handler of an event no longer counts. -/
theorem alive_of_not_counts (hmasks : t.masks = s.masks)
    (hmenus : t.menus = s.menus) (htasks : t.tasks = s.tasks) (hprops : t.props = s.props)
    (hlvinfos : t.lvinfos = s.lvinfos) (hcounts : ∀ e', t.Counts e' ↔ e' ≠ e ∧ s.Counts e')
    (k : ℕ) :
    t.Alive k ↔ if k = mask then False else s.Alive k := by
  have hevent : (∃ e', s.masks e' = some k ∧ t.Counts e') ↔
      k ≠ mask ∧ ∃ e', s.masks e' = some k ∧ s.Counts e' := by
    constructor
    · rintro ⟨e', hk, hc⟩
      obtain ⟨hne, hc⟩ := (hcounts e').1 hc
      refine ⟨?_, e', hk, hc⟩
      rintro rfl
      exact hne (h.distinct e' e k hk hmask)
    · rintro ⟨hne, e', hk, hc⟩
      refine ⟨e', hk, (hcounts e').2 ⟨?_, hc⟩⟩
      rintro rfl
      exact hne (some.inj (hk.symm.trans hmask))
  have hfour := (h.bounds e mask hmask).1
  simp only [Alive, hmasks, hmenus, htasks, hprops, hlvinfos, hevent]
  unfold luaEventUnloadMask at hfour
  unfold luaMenuUnloadMask luaTaskUnloadMask luaPropUnloadMask luaLvinfoUnloadMask
  by_cases hk : k = mask
  · have hkinds : k ≠ 0 ∧ k ≠ 1 ∧ k ≠ 2 ∧ k ≠ 3 := by omega
    simp [hkinds]
  · simp [hk]

theorem Inv.clearHandler (hok : s.ClearOk mask False) :
    ({ s with handlers := s.handlers.erase e }.luaSetCantUnload false mask).Inv := by
  refine h.clearBit False
    { h.toMasksOk with
      registered := fun e' he' => h.registered e' (mem_of_mem_erase he') }
    rfl hok False.elim False.elim (alive_of_not_counts h hmask rfl rfl rfl rfl rfl fun e' => ?_)
  simp only [Counts, mem_erase]
  tauto

end

theorem Inv.setEventScriptEntry (h : s.Inv) {active : Bool}
    (hgood : ScriptOp.Good s (.setEvent e active))
    (hphase : ¬ (s.phase = .closed ∨ s.phase = .background)) :
    (s.setEventScriptEntry e active).Inv := by
  cases active with
  | true =>
    obtain ⟨mask, hmask⟩ := exists_masks_registerEvent (s := s) e
    have hreg := h.registerEvent e
    have hlive : e = .configSave → (s.registerEvent e).phase = .running ∨
        (s.registerEvent e).phase = .saving := by
      intro he
      rw [registerEvent_phase]
      have hdeciding : s.phase ≠ .deciding := fun hs => hgood hs he
      cases hs : s.phase <;> simp_all
    simpa [hmask] using hreg.setHandler hmask hlive
  | false =>
    cases hmask : s.masks e with
    | none =>
      have hmem : e ∉ s.handlers := fun he => h.registered e he hmask
      simpa [hmask, erase_eq_of_notMem hmem] using h
    | some mask =>
      simpa [hmask] using h.clearHandler hmask (hgood mask hmask)

/-! ### Properties, tasks, menus and LVInfo items -/

/-- What each bit stands for. -/
theorem alive_iff (h : s.MasksOk) (k : ℕ) :
    s.Alive k ↔
      match k with
      | 0 => 0 < s.menus
      | 1 => 0 < s.tasks
      | 2 => s.props.Nonempty
      | 3 => 0 < s.lvinfos
      | k => ∃ e, s.masks e = some k ∧ s.Counts e := by
  have hevent : k < 4 → ¬ ∃ e, s.masks e = some k ∧ s.Counts e := by
    rintro hk ⟨e, he, -⟩
    exact absurd (h.bounds e k he).1 (Nat.not_le.2 hk)
  unfold Alive luaMenuUnloadMask luaTaskUnloadMask luaPropUnloadMask luaLvinfoUnloadMask
  match k with
  | 0 | 1 | 2 | 3 => simp [hevent]
  | k + 4 => simp

theorem Inv.setPropHandler (h : s.Inv) (id : ℕ) (active : Bool) :
    (s.setPropHandler id active).Inv := by
  unfold Script.setPropHandler
  generalize (if active then insert id s.props else s.props.erase id) = props
  have ht : MasksOk { s with props } := { h.toMasksOk with }
  by_cases hne : props.Nonempty
  · simp only [hne]
    refine h.setBit ht rfl fun k => ?_
    rw [alive_iff ht, alive_iff h.toMasksOk]
    match k with
    | 0 | 1 | 2 | 3 | k + 4 => simp [luaPropUnloadMask, hne, Counts]
  · simp only [hne]
    refine h.clearBit False ht rfl (fun hodd => absurd hodd (by decide)) False.elim
      False.elim fun k => ?_
    rw [alive_iff ht, alive_iff h.toMasksOk]
    match k with
    | 0 | 1 | 2 | 3 | k + 4 => simp [luaPropUnloadMask, hne, Counts]

theorem Inv.startTask (h : s.Inv) (pending : ℕ) :
    ({ s with pending, tasks := s.tasks + 1 }.luaSetCantUnload true luaTaskUnloadMask).Inv := by
  have ht : MasksOk { s with pending, tasks := s.tasks + 1 } := { h.toMasksOk with }
  refine h.setBit ht rfl fun k => ?_
  rw [alive_iff ht, alive_iff h.toMasksOk]
  match k with
  | 0 | 1 | 2 | 3 | k + 4 => simp [luaTaskUnloadMask, Counts]

theorem Inv.createMenu (h : s.Inv) :
    ({ s with menus := s.menus + 1 }.luaSetCantUnload true luaMenuUnloadMask).Inv := by
  have ht : MasksOk { s with menus := s.menus + 1 } := { h.toMasksOk with }
  refine h.setBit ht rfl fun k => ?_
  rw [alive_iff ht, alive_iff h.toMasksOk]
  match k with
  | 0 | 1 | 2 | 3 | k + 4 => simp [luaMenuUnloadMask, Counts]

theorem Inv.createLvinfo (h : s.Inv) :
    ({ s with lvinfos := s.lvinfos + 1 }.luaSetCantUnload true luaLvinfoUnloadMask).Inv := by
  have ht : MasksOk { s with lvinfos := s.lvinfos + 1 } := { h.toMasksOk with }
  refine h.setBit ht rfl fun k => ?_
  rw [alive_iff ht, alive_iff h.toMasksOk]
  match k with
  | 0 | 1 | 2 | 3 | k + 4 => simp [luaLvinfoUnloadMask, Counts]

theorem Inv.finishTask (h : s.Inv) (htasks : s.tasks ≠ 0)
    (hok : s.ClearOk luaTaskUnloadMask (1 < s.tasks)) :
    ({ s with tasks := s.tasks - 1 }.luaSetCantUnload false luaTaskUnloadMask).Inv := by
  have ht : MasksOk { s with tasks := s.tasks - 1 } := { h.toMasksOk with }
  have halive : s.Alive luaTaskUnloadMask :=
    (alive_iff h.toMasksOk _).2 (Nat.pos_of_ne_zero htasks)
  refine h.clearBit _ ht rfl hok (fun _ => halive) (fun _ => rfl) fun k => ?_
  rw [alive_iff ht, alive_iff h.toMasksOk]
  match k with
  | 1 => simp only [luaTaskUnloadMask, Nat.sub_pos_iff_lt, ↓reduceIte]
  | 0 | 2 | 3 | k + 4 => simp [luaTaskUnloadMask, Counts]

/-! ### The end of the main part -/

/-- No handler changes its standing. -/
theorem Inv.setPhase (h : s.Inv) {phase : Phase}
    (hcounts : ∀ e, Counts { s with phase } e ↔ s.Counts e) : Inv { s with phase } where
  toMasksOk := { h.toMasksOk with }
  bits k := by
    simp only [Alive, hcounts]
    exact h.bits k

/-- Without its bit, `config_save` has no handler. -/
theorem Inv.configSave_notMem (h : s.Inv) (hphase : s.phase = .running)
    (hbit : ¬ ∃ mask ∈ s.masks .configSave, mask ∈ s.cantUnload) : .configSave ∉ s.handlers := by
  intro hmem
  obtain ⟨mask, hmask⟩ := ne_none_iff_exists'.1 (h.registered _ hmem)
  refine hbit ⟨mask, hmask, (h.bits mask).2 ?_⟩
  exact .inr (.inr (.inr (.inr ⟨_, hmask, hmem, fun _ => .inl hphase⟩)))

theorem Inv.saved (h : s.Inv) (hphase : s.phase = .saving) (hmask : s.masks .configSave = some mask)
    (hok : s.ClearOk mask False) :
    ({ s with phase := .deciding }.luaSetCantUnload false mask).Inv := by
  refine h.clearBit False { h.toMasksOk with } rfl hok False.elim False.elim
    (alive_of_not_counts h hmask rfl rfl rfl rfl rfl fun e => ?_)
  by_cases he : e = .configSave <;> simp [Counts, he, hphase]

/-- If no bit is set, then nothing is left apart from tasks that have not started. -/
theorem Inv.not_alive (h : s.Inv) (hempty : s.cantUnload = ∅) (k : ℕ) : ¬ s.Alive k := by
  rw [← h.bits, hempty]
  exact notMem_empty k

/-- Clearing the handler of an event changes the bits and the count, and nothing else. -/
theorem exists_setEventScriptEntry_false (s : Script) (e : Event) :
    ∃ bits count, bits ⊆ s.cantUnload ∧ s.setEventScriptEntry e false =
      { s with handlers := s.handlers.erase e, cantUnload := bits, tasksStarted := count } := by
  cases hmask : s.masks e with
  | none => exact ⟨_, s.tasksStarted, subset_rfl, by simp [hmask]⟩
  | some mask =>
    have heq : s.setEventScriptEntry e false =
        { s with handlers := s.handlers.erase e }.luaSetCantUnload false mask := by
      simp [hmask]
    exact ⟨_, _, erase_subset _ _, heq⟩

theorem Inv.close (h : s.Inv) (hempty : s.cantUnload = ∅) :
    Inv { s.setEventScriptEntry .configSave false with phase := .closed } := by
  obtain ⟨bits, count, hsub, heq⟩ := exists_setEventScriptEntry_false s .configSave
  rw [hempty, subset_empty] at hsub
  rw [heq, hsub]
  have hcounts : ∀ e, Counts { s with
      handlers := s.handlers.erase .configSave, cantUnload := ∅, tasksStarted := count,
      phase := .closed } e → s.Counts e := by
    rintro e ⟨hmem, -⟩
    exact ⟨mem_of_mem_erase hmem, fun he => absurd he (ne_of_mem_erase hmem)⟩
  refine ⟨{ h.toMasksOk with
    registered := fun e he => h.registered e (mem_of_mem_erase he) }, fun k => ?_⟩
  refine iff_of_false (notMem_empty k) fun halive => h.not_alive hempty k ?_
  exact halive.imp_right (Or.imp_right (Or.imp_right (Or.imp_right
    (Exists.imp fun e => And.imp_right (hcounts e)))))

/-! ### Runs -/

theorem Inv.step {op : ScriptOp} (h : s.Inv) (hgood : op.Good s) (hstep : op.step s = some t) :
    t.Inv := by
  have hstep' := hstep
  unfold ScriptOp.step at hstep
  split at hstep
  · cases hstep
  rename_i hphase
  cases op with
  | otherScript e =>
    cases hstep
    exact h.registerEvent e
  | setEvent e active =>
    cases hstep
    exact h.setEventScriptEntry hgood hphase
  | setProp id active =>
    cases hstep
    exact h.setPropHandler id active
  | createTask =>
    cases hstep
    exact { h.toMasksOk with bits := h.bits }
  | startTask =>
    simp only at hstep
    split at hstep <;> cases hstep
    exact h.startTask _
  | finishTask =>
    simp only at hstep
    split at hstep <;> cases hstep
    exact h.finishTask ‹_› hgood
  | createMenu =>
    cases hstep
    exact h.createMenu
  | createLvinfo =>
    cases hstep
    exact h.createLvinfo
  | mainDone =>
    simp only at hstep
    split at hstep
    · cases hstep
    rename_i hrunning
    rw [not_not] at hrunning
    split at hstep <;> cases hstep
    · exact h.setPhase fun e => by simp [Counts, hrunning]
    · have hcs := h.configSave_notMem hrunning ‹_›
      refine h.setPhase fun e => and_congr_right fun hmem => ?_
      have hne : e ≠ .configSave := fun he => hcs (he ▸ hmem)
      simp [hne]
  | saved =>
    simp only at hstep
    split at hstep
    · cases hstep
    rename_i hsaving
    rw [not_not] at hsaving
    split at hstep <;> cases hstep
    exact h.saved hsaving ‹_› (hgood _ ‹_›)
  | decide =>
    obtain ⟨hdeciding, ⟨-, rfl⟩ | ⟨hempty, rfl⟩⟩ := ScriptOp.step_decide hstep'
    · exact h.setPhase fun e => by simp [Counts, hdeciding]
    · exact h.close hempty

/-- When the test comes, no bit is set if and only if nothing is left. -/
theorem Inv.cantUnload_eq_empty_iff (h : s.Inv) (hphase : s.phase = .deciding) :
    s.cantUnload = ∅ ↔ (∀ e ∈ s.handlers, e = .configSave) ∧ s.props = ∅ ∧ s.tasks = 0 ∧
      s.menus = 0 ∧ s.lvinfos = 0 := by
  constructor
  · intro hempty
    have hnone := fun k => (alive_iff h.toMasksOk k).not.1 (h.not_alive hempty k)
    refine ⟨fun e he => ?_, not_nonempty_iff_eq_empty.1 (hnone 2), Nat.eq_zero_of_not_pos
      (hnone 1), Nat.eq_zero_of_not_pos (hnone 0), Nat.eq_zero_of_not_pos (hnone 3)⟩
    by_contra hne
    obtain ⟨mask, hmask⟩ := ne_none_iff_exists'.1 (h.registered e he)
    refine h.not_alive hempty mask ?_
    exact .inr (.inr (.inr (.inr ⟨e, hmask, he, fun hcs => absurd hcs hne⟩)))
  · rintro ⟨hhandlers, hprops, htasks, hmenus, hlvinfos⟩
    refine eq_empty_of_forall_notMem fun k hk => ?_
    rcases (h.bits k).1 hk with hk | hk | hk | hk | ⟨e, -, he, hcs⟩
    · exact absurd hmenus hk.2.ne'
    · exact absurd htasks hk.2.ne'
    · exact hk.2.ne_empty hprops
    · exact absurd hlvinfos hk.2.ne'
    · have := hcs (hhandlers e he)
      simp [hphase] at this

end Script

open Runs

/-- After operations that meet the condition, a script is closed if and only if nothing can call
into it, and then nothing can, exactly if the condition holds for the test as well. -/
theorem unload_iff (ops : List ScriptOp) {s t : Script}
    (hgood : Meets ScriptOp.step ScriptOp.Good Script.init ops)
    (hrun : ops.foldlM ScriptOp.step Script.init = some s)
    (hdecide : ScriptOp.step s .decide = some t) :
    ((t.phase = .closed ↔ s.Idle) ∧ (t.phase = .closed → t.Unused)) ↔ ScriptOp.Good s .decide := by
  have hinv : s.Inv := invariant_of_meets (fun _ _ _ h hP hstep => h.step hP hstep) hgood hrun
    Script.Inv.init
  obtain ⟨hphase, ht⟩ := ScriptOp.step_decide hdecide
  have hbits := hinv.cantUnload_eq_empty_iff hphase
  have hidle : s.Idle ↔ s.cantUnload = ∅ ∧ s.pending = 0 := by
    rw [hbits]
    exact ⟨fun h => ⟨⟨h.handlers, h.props, h.tasks, h.menus, h.lvinfos⟩, h.pending⟩,
      fun ⟨⟨hh, hp, ht, hm, hl⟩, hpend⟩ => ⟨hh, hp, hpend, ht, hm, hl⟩⟩
  rcases ht with ⟨hne, rfl⟩ | ⟨hempty, rfl⟩
  · simp [hidle, hne, ScriptOp.Good]
  · have hclosed : s.Idle → Script.Unused { s.setEventScriptEntry .configSave false with
        phase := .closed } := by
      intro h
      obtain ⟨bits, count, -, heq⟩ := Script.exists_setEventScriptEntry_false s .configSave
      have hnone : s.handlers.erase .configSave = ∅ :=
        eq_empty_of_forall_notMem fun e he =>
          ne_of_mem_erase he (h.handlers e (mem_of_mem_erase he))
      rw [heq]
      exact { h with
        handlers := fun e he => h.handlers e (mem_of_mem_erase he)
        noHandlers := hnone }
    have hgoodLast : ScriptOp.Good s .decide ↔ s.Idle := by
      simp [hidle, hempty, ScriptOp.Good]
    rw [hgoodLast]
    exact ⟨fun h => h.1.1 rfl, fun h => ⟨iff_of_true rfl h, fun _ => hclosed h⟩⟩

/-- A script with a menu, a handler of `config_save`, and a task that ends. -/
def menuOps : List ScriptOp :=
  [.createMenu, .setEvent .configSave true, .createTask, .startTask, .finishTask, .mainDone, .saved]

theorem unload_iff_menu :
    ∃ s t, menuOps.foldlM ScriptOp.step Script.init = some s ∧ ScriptOp.step s .decide = some t ∧
      ScriptOp.Good s .decide ∧ t.phase = .background ∧ (t.phase = .closed ↔ s.Idle) := by
  refine ⟨_, _, rfl, rfl, by decide +kernel, rfl, ?_⟩
  have hiff := unload_iff menuOps (by decide +kernel) rfl rfl
  exact (hiff.2 (by decide +kernel)).1

/-- A task that has not started is left when the script is closed. And when two tasks end, the first
one clears the bit of the menus, the second one its own, and a script with a menu is closed. -/
theorem unload_in_use :
    (∃ t, [.createTask, .mainDone, .decide].foldlM ScriptOp.step Script.init = some t ∧
      t.phase = .closed ∧ t.pending = 1) ∧
    ∃ t, [.createMenu, .createTask, .createTask, .startTask, .startTask, .finishTask, .finishTask,
        .mainDone, .decide].foldlM ScriptOp.step Script.init = some t ∧
      t.phase = .closed ∧ t.menus = 1 :=
  ⟨⟨_, rfl, rfl, rfl⟩, _, rfl, rfl, rfl⟩

end MagicLantern.Lua
