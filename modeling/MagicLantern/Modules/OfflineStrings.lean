import MagicLantern.Library.Runs
import Mathlib.Data.List.Nodup
import Mathlib.Order.Nat

/-!
# Strings of modules that are not loaded

The menu shows the strings of the selected module. If the module is not loaded, they are read from
its file, and freed some time after it was selected. Both are done by the module task; the menu
posts a message to it, according to what it sees. So there can be several messages for a module in
the queue, and when a message is processed, the strings may be others than those for which it was
posted.

A load message has no effect if there are strings, and an unload message has none if there are no
strings. The messages for a module that has no strings are unload messages followed by load
messages; for a module with strings from its file it is the other way round. If the strings could
not be read, then there are default strings, which must not be freed, and there are no unload
messages.

An unload message is processed in two steps: first the strings are freed, and then the pointer is
cleared. In between the menu can see a pointer to a freed block.

Source: `src/src/module.c`.

## Main results

* `run_strings_iff` — when the menu sees no freed strings.
* `run_freed_seen`.
-/

namespace MagicLantern.Modules

open Function List Option

/-- What the pointer to the strings of a module refers to. -/
inductive Strings
  /-- `module_default_strings`. -/
  | default
  /-- The strings of a module that has been loaded. -/
  | symbol (mod : ℕ)
  /-- A block from `tcc_load_offline_section`. -/
  | block (n : ℕ)
  deriving DecidableEq

/-- `MSG_MODULE_LOAD_OFFLINE_STRINGS` and `MSG_MODULE_UNLOAD_OFFLINE_STRINGS`. -/
inductive StringsMsg
  | load (mod : ℕ)
  | unload (mod : ℕ)
  deriving DecidableEq

/-- What the module task does. -/
inductive StringsPhase
  /-- The modules are being loaded. -/
  | starting
  | idle
  /-- In `tcc_load_offline_section`. -/
  | reading (mod : ℕ)
  /-- Between `free` and `strings = 0`. -/
  | clearing (mod : ℕ)
  deriving DecidableEq

/-- The strings of all modules and the module task. -/
structure StringsTask where
  strings : ℕ → Option Strings
  valid : ℕ → Bool
  queue : List StringsMsg
  phase : StringsPhase
  /-- The number of blocks from `tcc_load_offline_section`. -/
  blocks : ℕ
  freed : List Strings
  /-- What the menu has seen, and whether it was freed. -/
  seen : List (Strings × Bool)

namespace StringsTask

variable (s : StringsTask)

def setStrings (mod : ℕ) (strings : Option Strings) : StringsTask :=
  { s with strings := Function.update s.strings mod strings }

/-! ### The menu -/

/-- A message is posted, unless `msg_queue_post` fails. -/
def post (posted : Bool) (msg : StringsMsg) : StringsTask :=
  if posted then { s with queue := s.queue ++ [msg] } else s

/-- `module_menu_update_entry`. With `expired`, the last activity was more than three seconds ago.
-/
def gui (mod : ℕ) (selected expired posted : Bool) : StringsTask :=
  let t := { s with
    seen := (s.strings mod).toList.map (fun x => (x, decide (x ∈ s.freed))) ++ s.seen }
  if selected then
    if s.valid mod = false ∧ s.strings mod = none then t.post posted (.load mod) else t
  else if expired ∧ s.valid mod = false ∧ s.strings mod ≠ none ∧ s.strings mod ≠ some .default then
    t.post posted (.unload mod)
  else t

/-! ### The task -/

/-- A module is found to be valid while modules are being loaded. -/
def setValid (mod : ℕ) : Option StringsTask :=
  if s.phase = .starting then some { s with valid := Function.update s.valid mod true } else none

/-- The strings of a module are looked up while modules are being loaded. -/
def setSymbol (mod : ℕ) (found : Bool) : Option StringsTask :=
  if s.phase = .starting ∧ s.valid mod then
    some (s.setStrings mod (if found then some (.symbol mod) else none))
  else none

/-- All modules have been loaded. -/
def endStarting : Option StringsTask :=
  if s.phase = .starting then some { s with phase := .idle } else none

/-- A message is received: `module_load_offline_strings` and `module_unload_offline_strings`. -/
def receive : Option StringsTask :=
  match s.phase, s.queue with
  | .idle, .load mod :: queue =>
    match s.strings mod with
    | none => some { s.setStrings mod (some .default) with queue, phase := .reading mod }
    | some _ => some { s with queue }
  | .idle, .unload mod :: queue =>
    match s.strings mod with
    | none => some { s with queue }
    | some x => some { s with queue, freed := x :: s.freed, phase := .clearing mod }
  | _, _ => none

/-- The end of `module_load_offline_strings`: nothing was read, or a block which looks good or not.
-/
def readDone (looksOk : Option Bool) : Option StringsTask :=
  match s.phase, looksOk with
  | .reading _, none => some { s with phase := .idle }
  | .reading _, some false => some { s with phase := .idle, blocks := s.blocks + 1 }
  | .reading mod, some true =>
    some { s.setStrings mod (some (.block s.blocks)) with phase := .idle, blocks := s.blocks + 1 }
  | _, _ => none

/-- The end of `module_unload_offline_strings`. -/
def clear : Option StringsTask :=
  match s.phase with
  | .clearing mod => some { s.setStrings mod none with phase := .idle }
  | _ => none

/-- At startup. -/
def init : StringsTask where
  strings := fun _ => none
  valid := fun _ => false
  queue := []
  phase := .starting
  blocks := 0
  freed := []
  seen := []

end StringsTask

/-! ### Runs -/

/-- A step of the menu or of the task. -/
inductive StringsOp
  | gui (mod : ℕ) (selected expired posted : Bool)
  | setValid (mod : ℕ)
  | setSymbol (mod : ℕ) (found : Bool)
  | endStarting
  | receive
  | readDone (looksOk : Option Bool)
  | clear

/-- `none` where the task is not at that step. -/
def StringsOp.step (s : StringsTask) : StringsOp → Option StringsTask
  | .gui mod selected expired posted => some (s.gui mod selected expired posted)
  | .setValid mod => s.setValid mod
  | .setSymbol mod found => s.setSymbol mod found
  | .endStarting => s.endStarting
  | .receive => s.receive
  | .readDone looksOk => s.readDone looksOk
  | .clear => s.clear

/-- The state after the given steps. -/
def StringsTask.run (s : StringsTask) (ops : List StringsOp) : Option StringsTask :=
  ops.foldlM StringsOp.step s

/-- Only blocks were freed, each at most once, and the menu has never seen freed strings. -/
structure StringsTask.Safe (s : StringsTask) : Prop where
  freed_block : ∀ x ∈ s.freed, ∃ n < s.blocks, x = .block n
  freed_nodup : s.freed.Nodup
  seen : ∀ x ∈ s.seen, x.2 = false

/-- The menu does not look at a module while its strings are being unloaded. -/
def StringsOp.Good (s : StringsTask) : StringsOp → Prop
  | .gui mod _ _ _ => s.phase ≠ .clearing mod
  | _ => True

/-! ### The invariant -/

namespace StringsTask

variable {s t : StringsTask} {mod mod' blocks : ℕ} {queue : List StringsMsg} {msg : StringsMsg}
  {phase : StringsPhase} {x : Option Strings} {op : StringsOp}

/-- No unload message for the module comes after a load message. -/
def UnloadFirst (queue : List StringsMsg) (mod : ℕ) : Prop :=
  queue.Pairwise fun a b => ¬ (a = .load mod ∧ b = .unload mod)

/-- No load message for the module comes after an unload message. -/
def LoadFirst (queue : List StringsMsg) (mod : ℕ) : Prop :=
  queue.Pairwise fun a b => ¬ (a = .unload mod ∧ b = .load mod)

theorem unloadFirst_of_notMem (h : .load mod ∉ queue) : UnloadFirst queue mod :=
  List.Pairwise.imp_of_mem (fun ha _ _ hab => h (hab.1 ▸ ha))
    (pairwise_of_forall fun _ _ => trivial)

theorem loadFirst_of_notMem (h : .unload mod ∉ queue) : LoadFirst queue mod :=
  List.Pairwise.imp_of_mem (fun ha _ _ hab => h (hab.1 ▸ ha))
    (pairwise_of_forall fun _ _ => trivial)

theorem UnloadFirst.append (h : UnloadFirst queue mod) (hmsg : msg ≠ .unload mod) :
    UnloadFirst (queue ++ [msg]) mod :=
  pairwise_append.2 ⟨h, pairwise_singleton _ _, fun _ _ _ hb hab =>
    hmsg ((mem_singleton.1 hb).symm.trans hab.2)⟩

theorem LoadFirst.append (h : LoadFirst queue mod) (hmsg : msg ≠ .load mod) :
    LoadFirst (queue ++ [msg]) mod :=
  pairwise_append.2 ⟨h, pairwise_singleton _ _, fun _ _ _ hb hab =>
    hmsg ((mem_singleton.1 hb).symm.trans hab.2)⟩

/-- The messages for a module that can be in the queue. -/
def MsgFits (phase : StringsPhase) (queue : List StringsMsg) (mod : ℕ) : Option Strings → Prop
  | none => UnloadFirst queue mod
  | some (.block _) =>
    if phase = .clearing mod then .load mod ∉ queue else LoadFirst queue mod
  | some _ => .unload mod ∉ queue

theorem MsgFits.tail (h : MsgFits phase (msg :: queue) mod x) : MsgFits phase queue mod x := by
  match x with
  | none => exact (pairwise_cons.1 h).2
  | some (.block n) =>
    rw [MsgFits] at h ⊢
    split_ifs at h ⊢ with hphase
    · exact fun hmem => h (mem_cons_of_mem _ hmem)
    · exact (pairwise_cons.1 h).2
  | some .default | some (.symbol _) => exact fun hmem => h (mem_cons_of_mem _ hmem)

theorem MsgFits.congr {phase' : StringsPhase} (h : MsgFits phase queue mod x)
    (hphase : phase' = .clearing mod ↔ phase = .clearing mod) : MsgFits phase' queue mod x := by
  match x with
  | none => exact h
  | some (.block n) =>
    rw [MsgFits] at h ⊢
    split_ifs at h ⊢ with h₁ h₂
    · exact h
    · exact absurd (hphase.1 h₁) h₂
    · exact absurd (hphase.2 ‹_›) h₁
    · exact h
  | some .default => exact h
  | some (.symbol k) => exact h

theorem MsgFits.post_load (h : MsgFits phase queue mod' x) (hnone : mod = mod' → x = none) :
    MsgFits phase (queue ++ [.load mod]) mod' x := by
  match x with
  | none => exact UnloadFirst.append h nofun
  | some (.block n) =>
    have hne : StringsMsg.load mod ≠ .load mod' := fun heq => by
      cases hnone (StringsMsg.load.inj heq)
    rw [MsgFits] at h ⊢
    split_ifs at h ⊢
    · simpa [hne.symm] using h
    · exact LoadFirst.append h hne
  | some .default => simpa [MsgFits] using h
  | some (.symbol k) => simpa [MsgFits] using h

theorem MsgFits.post_unload (h : MsgFits phase queue mod' x)
    (hblock : mod = mod' → ∃ n, x = some (.block n)) :
    MsgFits phase (queue ++ [.unload mod]) mod' x := by
  have hne (hx : ∀ n, x ≠ some (.block n)) : StringsMsg.unload mod ≠ .unload mod' := fun heq => by
    obtain ⟨n, hn⟩ := hblock (StringsMsg.unload.inj heq)
    exact hx n hn
  match x with
  | none => exact UnloadFirst.append h (hne nofun)
  | some (.block n) =>
    rw [MsgFits] at h ⊢
    split_ifs at h ⊢
    · simpa using h
    · exact LoadFirst.append h nofun
  | some .default | some (.symbol _) => simpa [MsgFits, (hne nofun).symm] using h

/-- What holds between the pointers, the queue, the task, and the blocks that were freed. -/
structure Inv (s : StringsTask) : Prop where
  freed_block : ∀ x ∈ s.freed, ∃ n < s.blocks, x = .block n
  freed_nodup : s.freed.Nodup
  fits : ∀ mod, MsgFits s.phase s.queue mod (s.strings mod)
  starting : s.phase = .starting → ∀ mod, .unload mod ∉ s.queue ∧
    ∀ n, s.strings mod ≠ some (.block n)
  symbol_valid : ∀ mod k, s.strings mod = some (.symbol k) → s.valid mod = true
  block_lt : ∀ mod n, s.strings mod = some (.block n) → n < s.blocks
  block_inj : ∀ mod mod' n, s.strings mod = some (.block n) → s.strings mod' = some (.block n) →
    mod = mod'
  live : ∀ mod n, s.strings mod = some (.block n) → s.phase ≠ .clearing mod → .block n ∉ s.freed
  clearing : ∀ mod, s.phase = .clearing mod → ∃ n, s.strings mod = some (.block n) ∧
    .block n ∈ s.freed
  reading : ∀ mod, s.phase = .reading mod → s.strings mod = some .default

theorem Inv.init : StringsTask.init.Inv where
  freed_block := nofun
  freed_nodup := nodup_nil
  fits _ := List.Pairwise.nil
  starting _ _ := ⟨not_mem_nil, nofun⟩
  symbol_valid := nofun
  block_lt := nofun
  block_inj := nofun
  live := nofun
  clearing := nofun
  reading := nofun

section

variable (h : s.Inv)
include h

theorem Inv.post_load (posted : Bool) (hnone : s.strings mod = none) :
    (s.post posted (.load mod)).Inv := by
  rw [post]
  split_ifs
  · refine { h with fits := fun mod' => ?_, starting := fun hphase mod' => ?_ }
    · exact (h.fits mod').post_load fun heq => heq ▸ hnone
    · simpa using h.starting hphase mod'
  · exact h

theorem Inv.post_unload (posted : Bool) (hvalid : s.valid mod = false)
    (hnone : s.strings mod ≠ none)
    (hdefault : s.strings mod ≠ some .default) : (s.post posted (.unload mod)).Inv := by
  have hblock : ∃ n, s.strings mod = some (.block n) := by
    match hx : s.strings mod with
    | none => exact absurd hx hnone
    | some .default => exact absurd hx hdefault
    | some (.symbol k) => exact absurd (h.symbol_valid mod k hx) (by simp [hvalid])
    | some (.block n) => exact ⟨n, rfl⟩
  rw [post]
  split_ifs
  · refine { h with fits := fun mod' => ?_, starting := fun hphase => ?_ }
    · exact (h.fits mod').post_unload fun heq => heq ▸ hblock
    · obtain ⟨n, hn⟩ := hblock
      exact absurd hn ((h.starting hphase mod).2 n)
  · exact h

theorem Inv.gui (selected expired posted : Bool) : (s.gui mod selected expired posted).Inv := by
  have hlook : ({ s with
      seen := (s.strings mod).toList.map (fun x => (x, decide (x ∈ s.freed))) ++ s.seen } :
        StringsTask).Inv := { h with }
  rw [StringsTask.gui]
  split_ifs with hselected hload hunload
  · exact hlook.post_load posted hload.2
  · exact hlook
  · exact hlook.post_unload posted hunload.2.1 hunload.2.2.1 hunload.2.2.2
  · exact hlook

theorem Inv.setValid (hs : s.setValid mod = some t) : t.Inv := by
  rw [StringsTask.setValid] at hs
  split_ifs at hs
  cases hs
  refine { h with symbol_valid := fun mod' k hk => ?_ }
  by_cases heq : mod' = mod
  · exact heq ▸ update_self ..
  · exact (update_of_ne heq ..).trans (h.symbol_valid mod' k hk)

/-- The strings of one module are replaced; nothing is freed. -/
theorem Inv.setStrings (hblocks : s.blocks ≤ blocks)
    (hold : ∀ mod' ≠ mod, s.phase ≠ .clearing mod' ∧
      MsgFits phase queue mod' (s.strings mod')) (hnew : MsgFits phase queue mod x)
    (hstarting : phase = .starting → s.phase = .starting ∧ queue = s.queue ∧
      ∀ n, x ≠ some (.block n))
    (hsymbol : ∀ k, x = some (.symbol k) → s.valid mod = true)
    (hblock : ∀ n, x = some (.block n) → n <
      blocks ∧ s.blocks ≤ n) (hclearing : ∀ mod', phase ≠ .clearing mod')
    (hreading : ∀ mod', phase = .reading mod' → mod' = mod ∧ x = some .default) :
    ({ s.setStrings mod x with queue, phase, blocks } : StringsTask).Inv := by
  -- The strings of a module are the new ones or the old ones.
  have hcases (mod' : ℕ) : update s.strings mod x mod' = x ∧ mod' = mod ∨
      update s.strings mod x mod' = s.strings mod' ∧ mod' ≠ mod := by
    by_cases heq : mod' = mod
    · exact .inl ⟨heq ▸ update_self .., heq⟩
    · exact .inr ⟨update_of_ne heq .., heq⟩
  have hlt (y : Strings) (hy : y ∈ s.freed) : ∃ n < s.blocks, y = .block n := h.freed_block y hy
  refine ⟨fun y hy => ?_, h.freed_nodup, fun mod' => ?_, fun hphase mod' => ?_,
    fun mod' k hk => ?_, fun mod' n hn => ?_, fun mod₁ mod₂ n h₁ h₂ => ?_,
      fun mod' n hn _ hfreed => ?_,
    fun mod' hphase => absurd hphase (hclearing mod'), fun mod' hphase => ?_⟩
  · obtain ⟨n, hn, rfl⟩ := hlt y hy
    exact ⟨n, hn.trans_le hblocks, rfl⟩
  · change MsgFits phase queue mod' (update s.strings mod x mod')
    rcases hcases mod' with ⟨heq, rfl⟩ | ⟨heq, hne⟩
    · rwa [heq]
    · rw [heq]
      exact (hold mod' hne).2
  · obtain ⟨hphase', rfl, hx⟩ := hstarting hphase
    refine ⟨(h.starting hphase' mod').1, fun n hn => ?_⟩
    rcases hcases mod' with ⟨heq, rfl⟩ | ⟨heq, -⟩
    · exact hx n (heq.symm.trans hn)
    · exact (h.starting hphase' mod').2 n (heq.symm.trans hn)
  · rcases hcases mod' with ⟨heq, rfl⟩ | ⟨heq, -⟩
    · exact hsymbol k (heq.symm.trans hk)
    · exact h.symbol_valid mod' k (heq.symm.trans hk)
  · rcases hcases mod' with ⟨heq, rfl⟩ | ⟨heq, -⟩
    · exact (hblock n (heq.symm.trans hn)).1
    · exact (h.block_lt mod' n (heq.symm.trans hn)).trans_le hblocks
  · rcases hcases mod₁ with ⟨heq₁, rfl⟩ | ⟨heq₁, -⟩ <;> rcases hcases
        mod₂ with ⟨heq₂, rfl⟩ | ⟨heq₂, -⟩
    · rfl
    · have hnew := (hblock n (heq₁.symm.trans h₁)).2
      exact absurd (h.block_lt mod₂ n (heq₂.symm.trans h₂)) hnew.not_gt
    · have hnew := (hblock n (heq₂.symm.trans h₂)).2
      exact absurd (h.block_lt mod₁ n (heq₁.symm.trans h₁)) hnew.not_gt
    · exact h.block_inj mod₁ mod₂ n (heq₁.symm.trans h₁) (heq₂.symm.trans h₂)
  · rcases hcases mod' with ⟨heq, rfl⟩ | ⟨heq, hne⟩
    · obtain ⟨n', hn', hblock'⟩ := hlt _ hfreed
      obtain rfl := Strings.block.inj hblock'
      exact absurd hn' (hblock n (heq.symm.trans hn)).2.not_gt
    · exact h.live mod' n (heq.symm.trans hn) (hold mod' hne).1 hfreed
  · obtain ⟨rfl, rfl⟩ := hreading mod' hphase
    exact update_self ..

theorem Inv.setSymbol {found : Bool} (hs : s.setSymbol mod found = some t) : t.Inv := by
  rw [StringsTask.setSymbol] at hs
  split at hs
  · next hif =>
    cases hs
    obtain ⟨hphase, hvalid⟩ := hif
    have hunload := (h.starting hphase mod).1
    refine h.setStrings le_rfl (fun mod' _ => ⟨by simp [hphase], h.fits mod'⟩) ?_
      (fun _ => ⟨hphase, rfl, ?_⟩) (fun _ _ => hvalid) ?_ (by simp [hphase]) (by simp [hphase])
    · cases found with
      | false =>
        exact List.Pairwise.imp_of_mem (fun _ hb _ hab => hunload (hab.2 ▸ hb))
          (pairwise_of_forall fun _ _ => trivial)
      | true => exact hunload
    · cases found <;> nofun
    · cases found <;> nofun
  · cases hs

theorem Inv.endStarting (hs : s.endStarting = some t) : t.Inv := by
  rw [StringsTask.endStarting] at hs
  split at hs
  · next hphase =>
    cases hs
    exact { h with
      fits := fun mod => (h.fits mod).congr (by simp [hphase])
      starting := nofun
      live := fun mod n hn _ => h.live mod n hn (by simp [hphase])
      clearing := nofun
      reading := nofun }
  · cases hs

theorem Inv.receive_load (hphase : s.phase = .idle) (hqueue : s.queue = .load mod :: queue)
    (hstrings : s.strings mod = none) :
    ({ s.setStrings mod (some .default) with queue, phase := .reading mod } : StringsTask).Inv := by
  refine h.setStrings le_rfl (fun mod' hne => ⟨by simp [hphase], ?_⟩) ?_ nofun nofun nofun nofun
    fun mod' heq => ⟨(StringsPhase.reading.inj heq).symm, rfl⟩
  · have hfits := h.fits mod'
    rw [hqueue] at hfits
    exact hfits.tail.congr (by simp [hphase])
  · have hfits := h.fits mod
    rw [hqueue, hstrings] at hfits
    exact fun hmem => (pairwise_cons.1 hfits).1 _ hmem ⟨rfl, rfl⟩

theorem Inv.drop (hphase : s.phase = .idle) (hqueue : s.queue = msg :: queue) :
    ({ s with queue } : StringsTask).Inv :=
  { h with
    fits := fun mod => by
      have hfits := h.fits mod
      rw [hqueue] at hfits
      exact hfits.tail
    starting := fun hstarting => absurd (hphase.symm.trans hstarting) nofun }

/-- Only blocks are freed. -/
theorem Inv.receive_unload {x : Strings} (hphase : s.phase = .idle)
    (hqueue : s.queue = .unload mod :: queue) (hstrings : s.strings mod = some x) :
    ({ s with queue, freed := x :: s.freed, phase := .clearing mod } : StringsTask).Inv := by
  have hfits := h.fits mod
  rw [hqueue, hstrings] at hfits
  have hblock : ∃ n, x = .block n := by
    match x with
    | .default | .symbol _ => exact absurd mem_cons_self hfits
    | .block n => exact ⟨n, rfl⟩
  obtain ⟨n, rfl⟩ := hblock
  have hload : .load mod ∉ queue := by
    rw [MsgFits, if_neg (by simp [hphase])] at hfits
    exact fun hmem => (pairwise_cons.1 hfits).1 _ hmem ⟨rfl, rfl⟩
  have hlive := h.live mod n hstrings (by simp [hphase])
  refine { h with
    freed_block := forall_mem_cons.2 ⟨⟨n, h.block_lt mod n hstrings, rfl⟩, h.freed_block⟩
    freed_nodup := nodup_cons.2 ⟨hlive, h.freed_nodup⟩
    fits := fun mod' => ?_
    starting := nofun
    live := fun mod' n' hn' hne => ?_
    clearing := fun mod' heq => ?_
    reading := nofun }
  · by_cases heq : mod' = mod
    · subst heq
      rw [hstrings, MsgFits, if_pos rfl]
      exact hload
    · have hfits' := h.fits mod'
      rw [hqueue] at hfits'
      exact hfits'.tail.congr (by simp [hphase, Ne.symm heq])
  · refine mem_cons.not.2 (not_or.2 ⟨fun heq => hne ?_, h.live mod' n' hn' (by simp [hphase])⟩)
    obtain rfl := Strings.block.inj heq
    rw [h.block_inj mod' mod n' hn' hstrings]
  · obtain rfl := StringsPhase.clearing.inj heq
    exact ⟨n, hstrings, mem_cons_self⟩

theorem Inv.receive (hs : s.receive = some t) : t.Inv := by
  rw [StringsTask.receive] at hs
  split at hs
  · next mod queue hphase hqueue =>
    split at hs
    · next hstrings =>
      cases hs
      exact h.receive_load hphase hqueue hstrings
    · cases hs
      exact h.drop hphase hqueue
  · next mod queue hphase hqueue =>
    split at hs
    · cases hs
      exact h.drop hphase hqueue
    · next x hstrings =>
      cases hs
      exact h.receive_unload hphase hqueue hstrings
  · cases hs

theorem Inv.read_failed (hphase : s.phase = .reading mod) (hblocks : s.blocks ≤ blocks) :
    ({ s with phase := .idle, blocks } : StringsTask).Inv :=
  { h with
    freed_block := fun x hx => by
      obtain ⟨n, hn, rfl⟩ := h.freed_block x hx
      exact ⟨n, hn.trans_le hblocks, rfl⟩
    fits := fun mod' => (h.fits mod').congr (by simp [hphase])
    starting := nofun
    block_lt := fun mod' n hn => (h.block_lt mod' n hn).trans_le hblocks
    live := fun mod' n hn _ => h.live mod' n hn (by simp [hphase])
    clearing := nofun
    reading := nofun }

theorem Inv.readDone {looksOk : Option Bool} (hs : s.readDone looksOk = some t) : t.Inv := by
  unfold StringsTask.readDone at hs
  split at hs
  · next hphase =>
    cases hs
    exact h.read_failed hphase le_rfl
  · next hphase =>
    cases hs
    exact h.read_failed hphase (Nat.le_succ _)
  · next mod hphase =>
    cases hs
    have hfits := h.fits mod
    rw [h.reading mod hphase] at hfits
    refine h.setStrings (Nat.le_succ _) (fun mod' _ => ⟨by simp [hphase], ?_⟩) ?_ nofun nofun ?_
      nofun nofun
    · exact (h.fits mod').congr (by simp [hphase])
    · exact loadFirst_of_notMem hfits
    · intro n hn
      obtain rfl := Strings.block.inj (some.inj hn)
      exact ⟨Nat.lt_succ_self _, le_rfl⟩
  · cases hs

theorem Inv.clear (hs : s.clear = some t) : t.Inv := by
  rw [StringsTask.clear] at hs
  split at hs
  · next mod hphase =>
    cases hs
    obtain ⟨n, hn, -⟩ := h.clearing mod hphase
    have hfits := h.fits mod
    rw [hn, MsgFits, if_pos hphase] at hfits
    refine h.setStrings le_rfl (fun mod' hne => ?_) (unloadFirst_of_notMem hfits)
      nofun nofun nofun nofun nofun
    have hne' : s.phase ≠ .clearing mod' := by simp [hphase, Ne.symm hne]
    exact ⟨hne', (h.fits mod').congr (by simp [hne'])⟩
  · cases hs

theorem Inv.step (hs : op.step s = some t) : t.Inv := by
  cases op with
  | gui mod selected expired posted =>
    cases hs
    exact h.gui selected expired posted
  | setValid mod => exact h.setValid hs
  | setSymbol mod found => exact h.setSymbol hs
  | endStarting => exact h.endStarting hs
  | receive => exact h.receive hs
  | readDone looksOk => exact h.readDone hs
  | clear => exact h.clear hs

end

/-! ### What the menu sees -/

theorem seen_gui (selected expired posted : Bool) :
    (s.gui mod selected expired posted).seen =
      (s.strings mod).toList.map (fun x => (x, decide (x ∈ s.freed))) ++ s.seen := by
  rw [StringsTask.gui]
  split_ifs <;> (try rw [post]) <;> (try split_ifs) <;> rfl

/-- Only the menu sees something. -/
theorem seen_step (hs : op.step s = some t)
    (hop : ∀ mod selected expired posted, op ≠ .gui mod selected
      expired posted) : t.seen = s.seen := by
  cases op with
  | gui mod selected expired posted => exact absurd rfl (hop mod selected expired posted)
  | setValid mod =>
    simp only [StringsOp.step, StringsTask.setValid] at hs
    split at hs
    · exact some.inj hs ▸ rfl
    · cases hs
  | setSymbol mod found =>
    simp only [StringsOp.step, StringsTask.setSymbol] at hs
    split at hs
    · exact some.inj hs ▸ rfl
    · cases hs
  | endStarting =>
    simp only [StringsOp.step, StringsTask.endStarting] at hs
    split at hs
    · exact some.inj hs ▸ rfl
    · cases hs
  | receive =>
    simp only [StringsOp.step, StringsTask.receive] at hs
    split at hs
    · split at hs <;> exact some.inj hs ▸ rfl
    · split at hs <;> exact some.inj hs ▸ rfl
    · cases hs
  | readDone looksOk =>
    simp only [StringsOp.step, StringsTask.readDone] at hs
    split at hs
    · exact some.inj hs ▸ rfl
    · exact some.inj hs ▸ rfl
    · exact some.inj hs ▸ rfl
    · cases hs
  | clear =>
    simp only [StringsOp.step, StringsTask.clear] at hs
    split at hs
    · exact some.inj hs ▸ rfl
    · cases hs

/-- The menu does not see freed strings of a module whose strings are not being unloaded. -/
theorem Inv.seen (h : s.Inv) (hgood : op.Good s) (hs : op.step s = some t)
    (hseen : ∀ x ∈ s.seen, x.2 = false) : ∀ x ∈ t.seen, x.2 = false := by
  cases op with
  | gui mod selected expired posted =>
    cases hs
    rw [seen_gui]
    intro x hx
    rcases mem_append.1 hx with hx | hx
    · obtain ⟨y, hy, rfl⟩ := mem_map.1 hx
      refine decide_eq_false fun hfreed => ?_
      obtain ⟨n, -, rfl⟩ := h.freed_block y hfreed
      exact h.live mod n (mem_toList.1 hy) hgood hfreed
    · exact hseen x hx
  | _ =>
    rw [seen_step hs nofun]
    exact hseen

/-- Otherwise the menu sees freed strings. -/
theorem Inv.not_safe (h : s.Inv) (hbad : ¬ op.Good s) (hs : op.step s = some t) : ¬ t.Safe := by
  cases op with
  | gui mod selected expired posted =>
    cases hs
    obtain ⟨n, hn, hfreed⟩ := h.clearing mod (not_not.1 hbad)
    intro hsafe
    have hseen : (Strings.block n, true) ∈ (s.gui mod selected expired posted).seen := by
      rw [seen_gui]
      simp [hn, hfreed]
    exact absurd (hsafe.seen _ hseen) nofun
  | _ => exact absurd trivial hbad

end StringsTask

/-- **In every run, only blocks from `tcc_load_offline_section` are freed, and each of them at most
once. Besides, the menu never sees freed strings**, exactly if it never looks at a module between
`free` and the assignment that clears the pointer. -/
theorem run_strings_iff (ops : List StringsOp) (s : StringsTask)
    (hrun : StringsTask.init.run ops = some s) :
    (∀ x ∈ s.freed, ∃ n < s.blocks, x = .block n) ∧ s.freed.Nodup ∧
      (Runs.Always StringsOp.step StringsTask.Safe .init ops ↔
        Runs.Meets StringsOp.step StringsOp.Good .init ops) := by
  have hinv : s.Inv := Runs.invariant (fun _ _ _ h hs => StringsTask.Inv.step h hs) hrun .init
  refine ⟨hinv.freed_block, hinv.freed_nodup, ?_⟩
  refine Runs.always_iff_meets (J := fun s => s.Inv ∧ ∀ x ∈ s.seen, x.2 = false)
    (fun _ h => ⟨h.1.freed_block, h.1.freed_nodup, h.2⟩)
    (fun _ _ _ h hgood hs => ⟨h.1.step hs, h.1.seen hgood hs h.2⟩)
    (fun _ _ _ h hbad hs => h.1.not_safe hbad hs) hrun ⟨.init, nofun⟩

/-- The strings of a module are loaded and the message to unload them is posted. -/
def unloadOps : List StringsOp :=
  [.endStarting, .gui 0 true false true, .receive, .readDone (some true), .gui 0 false true true,
    .receive]

/-- The menu looks at the module again after its strings have been unloaded. -/
theorem run_strings_unload :
    ∃ s, StringsTask.init.run (unloadOps ++ [.clear, .gui 0 false true true]) = some s ∧
      (∀ x ∈ s.freed, ∃ n < s.blocks, x = .block n) ∧ s.freed.Nodup ∧
      (Runs.Always StringsOp.step StringsTask.Safe .init
          (unloadOps ++ [.clear, .gui 0 false true true]) ↔
        Runs.Meets StringsOp.step StringsOp.Good .init
          (unloadOps ++ [.clear, .gui 0 false true true])) :=
  ⟨_, rfl, run_strings_iff _ _ rfl⟩

/-- The menu looks at the module before the pointer is cleared. -/
theorem run_freed_seen :
    ∃ s, StringsTask.init.run (unloadOps ++ [.gui 0 false false true]) = some s ∧
      s.seen.head? = some (.block 0, true) :=
  ⟨_, rfl, rfl⟩

end MagicLantern.Modules
