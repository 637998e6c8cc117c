import MagicLantern.Library.ByteMemory

/-!
# Undo logs without a stack discipline

A log records changes of a memory `α → β`. Each entry names a region and what the region held
before and after the change. An entry is *recorded* when the region holds its old contents, and
it is *undone*, from any position of the log, when the region holds its new contents. Regions
may overlap and entries may be undone in any order.

No stack discipline is needed for the memory to be restored: at every cell `a` and for every
`f : β → ℤ`, the sum of `f (after a) - f (before a)` over the entries whose region contains `a`
follows the value `f (m a)` (`Step.balance_eq`). Two configurations with the same log that are
joined by a run therefore have the same memory (`eq_of_run_same_log`).
-/

namespace UndoLog

open ByteMemory

variable {α β : Type*} {m : ByteMemory} {a : ℕ} {old new : List UInt8}

/-- One recorded change: a region, its contents before the change and after it. -/
structure Entry (α β : Type*) where
  /-- The cells that the change covers. -/
  region : Set α
  /-- The contents of the region that the change replaced. -/
  before : α → β
  /-- The contents that the change put there. -/
  after : α → β

/-- A memory together with the log of the changes in force. -/
structure Config (α β : Type*) where
  mem : α → β
  /-- The changes recorded and not undone, oldest first. -/
  log : List (Entry α β)

/-- One step: recording an entry whose old contents are in place, or undoing an entry whose new
contents are in place. -/
inductive Step : Config α β → Config α β → Prop
  | record {m m' : α → β} {l : List (Entry α β)} (e : Entry α β)
      (hold : Set.EqOn m e.before e.region) (hnew : Set.EqOn m' e.after e.region)
      (hoff : Set.EqOn m' m e.regionᶜ) : Step ⟨m, l⟩ ⟨m', l ++ [e]⟩
  | undo {m m' : α → β} {l₁ l₂ : List (Entry α β)} (e : Entry α β)
      (hold : Set.EqOn m e.after e.region) (hnew : Set.EqOn m' e.before e.region)
      (hoff : Set.EqOn m' m e.regionᶜ) : Step ⟨m, l₁ ++ e :: l₂⟩ ⟨m', l₁ ++ l₂⟩

/-- A run: any number of steps. -/
abbrev Run : Config α β → Config α β → Prop := Relation.ReflTransGen Step

open scoped Classical in
/-- What one entry contributes at a cell. -/
noncomputable def weight (f : β → ℤ) (a : α) (e : Entry α β) : ℤ :=
  if a ∈ e.region then f (e.after a) - f (e.before a) else 0

/-- The sum of the contributions of a log at a cell. -/
noncomputable def balance (f : β → ℤ) (a : α) (l : List (Entry α β)) : ℤ :=
  (l.map (weight f a)).sum

@[simp] theorem balance_append (f : β → ℤ) (a : α) (l l' : List (Entry α β)) :
    balance f a (l ++ l') = balance f a l + balance f a l' := by
  simp [balance]

@[simp] theorem balance_cons (f : β → ℤ) (a : α) (e : Entry α β) (l : List (Entry α β)) :
    balance f a (e :: l) = weight f a e + balance f a l := by
  simp [balance]

variable {c c' : Config α β}

/-- One step changes the balance at a cell by the change of the cell. -/
theorem Step.balance_eq (h : Step c c') (f : β → ℤ) (a : α) :
    f (c'.mem a) - balance f a c'.log = f (c.mem a) - balance f a c.log := by
  cases h with
  | record e hold hnew hoff =>
    have hone : balance f a [e] = weight f a e := by simp [balance]
    simp only [balance_append, hone, weight]
    by_cases ha : a ∈ e.region
    · rw [if_pos ha, hold ha, hnew ha]
      ring
    · rw [if_neg ha, hoff ha]
      ring
  | undo e hold hnew hoff =>
    simp only [balance_append, balance_cons, weight]
    by_cases ha : a ∈ e.region
    · rw [if_pos ha, hold ha, hnew ha]
      ring
    · rw [if_neg ha, hoff ha]
      ring

theorem run_balance_eq (h : Run c c') (f : β → ℤ) (a : α) :
    f (c'.mem a) - balance f a c'.log = f (c.mem a) - balance f a c.log := by
  induction h with
  | refl => rfl
  | tail _ hstep ih => rw [hstep.balance_eq, ih]

/-- **Equal logs, equal memories.** A run that ends with the log it started from has restored
every cell, whatever was recorded and undone on the way and in whatever order. -/
theorem eq_of_run_same_log (h : Run c c') (hlog : c'.log = c.log) : c'.mem = c.mem := by
  classical
  funext a
  -- The indicator of the original value tells it from every other value.
  have hbal := run_balance_eq h (fun b => if b = c.mem a then 1 else 0) a
  rw [hlog] at hbal
  by_contra hne
  rw [if_neg hne, if_pos rfl] at hbal
  omega

theorem eq_of_run_empty_log (h : Run c c') (h₀ : c.log = []) (h₁ : c'.log = []) : c'.mem = c.mem :=
  eq_of_run_same_log h (h₁.trans h₀.symm)

/-! ### Blocks of a byte memory -/

/-- The change of the block at `a` from `old` to `new`. -/
def blockEntry (a : ℕ) (old new : List UInt8) : Entry ℕ UInt8 where
  region := {x | a ≤ x ∧ x < a + old.length}
  before x := old.getD (x - a) 0
  after x := new.getD (x - a) 0

/-- Overwriting a block that holds `old` by `new` records the change. -/
theorem Step.record_block {l : List (Entry ℕ UInt8)} (hlen : new.length = old.length)
    (hold : m.readBytes a old.length = old) :
    Step ⟨m, l⟩ ⟨m.writeBytes a new, l ++ [blockEntry a old new]⟩ := by
  refine .record _ (fun x hx => ?_) (fun x hx => ?_) fun x hx => ?_
  · exact readBytes_eq_iff.1 hold x hx.1 hx.2
  · exact writeBytes_of_mem m hx.1 (hlen ▸ hx.2)
  · refine writeBytes_of_notMem m ?_
    simp only [blockEntry, Set.mem_compl_iff, Set.mem_ofPred_eq] at hx
    omega

/-- Overwriting a block that holds `new` by `old` undoes the change. -/
theorem Step.undo_block {l₁ l₂ : List (Entry ℕ UInt8)} (hlen : new.length = old.length)
    (hnew : m.readBytes a new.length = new) :
    Step ⟨m, l₁ ++ blockEntry a old new :: l₂⟩ ⟨m.writeBytes a old, l₁ ++ l₂⟩ := by
  refine .undo _ (fun x hx => ?_) (fun x hx => ?_) fun x hx => ?_
  · exact readBytes_eq_iff.1 hnew x hx.1 (hlen ▸ hx.2)
  · exact writeBytes_of_mem m hx.1 hx.2
  · refine writeBytes_of_notMem m ?_
    simp only [blockEntry, Set.mem_compl_iff, Set.mem_ofPred_eq] at hx
    omega

end UndoLog
